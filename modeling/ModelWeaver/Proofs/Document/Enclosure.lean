import ModelWeaver.Document.Scan
import ModelWeaver.Proofs.Document.Nesting
import ModelWeaver.Proofs.Text.Octets

/-!
# Matching brackets by byte offset

The delimiter scan reads characters, while the grammar of delimited text is about bytes: a
backslash in a string takes one byte with it, perhaps the first of several that make up a
character. The two readings agree, since no byte of a character outside ASCII means anything to the
grammar. So an opening bracket at a byte offset is matched at another offset exactly when the bytes
between the two form an item.
-/

namespace ModelWeaver.Document

open Text

/-! ## Reading bytes instead of characters -/

namespace Delimiter.State

/-- If the state is inside a string, a quote has opened it. -/
def QuoteOpened : State → Prop
  | ⟨.quoted quote, _⟩ => isQuote quote = true
  | ⟨.escaped quote, _⟩ => isQuote quote = true
  | _ => True

/-- The state after a character outside ASCII, which ends an escape and has no
other effect. -/
def settled : State → State
  | ⟨.escaped quote, inner⟩ => ⟨.quoted quote, inner⟩
  | state => state

variable {state : State}

theorem QuoteOpened.settled (opened : state.QuoteOpened) : state.settled.QuoteOpened := by
  rcases state with ⟨mode, inner⟩
  cases mode <;> exact opened

@[simp]
theorem settled_settled (state : State) : state.settled.settled = state.settled := by
  rcases state with ⟨mode, inner⟩
  cases mode <;> rfl

theorem QuoteOpened.step {next : State} {c : Char} (opened : state.QuoteOpened)
    (move : state.step c = some next) : next.QuoteOpened := by
  rcases state with ⟨mode, inner⟩
  cases mode with
  | plain =>
    simp only [State.step] at move
    split at move
    · cases move
      trivial
    · cases inner with
      | nil => contradiction
      | cons wanted inner =>
        simp only [Option.ite_none_right_eq_some] at move
        cases move.2
        trivial
    · cases move
      by_cases quotes : isQuote c
      · rw [if_pos quotes]
        exact quotes
      · rw [if_neg quotes]
        by_cases hash : c = '#' <;> simp [hash, QuoteOpened]
  | quoted quote =>
    cases move
    by_cases backslash : c = '\\'
    · rw [if_pos backslash]
      exact opened
    · rw [if_neg backslash]
      by_cases closing : c = quote
      · rw [if_pos closing]
        trivial
      · rw [if_neg closing]
        exact opened
  | escaped quote =>
    cases move
    exact opened
  | comment =>
    cases move
    by_cases lineEnd : c = '\n' <;> simp [lineEnd, QuoteOpened]

/-- The machine takes no notice of what a character outside ASCII is. -/
theorem step_wide {c : Char} (opened : state.QuoteOpened) (wide : 128 ≤ c.toNat) :
    state.step c = some state.settled := by
  have different : ∀ {d : Char}, d.toNat < 128 → c ≠ d := by
    rintro d narrow rfl
    omega
  rcases state with ⟨mode, inner⟩
  cases mode with
  | plain =>
    apply step_ordinary
    intro mem
    have narrow : ∀ d ∈ specialChars, d.toNat < 128 := forall_specialChars.mpr (by decide)
    exact different (narrow c mem) rfl
  | quoted quote =>
    have notQuote : c ≠ quote := by
      rcases isQuote_iff.mp opened with rfl | rfl <;> exact different (by decide)
    have notBackslash : c ≠ '\\' := different (by decide)
    simp [State.step, State.settled, notQuote, notBackslash]
  | escaped quote => rfl
  | comment =>
    have notLineEnd : c ≠ '\n' := different (by decide)
    simp [State.step, State.settled, notLineEnd]

private theorem run_wide {text : List Char} (opened : state.QuoteOpened) (nonempty : text ≠ [])
    (wide : ∀ c ∈ text, 128 ≤ c.toNat) : state.run text = some state.settled := by
  induction text generalizing state with
  | nil => contradiction
  | cons c text ih =>
    rw [run_cons, step_wide opened (wide c (by simp)), Option.bind_some]
    by_cases last : text = []
    · subst text
      rfl
    · rw [ih opened.settled last fun d mem => wide d (by simp [mem]), settled_settled]

theorem run_charOctets (opened : state.QuoteOpened) (c : Char) :
    state.run (charOctets c) = state.step c := by
  by_cases ascii : c.toNat < 128
  · rw [charOctets_of_ascii ascii, run_cons]
    simp
  · have wide : 128 ≤ c.toNat := Nat.le_of_not_lt ascii
    have nonempty : charOctets c ≠ [] := by simp [charOctets, String.utf8EncodeChar_ne_nil]
    rw [step_wide opened wide]
    exact run_wide opened nonempty fun octet mem => le_of_mem_charOctets wide mem

theorem run_octets (opened : state.QuoteOpened) (text : List Char) :
    state.run (octets text) = state.run text := by
  induction text generalizing state with
  | nil => rfl
  | cons c text ih =>
    rw [octets_cons, run_append, run_charOctets opened, run_cons]
    cases move : state.step c with
    | none => rfl
    | some next => exact ih (opened.step move)

end Delimiter.State

variable {text : List Char} {outer : Bracket}

theorem parts_octets_iff : Parts (octets text) ↔ Parts text := by
  rw [Delimiter.parts_iff_run, Delimiter.parts_iff_run, Delimiter.State.run_octets]
  trivial

/-! ## Enclosed text -/

theorem enclosed_eq_ok_iff {start offset : Nat} {inner : List Char} :
    enclosed start offset outer text = .ok inner ↔
      ∃ rest, text = inner ++ outer.closer :: rest ∧ Parts inner := by
  rw [← Delimiter.inside_eq_ok_iff, enclosed]
  split <;> simp_all

/-- A bracket that is not closed is reported with a span that starts where the
construct does and ends within the text. -/
theorem enclosed_eq_error {start offset : Nat} {error : SyntaxError}
    (fails : enclosed start offset outer text = .error error) :
    error.span.start = start ∧
      offset ≤ error.span.stop ∧ error.span.stop ≤ offset + byteLength text ∧
      ((∃ found wanted, error.cause = .mismatched found wanted) ∨
        error.cause = .unterminated outer.closer) := by
  rw [enclosed] at fails
  split at fails
  · contradiction
  · rename_i found wanted taken mismatched
    cases fails
    obtain ⟨rest, split⟩ := Delimiter.inside_mismatched mismatched
    have within : byteLength text = byteLength taken + byteLength rest := by
      rw [← byteLength_append, ← split]
    refine ⟨rfl, Nat.le_add_right _ _, ?_, .inl ⟨_, _, rfl⟩⟩
    change offset + byteLength taken ≤ offset + byteLength text
    omega
  · cases fails
    exact ⟨rfl, Nat.le_add_right _ _, Nat.le_refl _, .inr rfl⟩

/-! ## Offsets -/

/-- The byte offset of the closer for an opener at `openAt`, which `text`
follows, within a construct that starts at `start`. -/
def closerOffset (start openAt : Nat) (outer : Bracket) (text : List Char) :
    Except SyntaxError Nat :=
  (enclosed start (openAt + 1) outer text).map fun inner => openAt + 1 + byteLength inner

/-- The bytes from `openAt` to `close`, both included, form an item. -/
def FormsItem (source : String) (openAt close : Nat) : Prop :=
  close < source.utf8ByteSize ∧ Item ((octets source.toList).extract openAt (close + 1))

theorem closerOffset_eq_ok_iff {start openAt close : Nat} :
    closerOffset start openAt outer text = .ok close ↔
      ∃ inner rest, text = inner ++ outer.closer :: rest ∧ Parts inner ∧
        close = openAt + 1 + byteLength inner := by
  constructor
  · intro succeeds
    rw [closerOffset] at succeeds
    cases found : enclosed start (openAt + 1) outer text with
    | error error => simp [found, Except.map] at succeeds
    | ok inner =>
      obtain ⟨rest, split, parts⟩ := enclosed_eq_ok_iff.mp found
      simp only [found, Except.map, Except.ok.injEq] at succeeds
      exact ⟨inner, rest, split, parts, succeeds.symm⟩
  · rintro ⟨inner, rest, split, parts, rfl⟩
    rw [closerOffset, enclosed_eq_ok_iff.mpr ⟨rest, split, parts⟩]
    rfl

theorem Bracket.opener_ascii (bracket : Bracket) : bracket.opener.toNat < 128 := by
  cases bracket <;> decide

theorem Bracket.closer_ascii (bracket : Bracket) : bracket.closer.toNat < 128 := by
  cases bracket <;> decide

/-- An item cut from the bytes of a text after an opener ends with a closer of
the text itself. -/
private theorem exists_of_item_take {count : Nat}
    (item : Item (outer.opener :: (octets text).take count))
    (within : count ≤ (octets text).length) :
    ∃ inner rest, text = inner ++ outer.closer :: rest ∧ Parts inner ∧
      count = byteLength inner + 1 := by
  generalize sliceEq : outer.opener :: (octets text).take count = slice at item
  rcases item with ⟨bracket, bodyParts⟩
  rename_i body
  simp only [List.cons.injEq] at sliceEq
  obtain ⟨openerEq, bodyEq⟩ := sliceEq
  have sameBracket : bracket = outer := by
    have reads := congrArg Bracket.ofOpener? openerEq
    simpa using reads.symm
  subst bracket
  have split : octets text = body ++ outer.closer :: (octets text).drop count := by
    calc
      octets text = (octets text).take count ++ (octets text).drop count :=
        (List.take_append_drop count _).symm
      _ = body ++ outer.closer :: (octets text).drop count := by rw [bodyEq]; simp
  obtain ⟨inner, rest, textEq, innerEq, _⟩ :=
    exists_of_octets_eq_append_cons outer.closer_ascii split
  refine ⟨inner, rest, textEq, parts_octets_iff.mp (innerEq ▸ bodyParts), ?_⟩
  have lengths := congrArg List.length bodyEq
  rw [List.length_take, Nat.min_eq_left within] at lengths
  rw [lengths, ← innerEq]
  simp

/-- The items that start at an opener are those that the text after it
completes. -/
theorem formsItem_iff {source : String} {before : List Char}
    (split : source.toList = before ++ outer.opener :: text) (close : Nat) :
    FormsItem source (byteLength before) close ↔
      ∃ inner rest, text = inner ++ outer.closer :: rest ∧ Parts inner ∧
        close = byteLength before + 1 + byteLength inner := by
  have bytes : octets source.toList = octets before ++ outer.opener :: octets text := by
    rw [split, octets_append, octets_cons, charOctets_of_ascii outer.opener_ascii]
    rfl
  have size : source.utf8ByteSize = byteLength before + 1 + byteLength text := by
    rw [← byteLength_toList, ← length_octets, bytes]
    simp
    omega
  have slice : ∀ count, (octets source.toList).extract (byteLength before)
      (byteLength before + count + 1) = outer.opener :: (octets text).take count := by
    intro count
    have width : byteLength before + count + 1 - byteLength before = count + 1 := by omega
    rw [List.extract, bytes, List.drop_left' (length_octets before), width, List.take_succ_cons]
  constructor
  · rintro ⟨inSource, item⟩
    by_cases past : byteLength before ≤ close
    · obtain ⟨count, rfl⟩ := Nat.exists_eq_add_of_le past
      rw [slice count] at item
      obtain ⟨inner, rest, textEq, parts, countEq⟩ := exists_of_item_take item (by
        rw [length_octets]
        omega)
      exact ⟨inner, rest, textEq, parts, by omega⟩
    · have empty : (octets source.toList).extract (byteLength before) (close + 1) = [] := by
        have width : close + 1 - byteLength before = 0 := by omega
        rw [List.extract, width, List.take_zero]
      rw [empty] at item
      cases item
  · rintro ⟨inner, rest, rfl, parts, rfl⟩
    have closerWidth : outer.closer.utf8Size = 1 := by cases outer <;> rfl
    constructor
    · rw [size]
      simp only [byteLength_append, byteLength_cons, closerWidth]
      omega
    · have offset : byteLength before + 1 + byteLength inner =
          byteLength before + (byteLength inner + 1) := by omega
      rw [offset, slice, octets_append, octets_cons, charOctets_of_ascii outer.closer_ascii,
        ← length_octets inner, List.take_append, List.take_of_length_le (Nat.le_succ _)]
      simpa using Item.brackets outer (parts_octets_iff.mpr parts)

/-- For every byte offset that holds an opening bracket, the matching closer is
found at another offset exactly when the bytes from the one to the other form
an item. There is at most one such offset, and where there is none the search
fails, with a mismatch or without an end, at the start of the construct. -/
theorem closerOffset_eq_ok_iff_formsItem (source : String) (start openAt : Nat) (outer : Bracket)
    (opens : (octets source.toList)[openAt]? = some outer.opener) :
    ∃ before text, source.toList = before ++ outer.opener :: text ∧
      byteLength before = openAt ∧
      (∀ close, closerOffset start openAt outer text = .ok close ↔
        FormsItem source openAt close) ∧
      (∀ first second, FormsItem source openAt first → FormsItem source openAt second →
        first = second) ∧
      ((∀ close, ¬ FormsItem source openAt close) →
        ∃ error, closerOffset start openAt outer text = .error error ∧
          error.span.start = start ∧
          ((∃ found wanted, error.cause = .mismatched found wanted) ∨
            ∃ missing, error.cause = .unterminated missing)) := by
  obtain ⟨before, text, split, rfl⟩ := exists_of_octets_getElem outer.opener_ascii opens
  have accepts : ∀ close, closerOffset start (byteLength before) outer text = .ok close ↔
      FormsItem source (byteLength before) close := by
    intro close
    rw [closerOffset_eq_ok_iff, formsItem_iff split]
  refine ⟨before, text, split, rfl, accepts, ?_, ?_⟩
  · intro first second firstItem secondItem
    have found := (accepts first).mpr firstItem
    rw [(accepts second).mpr secondItem] at found
    exact (Except.ok.inj found).symm
  · intro noItem
    cases found : enclosed start (byteLength before + 1) outer text with
    | ok inner =>
      have succeeds : closerOffset start (byteLength before) outer text =
          .ok (byteLength before + 1 + byteLength inner) := by
        rw [closerOffset, found]
        rfl
      exact absurd ((accepts _).mp succeeds) (noItem _)
    | error error =>
      obtain ⟨startEq, _, _, cause⟩ := enclosed_eq_error found
      refine ⟨error, ?_, startEq, ?_⟩
      · rw [closerOffset, found]
        rfl
      · rcases cause with mismatched | unterminated
        · exact .inl mismatched
        · exact .inr ⟨_, unterminated⟩

/-- A brace in a string closes nothing, and a backslash takes the first byte of
a wide character with it. -/
theorem formsItem_escaped_wide :
    (octets "\x7b'\\é\x7d'\x7d".toList)[0]? = some Bracket.curly.opener ∧
      FormsItem "\x7b'\\é\x7d'\x7d" 0 7 ∧ ¬ FormsItem "\x7b'\\é\x7d'\x7d" 0 5 := by
  have opens : (octets "\x7b'\\é\x7d'\x7d".toList)[0]? = some Bracket.curly.opener := by
    decide
  obtain ⟨before, text, split, beforeEq, accepts, unique, _⟩ :=
    closerOffset_eq_ok_iff_formsItem "\x7b'\\é\x7d'\x7d" 0 0 .curly opens
  cases before with
  | cons c before => exact absurd beforeEq (Nat.ne_of_gt (byteLength_pos (by simp)))
  | nil =>
    have textEq : text = ['\'', '\\', 'é', '}', '\'', '}'] := (List.cons.inj split).2.symm
    subst text
    have item : FormsItem "\x7b'\\é\x7d'\x7d" 0 7 := (accepts 7).mp rfl
    refine ⟨opens, item, ?_⟩
    intro early
    have same := unique 5 7 early item
    contradiction

end ModelWeaver.Document
