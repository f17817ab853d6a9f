import ModelWeaver.Document.Delimiter
import Mathlib.Tactic.Tauto

/-!
# The grammar of delimited text

The text between two brackets is a sequence of parts: smaller bracketed items, quoted strings,
comments that end before a line end, and ordinary characters. `Parts` and `Item` state this grammar
without reference to any scan.

The delimiter scan is a stack machine, with moves `State.step`, and stops where no move is left. A
text takes it from an empty stack back to an empty stack exactly when it derives from the grammar,
so the scan finds exactly the derivable texts.
-/

namespace ModelWeaver.Document

/-! ## The grammar -/

/-- The characters that may not stand for themselves between brackets. -/
def specialChars : List Char := ['(', ')', '[', ']', '{', '}', '"', '\'', '#']

theorem forall_specialChars {property : Char → Prop} :
    (∀ c ∈ specialChars, property c) ↔
      property '(' ∧ property ')' ∧ property '[' ∧ property ']' ∧ property '{' ∧
        property '}' ∧ property '"' ∧ property '\'' ∧ property '#' := by
  simp [specialChars]

/-- The inside of a string: a backslash takes any character with it, and no
other character is the quote or a backslash. -/
inductive QuotedBody (quote : Char) : List Char → Prop
  | nil : QuotedBody quote []
  | escape (c : Char) {body : List Char} :
      QuotedBody quote body → QuotedBody quote ('\\' :: c :: body)
  | plain {c : Char} {body : List Char} :
      c ≠ quote → c ≠ '\\' → QuotedBody quote body → QuotedBody quote (c :: body)

/-- Sequences of parts. A comment stops before the next line end, which has to
be there. -/
inductive Parts : List Char → Prop
  | nil : Parts []
  | brackets (bracket : Bracket) {body rest : List Char} :
      Parts body → Parts rest →
        Parts (bracket.opener :: (body ++ bracket.closer :: rest))
  | string {quote : Char} {body rest : List Char} :
      quote = '"' ∨ quote = '\'' → QuotedBody quote body → Parts rest →
        Parts (quote :: (body ++ quote :: rest))
  | comment {body rest : List Char} :
      '\n' ∉ body → Parts ('\n' :: rest) → Parts ('#' :: (body ++ '\n' :: rest))
  | other {c : Char} {rest : List Char} :
      c ∉ specialChars → Parts rest → Parts (c :: rest)

/-- A bracketed item: an opener, parts, and the closer that belongs to it. -/
inductive Item : List Char → Prop
  | brackets (bracket : Bracket) {body : List Char} :
      Parts body → Item (bracket.opener :: (body ++ [bracket.closer]))

/-! ## Classes of characters -/

namespace Bracket

@[simp]
theorem ofOpener?_opener (bracket : Bracket) : ofOpener? bracket.opener = some bracket := by
  cases bracket <;> rfl

@[simp]
theorem ofOpener?_closer (bracket : Bracket) : ofOpener? bracket.closer = none := by
  cases bracket <;> rfl

@[simp]
theorem ofCloser?_closer (bracket : Bracket) : ofCloser? bracket.closer = some bracket := by
  cases bracket <;> rfl

theorem ofOpener?_eq_some_iff {c : Char} {bracket : Bracket} :
    ofOpener? c = some bracket ↔ c = bracket.opener := by
  constructor
  · intro opens
    unfold ofOpener? at opens
    split at opens <;> simp_all [opener]
    all_goals subst bracket; rfl
  · rintro rfl
    exact ofOpener?_opener bracket

theorem ofCloser?_eq_some_iff {c : Char} {bracket : Bracket} :
    ofCloser? c = some bracket ↔ c = bracket.closer := by
  constructor
  · intro closes
    unfold ofCloser? at closes
    split at closes <;> simp_all [closer]
    all_goals subst bracket; rfl
  · rintro rfl
    exact ofCloser?_closer bracket

theorem closer_injective {first second : Bracket} (equal : first.closer = second.closer) :
    first = second := by
  have same := congrArg ofCloser? equal
  simpa using same

end Bracket

theorem isQuote_iff {c : Char} : isQuote c = true ↔ c = '"' ∨ c = '\'' := by
  simp [isQuote]

/-- A character outside the special ones is neither a bracket nor a quote nor
the start of a comment. -/
theorem ordinary_iff {c : Char} :
    c ∉ specialChars ↔
      Bracket.ofOpener? c = none ∧ Bracket.ofCloser? c = none ∧
        isQuote c = false ∧ c ≠ '#' := by
  have opens : Bracket.ofOpener? c = none ↔ c ≠ '(' ∧ c ≠ '[' ∧ c ≠ '{' := by
    unfold Bracket.ofOpener?
    split <;> simp_all
  have closes : Bracket.ofCloser? c = none ↔ c ≠ ')' ∧ c ≠ ']' ∧ c ≠ '}' := by
    unfold Bracket.ofCloser?
    split <;> simp_all
  have quotes : isQuote c = false ↔ c ≠ '"' ∧ c ≠ '\'' := by
    simp [isQuote]
  rw [opens, closes, quotes]
  simp only [specialChars, List.mem_cons, List.not_mem_nil, or_false, not_or]
  tauto

/-! ## The stack machine -/

namespace Delimiter

variable {next state : State} {text : List Char}

/-- What the delimiter scan keeps: its mode and the open brackets inside the
outermost one, innermost first. -/
structure State where
  mode : Mode
  inner : List Bracket
  deriving DecidableEq

namespace State

/-- One move of the scan. There is none at a closer that closes no inner
bracket. -/
def step : State → Char → Option State
  | ⟨.comment, inner⟩, c => some ⟨if c = '\n' then .plain else .comment, inner⟩
  | ⟨.escaped quote, inner⟩, _ => some ⟨.quoted quote, inner⟩
  | ⟨.quoted quote, inner⟩, c =>
    some ⟨if c = '\\' then .escaped quote else if c = quote then .plain else .quoted quote, inner⟩
  | ⟨.plain, inner⟩, c =>
    match Bracket.ofOpener? c, Bracket.ofCloser? c with
    | some bracket, _ => some ⟨.plain, bracket :: inner⟩
    | none, some bracket =>
      match inner with
      | [] => none
      | wanted :: inner => if bracket = wanted then some ⟨.plain, inner⟩ else none
    | none, none =>
      some ⟨if isQuote c then .quoted c else if c = '#' then .comment else .plain, inner⟩

/-- The moves over a whole text. -/
def run (state : State) (text : List Char) : Option State :=
  text.foldlM step state

@[simp]
theorem run_nil (state : State) : state.run [] = some state :=
  rfl

@[simp]
theorem run_cons (state : State) (c : Char) (text : List Char) :
    state.run (c :: text) = (state.step c).bind fun next => next.run text :=
  rfl

theorem run_append (state : State) (first second : List Char) :
    state.run (first ++ second) = (state.run first).bind fun next => next.run second :=
  List.foldlM_append

section Moves

variable (inner : List Bracket)

@[simp]
theorem step_opener (bracket : Bracket) :
    step ⟨.plain, inner⟩ bracket.opener = some ⟨.plain, bracket :: inner⟩ := by
  simp [step]

@[simp]
theorem step_closer (bracket : Bracket) :
    step ⟨.plain, bracket :: inner⟩ bracket.closer = some ⟨.plain, inner⟩ := by
  simp [step]

theorem step_quote {quote : Char} (isQuote : quote = '"' ∨ quote = '\'') :
    step ⟨.plain, inner⟩ quote = some ⟨.quoted quote, inner⟩ := by
  rcases isQuote with rfl | rfl <;> rfl

@[simp]
theorem step_hash : step ⟨.plain, inner⟩ '#' = some ⟨.comment, inner⟩ :=
  rfl

theorem step_ordinary {c : Char} (ordinary : c ∉ specialChars) :
    step ⟨.plain, inner⟩ c = some ⟨.plain, inner⟩ := by
  obtain ⟨opens, closes, quotes, hash⟩ := ordinary_iff.mp ordinary
  simp [step, opens, closes, quotes, hash]

/-! ## Derivations are runs -/

theorem run_quotedBody {quote : Char} {body : List Char} (derivation : QuotedBody quote body) :
    run ⟨.quoted quote, inner⟩ body = some ⟨.quoted quote, inner⟩ := by
  induction derivation with
  | nil => rfl
  | escape c _ ih => simpa [step] using ih
  | plain notQuote notBackslash _ ih => simpa [step, notQuote, notBackslash] using ih

theorem run_commentBody {body : List Char} (sameLine : '\n' ∉ body) :
    run ⟨.comment, inner⟩ body = some ⟨.comment, inner⟩ := by
  induction body with
  | nil => rfl
  | cons c body ih =>
    simp only [List.mem_cons, not_or] at sameLine
    simpa [step, Ne.symm sameLine.1] using ih sameLine.2

end Moves

/-- Parts leave the machine as it was. -/
theorem run_parts {text : List Char} (derivation : Parts text) (inner : List Bracket) :
    run ⟨.plain, inner⟩ text = some ⟨.plain, inner⟩ := by
  induction derivation generalizing inner with
  | nil => rfl
  | brackets bracket _ _ bodyRun restRun =>
    simp [run_append, bodyRun, restRun]
  | @string quote body rest isQuote bodyDerivation _ restRun =>
    have notEscape : quote ≠ '\\' := by rcases isQuote with rfl | rfl <;> decide
    have closing : step ⟨.quoted quote, inner⟩ quote = some ⟨.plain, inner⟩ := by
      simp [step, notEscape]
    simp [run_append, step_quote inner isQuote, run_quotedBody inner bodyDerivation,
      closing, restRun]
  | comment sameLine _ restRun =>
    have lineEnd : step ⟨.comment, inner⟩ '\n' = step ⟨.plain, inner⟩ '\n' := rfl
    simpa [run_append, run_commentBody inner sameLine, lineEnd] using restRun inner
  | other ordinary _ restRun =>
    simp [step_ordinary inner ordinary, restRun]

end State

/-! ## Runs are derivations -/

/-- Texts that close the given brackets one after the other, with parts before
each closer and after the last. -/
def Closes : List Bracket → List Char → Prop
  | [], text => Parts text
  | bracket :: inner, text =>
    ∃ body rest, text = body ++ bracket.closer :: rest ∧ Parts body ∧ Closes inner rest

/-- What may follow in a state for all brackets to be closed in the end. -/
def Completes : State → List Char → Prop
  | ⟨.plain, inner⟩, text => Closes inner text
  | ⟨.quoted quote, inner⟩, text =>
    ∃ body rest, text = body ++ quote :: rest ∧ QuotedBody quote body ∧ Closes inner rest
  | ⟨.escaped quote, inner⟩, text =>
    ∃ c body rest, text = c :: (body ++ quote :: rest) ∧
      QuotedBody quote body ∧ Closes inner rest
  | ⟨.comment, inner⟩, text =>
    ∃ body rest, text = body ++ '\n' :: rest ∧ '\n' ∉ body ∧ Closes inner ('\n' :: rest)

variable {inner : List Bracket} {c : Char} {outer : Bracket}

/-- What can be put in front of parts can be put in front of any text that
closes brackets. -/
theorem Closes.prepend (front : List Char) (extend : ∀ rest, Parts rest → Parts (front ++ rest))
    (closes : Closes inner text) : Closes inner (front ++ text) := by
  cases inner with
  | nil => exact extend text closes
  | cons bracket inner =>
    obtain ⟨body, rest, rfl, parts, closes⟩ := closes
    exact ⟨front ++ body, rest, by simp, extend body parts, closes⟩

theorem Closes.opener {bracket : Bracket} (closes : Closes (bracket :: inner) text) :
    Closes inner (bracket.opener :: text) := by
  obtain ⟨body, rest, rfl, parts, closes⟩ := closes
  have extended := closes.prepend (bracket.opener :: (body ++ [bracket.closer]))
    fun rest restParts => by simpa using Parts.brackets bracket parts restParts
  simpa using extended

theorem Closes.ordinary (ordinary : c ∉ specialChars) (closes : Closes inner text) :
    Closes inner (c :: text) :=
  closes.prepend [c] fun _ => Parts.other ordinary

theorem Closes.string {quote : Char} (isQuote : quote = '"' ∨ quote = '\'')
    (completes : Completes ⟨.quoted quote, inner⟩ text) : Closes inner (quote :: text) := by
  obtain ⟨body, rest, rfl, derivation, closes⟩ := completes
  have extended := closes.prepend (quote :: (body ++ [quote]))
    fun rest restParts => by simpa using Parts.string isQuote derivation restParts
  simpa using extended

theorem Closes.comment (completes : Completes ⟨.comment, inner⟩ text) :
    Closes inner ('#' :: text) := by
  obtain ⟨body, rest, rfl, sameLine, closes⟩ := completes
  cases inner with
  | nil => exact Parts.comment sameLine closes
  | cons bracket inner =>
    obtain ⟨before, after, split, parts, closes⟩ := closes
    cases before with
    | nil =>
      simp only [List.nil_append, List.cons.injEq] at split
      have notCloser : '\n' ≠ bracket.closer := by cases bracket <;> decide
      exact absurd split.1 notCloser
    | cons c before =>
      simp only [List.cons_append, List.cons.injEq] at split
      obtain ⟨rfl, rfl⟩ := split
      exact ⟨'#' :: (body ++ '\n' :: before), after, by simp,
        Parts.comment sameLine parts, closes⟩

private theorem closes_of_step (move : State.step ⟨.plain, inner⟩ c = some next)
    (completes : Completes next text) : Closes inner (c :: text) := by
  cases opens : Bracket.ofOpener? c with
  | some bracket =>
    obtain rfl := Bracket.ofOpener?_eq_some_iff.mp opens
    rw [State.step_opener] at move
    cases move
    exact Closes.opener completes
  | none =>
    cases closing : Bracket.ofCloser? c with
    | some bracket =>
      obtain rfl := Bracket.ofCloser?_eq_some_iff.mp closing
      cases inner with
      | nil => simp [State.step] at move
      | cons wanted inner =>
        simp only [State.step, opens, closing, Option.ite_none_right_eq_some] at move
        obtain ⟨rfl, ⟨⟩⟩ := move
        exact ⟨[], text, rfl, .nil, completes⟩
    | none =>
      simp only [State.step, opens, closing, Option.some.injEq] at move
      subst next
      by_cases quotes : isQuote c
      · rw [if_pos quotes] at completes
        exact Closes.string (isQuote_iff.mp quotes) completes
      · rw [if_neg quotes] at completes
        by_cases hash : c = '#'
        · subst c
          exact Closes.comment completes
        · rw [if_neg hash] at completes
          exact Closes.ordinary
            (ordinary_iff.mpr ⟨opens, closing, by simpa using quotes, hash⟩) completes

/-- One move of the machine adds one character in front of what completes the
next state. -/
theorem completes_of_step (move : state.step c = some next) (completes : Completes next text) :
    Completes state (c :: text) := by
  rcases state with ⟨mode, inner⟩
  cases mode with
  | plain => exact closes_of_step move completes
  | quoted quote =>
    cases move
    by_cases backslash : c = '\\'
    · subst c
      obtain ⟨escaped, body, rest, rfl, derivation, closes⟩ := completes
      exact ⟨'\\' :: escaped :: body, rest, rfl, .escape escaped derivation, closes⟩
    · rw [if_neg backslash] at completes
      by_cases closing : c = quote
      · subst c
        rw [if_pos rfl] at completes
        exact ⟨[], text, rfl, .nil, completes⟩
      · rw [if_neg closing] at completes
        obtain ⟨body, rest, rfl, derivation, closes⟩ := completes
        exact ⟨c :: body, rest, rfl, .plain closing backslash derivation, closes⟩
  | escaped quote =>
    cases move
    obtain ⟨body, rest, rfl, derivation, closes⟩ := completes
    exact ⟨c, body, rest, rfl, derivation, closes⟩
  | comment =>
    cases move
    by_cases lineEnd : c = '\n'
    · subst c
      exact ⟨[], text, rfl, by simp, Closes.ordinary (by decide) completes⟩
    · rw [if_neg lineEnd] at completes
      obtain ⟨body, rest, rfl, sameLine, closes⟩ := completes
      exact ⟨c :: body, rest, rfl, by simp [Ne.symm lineEnd, sameLine], closes⟩

theorem completes_of_run (ends : state.run text = some ⟨.plain, []⟩) : Completes state text := by
  induction text generalizing state with
  | nil =>
    simp only [State.run_nil, Option.some.injEq] at ends
    subst state
    exact Parts.nil
  | cons c text ih =>
    rw [State.run_cons] at ends
    obtain ⟨next, move, ends⟩ := Option.bind_eq_some_iff.mp ends
    exact completes_of_step move (ih ends)

/-- The stack machine recognises exactly the grammar. -/
theorem parts_iff_run : Parts text ↔ State.run ⟨.plain, []⟩ text = some ⟨.plain, []⟩ :=
  ⟨fun derivation => State.run_parts derivation [], completes_of_run⟩

/-! ## The scan -/

/-- The scan makes every move that the machine has. -/
theorem scan_cons_of_step (move : state.step c = some next) (taken text : List Char) :
    scan outer state.mode state.inner taken (c :: text) =
      scan outer next.mode next.inner (c :: taken) text := by
  rcases state with ⟨mode, inner⟩
  cases mode with
  | plain =>
    simp only [State.step] at move
    rw [scan]
    cases opens : Bracket.ofOpener? c with
    | some bracket =>
      simp only [opens, Option.some.injEq] at move
      subst next
      rfl
    | none =>
      cases closing : Bracket.ofCloser? c with
      | some bracket =>
        cases inner with
        | nil => simp [opens, closing] at move
        | cons wanted inner =>
          simp only [opens, closing, Option.ite_none_right_eq_some] at move
          obtain ⟨equal, ⟨⟩⟩ := move
          simp only [equal, if_true]
      | none =>
        simp only [opens, closing, Option.some.injEq] at move
        subst next
        rfl
  | quoted quote => cases move; rfl
  | escaped quote => cases move; rfl
  | comment => cases move; rfl

/-- The machine has no move only at a closer outside strings and comments that
does not close the innermost bracket. -/
theorem exists_closer_of_step_eq_none (stuck : state.step c = none) :
    state.mode = .plain ∧ ∃ bracket, c = bracket.closer ∧ state.inner.head? ≠ some bracket := by
  rcases state with ⟨mode, inner⟩
  cases mode with
  | plain =>
    refine ⟨rfl, ?_⟩
    simp only [State.step] at stuck
    cases opens : Bracket.ofOpener? c with
    | some bracket => simp [opens] at stuck
    | none =>
      cases closing : Bracket.ofCloser? c with
      | none => simp [opens, closing] at stuck
      | some bracket =>
        refine ⟨bracket, Bracket.ofCloser?_eq_some_iff.mp closing, ?_⟩
        cases inner with
        | nil => simp
        | cons wanted inner =>
          simp only [opens, closing, ite_eq_right_iff, reduceCtorEq, imp_false] at stuck
          simpa using Ne.symm stuck
  | quoted quote => simp [State.step] at stuck
  | escaped quote => simp [State.step] at stuck
  | comment => simp [State.step] at stuck

/-- Where the machine is stuck the scan ends: with the text read so far if the
outermost bracket is closed, and otherwise with a mismatch. -/
theorem scan_closer (outer bracket : Bracket) (stuck : inner.head? ≠ some bracket)
    (taken text : List Char) :
    scan outer .plain inner taken (bracket.closer :: text) =
      if bracket = outer ∧ inner = [] then .ok taken.reverse
      else .error (.mismatched bracket (inner.headD outer) (bracket.closer :: taken).reverse) := by
  cases inner with
  | nil => simp [scan]
  | cons wanted inner =>
    have different : bracket ≠ wanted := by simpa using Ne.symm stuck
    simp [scan, different]

/-- The scan succeeds exactly at the first closer that a run with all inner
brackets closed leads up to. -/
theorem scan_eq_ok_iff {taken result : List Char} :
    scan outer state.mode state.inner taken text = .ok result ↔
      ∃ body rest, text = body ++ outer.closer :: rest ∧
        state.run body = some ⟨.plain, []⟩ ∧ result = taken.reverse ++ body := by
  induction text generalizing state taken with
  | nil => simp [scan]
  | cons c text ih =>
    cases move : state.step c with
    | some next =>
      rw [scan_cons_of_step move, ih]
      constructor
      · rintro ⟨body, rest, rfl, ends, rfl⟩
        exact ⟨c :: body, rest, rfl, by simpa [move] using ends, by simp⟩
      · rintro ⟨body, rest, split, ends, rfl⟩
        cases body with
        | nil =>
          simp only [State.run_nil, Option.some.injEq] at ends
          simp only [List.nil_append, List.cons.injEq] at split
          rw [ends, split.1] at move
          simp [State.step] at move
        | cons first body =>
          simp only [List.cons_append, List.cons.injEq] at split
          obtain ⟨rfl, rfl⟩ := split
          exact ⟨body, rest, rfl, by simpa [move] using ends, by simp⟩
    | none =>
      -- A closer, but not of the innermost bracket: it is the outer one or a wrong one.
      obtain ⟨plain, bracket, rfl, stuck⟩ := exists_closer_of_step_eq_none move
      rw [plain, scan_closer outer bracket stuck]
      constructor
      · intro succeeds
        split at succeeds
        · rename_i closed
          obtain ⟨rfl, closed⟩ := closed
          cases succeeds
          refine ⟨[], text, rfl, ?_, by simp⟩
          rw [State.run_nil, ← plain, ← closed]
        · contradiction
      · rintro ⟨body, rest, split, ends, rfl⟩
        cases body with
        | nil =>
          simp only [State.run_nil, Option.some.injEq] at ends
          simp only [List.nil_append, List.cons.injEq] at split
          simp [ends, Bracket.closer_injective split.1]
        | cons first body =>
          simp only [List.cons_append, List.cons.injEq] at split
          rw [← split.1] at ends
          simp [move] at ends

private theorem scan_mismatched {found wanted : Bracket} {taken shown : List Char}
    (fails : scan outer state.mode state.inner taken text =
      .error (.mismatched found wanted shown)) :
    ∃ rest, taken.reverse ++ text = shown ++ rest := by
  induction text generalizing state taken with
  | nil => simp [scan] at fails
  | cons c text ih =>
    cases move : state.step c with
    | some next =>
      rw [scan_cons_of_step move] at fails
      obtain ⟨rest, split⟩ := ih fails
      exact ⟨rest, by simpa using split⟩
    | none =>
      obtain ⟨plain, bracket, rfl, stuck⟩ := exists_closer_of_step_eq_none move
      rw [plain, scan_closer outer bracket stuck] at fails
      split at fails
      · contradiction
      · cases fails
        exact ⟨text, by simp⟩

/-- The delimiter scan accepts exactly the well-bracketed texts: it cuts a text
at a closer of the given kind with parts before it. -/
theorem inside_eq_ok_iff {inner : List Char} :
    inside outer text = .ok inner ↔
      ∃ rest, text = inner ++ outer.closer :: rest ∧ Parts inner := by
  have accepts := @scan_eq_ok_iff ⟨.plain, []⟩ text outer [] inner
  rw [inside, accepts]
  constructor
  · rintro ⟨body, rest, rfl, ends, rfl⟩
    exact ⟨rest, rfl, parts_iff_run.mpr ends⟩
  · rintro ⟨rest, rfl, parts⟩
    exact ⟨inner, rest, rfl, parts_iff_run.mp parts, rfl⟩

theorem inside_mismatched {found wanted : Bracket} {shown : List Char}
    (fails : inside outer text = .error (.mismatched found wanted shown)) :
    ∃ rest, text = shown ++ rest :=
  @scan_mismatched ⟨.plain, []⟩ text outer found wanted [] shown fails

end Delimiter

end ModelWeaver.Document
