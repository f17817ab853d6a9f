import ModelWeaver.Model.SymbolName
import ModelWeaver.Proofs.Text.Digits
import ModelWeaver.Proofs.Text.Trimming

/-!
# Lists of variables

A variable is a name, and perhaps a subscript: balanced brackets from behind the name to the end.
A list of them is cut at the commas outside brackets. Of a part only the first opening bracket and
the last character are looked at, so that more is read than such lists: a part with several
brackets in a row, with text between them, or with brackets that stay open. What is read is
described here exactly.
-/

namespace ModelWeaver

namespace Model

open Text

/-! ## The grammar -/

/-- The name of a symbol, with or without the mark of a hidden one. -/
inductive IsName : List Char → Prop where
  | plain {name : List Char} (identifier : isIdentifier name = true) : IsName name
  | hidden {name : List Char} (identifier : isIdentifier name = true) : IsName (hiddenMark :: name)

/-- Text in which every square bracket has its partner. -/
inductive Balanced : List Char → Prop where
  | nil : Balanced []
  | char {c : Char} {rest : List Char} (noOpener : c ≠ '[') (noCloser : c ≠ ']')
      (balanced : Balanced rest) : Balanced (c :: rest)
  | brackets {inner rest : List Char} (inside : Balanced inner) (balanced : Balanced rest) :
      Balanced ('[' :: inner ++ ']' :: rest)

/-- A variable: a name, and perhaps one subscript up to the end. -/
inductive IsVariable : List Char → Prop where
  | name {name : List Char} (named : IsName name) : IsVariable name
  | subscripted {name inner : List Char} (named : IsName name) (balanced : Balanced inner) :
      IsVariable (name ++ '[' :: inner ++ [']'])

/-- A text consists of variables between commas. Blanks around a variable do not count. -/
def ListsVariables (text : String) (names : List String) : Prop :=
  ∃ parts : List (List Char), parts ≠ [] ∧ text.toList = [','].intercalate parts ∧
    names = parts.map (fun part => String.ofList (trimBy isBlank part)) ∧
    ∀ part ∈ parts, IsVariable (trimBy isBlank part)

/-! ## What is read -/

/-- Text that is read without a cut, from a number of open brackets to another one: no bracket
closes that is not open, and commas stand inside brackets only. -/
inductive Uncut : Nat → List Char → Nat → Prop where
  | nil (depth : Nat) : Uncut depth [] depth
  | opener {depth final : Nat} {rest : List Char} (uncut : Uncut (depth + 1) rest final) :
      Uncut depth ('[' :: rest) final
  | closer {depth final : Nat} {rest : List Char} (uncut : Uncut depth rest final) :
      Uncut (depth + 1) (']' :: rest) final
  | char {c : Char} {depth final : Nat} {rest : List Char} (noOpener : c ≠ '[')
      (noCloser : c ≠ ']') (inside : c = ',' → depth ≠ 0) (uncut : Uncut depth rest final) :
      Uncut depth (c :: rest) final

/-- The parts of a text between the commas outside brackets. Brackets that stay open are in the
last part. -/
inductive Cut : List Char → List (List Char) → Prop where
  | last {part : List Char} {final : Nat} (uncut : Uncut 0 part final) : Cut part [part]
  | comma {part rest : List Char} {parts : List (List Char)} (uncut : Uncut 0 part 0)
      (cut : Cut rest parts) : Cut (part ++ ',' :: rest) (part :: parts)

/-- A name, and perhaps anything between brackets up to the end. There may be blanks between
them. -/
inductive IsRead : List Char → Prop where
  | name {name : List Char} (named : IsName name) : IsRead name
  | bracketed {name blanks inner : List Char} (named : IsName name)
      (blank : ∀ c ∈ blanks, isBlank c = true) :
      IsRead (name ++ blanks ++ '[' :: inner ++ [']'])

/-! ## Cutting -/

section Cutting

variable {depth final : Nat} {text piece : List Char} {parts : List (List Char)}

theorem Uncut.append {middle : Nat} {rest : List Char} (first : Uncut depth piece middle)
    (second : Uncut middle rest final) : Uncut depth (piece ++ rest) final := by
  induction first with
  | nil depth => exact second
  | opener uncut ih => exact .opener (ih second)
  | closer uncut ih => exact .closer (ih second)
  | char noOpener noCloser inside uncut ih =>
    exact .char noOpener noCloser inside (ih second)

/-- Text that is read without a cut becomes part of what was read since the last one. -/
theorem Uncut.splitOutside? (uncut : Uncut depth piece final) (part rest : List Char) :
    splitOutside? depth part (piece ++ rest) =
      Model.splitOutside? final (piece.reverse ++ part) rest := by
  induction uncut generalizing part with
  | nil depth => rfl
  | opener uncut ih =>
    rw [List.cons_append, Model.splitOutside?, if_pos rfl, ih]
    simp
  | closer uncut ih =>
    rw [List.cons_append, Model.splitOutside?, if_neg (by decide), if_pos rfl,
      if_neg (Nat.succ_ne_zero _), Nat.add_sub_cancel, ih]
    simp
  | @char c depth final rest' noOpener noCloser inside uncut ih =>
    have stays : ¬(c = ',' && decide (depth = 0)) = true := by
      simpa using inside
    rw [List.cons_append, Model.splitOutside?, if_neg noOpener, if_neg noCloser, if_neg stays,
      ih]
    simp

theorem Cut.splitOutside? (cut : Cut text parts) : splitOutside? 0 [] text = some parts := by
  induction cut with
  | @last part final uncut =>
    have whole := uncut.splitOutside? [] []
    rw [List.append_nil, List.append_nil] at whole
    rw [whole, Model.splitOutside?, List.reverse_reverse]
  | comma uncut cut ih =>
    rw [uncut.splitOutside?, Model.splitOutside?, if_neg (by decide), if_neg (by decide),
      if_pos (by decide), ih]
    simp

/-- The parts of a text behind `part`, with brackets open at its start. -/
inductive CutAfter (part : List Char) : Nat → List Char → List (List Char) → Prop where
  | last {depth final : Nat} {piece : List Char} (uncut : Uncut depth piece final) :
      CutAfter part depth piece [part ++ piece]
  | comma {depth : Nat} {piece rest : List Char} {more : List (List Char)}
      (uncut : Uncut depth piece 0) (cut : Cut rest more) :
      CutAfter part depth (piece ++ ',' :: rest) ((part ++ piece) :: more)

theorem CutAfter.cut (cutAfter : CutAfter [] 0 text parts) : Cut text parts := by
  cases cutAfter with
  | last uncut => exact .last uncut
  | comma uncut cut => exact .comma uncut cut

theorem CutAfter.cons {part rest : List Char} {c : Char} {depth' : Nat}
    (step : ∀ {piece final}, Uncut depth' piece final → Uncut depth (c :: piece) final)
    (cutAfter : CutAfter (part ++ [c]) depth' rest parts) :
    CutAfter part depth (c :: rest) parts := by
  cases cutAfter with
  | last uncut =>
    rw [List.append_assoc]
    exact .last (step uncut)
  | comma uncut cut =>
    rw [List.append_assoc]
    exact .comma (step uncut) cut

theorem cutAfter_of_splitOutside? {part : List Char}
    (split : splitOutside? depth part text = some parts) :
    CutAfter part.reverse depth text parts := by
  induction text generalizing depth part parts with
  | nil =>
    cases split
    have cut : CutAfter part.reverse depth [] [part.reverse ++ []] := .last (.nil depth)
    rwa [List.append_nil] at cut
  | cons c rest ih =>
    have further {depth' : Nat} (split : splitOutside? depth' (c :: part) rest = some parts) :
        CutAfter (part.reverse ++ [c]) depth' rest parts := by
      rw [← List.reverse_cons]
      exact ih split
    rw [splitOutside?] at split
    split at split
    · next opener =>
        subst opener
        exact .cons .opener (further split)
    · next noOpener =>
        split at split
        · next closer =>
            subst closer
            split at split
            · cases split
            · next nonzero =>
                obtain ⟨outer, rfl⟩ := Nat.exists_eq_succ_of_ne_zero nonzero
                exact .cons .closer (further split)
        · next noCloser =>
            split at split
            · next outside =>
                rw [Bool.and_eq_true, decide_eq_true_eq, decide_eq_true_eq] at outside
                obtain ⟨rfl, rfl⟩ := outside
                obtain ⟨more, found, rfl⟩ := Option.map_eq_some_iff.mp split
                have cut : CutAfter part.reverse 0 ([] ++ ',' :: rest)
                    ((part.reverse ++ []) :: more) :=
                  .comma (.nil 0) (ih found).cut
                rwa [List.append_nil] at cut
            · next stays =>
                have inside : c = ',' → depth ≠ 0 := by
                  simpa using stays
                exact .cons (.char noOpener noCloser inside) (further split)

theorem splitOutside?_eq_some_iff : splitOutside? 0 [] text = some parts ↔ Cut text parts :=
  ⟨fun split => (cutAfter_of_splitOutside? split).cut, Cut.splitOutside?⟩

theorem Cut.ne_nil (cut : Cut text parts) : parts ≠ [] := by
  cases cut <;> exact List.cons_ne_nil _ _

theorem Cut.intercalate (cut : Cut text parts) : text = [','].intercalate parts := by
  induction cut with
  | last uncut => exact (List.intercalate_singleton ..).symm
  | comma uncut cut ih =>
    rw [List.intercalate_cons_of_ne_nil cut.ne_nil, ← ih]
    simp

theorem cut_intercalate (nonempty : parts ≠ []) (uncut : ∀ part ∈ parts, Uncut 0 part 0) :
    Cut ([','].intercalate parts) parts := by
  induction parts with
  | nil => exact absurd rfl nonempty
  | cons part parts ih =>
    obtain ⟨first, others⟩ := List.forall_mem_cons.mp uncut
    by_cases alone : parts = []
    · rw [alone, List.intercalate_singleton]
      exact .last first
    · rw [List.intercalate_cons_of_ne_nil alone, List.append_assoc]
      exact .comma first (ih alone others)

end Cutting

/-! ## Names and subscripts -/

section Names

variable {name : List Char}

theorem IsName.ne_nil (named : IsName name) : name ≠ [] := by
  rintro rfl
  cases named with
  | plain identifier => cases identifier

theorem code_of_isAlphanum {c : Char} (isLetter : c.isAlphanum = true) :
    48 ≤ c.toNat ∧ c.toNat ≤ 122 := by
  have cases : (c.isUpper = true ∨ c.isLower = true) ∨ c.isDigit = true := by
    rwa [← Bool.or_eq_true, ← Bool.or_eq_true]
  rcases cases with (upper | lower) | digit
  · have bounds : 65 ≤ c.toNat ∧ c.toNat ≤ 90 := of_decide_eq_true upper
    omega
  · have bounds : 97 ≤ c.toNat ∧ c.toNat ≤ 122 :=
      ⟨of_decide_eq_true (Bool.and_eq_true_iff.mp lower).1,
        of_decide_eq_true (Bool.and_eq_true_iff.mp lower).2⟩
    omega
  · have bounds : 48 ≤ c.toNat ∧ c.toNat ≤ 57 := Char.isDigit_iff_toNat.mp digit
    omega

theorem isBlank_eq_false_of_code {c : Char} (above : 48 ≤ c.toNat) (below : c.toNat ≤ 122) :
    isBlank c = false := by
  rw [isBlank, blankRanges, CharRanges.contains, CharRanges.containsAt, if_neg (by omega),
    CharRanges.containsAt, if_neg (by omega), CharRanges.containsAt, if_pos (by omega)]
  exact decide_eq_false (by omega)

/-- What a name consists of is not blank, and neither a bracket nor a comma. -/
theorem IsName.chars (named : IsName name) :
    ∀ c ∈ name, isBlank c = false ∧ c ≠ '[' ∧ c ≠ ']' ∧ c ≠ ',' := by
  have letter {c : Char} (isLetter : (c.isAlphanum || c = '_') = true) :
      isBlank c = false ∧ c ≠ '[' ∧ c ≠ ']' ∧ c ≠ ',' := by
    refine ⟨?_, ?_, ?_, ?_⟩
    · rcases Bool.or_eq_true_iff.mp isLetter with alphanumeric | underscore
      · obtain ⟨above, below⟩ := code_of_isAlphanum alphanumeric
        exact isBlank_eq_false_of_code above below
      · rw [of_decide_eq_true underscore]
        decide
    all_goals
      rintro rfl
      exact absurd isLetter (by decide)
  have identifierChars {cs : List Char} (identifier : isIdentifier cs = true) :
      ∀ c ∈ cs, isBlank c = false ∧ c ≠ '[' ∧ c ≠ ']' ∧ c ≠ ',' := by
    cases cs with
    | nil => exact List.forall_mem_nil _
    | cons first others =>
      rw [isIdentifier, Bool.and_eq_true, List.all_eq_true] at identifier
      refine List.forall_mem_cons.mpr ⟨letter ?_, fun c mem => letter (identifier.2 c mem)⟩
      rcases Bool.or_eq_true_iff.mp identifier.1 with alphabetic | underscore
      · exact Bool.or_eq_true_iff.mpr (.inl (Bool.or_eq_true_iff.mpr (.inl alphabetic)))
      · exact Bool.or_eq_true_iff.mpr (.inr underscore)
  cases named with
  | plain identifier => exact identifierChars identifier
  | hidden identifier =>
    exact List.forall_mem_cons.mpr ⟨by decide, identifierChars identifier⟩

theorem exists_ofChars_iff {cs : List Char} :
    (∃ symbol, SymbolName.ofChars cs = .ok symbol) ↔ IsName (trimBy isBlank cs) := by
  have decided {name : List Char} {hidden : Bool} {failure : Failure} :
      (∃ symbol, (if isIdentifier name then .ok ⟨String.ofList name, hidden⟩
        else .error failure : Except Failure SymbolName) = .ok symbol) ↔
          isIdentifier name = true := by
    split
    · next identifier => exact iff_of_true ⟨_, rfl⟩ identifier
    · next other => exact iff_of_false nofun other
  rw [SymbolName.ofChars]
  generalize trimBy isBlank cs = trimmed
  dsimp only
  split
  · next _ name =>
      refine decided.trans ⟨.hidden, ?_⟩
      generalize marked : '^' :: name = cs
      intro named
      cases named with
      | plain identifier =>
        rw [← marked] at identifier
        exact absurd identifier Bool.false_ne_true
      | hidden identifier =>
        cases marked
        exact identifier
  · next unmarked =>
      refine decided.trans ⟨.plain, ?_⟩
      intro named
      cases named with
      | plain identifier => exact identifier
      | @hidden name identifier => exact absurd rfl (unmarked name)

end Names

section Variables

variable {depth : Nat} {text part : List Char} {parts : List (List Char)}

theorem uncut_of_plain (depth : Nat) {piece : List Char}
    (plain : ∀ c ∈ piece, c ≠ '[' ∧ c ≠ ']' ∧ c ≠ ',') : Uncut depth piece depth := by
  induction piece with
  | nil => exact .nil depth
  | cons c piece ih =>
    obtain ⟨first, others⟩ := List.forall_mem_cons.mp plain
    exact .char first.1 first.2.1 (fun comma => absurd comma first.2.2)
      (ih others)

theorem Balanced.uncut {inner : List Char} (balanced : Balanced inner) (depth : Nat) :
    Uncut (depth + 1) inner (depth + 1) := by
  induction balanced generalizing depth with
  | nil => exact .nil _
  | char noOpener noCloser balanced ih =>
    exact .char noOpener noCloser (fun _ => Nat.succ_ne_zero depth) (ih depth)
  | brackets inside balanced insideUncut restUncut =>
    exact .opener ((insideUncut (depth + 1)).append (.closer (restUncut depth)))

theorem IsVariable.uncut (isVariable : IsVariable text) : Uncut 0 text 0 := by
  cases isVariable with
  | name named => exact uncut_of_plain 0 fun c mem => (named.chars c mem).2
  | subscripted named balanced =>
    rw [List.append_assoc]
    exact (uncut_of_plain 0 fun c mem => (named.chars c mem).2).append
      (.opener ((balanced.uncut 0).append (.closer (.nil 0))))

theorem IsVariable.isRead (isVariable : IsVariable text) : IsRead text := by
  cases isVariable with
  | name named => exact .name named
  | @subscripted name inner named balanced =>
    have read : IsRead (name ++ [] ++ '[' :: inner ++ [']']) :=
      .bracketed named (List.forall_mem_nil _)
    rwa [List.append_nil] at read

theorem plain_of_isBlank {c : Char} (blank : isBlank c = true) : c ≠ '[' ∧ c ≠ ']' ∧ c ≠ ',' := by
  refine ⟨?_, ?_, ?_⟩ <;>
  · rintro rfl
    exact absurd blank (by decide)

theorem uncut_of_isVariable_trimBy (isVariable : IsVariable (trimBy isBlank part)) :
    Uncut 0 part 0 := by
  obtain ⟨front, back, split, frontBlank, backBlank⟩ := exists_trimBy isBlank part
  have frontUncut := uncut_of_plain 0 fun c mem => plain_of_isBlank (frontBlank c mem)
  have backUncut := uncut_of_plain 0 fun c mem => plain_of_isBlank (backBlank c mem)
  rw [split]
  exact (frontUncut.append isVariable.uncut).append backUncut

theorem IsName.trimBy_append (named : IsName text) {blanks : List Char}
    (blank : ∀ c ∈ blanks, isBlank c = true) : trimBy isBlank (text ++ blanks) = text :=
  Text.trimBy_append [] named.ne_nil (List.forall_mem_nil _) blank
    (fun c first => (named.chars c (List.mem_of_head? first)).1)
    fun c last => (named.chars c (List.mem_of_getLast? last)).1

theorem takeWhile_of_bracket {before : List Char} (plain : ∀ c ∈ before, c ≠ '[')
    (rest : List Char) :
    (before ++ '[' :: rest).takeWhile (· ≠ '[') = before :=
  takeWhile_append_eq (fun c mem => decide_eq_true (plain c mem)) fun c first => by
    cases first
    rfl

/-- The test that is made of a part tells whether it is read. -/
theorem isRead_iff (trimmed : trimBy isBlank text = text) :
    IsRead text ↔
      ((text.takeWhile (· ≠ '[')).length < text.length → text.getLast? = some ']') ∧
        IsName (trimBy isBlank (text.takeWhile (· ≠ '['))) := by
  constructor
  · intro read
    cases read with
    | name named =>
      have whole : text.takeWhile (· ≠ '[') = text :=
        List.takeWhile_eq_self_iff.mpr fun c mem =>
          decide_eq_true (named.chars c mem).2.1
      rw [whole, trimmed]
      exact ⟨fun shorter => absurd shorter (Nat.lt_irrefl _), named⟩
    | @bracketed name blanks inner named blank =>
      have plain : ∀ c ∈ name ++ blanks, c ≠ '[' := List.forall_mem_append.mpr
        ⟨fun c mem => (named.chars c mem).2.1,
          fun c mem => (plain_of_isBlank (blank c mem)).1⟩
      have base := takeWhile_of_bracket plain (inner ++ [']'])
      rw [← List.cons_append, ← List.append_assoc] at base
      rw [base, named.trimBy_append blank]
      exact ⟨fun _ => List.getLast?_concat, named⟩
  · rintro ⟨closes, named⟩
    have split := List.takeWhile_append_dropWhile (p := (· ≠ '[')) (l := text)
    have stops {c : Char} : (text.dropWhile (· ≠ '[')).head? = some c → decide (c ≠ '[') = false :=
      head?_dropWhile_eq_false
    generalize text.takeWhile (· ≠ '[') = base at closes named split
    generalize text.dropWhile (· ≠ '[') = behind at split stops
    subst split
    cases behind with
    | nil =>
      rw [List.append_nil] at trimmed ⊢
      rw [trimmed] at named
      exact .name named
    | cons opener rest =>
      obtain rfl : opener = '[' := by simpa using stops rfl
      obtain ⟨blanks, base_eq, blank⟩ := exists_eq_trimBy_append trimmed
      have last := closes (by simp)
      rcases List.eq_nil_or_concat rest with rfl | ⟨inner, closer, rfl⟩
      · rw [List.getLast?_concat] at last
        cases last
      · rw [List.concat_eq_append, ← List.cons_append, ← List.append_assoc] at last ⊢
        rw [List.getLast?_concat] at last
        cases last
        rw [base_eq]
        exact .bracketed named blank

theorem parseVariable_eq_ok_iff {name : String} :
    parseVariable part = .ok name ↔
      IsRead (trimBy isBlank part) ∧ name = String.ofList (trimBy isBlank part) := by
  rw [isRead_iff (trimBy_trimBy isBlank part), ← exists_ofChars_iff, parseVariable]
  dsimp only
  split
  · next unclosed =>
      rw [Bool.and_eq_true, decide_eq_true_eq, decide_eq_true_eq] at unclosed
      exact iff_of_false nofun fun read => unclosed.2 (read.1.1 unclosed.1)
  · next closed =>
      rw [Bool.and_eq_true, decide_eq_true_eq, decide_eq_true_eq, not_and, not_not] at closed
      rw [and_iff_right closed]
      cases SymbolName.ofChars ((trimBy isBlank part).takeWhile (· ≠ '[')) with
      | error failure => exact iff_of_false nofun nofun
      | ok symbol =>
        rw [and_iff_right ⟨symbol, rfl⟩]
        change Except.ok _ = Except.ok name ↔ _
        rw [Except.ok.injEq]
        exact eq_comm

theorem mapM_parseVariable_eq_ok_iff {names : List String} :
    parts.mapM parseVariable = .ok names ↔
      (∀ part ∈ parts, IsRead (trimBy isBlank part)) ∧
        names = parts.map fun part => String.ofList (trimBy isBlank part) := by
  induction parts generalizing names with
  | nil =>
    change Except.ok [] = Except.ok names ↔ _
    rw [Except.ok.injEq, and_iff_right (List.forall_mem_nil _)]
    exact eq_comm
  | cons part parts ih =>
    rw [List.mapM_cons, List.forall_mem_cons]
    constructor
    · intro returned
      cases first : parseVariable part with
      | error failure =>
        rw [first] at returned
        cases returned
      | ok name =>
        cases rest : parts.mapM parseVariable with
        | error failure =>
          rw [first, rest] at returned
          cases returned
        | ok others =>
          rw [first, rest] at returned
          cases returned
          obtain ⟨read, rfl⟩ := parseVariable_eq_ok_iff.mp first
          obtain ⟨allRead, rfl⟩ := ih.mp rest
          exact ⟨⟨read, allRead⟩, rfl⟩
    · rintro ⟨⟨read, allRead⟩, rfl⟩
      rw [parseVariable_eq_ok_iff.mpr ⟨read, rfl⟩, ih.mpr ⟨allRead, rfl⟩]
      rfl

end Variables

/-! ## Reading -/

section Lists

variable {text : String} {names : List String}

theorem parseVariableList_eq_ok_iff :
    parseVariableList text = .ok names ↔
      ∃ parts, Cut text.toList parts ∧ (∀ part ∈ parts, IsRead (trimBy isBlank part)) ∧
        names = parts.map fun part => String.ofList (trimBy isBlank part) := by
  rw [parseVariableList]
  cases split : splitOutside? 0 [] text.toList with
  | none =>
    refine iff_of_false nofun ?_
    rintro ⟨parts, cut, -⟩
    rw [cut.splitOutside?] at split
    cases split
  | some parts =>
    constructor
    · intro read
      exact ⟨parts, splitOutside?_eq_some_iff.mp split, mapM_parseVariable_eq_ok_iff.mp read⟩
    · rintro ⟨others, cut, read⟩
      rw [cut.splitOutside?] at split
      cases split
      exact mapM_parseVariable_eq_ok_iff.mpr read

theorem ListsVariables.parseVariableList (lists : ListsVariables text names) :
    parseVariableList text = .ok names := by
  obtain ⟨parts, nonempty, text_eq, names_eq, allVariables⟩ := lists
  refine parseVariableList_eq_ok_iff.mpr
    ⟨parts, ?_, fun part mem => (allVariables part mem).isRead, names_eq⟩
  rw [text_eq]
  exact cut_intercalate nonempty fun part mem =>
    uncut_of_isVariable_trimBy (allVariables part mem)

theorem listsVariables_of_read (read : Model.parseVariableList text = .ok names)
    (allVariables : ∀ name ∈ names, IsVariable name.toList) : ListsVariables text names := by
  obtain ⟨parts, cut, -, rfl⟩ := parseVariableList_eq_ok_iff.mp read
  refine ⟨parts, cut.ne_nil, cut.intercalate, rfl, fun part mem => ?_⟩
  have isVariable := allVariables _ (List.mem_map_of_mem mem)
  rwa [String.toList_ofList] at isVariable

theorem ListsVariables.allVariables (lists : ListsVariables text names) :
    ∀ name ∈ names, IsVariable name.toList := by
  obtain ⟨parts, -, -, rfl, allVariables⟩ := lists
  intro name mem
  obtain ⟨part, partMember, rfl⟩ := List.mem_map.mp mem
  rw [String.toList_ofList]
  exact allVariables part partMember

/-- A text is read if and only if it can be cut at the commas outside brackets into parts that are
each a name, or a name with something in brackets up to the end. The lists of variables are those
texts that are read as variables only. -/
theorem variable_lists_read_iff (text : String) (names : List String) :
    (ListsVariables text names ↔
      parseVariableList text = .ok names ∧ ∀ name ∈ names, IsVariable name.toList) ∧
    (parseVariableList text = .ok names ↔
      ∃ parts, Cut text.toList parts ∧ (∀ part ∈ parts, IsRead (trimBy isBlank part)) ∧
        names = parts.map fun part => String.ofList (trimBy isBlank part)) :=
  ⟨⟨fun lists => ⟨lists.parseVariableList, lists.allVariables⟩,
    fun read => listsVariables_of_read read.1 read.2⟩, parseVariableList_eq_ok_iff⟩

/-- Two subscripts, and what stands between them, are read as one variable. -/
theorem two_subscripts_read :
    parseVariableList "x[1]+y[2]" = .ok ["x[1]+y[2]"] ∧
      ∀ names, ¬ListsVariables "x[1]+y[2]" names := by
  have read : parseVariableList "x[1]+y[2]" = .ok ["x[1]+y[2]"] := by decide +kernel
  refine ⟨read, fun names lists => ?_⟩
  have isVariable : IsVariable "x[1]+y[2]".toList := by
    have same := lists.parseVariableList.symm.trans read
    cases same
    exact lists.allVariables _ List.mem_cons_self
  generalize text_eq : "x[1]+y[2]".toList = text at isVariable
  cases isVariable with
  | name named =>
    rw [← text_eq] at named
    exact (named.chars '[' (by decide)).2.1 rfl
  | @subscripted name inner named balanced =>
    have bases := congrArg (List.takeWhile (· ≠ '[')) text_eq
    rw [List.append_assoc, List.cons_append,
      takeWhile_of_bracket fun c mem => (named.chars c mem).2.1] at bases
    obtain rfl : ['x'] = name := bases
    have inners := congrArg (fun cs => (cs.drop 2).dropLast) text_eq
    obtain rfl : "1]+y[2".toList = inner := by
      simpa using inners
    -- what the first bracket opens is closed before the end
    cases balanced with
    | char _ _ balanced =>
      cases balanced with
      | char _ noCloser _ => exact noCloser rfl

end Lists

end Model

end ModelWeaver
