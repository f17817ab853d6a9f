import ModelWeaver.Proofs.Snippet.PrinterInverse
import ModelWeaver.Proofs.Text.Digits
import ModelWeaver.Proofs.Value.Parts
import ModelWeaver.Snippet.Evaluate

/-!
# Values are read back from their text

The text of a value inside another one, `repr`, is an expression of the snippet language. If the
value has no floats and no callables, reading that text and evaluating the tree gives the value
again. The tokens of the text are those of the literal of the value, the expression that writes it
down, so that the parser reads them as that literal.
-/

namespace ModelWeaver

namespace Snippet

open Number
open Text

/-! ## The tokens of a text -/

/-- The tokens that the lexer reads from a text inside an expression. -/
inductive Lexes : List Char → List Token → Prop
  | nil : Lexes [] []
  | skip {c : Char} {text : List Char} {extent : Nat} {tokens : List Token} :
      Lexer.step false c text = .skip extent → Lexes (text.drop extent) tokens →
        Lexes (c :: text) tokens
  | token {c : Char} {text : List Char} {token : Token} {extent : Nat} {tokens : List Token} :
      Lexer.step false c text = .token token extent → Lexes (text.drop extent) tokens →
        Lexes (c :: text) (token :: tokens)

theorem Lexes.lexFrom {text : List Char} {tokens : List Token} (lexes : Lexes text tokens)
    (offset depth : Nat) (separated : Bool) :
    ∃ lexemes, Lexer.lexFrom false offset depth separated text = .ok lexemes ∧
      lexemes.map Lexeme.token = tokens := by
  induction lexes generalizing offset depth separated with
  | nil =>
    rw [Lexer.lexFrom]
    exact ⟨[], rfl, rfl⟩
  | skip found _ ih =>
    rw [Lexer.lexFrom, Bool.false_and, Bool.false_and, found]
    exact ih _ _ _
  | @token c text token extent tokens found _ ih =>
    obtain ⟨lexemes, read, same⟩ := ih (offset + byteLength (c :: text.take extent))
      (Lexer.depthAfter depth token) (Lexer.isSeparator token)
    rw [Lexer.lexFrom, Bool.false_and, Bool.false_and, found]
    refine ⟨⟨token, offset, offset + byteLength (c :: text.take extent)⟩ :: lexemes, ?_,
      congrArg (token :: ·) same⟩
    change (Lexer.lexFrom _ _ _ _ _ >>= _) = _
    rw [read]
    rfl

/-- A text that does not go on with a word or a number. -/
def Delimited (rest : List Char) : Prop :=
  ∀ c ∈ rest.head?, c ∈ [',', ':', ')', ']', '}']

/-- Before a delimiter, a text gives certain tokens and leaves what follows as it is. -/
def Spells (text : List Char) (tokens : List Token) : Prop :=
  ∀ ⦃rest : List Char⦄ ⦃more : List Token⦄,
    Delimited rest → Lexes rest more → Lexes (text ++ rest) (tokens ++ more)

variable {rest : List Char} {more : List Token} {value : Int64}

theorem Lexes.blank (lexes : Lexes rest more) : Lexes (' ' :: rest) more :=
  .skip rfl lexes

theorem Lexes.symbol {c : Char} {token : Token} (found : Lexer.step false c rest = .token token 0)
    (lexes : Lexes rest more) : Lexes (c :: rest) (token :: more) :=
  .token found lexes

theorem Lexes.chunk {c : Char} {text : List Char} {token : Token}
    (found : Lexer.step false c (text ++ rest) = .token token text.length)
    (lexes : Lexes rest more) : Lexes (c :: (text ++ rest)) (token :: more) :=
  .token found (by rwa [List.drop_left])

/-! ## Words -/

theorem eq_false_of_delimited {test : Char → Bool} {c : Char} {rest : List Char}
    (stops : [',', ':', ')', ']', '}'].all (!test ·) = true) (delimited : Delimited (c :: rest)) :
    test c = false := by
  have passes := List.all_eq_true.mp stops c (delimited c rfl)
  rwa [Bool.not_eq_true'] at passes

theorem takeWhile_append_delimited {keep : Char → Bool} {run rest : List Char}
    (kept : ∀ c ∈ run, keep c = true) (delimited : Delimited rest)
    (stops : [',', ':', ')', ']', '}'].all (!keep ·) = true) :
    (run ++ rest).takeWhile keep = run := by
  apply takeWhile_append_eq kept
  cases rest with
  | nil => exact fun _ none => absurd none (Option.not_mem_none _)
  | cons c rest =>
    rintro _ ⟨⟩
    exact eq_false_of_delimited stops delimited

theorem spells_word {c : Char} {word : List Char}
    (found : ∀ text, Lexer.step false c text =
      .token (.ofWord (String.ofList (c :: text.takeWhile fun c => isAlphanumeric c || c = '_')))
        (text.takeWhile fun c => isAlphanumeric c || c = '_').length)
    (letters : word.all (fun d => isAlphanumeric d || d = '_') = true) :
    Spells (c :: word) [.ofWord (String.ofList (c :: word))] := by
  intro rest more delimited lexes
  refine Lexes.chunk ?_ lexes
  rw [found, takeWhile_append_delimited (List.all_eq_true.mp letters) delimited (by decide)]

/-! ## Texts in quotes -/

theorem stringBody?_quote (text rest : List Char) :
    Lexer.stringBody? '\'' (text.flatMap Value.quote.escape ++ '\'' :: rest) =
      some (text, (text.flatMap Value.quote.escape).length + 1) := by
  induction text with
  | nil =>
    change Lexer.stringBody? '\'' ('\'' :: rest) = _
    rw [Lexer.stringBody?.eq_def]
    exact if_pos rfl
  | cons c text ih =>
    rw [List.flatMap_cons, List.append_assoc]
    by_cases special : c = '\\' ∨ c = '\''
    · have escaped : Value.quote.escape c = ['\\', c] := by
        rcases special with rfl | rfl <;> rfl
      have back : Lexer.escape c = [c] := by rcases special with rfl | rfl <;> rfl
      rw [escaped, List.cons_append, List.singleton_append, Lexer.stringBody?.eq_def]
      change (Lexer.stringBody? _ _).map _ = _
      rw [ih, back]
      rfl
    · obtain ⟨notBackslash, notQuote⟩ := not_or.mp special
      have same : Value.quote.escape c = [c] := by
        simp [Value.quote.escape, notBackslash, notQuote]
      rw [same, List.singleton_append, Lexer.stringBody?.eq_def]
      change (if c = '\'' then _ else _) = _
      rw [if_neg notQuote, if_neg notBackslash, ih]
      rfl

theorem step_apostrophe (text : List Char) :
    Lexer.step false '\'' text =
      match Lexer.stringBody? '\'' text with
      | some (body, extent) => .token (.string (String.ofList body)) extent
      | none => .fault .unterminatedString text.length :=
  rfl

theorem spells_quote (text : String) : Spells (Value.quote text).toList [.string text] := by
  intro rest more _ lexes
  have found := stringBody?_quote text.toList rest
  rw [Value.quote, String.toList_ofList, List.cons_append]
  refine Lexes.chunk ?_ lexes
  rw [step_apostrophe, List.append_assoc, List.singleton_append, found, List.length_append]
  simp

/-! ## Numbers -/

theorem digitsValue_toDigits (n : Nat) : digitsValue (Nat.toDigits 10 n) = n :=
  Nat.ofDigitChars_ten_toDigits

theorem isDigit_of_mem_toDigits {n : Nat} {c : Char} (mem : c ∈ Nat.toDigits 10 n) :
    c.isDigit = true :=
  Nat.isDigit_of_mem_toDigits (by decide) (by decide) mem

/-- Digits before a delimiter are read as the integer they write. -/
theorem number_digits {digits : List Char} (isDigit : ∀ c ∈ digits, c.isDigit = true)
    (delimited : Delimited rest) (fits : int64? (digitsValue digits) = some value) :
    Lexer.number (digits ++ rest) = (.ok (.integer value), digits.length) := by
  have run : (digits ++ rest).takeWhile (fun c => c.isDigit || c = '_') = digits :=
    takeWhile_append_delimited (fun c mem => by simp [isDigit c mem]) delimited (by decide)
  have noPoint : ∀ more, rest ≠ '.' :: more := by
    rintro more rfl
    exact absurd (delimited '.' rfl) (by decide)
  have noExponent : Lexer.exponent? rest = none := by
    cases rest with
    | nil => rfl
    | cons c rest =>
      have apart : (c = 'e' || c = 'E') = false :=
        @eq_false_of_delimited (fun c => c = 'e' || c = 'E') c rest (by decide) delimited
      rw [Lexer.exponent?.eq_def]
      change (if (c = 'e' || c = 'E') = true then _ else none) = none
      rw [apart]
      rfl
  rw [Lexer.number, run, List.drop_left, List.filter_eq_self.mpr isDigit]
  split
  rename_i fraction pointed pointEq
  split at pointEq
  · exact absurd rfl (noPoint _)
  · cases pointEq
    rw [List.drop_zero, noExponent, if_pos rfl, fits]

theorem step_digit {c : Char} (isDigit : c.isDigit = true) (text : List Char) :
    Lexer.step false c text =
      match Lexer.number (c :: text) with
      | (.ok token, taken) => .token token (taken - 1)
      | (.error cause, taken) => .fault cause (taken - 1) := by
  have apart (d : Char) (notDigit : d.isDigit = false) : c ≠ d := by
    rintro rfl
    rw [isDigit] at notDigit
    cases notDigit
  have starts : Lexer.startsNumber c text = true := by rw [Lexer.startsNumber, isDigit]; rfl
  rw [Lexer.step]
  simp only [apart ' ' rfl, apart '\t' rfl, apart '\x0d' rfl, apart '\n' rfl, apart '\\' rfl,
    apart '#' rfl, apart '"' rfl, apart '\'' rfl, starts, decide_false, Bool.or_false,
    Bool.false_and, if_true]
  rfl

theorem spells_digits {n : Nat} (fits : int64? n = some value) :
    Spells (Nat.toDigits 10 n) [.integer value] := by
  intro rest more delimited lexes
  have isDigit {c : Char} := @isDigit_of_mem_toDigits n c
  rw [← digitsValue_toDigits n] at fits
  cases digits : Nat.toDigits 10 n with
  | nil => exact absurd digits Nat.toDigits_ne_nil
  | cons c text =>
    rw [digits] at isDigit fits
    refine Lexes.chunk ?_ lexes
    rw [step_digit (isDigit List.mem_cons_self), ← List.cons_append,
      number_digits (fun _ => isDigit) delimited fits]
    rfl

theorem step_minus (text : List Char) :
    Lexer.step false '-' text =
      match Lexer.operator? '-' text.head? with
      | some (token, extent) => .token token extent
      | none => .fault (.unexpectedCharacter '-') 0 :=
  rfl

theorem spells_minus_digits {n : Nat} (fits : int64? n = some value) :
    Spells ('-' :: Nat.toDigits 10 n) [.minus, .integer value] := by
  intro rest more delimited lexes
  have behind := spells_digits fits delimited lexes
  refine Lexes.symbol ?_ behind
  cases digits : Nat.toDigits 10 n with
  | nil => exact absurd digits Nat.toDigits_ne_nil
  | cons c text =>
    have isDigit : c.isDigit = true :=
      isDigit_of_mem_toDigits (digits ▸ List.mem_cons_self)
    have notEquals : c ≠ '=' := by
      rintro rfl
      cases isDigit
    rw [step_minus]
    simp [Lexer.operator?, notEquals]

theorem int64?_neg {n : Int64} (notLeast : n ≠ Int64.minValue) :
    int64? (-n.toInt) = some (-n) := by
  have low := n.le_toInt
  have high := n.toInt_lt
  have apart : n.toInt ≠ Int64.minValue.toInt := fun same => notLeast (Int64.toInt_inj.mp same)
  have least : Int64.minValue.toInt = -2 ^ 63 := rfl
  rw [int64?, if_pos ⟨by omega, by omega⟩, Int64.ofInt_neg, Int64.ofInt_toInt]

end Snippet

/-! ## Literals -/

namespace Value

open Snippet

mutual

/-- The expression that writes a value down. Negative numbers are written as negations. -/
def literal : Value → Expr
  | none => .none
  | bool value => .bool value
  | int value => if value.toInt < 0 then .unary .negation (.int (-value)) else .int value
  | float value => .float value
  | str text => .str text
  | list items => .list (literals items)
  | tuple items => .tuple (literals items)
  | dict entries => .dict (literalEntries entries)
  | builtin _ | method _ _ | command _ _ => .none
termination_by structural value => value

/-- The literals of values. -/
def literals : List Value → List Expr
  | [] => []
  | item :: items => literal item :: literals items
termination_by structural items => items

/-- The literals of keys and values. -/
def literalEntries : Entries → List (Expr × Expr)
  | [] => []
  | (key, value) :: entries => (literal key, literal value) :: literalEntries entries
termination_by structural entries => entries

end

theorem literals_eq_map (items : List Value) : literals items = items.map literal := by
  induction items with
  | nil => rfl
  | cons item items ih => exact congrArg (literal item :: ·) ih

theorem literalEntries_eq_map (entries : Entries) :
    literalEntries entries = entries.map fun entry => (entry.1.literal, entry.2.literal) := by
  induction entries with
  | nil => rfl
  | cons entry entries ih => exact congrArg ((entry.1.literal, entry.2.literal) :: ·) ih

/-- A value that can be written down on its own: neither a float nor callable, not the least
integer, whose digits do not fit in 64 bits without the sign, and without a key twice. -/
def QuotableHere : Value → Prop
  | none | bool _ | str _ | list _ | tuple _ => True
  | int value => value ≠ Int64.minValue
  | dict entries => KeysDiffer entries
  | float _ | builtin _ | method _ _ | command _ _ => False

instance : DecidablePred QuotableHere
  | none | bool _ | str _ | list _ | tuple _ => .isTrue trivial
  | int value => inferInstanceAs (Decidable (value ≠ Int64.minValue))
  | dict entries => inferInstanceAs (Decidable (KeysDiffer entries))
  | float _ | builtin _ | method _ _ | command _ _ => .isFalse id

/-- Values whose text can be read back. -/
def Quotable (value : Value) : Prop :=
  value.Everywhere QuotableHere

instance (value : Value) : Decidable value.Quotable :=
  inferInstanceAs (Decidable (value.Everywhere QuotableHere))

/-! ## The text of a literal -/

theorem reprs_eq (done : List String) (items : List Value) :
    reprs done items = done.reverse ++ items.map repr := by
  induction items generalizing done with
  | nil => exact (List.append_nil _).symm
  | cons item items ih =>
    refine (ih (repr item :: done)).trans ?_
    simp

/-- The text of an entry of a dict. -/
def entryRepr (entry : Value × Value) : String :=
  entry.1.repr ++ ": " ++ entry.2.repr

theorem entryReprs_eq (done : List String) (entries : Entries) :
    entryReprs done entries = done.reverse ++ entries.map entryRepr := by
  induction entries generalizing done with
  | nil => exact (List.append_nil _).symm
  | cons entry entries ih =>
    refine (ih (entryRepr entry :: done)).trans ?_
    simp

theorem repr_list_toList (items : List Value) :
    (list items).repr.toList =
      '[' :: ([',', ' '].intercalate (items.map fun item => item.repr.toList) ++ [']']) := by
  change ("[" ++ ", ".intercalate (reprs [] items) ++ "]").toList = _
  rw [reprs_eq]
  simp [List.map_map, Function.comp_def]

theorem repr_tuple_toList (items : List Value) :
    (tuple items).repr.toList =
      '(' :: ([',', ' '].intercalate (items.map fun item => item.repr.toList) ++
        (if items.length = 1 then [','] else []) ++ [')']) := by
  change ("(" ++ ", ".intercalate (reprs [] items) ++
    if items.length = 1 then ",)" else ")").toList = _
  rw [reprs_eq]
  split <;> simp [List.map_map, Function.comp_def]

theorem repr_dict_toList (entries : Entries) :
    (dict entries).repr.toList =
      '{' :: ([',', ' '].intercalate (entries.map fun entry => (entryRepr entry).toList) ++
        ['}']) := by
  change ("\x7b" ++ ", ".intercalate (entryReprs [] entries) ++ "\x7d").toList = _
  rw [entryReprs_eq]
  simp [List.map_map, Function.comp_def]

/-! ## The tokens of a literal -/

theorem delimited_cons {c : Char} (delimiter : c ∈ [',', ':', ')', ']', '}'])
    (rest : List Char) : Delimited (c :: rest) := by
  rintro _ ⟨⟩
  exact delimiter

/-- Texts joined by a comma and a blank give the tokens of each, with commas between them. -/
theorem spells_joined {α : Type} {text : α → List Char} {print : α → List Token}
    {items : List α} (spells : ∀ item ∈ items, Spells (text item) (print item)) :
    Spells ([',', ' '].intercalate (items.map text)) (separated (items.map print)) := by
  induction items with
  | nil => exact fun _ _ _ lexes => lexes
  | cons item items ih =>
    obtain ⟨first, others⟩ := List.forall_mem_cons.mp spells
    intro rest more delimited lexes
    cases items with
    | nil =>
      have read := first delimited lexes
      simpa [separated] using read
    | cons second items =>
      have behind := (ih others delimited lexes).blank
      have read := first (delimited_cons (by decide) _) (behind.symbol (c := ',') rfl)
      simpa [separated] using read

theorem spells_entry {entry : Value × Value}
    (key : Spells entry.1.repr.toList (entry.1.literal.print 19))
    (value : Spells entry.2.repr.toList (entry.2.literal.print 19)) :
    Spells (entryRepr entry).toList (Expr.printEntry 19 (entry.1.literal, entry.2.literal)) := by
  intro rest more delimited lexes
  have behind := (value delimited lexes).blank
  have read := key (delimited_cons (by decide) _) (behind.symbol (c := ':') rfl)
  simpa [entryRepr, Expr.printEntry] using read

theorem spells_int {n : Int64} (notLeast : n ≠ Int64.minValue) :
    Spells (int n).repr.toList ((int n).literal.print 19) := by
  change Spells (toString n.toInt).toList
    (Expr.print 19 (if n.toInt < 0 then .unary .negation (.int (-n)) else .int n))
  have fits : Number.int64? n.toInt = some n := Number.int64?_eq_some_iff.mpr rfl
  have fits' := int64?_neg notLeast
  cases sign : n.toInt with
  | ofNat k =>
    rw [sign] at fits
    rw [if_neg (show ¬Int.ofNat k < 0 from Int.not_lt.mpr (Int.natCast_nonneg k))]
    rw [toList_toString_ofNat]
    exact spells_digits fits
  | negSucc k =>
    rw [sign] at fits'
    rw [if_pos (Int.negSucc_lt_zero k)]
    rw [toList_toString_negSucc]
    exact spells_minus_digits fits'

theorem spells_bracketed {opening closing : Char} {openToken closeToken : Token}
    {text : List Char} {tokens : List Token} (spells : Spells text tokens)
    (opens : ∀ rest, Lexer.step false opening rest = .token openToken 0)
    (closes : ∀ rest, Lexer.step false closing rest = .token closeToken 0)
    (delimiter : closing ∈ [',', ':', ')', ']', '}']) :
    Spells (opening :: (text ++ [closing])) (openToken :: (tokens ++ [closeToken])) := by
  intro rest more _ lexes
  have read := spells (delimited_cons delimiter rest) (lexes.symbol (closes rest))
  simpa using read.symbol (opens _)

theorem spells_comma {text : List Char} {tokens : List Token} (spells : Spells text tokens) :
    Spells (text ++ [',']) (tokens ++ [.comma]) := by
  intro rest more _ lexes
  have read := spells (delimited_cons (by decide) rest) (lexes.symbol (c := ',') rfl)
  simpa using read

theorem print_literal_list (items : List Value) :
    (list items).literal.print 19 =
      .lBracket :: (separated (items.map fun item => item.literal.print 19) ++ [.rBracket]) := by
  change Token.lBracket :: (separated (Expr.printAll 19 (literals items)) ++ _) = _
  rw [Expr.printAll_eq_map, literals_eq_map, List.map_map]
  rfl

theorem print_literal_tuple (items : List Value) :
    (tuple items).literal.print 19 =
      .lParen :: (tupled (items.map fun item => item.literal.print 19) ++ [.rParen]) := by
  change Token.lParen :: (tupled (Expr.printAll 19 (literals items)) ++ _) = _
  rw [Expr.printAll_eq_map, literals_eq_map, List.map_map]
  rfl

theorem print_literal_dict (entries : Entries) :
    (dict entries).literal.print 19 =
      .lBrace :: (separated (entries.map fun entry =>
        Expr.printEntry 19 (entry.1.literal, entry.2.literal)) ++ [.rBrace]) := by
  change Token.lBrace :: (separated (Expr.printEntries 19 (literalEntries entries)) ++ _) = _
  rw [Expr.printEntries_eq_map, literalEntries_eq_map, List.map_map]
  rfl

theorem spells_tupled {items : List Value}
    (spells : ∀ item ∈ items, Spells item.repr.toList (item.literal.print 19)) :
    Spells ([',', ' '].intercalate (items.map fun item => item.repr.toList) ++
        if items.length = 1 then [','] else [])
      (tupled (items.map fun item => item.literal.print 19)) := by
  have joined := spells_joined spells
  match items with
  | [] => exact joined
  | [item] =>
    have single := spells_comma (spells item List.mem_cons_self)
    simpa [tupled] using single
  | first :: second :: items => simpa [tupled] using joined

/-- The text of a value consists of the tokens of its literal. -/
theorem Quotable.spells {value : Value} (quotable : value.Quotable) :
    Spells value.repr.toList (value.literal.print 19) := by
  induction (quotable : value.Everywhere QuotableHere) with
  | @mk value here _ ih =>
    cases value with
    | none => exact spells_word (fun _ => rfl) (by decide)
    | bool value =>
      cases value with
      | true => exact spells_word (fun _ => rfl) (by decide)
      | false => exact spells_word (fun _ => rfl) (by decide)
    | int n => exact spells_int here
    | str text => exact spells_quote text
    | list items =>
      rw [repr_list_toList, print_literal_list]
      exact spells_bracketed (spells_joined ih) (fun _ => rfl) (fun _ => rfl) (by decide)
    | tuple items =>
      rw [repr_tuple_toList, print_literal_tuple]
      exact spells_bracketed (spells_tupled ih) (fun _ => rfl) (fun _ => rfl) (by decide)
    | dict entries =>
      have within := forall_mem_parts_dict.mp ih
      have spells : ∀ entry ∈ entries, Spells (entryRepr entry).toList
          (Expr.printEntry 19 (entry.1.literal, entry.2.literal)) :=
        fun entry mem => spells_entry (within entry mem).1 (within entry mem).2
      rw [repr_dict_toList, print_literal_dict]
      exact spells_bracketed (spells_joined spells) (fun _ => rfl) (fun _ => rfl) (by decide)
    | float _ | builtin _ | method _ _ | command _ _ => exact here.elim

/-! ## Reading a literal -/

/-- Reading a literal takes a level for each container, and one for the sign of a number. -/
theorem nesting_literal_le (value : Value) : value.literal.nesting 19 ≤ value.nesting + 1 := by
  induction everywhere_of_forall (fun _ => trivial : ∀ _ : Value, True) value with
  | @mk value _ _ ih =>
    cases value with
    | list items | tuple items =>
      change Expr.nestingAll 19 (literals items) ≤ nestingAll items + 1 + 1
      rw [literals_eq_map, Expr.nestingAll_le_iff, List.forall_mem_map]
      intro item mem
      have within := nestingAll_le_iff.mp (Nat.le_refl (nestingAll items)) item mem
      have inner := ih item mem
      omega
    | dict entries =>
      change Expr.nestingEntries 19 (literalEntries entries) ≤ nestingEntries entries + 1 + 1
      rw [literalEntries_eq_map, Expr.nestingEntries_le_iff, List.forall_mem_map]
      intro entry mem
      have within := nestingEntries_le_iff.mp (Nat.le_refl _) entry mem
      have inner := forall_mem_parts_dict.mp ih entry mem
      change entry.1.literal.nesting 19 < _ ∧ entry.2.literal.nesting 19 < _
      omega
    | int n =>
      change Expr.nesting 19 (if n.toInt < 0 then _ else _) ≤ 1
      split
      · exact Nat.le_refl 1
      · exact Nat.zero_le 1
    | _ => exact Nat.zero_le _

theorem writable_literal (value : Value) : value.literal.Writable := by
  induction everywhere_of_forall (fun _ => trivial : ∀ _ : Value, True) value with
  | @mk value _ _ ih =>
    cases value with
    | list items | tuple items =>
      refine ⟨trivial, ?_⟩
      change ∀ part ∈ literals items, part.Writable
      rw [literals_eq_map, List.forall_mem_map]
      exact ih
    | dict entries =>
      have within := forall_mem_parts_dict.mp ih
      refine ⟨trivial, ?_⟩
      change ∀ part : Expr,
        part ∈ (literalEntries entries).flatMap (fun entry => [entry.1, entry.2]) →
          part.Writable
      rw [literalEntries_eq_map, List.forall_mem_flatMap, List.forall_mem_map]
      intro entry mem
      simpa using within entry mem
    | int n =>
      change Expr.Writable (if n.toInt < 0 then _ else _)
      have positive (m : Int64) : (Expr.int m).Writable := ⟨trivial, List.forall_mem_nil _⟩
      split
      · exact ⟨trivial, List.forall_mem_singleton.mpr (positive _)⟩
      · exact positive n
    | _ => exact ⟨trivial, List.forall_mem_nil _⟩

theorem exists_parse_repr {value : Value} (quotable : value.Quotable)
    (fits : value.nesting + 1 < maxNesting) (base : Nat) :
    ∃ tree, parseExpression base value.repr = .ok tree ∧ tree.shape = value.literal.shape := by
  have lexes : Lexes value.repr.toList (value.literal.print 19) := by
    simpa using quotable.spells (by simp [Delimited]) Lexes.nil
  obtain ⟨lexemes, lexed, printed⟩ := lexes.lexFrom base 0 true
  exact parseExpression_of_print (by decide) (writable_literal value)
    (Nat.lt_of_le_of_lt (nesting_literal_le value) fits) lexed printed

/-! ## Evaluating a literal -/

/-- Trees with the shape of the literal of a value have that value, and evaluating them changes
nothing. -/
def Denoted (depth : Nat) (session : Session) (value : Value) : Prop :=
  ∀ tree : Expr, tree.shape = value.literal.shape →
    Snippet.eval depth tree session = .ok value session

section Evaluation

variable {depth : Nat} {session : Session} {items : List Value}

theorem evalAll_of_shapes {trees : List Expr} (denoted : ∀ item ∈ items, Denoted depth session item)
    (same : trees.map Expr.shape = (literals items).map Expr.shape) :
    evalAll depth trees session = .ok items session := by
  rw [literals_eq_map, List.map_map] at same
  induction items generalizing trees with
  | nil =>
    rw [List.map_eq_nil_iff.mp same]
    rfl
  | cons item items ih =>
    obtain ⟨tree, trees, rfl, first, others⟩ := List.map_eq_cons_iff.mp same
    obtain ⟨denotedFirst, denotedOthers⟩ := List.forall_mem_cons.mp denoted
    change EStateM.bind (eval depth tree) _ session = _
    rw [EStateM.bind, denotedFirst tree first]
    change EStateM.bind (evalAll depth trees) _ session = _
    rw [EStateM.bind, ih denotedOthers others]
    rfl

/-- Entries are put behind those that are there, as their keys differ. -/
theorem evalEntries_of_shapes {entries done : Entries} {trees : List (Expr × Expr)}
    (denoted : ∀ entry ∈ entries, Denoted depth session entry.1 ∧ Denoted depth session entry.2)
    (same : trees.map Expr.shapeEntry = (literalEntries entries).map Expr.shapeEntry)
    (differ : KeysDiffer (done ++ entries)) :
    evalEntries depth done trees session = .ok (done ++ entries) session := by
  rw [literalEntries_eq_map, List.map_map] at same
  induction entries generalizing trees done with
  | nil =>
    rw [List.map_eq_nil_iff.mp same, List.append_nil]
    rfl
  | cons entry entries ih =>
    obtain ⟨⟨keyTree, valueTree⟩, trees, rfl, first, others⟩ := List.map_eq_cons_iff.mp same
    obtain ⟨sameKey, sameValue⟩ := Prod.mk.inj first
    obtain ⟨⟨denotedKey, denotedValue⟩, denotedOthers⟩ := List.forall_mem_cons.mp denoted
    have absent : ∀ other ∈ done, (other.1 == entry.1) = false := fun other mem =>
      (List.pairwise_append.mp differ).2.2 other mem entry List.mem_cons_self
    change EStateM.bind (eval depth keyTree) _ session = _
    rw [EStateM.bind, denotedKey keyTree sameKey]
    change EStateM.bind (eval depth valueTree) _ session = _
    rw [EStateM.bind, denotedValue valueTree sameValue]
    change evalEntries depth (insertEntry done entry.1 entry.2) trees session = _
    rw [insertEntry_of_absent entry.2 absent]
    have rest := @ih (done ++ [entry]) trees denotedOthers others (by rwa [← List.append_cons])
    rwa [← List.append_cons] at rest

theorem applyUnary_negation_neg {n : Int64} (notLeast : n ≠ Int64.minValue) :
    applyUnary .negation (.int (-n)) = .ok (.int n) := by
  have notLeast' : -n ≠ Int64.minValue := by
    intro least
    rw [← @Int64.neg_neg n, least] at notLeast
    exact notLeast rfl
  change exactly (-(-n).toInt) = _
  rw [exactly, int64?_neg notLeast', Int64.neg_neg]

theorem eval_of_shape_int {n : Int64} {tree : Expr} (shallow : depth ≤ maxDepth)
    (same : tree.shape = .int n) : Snippet.eval depth tree session = .ok (.int n) session := by
  rw [Snippet.eval.eq_def, if_neg (Nat.not_lt.mpr shallow)]
  cases tree with
  | int m =>
    cases same
    rfl
  | _ => cases same

theorem denoted_int {n : Int64} (notLeast : n ≠ Int64.minValue) (fits : depth < maxDepth) :
    Denoted depth session (int n) := by
  intro tree same
  change tree.shape = Expr.shape (if n.toInt < 0 then _ else _) at same
  split at same
  · cases tree with
    | unary op operand =>
      obtain ⟨rfl, sameOperand⟩ := Expr.unary.inj same
      rw [Snippet.eval.eq_def, if_neg (Nat.not_lt.mpr (Nat.le_of_lt fits))]
      change EStateM.bind (Snippet.eval (depth + 1) operand) _ session = _
      rw [EStateM.bind, eval_of_shape_int fits sameOperand]
      change (liftM (applyUnary .negation (.int (-n))) : Evaluating Value) session = _
      rw [applyUnary_negation_neg notLeast]
      rfl
    | _ => cases same
  · exact eval_of_shape_int (Nat.le_of_lt fits) same

theorem denoted_list (fits : depth < maxDepth)
    (denoted : ∀ item ∈ items, Denoted (depth + 1) session item) :
    Denoted depth session (list items) := by
  intro tree same
  rw [Snippet.eval.eq_def, if_neg (Nat.not_lt.mpr (Nat.le_of_lt fits))]
  cases tree with
  | list trees =>
    rw [literal, Expr.shape_list, Expr.shape_list] at same
    change EStateM.bind (evalAll (depth + 1) trees) _ session = _
    rw [EStateM.bind, evalAll_of_shapes denoted (Expr.list.inj same)]
    rfl
  | _ => cases same

theorem denoted_tuple (fits : depth < maxDepth)
    (denoted : ∀ item ∈ items, Denoted (depth + 1) session item) :
    Denoted depth session (tuple items) := by
  intro tree same
  rw [Snippet.eval.eq_def, if_neg (Nat.not_lt.mpr (Nat.le_of_lt fits))]
  cases tree with
  | tuple trees =>
    rw [literal, Expr.shape_tuple, Expr.shape_tuple] at same
    change EStateM.bind (evalAll (depth + 1) trees) _ session = _
    rw [EStateM.bind, evalAll_of_shapes denoted (Expr.tuple.inj same)]
    rfl
  | _ => cases same

theorem denoted_dict {entries : Entries} (fits : depth < maxDepth) (differ : KeysDiffer entries)
    (denoted : ∀ part ∈ (dict entries).parts, Denoted (depth + 1) session part) :
    Denoted depth session (dict entries) := by
  intro tree same
  rw [Snippet.eval.eq_def, if_neg (Nat.not_lt.mpr (Nat.le_of_lt fits))]
  cases tree with
  | dict trees =>
    rw [literal, Expr.shape_dict, Expr.shape_dict] at same
    change EStateM.bind (evalEntries (depth + 1) [] trees) _ session = _
    rw [EStateM.bind, @evalEntries_of_shapes _ _ entries [] trees (forall_mem_parts_dict.mp denoted)
      (Expr.dict.inj same) differ]
    rfl
  | _ => cases same

/-- A literal has the value that it writes down. -/
theorem Quotable.denoted {value : Value} (quotable : value.Quotable)
    (fits : depth + value.nesting < maxDepth) : Denoted depth session value := by
  induction (quotable : value.Everywhere QuotableHere) generalizing depth with
  | @mk value here _ ih =>
    have shallow : depth < maxDepth := by omega
    have within : ∀ part ∈ value.parts, Denoted (depth + 1) session part := by
      intro part mem
      have smaller := nesting_lt_of_mem_parts mem (by rintro receiver name rfl; exact here)
      exact ih part mem (by omega)
    cases value with
    | int n => exact denoted_int here shallow
    | list items => exact denoted_list shallow within
    | tuple items => exact denoted_tuple shallow within
    | dict entries => exact denoted_dict shallow here within
    | float _ | builtin _ | method _ _ | command _ _ => exact here.elim
    | none | bool _ | str _ =>
      intro tree same
      rw [Snippet.eval.eq_def, if_neg (Nat.not_lt.mpr (Nat.le_of_lt shallow))]
      cases tree <;> cases same
      all_goals rfl

end Evaluation

/-- A value without floats and callables, other than the least integer, whose dicts have
different keys is read back from its text: the text is parsed, and in every session the tree has
the value and changes nothing. -/
theorem evaluate_parse_repr (value : Value) (quotable : value.Quotable)
    (fits : value.nesting ≤ 62) (base : Nat) :
    ∃ tree, parseExpression base value.repr = .ok tree ∧
      ∀ session, evaluate tree session = .ok value session := by
  have shallow : value.nesting + 1 < maxNesting := by
    change _ < 64
    omega
  obtain ⟨tree, parsed, same⟩ := exists_parse_repr quotable shallow base
  refine ⟨tree, parsed, fun session => quotable.denoted ?_ tree same⟩
  change 0 + value.nesting < 256
  omega

/-- A dict with a tuple as a key, texts with quotes, backslashes and line ends, and tuples of one
item and of none. -/
def sampleQuotation : Value :=
  dict [(tuple [int (-7), str "it's"], list [str "a\\\nb", tuple [bool true], tuple []]),
    (none, dict [(str "", int 9223372036854775807)])]

theorem evaluate_parse_repr_sampleQuotation :
    ∃ tree, parseExpression 0 sampleQuotation.repr = .ok tree ∧
      ∀ session, evaluate tree session = .ok sampleQuotation session :=
  evaluate_parse_repr sampleQuotation (by decide) (by decide) 0

end Value

end ModelWeaver
