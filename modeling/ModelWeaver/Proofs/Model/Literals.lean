import ModelWeaver.Proofs.Model.DeclaredOnce
import ModelWeaver.Proofs.Text.Digits
import ModelWeaver.Proofs.Value.Equality

/-!
# Literals tell values apart

A literal ends where a comma or a closing bracket follows: numbers consist of digits and a sign,
the quotes of a text are doubled inside it, and brackets enclose the parts of a tuple. So a text
that begins with a literal tells which value it is the literal of, up to equality, and what follows
it. Floats are left out, because they may be written like integers that they do not equal. The
declaration of a set therefore tells its members apart as well.
-/

namespace ModelWeaver

namespace Model

variable {rest rest' : List Char}

def isCloser (c : Char) : Bool := c = ',' || c = ')' || c = ']' || c = '}'

/-- What may stand behind a literal: nothing, a comma or a closing bracket. -/
def Closing (rest : List Char) : Prop := ∀ c ∈ rest.head?, isCloser c = true

variable {c : Char}

theorem closing_cons (closer : isCloser c = true) (rest : List Char) : Closing (c :: rest) := by
  rintro _ ⟨⟩
  exact closer

/-! ## Numbers -/

/-- A character of a number. -/
def isNumeral (c : Char) : Bool := c.isDigit || c = '-'

theorem isNumeral_of_isCloser (closer : isCloser c = true) : isNumeral c = false := by
  simp only [isCloser, Bool.or_eq_true, decide_eq_true_eq] at closer
  rcases closer with ((rfl | rfl) | rfl) | rfl <;> rfl

theorem isNumeral_of_mem_toDigits {k : Nat} (mem : c ∈ Nat.toDigits 10 k) :
    isNumeral c = true := by
  rw [isNumeral, Nat.isDigit_of_mem_toDigits (by decide) (by decide) mem, Bool.true_or]

theorem isNumeral_of_mem_toString {n : Int} (mem : c ∈ (toString n).toList) :
    isNumeral c = true := by
  cases n with
  | ofNat k =>
    rw [toList_toString_ofNat] at mem
    exact isNumeral_of_mem_toDigits mem
  | negSucc k =>
    rw [toList_toString_negSucc] at mem
    rcases List.mem_cons.mp mem with rfl | later
    · rfl
    · exact isNumeral_of_mem_toDigits later

theorem exists_numeral_cons (n : Int) :
    ∃ c cs, (toString n).toList = c :: cs ∧ isNumeral c = true := by
  rcases List.exists_cons_of_ne_nil (toString_ne_nil n) with ⟨c, cs, digits⟩
  exact ⟨c, cs, digits, isNumeral_of_mem_toString (digits ▸ List.mem_cons_self)⟩

theorem number_append_ne_cons (n : Int) (other : isNumeral c = false) (rest rest' : List Char) :
    (toString n).toList ++ rest ≠ c :: rest' := by
  rcases exists_numeral_cons n with ⟨first, digits, digits_eq, numeral⟩
  rw [digits_eq, List.cons_append]
  intro same
  rw [(List.cons.inj same).1, other] at numeral
  exact Bool.false_ne_true numeral

theorem number_append_inj {m n : Int} (closing : Closing rest) (closing' : Closing rest')
    (same : (toString m).toList ++ rest = (toString n).toList ++ rest') : m = n ∧ rest = rest' := by
  have cut {k : Int} {rest : List Char} (closing : Closing rest) :
      ((toString k).toList ++ rest).takeWhile isNumeral = (toString k).toList :=
    takeWhile_append_eq (fun _ => isNumeral_of_mem_toString)
      fun c first => isNumeral_of_isCloser (closing c first)
  have numbers : (toString m).toList = (toString n).toList := by
    rw [← cut closing, same, cut closing']
  rw [numbers] at same
  exact ⟨toString_injective numbers, List.append_cancel_left same⟩

/-! ## Texts -/

theorem quote_ne_escaped {cs : List Char} (closing : Closing rest) :
    '\'' :: rest ≠ (c :: cs).flatMap quoteLiteral.escape ++ rest' := by
  intro same
  rw [List.flatMap_cons, List.append_assoc, quoteLiteral.escape] at same
  split at same
  · next quote =>
      subst quote
      cases same
      exact Bool.false_ne_true (closing '\'' rfl)
  · next other =>
      cases same
      exact other rfl

/-- A text ends at the first quote that is not doubled. -/
theorem quoted_append_inj {first second : List Char} (closing : Closing rest)
    (closing' : Closing rest')
    (same : first.flatMap quoteLiteral.escape ++ '\'' :: rest =
      second.flatMap quoteLiteral.escape ++ '\'' :: rest') : first = second ∧ rest = rest' := by
  induction first generalizing second with
  | nil =>
    cases second with
    | nil => exact ⟨rfl, (List.cons.inj same).2⟩
    | cons d ds => exact absurd same (quote_ne_escaped closing)
  | cons c cs ih =>
    cases second with
    | nil => exact absurd same.symm (quote_ne_escaped closing')
    | cons d ds =>
      rw [List.flatMap_cons, List.flatMap_cons, List.append_assoc, List.append_assoc,
        quoteLiteral.escape, quoteLiteral.escape] at same
      have heads : c = d := by
        split at same <;> split at same <;> exact (List.cons.inj same).1
      subst heads
      rcases ih (List.append_cancel_left same) with ⟨rfl, rest_eq⟩
      exact ⟨rfl, rest_eq⟩

/-! ## Literals -/

/-- The ways in which a value without floats can be written. -/
inductive Written : Value → List Char → Prop
  | number {value : Value} {n : Int64} (number : value.int? = some n) :
      Written value (toString n.toInt).toList
  | text (text : String) :
      Written (.str text) ('\'' :: (text.toList.flatMap quoteLiteral.escape ++ ['\'']))
  | tuple {items : List Value} {texts : List String} (written : literals items = .ok texts) :
      Written (.tuple items) ('(' :: ([','].intercalate (texts.map String.toList) ++ [')']))

theorem written_of_literal {value : Value} (notFloat : value.NotFloat) {text : String}
    (written : literal value = .ok text) : Written value text.toList := by
  cases value with
  | int n =>
    cases written
    exact .number rfl
  | bool b =>
    cases written
    cases b with
    | true => exact .number (n := 1) rfl
    | false => exact .number (n := 0) rfl
  | float x => exact notFloat.elim
  | str text =>
    cases written
    rw [quoteLiteral, String.toList_ofList]
    exact .text text
  | tuple items =>
    rcases literal_tuple_eq_ok_iff.mp written with ⟨texts, items_written, rfl⟩
    rw [String.toList_append, String.toList_append, String.toList_intercalate]
    exact .tuple items_written
  | _ => cases written

theorem Written.exists_cons {value : Value} {text : List Char} (written : Written value text) :
    ∃ c cs, text = c :: cs ∧ isCloser c = false := by
  cases written with
  | @number _ n _ =>
    rcases exists_numeral_cons n.toInt with ⟨c, cs, digits, numeral⟩
    refine ⟨c, cs, digits, Bool.eq_false_iff.mpr fun closer => ?_⟩
    rw [isNumeral_of_isCloser closer] at numeral
    exact Bool.false_ne_true numeral
  | text text => exact ⟨_, _, rfl, rfl⟩
  | tuple _ => exact ⟨_, _, rfl, rfl⟩

/-- A value can be told from any other one by its literal, up to equality, whatever follows. -/
def ToldApart (a : Value) : Prop :=
  ∀ b : Value, b.FloatFree → ∀ text text' rest rest', literal a = .ok text →
    literal b = .ok text' → Closing rest → Closing rest' →
      text.toList ++ rest = text'.toList ++ rest' → (a == b) = true ∧ rest = rest'

section Items

variable {items others : List Value} {texts texts' : List String}
  (told : ∀ item ∈ items, ToldApart item) (free : ∀ other ∈ others, other.FloatFree)
  (written : literals items = .ok texts) (written' : literals others = .ok texts')
  {closer : Char} (closes : isCloser closer = true) (bracket : closer ≠ ',')
  {rest rest' : List Char}

/-- The literals of items, each behind a comma. -/
def behindCommas (texts : List String) : List Char := texts.flatMap fun text => ',' :: text.toList

theorem behindCommas_cons (text : String) (texts : List String) :
    behindCommas (text :: texts) = ',' :: (text.toList ++ behindCommas texts) := rfl

theorem intercalate_comma (text : String) (texts : List String) :
    [','].intercalate ((text :: texts).map String.toList) = text.toList ++ behindCommas texts := by
  induction texts generalizing text with
  | nil => simp [behindCommas]
  | cons next texts ih =>
    rw [List.map_cons, List.map_cons, List.intercalate_cons_cons, ← List.map_cons,
      ih, List.append_assoc]
    rfl

include closes in
theorem closing_behindCommas (texts : List String) (rest : List Char) :
    Closing (behindCommas texts ++ closer :: rest) := by
  cases texts with
  | nil => exact closing_cons closes rest
  | cons text texts => exact closing_cons rfl _

include told free written written' closes bracket in
theorem behindCommas_append_inj
    (same : behindCommas texts ++ closer :: rest = behindCommas texts' ++ closer :: rest') :
    Value.allEqual items others = true ∧ rest = rest' := by
  induction items generalizing others texts texts' with
  | nil =>
    cases written
    cases others with
    | nil =>
      cases written'
      exact ⟨rfl, (List.cons.inj same).2⟩
    | cons other others =>
      rcases literals_cons_eq_ok_iff.mp written' with ⟨first, more, -, -, rfl⟩
      exact absurd (List.cons.inj same).1 bracket
  | cons item items ih =>
    rcases literals_cons_eq_ok_iff.mp written with ⟨first, more, first_eq, more_eq, rfl⟩
    rcases List.forall_mem_cons.mp told with ⟨told_here, told_later⟩
    cases others with
    | nil =>
      cases written'
      exact absurd (List.cons.inj same).1.symm bracket
    | cons other others =>
      rcases literals_cons_eq_ok_iff.mp written' with ⟨first', more', first_eq', more_eq', rfl⟩
      rcases List.forall_mem_cons.mp free with ⟨free_here, free_later⟩
      simp only [behindCommas_cons, List.cons_append, List.append_assoc] at same
      rcases told_here other free_here first first' _ _ first_eq first_eq'
        (closing_behindCommas closes more rest) (closing_behindCommas closes more' rest')
        (List.cons.inj same).2 with ⟨equal, later⟩
      rcases ih told_later free_later more_eq more_eq' later with
        ⟨all_equal, rest_eq⟩
      exact ⟨Bool.and_eq_true_iff.mpr ⟨equal, all_equal⟩, rest_eq⟩

theorem closer_ne_items {item : Value} (notFloat : item.NotFloat)
    (written : literals (item :: items) = .ok texts) (closes : isCloser closer = true) :
    closer :: rest ≠ [','].intercalate (texts.map String.toList) ++ rest' := by
  rcases literals_cons_eq_ok_iff.mp written with ⟨first, more, first_eq, -, rfl⟩
  rcases (written_of_literal notFloat first_eq).exists_cons with ⟨c, cs, chars, opens⟩
  rw [intercalate_comma, chars, List.cons_append, List.cons_append]
  intro same
  rw [(List.cons.inj same).1, opens] at closes
  exact Bool.false_ne_true closes

include told free written written' closes bracket in
/-- Items between brackets can be told apart if each can. -/
theorem items_append_inj (here : ∀ item ∈ items, item.NotFloat)
    (same : [','].intercalate (texts.map String.toList) ++ closer :: rest =
      [','].intercalate (texts'.map String.toList) ++ closer :: rest') :
    Value.allEqual items others = true ∧ rest = rest' := by
  cases items with
  | nil =>
    cases written
    cases others with
    | nil =>
      cases written'
      exact ⟨rfl, (List.cons.inj same).2⟩
    | cons other others =>
      have notFloat := (Value.everywhere_iff.mp (free other List.mem_cons_self)).1
      exact absurd same (closer_ne_items notFloat written' closes)
  | cons item items =>
    cases others with
    | nil =>
      cases written'
      exact absurd same.symm (closer_ne_items (here item List.mem_cons_self) written closes)
    | cons other others =>
      -- With a comma in front, both lists are of the form that the induction is about.
      apply behindCommas_append_inj told free written written' closes bracket
      rcases literals_cons_eq_ok_iff.mp written with ⟨first, more, -, -, rfl⟩
      rcases literals_cons_eq_ok_iff.mp written' with ⟨first', more', -, -, rfl⟩
      rw [intercalate_comma, intercalate_comma] at same
      rw [behindCommas_cons, behindCommas_cons, List.cons_append, List.cons_append, same]

end Items

theorem Written.toldApart {a b : Value} {chars chars' : List Char}
    (told : ∀ part ∈ a.parts, ToldApart part) (here : ∀ part ∈ a.parts, part.NotFloat)
    (free : ∀ part ∈ b.parts, part.FloatFree) (written : Written a chars)
    (written' : Written b chars') (closing : Closing rest) (closing' : Closing rest')
    (same : chars ++ rest = chars' ++ rest') : (a == b) = true ∧ rest = rest' := by
  cases written with
  | @number _ n number =>
    cases written' with
    | @number _ n' number' =>
      rcases number_append_inj closing closing' same with ⟨numbers, rest_eq⟩
      rw [Int64.toInt_inj.mp numbers] at number
      exact ⟨(Value.equals_of_int? number number').trans (beq_self_eq_true n'), rest_eq⟩
    | text text' => exact absurd same (number_append_ne_cons _ rfl _ _)
    | tuple _ => exact absurd same (number_append_ne_cons _ rfl _ _)
  | text text =>
    cases written' with
    | number _ => exact absurd same.symm (number_append_ne_cons _ rfl _ _)
    | text text' =>
      simp only [List.cons_append, List.append_assoc] at same
      rcases quoted_append_inj closing closing' (List.cons.inj same).2 with ⟨texts, rest_eq⟩
      rw [String.toList_inj.mp texts]
      exact ⟨beq_self_eq_true text', rest_eq⟩
    | tuple _ => exact absurd (List.cons.inj same).1 (by decide)
  | tuple items_written =>
    cases written' with
    | number _ => exact absurd same.symm (number_append_ne_cons _ rfl _ _)
    | text text' => exact absurd (List.cons.inj same).1 (by decide)
    | tuple items_written' =>
      simp only [List.cons_append, List.append_assoc] at same
      exact items_append_inj told free items_written items_written' rfl (by decide)
        here (List.cons.inj same).2

theorem toldApart_of_floatFree {a : Value} (free : a.FloatFree) : ToldApart a := by
  induction free with
  | @mk a here within ih =>
    intro b free' text text' rest rest' written written'
    rcases Value.everywhere_iff.mp free' with ⟨here', within'⟩
    exact (written_of_literal here written).toldApart ih
      (fun part mem => (Value.everywhere_iff.mp (within part mem)).1) within'
      (written_of_literal here' written')

end Model

/-! ## Members of sets -/

/-- A value is an integer, a truth value, a text or a tuple. -/
def Value.PlainHere : Value → Prop
  | .bool _ | .int _ | .str _ | .tuple _ => True
  | _ => False

instance : DecidablePred Value.PlainHere
  | .bool _ | .int _ | .str _ | .tuple _ => .isTrue trivial
  | .none | .float _ | .list _ | .dict _ | .builtin _ | .method _ _ | .command _ _ => .isFalse id

/-- Values built from integers, truth values, texts and tuples. -/
def Value.Plain (value : Value) : Prop :=
  value.Everywhere Value.PlainHere

instance (value : Value) : Decidable value.Plain :=
  inferInstanceAs (Decidable (value.Everywhere Value.PlainHere))

theorem Value.Plain.floatFree {value : Value} (plain : value.Plain) : value.FloatFree := by
  refine Value.Everywhere.mono plain fun value here => ?_
  cases value with
  | float _ => exact here
  | _ => trivial

theorem Value.Plain.discrete {value : Value} (plain : value.Plain) : value.Discrete := by
  refine Value.Everywhere.mono plain fun value here => ?_
  cases value with
  | float _ | method _ _ | dict _ => exact here.elim
  | _ => trivial

namespace Model

theorem exists_literals {items : List Value}
    (written : ∀ item ∈ items, ∃ text, literal item = .ok text) :
    ∃ texts, literals items = .ok texts := by
  induction items with
  | nil => exact ⟨[], rfl⟩
  | cons item items ih =>
    rcases List.forall_mem_cons.mp written with ⟨⟨text, here⟩, later⟩
    rcases ih later with ⟨texts, rest⟩
    exact ⟨_, literals_cons_eq_ok_iff.mpr ⟨text, texts, here, rest, rfl⟩⟩

theorem exists_literal {value : Value} (plain : value.Plain) :
    ∃ text, literal value = .ok text := by
  induction plain with
  | @mk value here _ ih =>
    cases value with
    | bool _ | int _ | str _ => exact ⟨_, rfl⟩
    | tuple items =>
      rcases exists_literals ih with ⟨texts, written⟩
      exact ⟨_, literal_tuple_eq_ok_iff.mpr ⟨texts, written, rfl⟩⟩
    | _ => exact here.elim

theorem literal_of_int? {value : Value} {n : Int64} (number : value.int? = some n) :
    literal value = .ok (toString n.toInt) := by
  cases value with
  | int _ =>
    cases number
    rfl
  | bool b =>
    cases number
    cases b <;> rfl
  | _ => cases number

theorem literals_congr {items others : List Value}
    (congr : ∀ item ∈ items, ∀ other : Value, other.Plain → (item == other) = true →
      literal item = literal other)
    (plain : ∀ other ∈ others, other.Plain)
    (equal : List.Forall₂ (fun a b => (a == b) = true) items others) :
    literals items = literals others := by
  induction equal with
  | nil => rfl
  | cons here _ ih =>
    rcases List.forall_mem_cons.mp congr with ⟨congr_here, congr_later⟩
    rcases List.forall_mem_cons.mp plain with ⟨plain_here, plain_later⟩
    rw [literals, literals, congr_here _ plain_here here,
      ih congr_later plain_later]

theorem literal_congr {a b : Value} (plain : a.Plain) (plain' : b.Plain)
    (equal : (a == b) = true) : literal a = literal b := by
  induction plain generalizing b with
  | @mk a here within ih =>
    have discrete : a.Discrete := Value.Plain.discrete ⟨here, within⟩
    cases Value.corresponds_of_equals discrete plain'.discrete equal with
    | number first second => rw [literal_of_int? first, literal_of_int? second]
    | str text => rfl
    | @tuple items others all_equal =>
      have same : literals items = literals others := literals_congr
        (fun item mem _ => ih item mem)
        (Value.everywhere_tuple.mp plain').2 all_equal
      rw [literal, literal, same]
    | none | list _ | dict _ _ | builtin _ | command _ _ => exact here.elim

theorem setText_eq_map (name : String) (members : List Value) :
    setText name members = (literals members).map fun texts =>
      "set " ++ name ++ " := \x7b" ++ ",".intercalate texts ++ "\x7d;" := by
  rw [setText]
  cases literals members <;> rfl

/-- Two values have the same literal exactly if they are equal, and so do two lists of members.
Quotes, commas and brackets within texts make no difference to that. -/
theorem literals_tell_members_apart :
    (∀ a b : Value, a.Plain → b.Plain →
      (∃ text, literal a = .ok text) ∧ (literal a = literal b ↔ (a == b) = true)) ∧
    ∀ (name : String) (members others : List Value),
      (∀ member ∈ members, member.Plain) → (∀ other ∈ others, other.Plain) →
        (∃ text, setText name members = .ok text) ∧
          (setText name members = setText name others ↔
            List.Forall₂ (fun a b => (a == b) = true) members others) := by
  constructor
  · intro a b plain plain'
    rcases exists_literal plain with ⟨text, written⟩
    refine ⟨⟨text, written⟩, ?_, literal_congr plain plain'⟩
    intro same
    have nothing : Closing [] := fun c first => absurd first (Option.not_mem_none c)
    exact (toldApart_of_floatFree plain.floatFree b plain'.floatFree text text [] [] written
      (same ▸ written) nothing nothing rfl).1
  · intro name members others plain plain'
    rcases exists_literals fun member found => exists_literal (plain member found) with
      ⟨texts, written⟩
    rcases exists_literals fun other found => exists_literal (plain' other found) with
      ⟨texts', written'⟩
    constructor
    · rw [setText_eq_map, written]
      exact ⟨_, rfl⟩
    constructor
    · intro same
      rw [setText_eq_map, setText_eq_map, written, written'] at same
      have chars_eq := congrArg String.toList (Except.ok.inj same)
      simp only [String.toList_append, String.toList_intercalate, List.append_assoc,
        List.append_cancel_left_eq] at chars_eq
      apply Value.allEqual_iff.mp
      exact (items_append_inj
        (fun member found => toldApart_of_floatFree (plain member found).floatFree)
        (fun other found => (plain' other found).floatFree) written written' rfl (by decide)
        (fun member found => (Value.everywhere_iff.mp (plain member found).floatFree).1)
        chars_eq).1
    · intro equal
      rw [setText_eq_map, setText_eq_map, literals_congr
        (fun member found _ => literal_congr (plain member found)) plain' equal]

/-- A text with a quote, a comma and brackets is written apart from two texts and from a tuple,
and a truth value is written as the number that it equals. -/
theorem literals_tell_members_apart_quoted :
    setText "S" [.str "a','b"] ≠ setText "S" [.str "a", .str "b"] ∧
    literal (.str "(1,2)") ≠ literal (.tuple [.int 1, .int 2]) ∧
    literal (.tuple [.int 1, .str "'"]) = literal (.tuple [.bool true, .str "'"]) := by
  have members (a b : Value) (plain : a.Plain) (plain' : b.Plain) :=
    (literals_tell_members_apart.1 a b plain plain').2
  have sets (xs ys : List Value) (plain : ∀ x ∈ xs, x.Plain) (plain' : ∀ y ∈ ys, y.Plain) :=
    (literals_tell_members_apart.2 "S" xs ys plain plain').2
  refine ⟨?_, ?_, ?_⟩
  · rw [Ne, sets _ _ (by decide) (by decide)]
    decide
  · rw [Ne, members _ _ (by decide) (by decide)]
    decide
  · rw [members _ _ (by decide) (by decide)]
    decide

end Model

end ModelWeaver
