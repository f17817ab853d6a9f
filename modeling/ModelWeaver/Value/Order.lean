import ModelWeaver.Value.Basic

/-!
# Equality and order of values

Numbers are equal across their types, sequences element by element, and dicts
whatever the order of their entries. Order is defined between numbers, between
texts and between sequences of the same kind; comparing anything else fails.

Looking a key up in a dict compares the stored key with the wanted one, so dicts
are compared in alternating directions. `equals` and `equalsRev` take the two
arguments in one and in the other direction and both follow the first argument.
-/

namespace ModelWeaver.Value

/-- Equality of two numbers: exact between integers, as floats otherwise. -/
def numberEquals (a b : Value) : Bool :=
  match a.int?, b.int? with
  | some m, some n => m == n
  | _, _ =>
    match a.float?, b.float? with
    | some x, some y => x == y
    | _, _ => false

mutual

/-- Whether `a` equals `b`. -/
def equals : (a b : Value) → Bool
  | none, none => true
  | str a, str b => a == b
  | list a, list b => allEqual a b
  | tuple a, tuple b => allEqual a b
  | dict a, dict b => a.length == b.length && allFoundIn a b
  | builtin a, builtin b => a == b
  | command a i, command b j => a == b && i == j
  | a, b => numberEquals a b
termination_by structural a => a

/-- Whether `b` equals `a`. -/
def equalsRev : (a b : Value) → Bool
  | none, none => true
  | str a, str b => b == a
  | list a, list b => allEqualRev a b
  | tuple a, tuple b => allEqualRev a b
  | dict a, dict b => b.length == a.length && b.all fun entry => foundIn a entry.1 entry.2
  | builtin a, builtin b => b == a
  | command a i, command b j => b == a && j == i
  | a, b => numberEquals b a
termination_by structural a => a

/-- Whether the items of `as` equal those of `bs` one by one. -/
def allEqual : (as bs : List Value) → Bool
  | [], [] => true
  | a :: as, b :: bs => equals a b && allEqual as bs
  | _, _ => false
termination_by structural as => as

/-- Whether the items of `bs` equal those of `as` one by one. -/
def allEqualRev : (as bs : List Value) → Bool
  | [], [] => true
  | a :: as, b :: bs => equalsRev a b && allEqualRev as bs
  | _, _ => false
termination_by structural as => as

/-- Whether every entry of `as` is found among the entries `bs`. -/
def allFoundIn : (as bs : List (Value × Value)) → Bool
  | [], _ => true
  | (key, value) :: as, bs =>
    (match bs.find? fun entry => equalsRev key entry.1 with
      | some entry => equalsRev value entry.2
      | Option.none => false) && allFoundIn as bs
termination_by structural as => as

/-- Whether the first entry of `as` whose key equals `key` holds a value that
equals `value`. -/
def foundIn : (as : List (Value × Value)) → (key value : Value) → Bool
  | [], _, _ => false
  | (storedKey, stored) :: as, key, value =>
    if equals storedKey key then equals stored value else foundIn as key value
termination_by structural as => as

end

/-- Values are compared as in snippets. -/
instance : BEq Value := ⟨equals⟩

/-! ## Dicts -/

/-- The value stored under a key. -/
def lookup? (entries : List (Value × Value)) (key : Value) : Option Value :=
  (entries.find? fun entry => entry.1 == key).map Prod.snd

/-- The value that a dict holds under a key. -/
def get? (dict key : Value) : Option Value :=
  match dict with
  | .dict entries => lookup? entries key
  | _ => Option.none

/-- Store a value under a key. A key that is there already keeps its place. -/
def insertEntry (entries : List (Value × Value)) (key value : Value) : List (Value × Value) :=
  match entries.findIdx? fun entry => entry.1 == key with
  | some i => entries.modify i fun entry => (entry.1, value)
  | Option.none => entries ++ [(key, value)]

/-! ## Order -/

/-- The order of two floats, which must not be NaN. -/
def compareFloats (x y : Float) : Except Failure Ordering :=
  if x < y then .ok .lt
  else if y < x then .ok .gt
  else if x == y then .ok .eq
  else .error (.badArgument .orderOfNaN)

/-- The order of two numbers: exact between integers, as floats otherwise. What is
not a number cannot be compared. -/
def compareNumbers (a b : Value) : Except Failure Ordering :=
  match a.int?, b.int? with
  | some m, some n => .ok (compare m n)
  | _, _ =>
    match a.float?, b.float? with
    | some x, some y => compareFloats x y
    | _, _ => .error (.typeMismatch s!"values comparable with {a.typeName}" b.typeName)

mutual

/-- The order of two values. -/
def order : (a b : Value) → Except Failure Ordering
  | str a, str b => .ok (compare a b)
  | list a, list b => orderAll a b
  | tuple a, tuple b => orderAll a b
  | a, b => compareNumbers a b
termination_by structural a => a

/-- The order of two sequences: that of the first items that differ, or else that
of the lengths. -/
def orderAll : (as bs : List Value) → Except Failure Ordering
  | a :: as, b :: bs =>
    match order a b with
    | .ok .eq => orderAll as bs
    | result => result
  | [], [] => .ok .eq
  | [], _ :: _ => .ok .lt
  | _ :: _, [] => .ok .gt
termination_by structural as => as

end

end ModelWeaver.Value
