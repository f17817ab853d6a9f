import ModelWeaver.Snippet.Expr
import ModelWeaver.Snippet.Format
import ModelWeaver.Value.Order

/-!
# Operators on values

Arithmetic between integers is exact or fails; as soon as a float takes part it
is that of floats. Texts and sequences can be joined, repeated and searched.
-/

namespace ModelWeaver.Snippet

open Number

/-! ## Integers -/

/-- An integer result, which must fit in 64 bits. -/
def exactly (n : Int) : Except Failure Value :=
  match int64? n with
  | some value => .ok (.int value)
  | none => .error .overflow

/-- The two operands as integers, unless one of them is something else. -/
def intPair? (left right : Value) : Option (Int64 × Int64) := do
  return (← left.int?, ← right.int?)

/-- Whether rounding toward zero has gone up: there is a remainder, and a number with the sign of
the dividend has another sign than the divisor. -/
def roundedUp (remainder number divisor : Int64) : Bool :=
  remainder != 0 && decide (number < 0) != decide (divisor < 0)

/-- The quotient rounded down. -/
def floorDivInt (a b : Int64) : Except Failure Value :=
  if b = 0 then .error .divisionByZero
  else
    match quotientInt64? a b with
    | none => .error .overflow
    | some quotient => .ok (.int (if roundedUp (a % b) a b then quotient - 1 else quotient))

/-- The remainder of the quotient rounded down, which has the sign of the
divisor. It is refused where the quotient is too large. -/
def moduloInt (a b : Int64) : Except Failure Value :=
  if b = 0 then .error .divisionByZero
  else
    match remainderInt64? a b with
    | none => .error .overflow
    | some remainder =>
      .ok (.int (if roundedUp remainder remainder b then remainder + b else remainder))

/-- The power `base ^ exponent`, computed only as far as it can fit in 64 bits:
from exponent 64 on, only 0, 1 and -1 have powers that fit. -/
def powInt64 (base : Int) (exponent : Nat) : Except Failure Value :=
  if 64 ≤ exponent && 2 ≤ base.natAbs then .error .overflow
  else if 64 ≤ exponent then exactly (base.pow (64 + exponent % 2))
  else exactly (base.pow exponent)

/-! ## Floats -/

/-- The two operands as floats. -/
def floatPair (symbol : String) (left right : Value) : Except Failure (Float × Float) :=
  match left.float?, right.float? with
  | some a, some b => .ok (a, b)
  | _, _ =>
    .error (.typeMismatch s!"numbers for '{symbol}'" s!"{left.typeName} and {right.typeName}")

/-- Apply an operation to integers, whose result must fit in 64 bits, and to other
numbers as floats. -/
def arithmetic (symbol : String) (onInts : Int64 → Int64 → Option Int64)
    (onFloats : Float → Float → Float) (left right : Value) : Except Failure Value :=
  match left.int?, right.int? with
  | some a, some b =>
    match onInts a b with
    | some n => .ok (.int n)
    | none => .error .overflow
  | _, _ => do
      let (a, b) ← floatPair symbol left right
      return .float (onFloats a b)

/-- The two operands as floats, the second of which must not be zero. -/
def divisionPair (symbol : String) (left right : Value) : Except Failure (Float × Float) := do
  let (a, b) ← floatPair symbol left right
  if b == 0.0 then throw .divisionByZero
  return (a, b)

/-- The remainder with the sign of the divisor. -/
def moduloFloat (a b : Float) : Float :=
  let r := remainder a b
  if r != 0.0 && (r < 0.0) != (b < 0.0) then r + b else r

/-- A power. Integers with an exponent from zero on stay integers. -/
def power (left right : Value) : Except Failure Value := do
  match intPair? left right with
  | some (base, exponent) =>
    if 0 ≤ exponent.toInt then
      if exponent.toInt < UInt32.size then powInt64 base.toInt exponent.toInt.toNat
      else throw .overflow
    else if base = 0 then throw .divisionByZero
    else floatPower
  | none => floatPower
where
  floatPower : Except Failure Value := do
    let (a, b) ← floatPair "**" left right
    if a == 0.0 && b < 0.0 then throw .divisionByZero
    return .float (a.pow b)

/-! ## Texts and sequences -/

/-- How often to repeat something of the given size. -/
def repetitions (size : Nat) (times : Int) : Except Failure Nat :=
  let times := times.toNat
  if size = 0 then .ok 0
  else if !FitsInt64 (size * times) then .error .overflow
  else if maxSequenceLength < size * times then .error (.badArgument .repetitionTooLong)
  else .ok times

/-- A text repeated. -/
def repeatText (text : String) (times : Int) : Except Failure Value := do
  let times ← repetitions text.utf8ByteSize times
  return .str (times.fold (fun _ _ done => done ++ text) "")

/-- A list repeated. -/
def repeatList (items : List Value) (times : Int) : Except Failure Value := do
  let times ← repetitions items.length times
  return .list (times.fold (fun _ _ done => items ++ done) [])

/-- A product: a repetition if one operand is a text or a list and the other an
integer. -/
def multiply (left right : Value) : Except Failure Value :=
  match left, right, left.int?, right.int? with
  | .str text, _, _, some times | _, .str text, some times, _ => repeatText text times.toInt
  | .list items, _, _, some times | _, .list items, some times, _ =>
    repeatList items times.toInt
  | _, _, _, _ => arithmetic "*" (fun a b => int64? (a.toInt * b.toInt)) (· * ·) left right

/-- A sum: texts and sequences of one kind are joined. -/
def add (left right : Value) : Except Failure Value :=
  match left, right with
  | .str a, .str b => .ok (.str (a ++ b))
  | .list a, .list b => .ok (.list (a ++ b))
  | .tuple a, .tuple b => .ok (.tuple (a ++ b))
  | _, _ => arithmetic "+" addInt64? (· + ·) left right

/-- Whether a container holds an item: a sequence an element, a dict a key, a
text a piece. -/
def contains (container item : Value) : Except Failure Bool :=
  match container with
  | .list items | .tuple items => .ok (items.any (· == item))
  | .dict entries => .ok (entries.any (·.1 == item))
  | .str text => return Text.isInfixOf (← item.toStr).toList text.toList
  | container => container.mismatch "container"

/-! ## All operators -/

/-- Apply an operator to two values. -/
def applyBinary (op : BinaryOp) (left right : Value) : Except Failure Value :=
  match op with
  | .addition => add left right
  | .subtraction => arithmetic "-" (fun a b => int64? (a.toInt - b.toInt)) (· - ·) left right
  | .multiplication => multiply left right
  | .division => do
      let (a, b) ← divisionPair "/" left right
      return .float (a / b)
  | .floorDivision =>
    match intPair? left right with
    | some (a, b) => floorDivInt a b
    | none => do
        let (a, b) ← divisionPair "//" left right
        return .float (floor (a / b))
  | .modulo =>
    match left with
    | .str template => return .str (← Format.percent template right)
    | _ =>
      match intPair? left right with
      | some (a, b) => moduloInt a b
      | none => do
          let (a, b) ← divisionPair "%" left right
          return .float (moduloFloat a b)
  | .power => power left right
  | .equality => .ok (.bool (left == right))
  | .inequality => .ok (.bool (left != right))
  | .lessThan => return .bool ((← left.order right) == .lt)
  | .greaterThan => return .bool ((← left.order right) == .gt)
  | .lessThanOrEqual => return .bool ((← left.order right) != .gt)
  | .greaterThanOrEqual => return .bool ((← left.order right) != .lt)
  | .membership => return .bool (← contains right left)
  | .nonMembership => return .bool (!(← contains right left))
  | .logicalAnd | .logicalOr => .error (.malformed .lazyOperator)

/-- Apply an operator to one value. -/
def applyUnary (op : UnaryOp) (operand : Value) : Except Failure Value :=
  match op with
  | .logicalNot => .ok (.bool (!operand.isTruthy))
  | .negation =>
    match operand with
    | .float x => .ok (.float (-x))
    | operand =>
      match operand.int? with
      | some n => exactly (-n.toInt)
      | none => operand.mismatch "number"
  | .identity =>
    match operand with
    | .float x => .ok (.float x)
    | operand =>
      match operand.int? with
      | some n => .ok (.int n)
      | none => operand.mismatch "number"

end ModelWeaver.Snippet
