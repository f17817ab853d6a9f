import ModelWeaver.Number.Decimal
import ModelWeaver.Number.Int64Range

/-!
# Numbers from whole texts

A text denotes an integer if it is a sign, if any, and digits. It denotes a float
if it is a sign, if any, and a decimal number with an optional point and exponent,
or one of the names of infinity and of what is not a number.
-/

namespace ModelWeaver.Number

/-- Split off a sign: whether it is negative, and the rest. -/
def splitSign : List Char → Bool × List Char
  | '-' :: rest => (true, rest)
  | '+' :: rest => (false, rest)
  | text => (false, text)

/-- The value of a text of one or more digits. -/
def readNat? (text : List Char) : Option Nat :=
  if text.isEmpty || !text.all Char.isDigit then none else some (digitsValue text)

/-- The value of a text of a sign, if any, and digits. -/
def readInt? (text : List Char) : Option Int := do
  let (negative, digits) := splitSign text
  let n ← readNat? digits
  return if negative then -n else n

/-- The 64-bit integer that a text denotes. -/
def readInt64? (text : List Char) : Option Int64 := do
  int64? (← readInt? text)

/-- The index that a text denotes, of at most 64 bits; a plus sign is allowed. -/
def readIndex? (text : List Char) : Option Nat := do
  let digits := match text with
    | '+' :: rest => rest
    | text => text
  let n ← readNat? digits
  if n < UInt64.size then return n else none

/-- A decimal number without a sign. -/
def readDecimal? (text : List Char) : Option DecimalText := do
  let whole := text.takeWhile Char.isDigit
  let rest := text.drop whole.length
  let (fraction, rest) : List Char × List Char :=
    match rest with
    | '.' :: more => (more.takeWhile Char.isDigit, more.dropWhile Char.isDigit)
    | rest => ([], rest)
  if whole.isEmpty && fraction.isEmpty then none
  else
    match rest with
    | [] => return ⟨whole, fraction, 0⟩
    | mark :: exponent =>
      if mark = 'e' || mark = 'E' then
        return ⟨whole, fraction, ← readInt? exponent⟩
      else none

/-- The float that a text denotes. -/
def readFloat? (text : List Char) : Option Float :=
  let (negative, magnitude) := splitSign text
  let lowered := String.ofList (magnitude.map Char.toLower)
  let value :=
    if lowered = "inf" || lowered = "infinity" then some infinity
    else if lowered = "nan" then some (0.0 / 0.0)
    else (readDecimal? magnitude).map DecimalText.toFloat
  value.map fun x => if negative then -x else x

end ModelWeaver.Number
