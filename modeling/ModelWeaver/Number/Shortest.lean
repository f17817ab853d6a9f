import ModelWeaver.Number.Decimal
import ModelWeaver.Number.Exact

/-!
# The fewest digits of a float

Among the decimal numbers that read back as a given float, those with the fewest
digits are taken, and of those the nearest. Digits and their layout are kept
apart: `Digits` holds the first, `positional` and `scientific` lay them out.
-/

namespace ModelWeaver.Number

/-- The decimal number `0.d₁d₂d₃… · 10 ^ point`. -/
structure Digits where
  digits : List Char
  point : Int
  deriving DecidableEq, Repr

/-- The decimal digits of a natural number. -/
def natDigits (n : Nat) : List Char := Nat.toDigits 10 n

/-- The least power of ten above the positive number `num / den`. -/
def magnitude (num den : Nat) : Int :=
  if den ≤ num then (natDigits (num / den)).length
  else
    let length := (natDigits (den / num)).length
    if num * tenPow (length - 1) = den then 2 - (length : Int) else 1 - (length : Int)

/-- The digits of a natural number times a power of ten. -/
def Digits.ofNat (n : Nat) (power : Int) : Digits :=
  let digits := natDigits n
  let kept := (digits.reverse.dropWhile (· = '0')).reverse
  ⟨kept, power + digits.length⟩

/-- The interval of positive numbers that read back as a float, scaled by
`den`. Its ends belong to it if the mantissa is even. -/
structure Interval where
  low : Nat
  value : Nat
  high : Nat
  den : Nat
  closed : Bool

/-- The interval of a positive float. Below a power of two the floats lie twice
as close. -/
def Interval.ofExact (exact : Exact) : Interval :=
  let (num, den) := exact.ratio
  let unit := num / exact.mantissa
  let tight := exact.mantissa = leadingBit && -1074 < exact.exponent
  { low := 4 * num - (if tight then unit else 2 * unit)
    value := 4 * num
    high := 4 * num + 2 * unit
    den := 4 * den
    closed := exact.mantissa % 2 = 0 }

/-- Whether `num / den`, a number of the same scale, lies in the interval. -/
def Interval.contains (interval : Interval) (num den : Nat) : Bool :=
  let below := interval.low * den
  let above := interval.high * den
  let scaled := num * interval.den
  if interval.closed then below ≤ scaled && scaled ≤ above
  else below < scaled && scaled < above

/-- The decimal number with `count` digits in the interval that is nearest to its value; of two
equally near ones the larger. `point` is the magnitude of the value. -/
def Interval.nearest? (interval : Interval) (point : Int) (count : Nat) : Option Digits :=
  let power := point - count
  -- The grid is the multiples of `up / down`.
  let (up, down) := if 0 ≤ power then (tenPow power.toNat, 1) else (1, tenPow (-power).toNat)
  let below := interval.value * down / (interval.den * up)
  let isIn (n : Nat) := interval.contains (n * up) down
  let rest := interval.value * down - below * (interval.den * up)
  match isIn below, isIn (below + 1) with
  | true, true =>
    some (.ofNat (if 2 * rest < interval.den * up then below else below + 1) power)
  | true, false => some (.ofNat below power)
  | false, true => some (.ofNat (below + 1) power)
  | false, false => none

/-- The fewest digits that read back as a positive finite float. Seventeen always
do. -/
def shortest (exact : Exact) : Digits :=
  let interval := Interval.ofExact exact
  let point := magnitude interval.value interval.den
  ((List.range 17).findSome? fun count => interval.nearest? point (count + 1)).getD ⟨[], point⟩

/-! ## Layout -/

/-- Zeros. -/
def zeros (n : Nat) : List Char := List.replicate n '0'

/-- Digits in full, without an exponent. -/
def Digits.positional (number : Digits) : List Char :=
  let count := number.digits.length
  if number.point ≤ 0 then
    '0' :: '.' :: zeros (-number.point).toNat ++ number.digits
  else
    let whole := number.point.toNat
    if count ≤ whole then number.digits ++ zeros (whole - count)
    else number.digits.take whole ++ '.' :: number.digits.drop whole

/-- A mark, a sign and at least two digits of an exponent. -/
def exponentMark (exponent : Int) : List Char :=
  let digits := natDigits exponent.natAbs
  'e' :: (if exponent < 0 then '-' else '+') :: zeros (2 - digits.length) ++ digits

/-- One digit before the point and an exponent. -/
def Digits.scientific (number : Digits) : List Char :=
  let mantissa := match number.digits with
    | [] => ['0']
    | [digit] => [digit]
    | digit :: more => digit :: '.' :: more
  mantissa ++ exponentMark (number.point - 1)

/-! ## Whole texts -/

/-- The sign of a number as text. -/
def signText (negative : Bool) : List Char := if negative then ['-'] else []

/-- A float in full, with the fewest digits that read back. Whole numbers have no
point. -/
def plainText (x : Float) : String :=
  match finite? x with
  | some exact =>
    let digits := if exact.mantissa = 0 then ['0'] else (shortest exact).positional
    String.ofList (signText exact.negative ++ digits)
  | none => if x.isNaN then "NaN" else if x < 0.0 then "-inf" else "inf"

/-- A float other than zero with an exponent and the fewest digits that read
back. -/
def scientificText (x : Float) : String :=
  match finite? x with
  | some exact => String.ofList (signText exact.negative ++ (shortest exact).scientific)
  | none => plainText x

end ModelWeaver.Number
