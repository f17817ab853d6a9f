/-!
# Floats read exactly

A finite binary floating-point number is a whole number of powers of two. This
module takes a float apart into that form and builds on it the roundings and
conversions to integers, so each is a statement about natural numbers.
-/

namespace ModelWeaver.Number

/-! ## Rounded quotients -/

/-- What to do with the remainder of a division. -/
inductive Rounding where
  /-- Drop it. -/
  | down
  /-- Count any remainder as one. -/
  | up
  /-- To the nearer whole number; a half goes to the even one. -/
  | halfEven
  /-- To the nearer whole number; a half goes up. -/
  | halfUp
  deriving DecidableEq, Repr

/-- Whether a quotient with a remainder is rounded up. -/
def Rounding.isUp : Rounding → (quotient remainder divisor : Nat) → Bool
  | down, _, _, _ => false
  | up, _, remainder, _ => 0 < remainder
  | halfEven, quotient, remainder, divisor =>
    divisor < 2 * remainder || (2 * remainder = divisor && quotient % 2 = 1)
  | halfUp, _, remainder, divisor => divisor ≤ 2 * remainder

/-- The quotient of two natural numbers, rounded. -/
def roundDiv (rounding : Rounding) (num den : Nat) : Nat :=
  let quotient := num / den
  if rounding.isUp quotient (num % den) den then quotient + 1 else quotient

/-! ## Taking floats apart -/

/-- The number `mantissa · 2 ^ exponent`, negated if `negative`. -/
structure Exact where
  negative : Bool
  mantissa : Nat
  exponent : Int
  deriving DecidableEq, Repr

/-- The leading bit of a mantissa, which a float does not write down. -/
def leadingBit : Nat := 0x10000000000000

/-- The exact form of a finite float. -/
def finite? (x : Float) : Option Exact :=
  let bits := x.toBits.toNat
  let negative := bits >>> 63 = 1
  let scale := (bits >>> 52) % 2048
  let fraction := bits % leadingBit
  if scale = 2047 then none
  else if scale = 0 then some ⟨negative, fraction, -1074⟩
  else some ⟨negative, leadingBit + fraction, (scale : Int) - 1075⟩

/-- Give a float a sign. -/
def withSign (negative : Bool) (x : Float) : Float := if negative then -x else x

/-- Numerator and denominator of the magnitude. -/
def Exact.ratio (exact : Exact) : Nat × Nat :=
  match exact.exponent with
  | .ofNat power => (exact.mantissa <<< power, 1)
  | .negSucc power => (exact.mantissa, 1 <<< (power + 1))

/-- The magnitude rounded to a natural number. -/
def Exact.round (exact : Exact) (rounding : Rounding) : Nat :=
  let (num, den) := exact.ratio
  roundDiv rounding num den

/-- Whether the number has no fractional part. -/
def Exact.isWhole (exact : Exact) : Bool :=
  let (num, den) := exact.ratio
  num % den = 0

/-- The float with the given magnitude, which takes at most 53 bits of mantissa
and an exponent of at least -1074. -/
def Exact.toFloat (exact : Exact) : Float :=
  if exact.mantissa = 0 then withSign exact.negative 0.0
  else
    let shift : Int := min (52 - exact.mantissa.log2) (exact.exponent + 1074)
    let mantissa := if 0 ≤ shift then exact.mantissa <<< shift.toNat
      else exact.mantissa >>> (-shift).toNat
    -- A mantissa with its leading bit adds one to the field of the exponent.
    let scale := (exact.exponent - shift + 1074).toNat
    let bits := scale * leadingBit + mantissa
    withSign exact.negative (Float.ofBits (UInt64.ofNat bits))

/-! ## Whole parts and conversions -/

/-- Whether a float is finite and has no fractional part. -/
def isWhole (x : Float) : Bool := (finite? x).any Exact.isWhole

/-- A float rounded to a whole number, away from or toward zero as the rule says.
What is not finite stays as it is. -/
def roundMagnitude (rounding : Rounding) (x : Float) : Float :=
  match finite? x with
  | none => x
  | some exact =>
    if 0 ≤ exact.exponent then x
    else withSign exact.negative (Float.ofNat (exact.round rounding))

/-- The greatest whole number that is not above a float. -/
def floor (x : Float) : Float :=
  match finite? x with
  | none => x
  | some exact => roundMagnitude (if exact.negative then .up else .down) x

/-- A float rounded to the nearest whole number; a half goes to the even one. -/
def roundHalfEven (x : Float) : Float := roundMagnitude .halfEven x

/-- A float rounded to the nearest whole number; a half goes away from zero. -/
def roundHalfAway (x : Float) : Float := roundMagnitude .halfUp x

/-- The whole part of a float, kept within `low` and `high`. What is not a number
counts as zero. -/
def clampWhole (low high : Int) (x : Float) : Int :=
  match finite? x with
  | some exact =>
    let whole : Int := exact.round .down
    max low (min high (if exact.negative then -whole else whole))
  | none => if x.isNaN then 0 else if x < 0.0 then low else high

/-- The whole part of a float as a 64-bit integer, at most as far out as those
reach. -/
def toInt64 (x : Float) : Int64 :=
  Int64.ofInt (clampWhole Int64.minValue.toInt Int64.maxValue.toInt x)

/-- The whole part of a float as a count of 64 bits; below zero it is zero. -/
def toCount (x : Float) : Nat := (clampWhole 0 (UInt64.size - 1) x).toNat

/-! ## Remainders and powers -/

/-- The remainder of a division whose quotient is rounded toward zero. It has
the sign of the dividend. -/
def remainder (x y : Float) : Float :=
  match finite? x, finite? y with
  | some a, some b =>
    if b.mantissa = 0 then 0.0 / 0.0
    else
      let exponent := min a.exponent b.exponent
      let scaled (exact : Exact) := exact.mantissa <<< (exact.exponent - exponent).toNat
      Exact.toFloat ⟨a.negative, scaled a % scaled b, exponent⟩
  | some _, none => if y.isNaN then y else x
  | none, _ => 0.0 / 0.0

/-- A product of `exponent` equal factors, formed by repeated squaring. -/
def powNat (base : Float) (exponent : Nat) : Float :=
  go base exponent 1.0
where
  /-- Multiply `product` by the powers of two that make up the exponent. -/
  go (base : Float) (exponent : Nat) (product : Float) : Float :=
    let product := if exponent % 2 = 1 then product * base else product
    if exponent / 2 = 0 then product
    else go (base * base) (exponent / 2) product
  termination_by exponent
  decreasing_by omega

/-- A power with a whole exponent; a negative one inverts the power. -/
def powInt (base : Float) : Int → Float
  | .ofNat power => powNat base power
  | .negSucc power => 1.0 / powNat base (power + 1)

end ModelWeaver.Number
