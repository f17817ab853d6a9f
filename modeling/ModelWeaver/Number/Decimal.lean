/-!
# Reading decimal numbers

A decimal number is a natural number scaled by a power of ten. It denotes the
nearest binary floating-point number.
-/

namespace ModelWeaver.Number

/-- The value of a sequence of decimal digits. -/
def digitsValue (digits : List Char) : Nat :=
  digits.foldl (fun value c => 10 * value + (c.toNat - '0'.toNat)) 0

/-- Ten to a power. -/
def tenPow (n : Nat) : Nat := Nat.pow 10 n

/-- Positive infinity. -/
def infinity : Float := Float.ofBits 0x7FF0000000000000

/-- The float nearest to `mantissa · 10 ^ exponent`. From ten to the 310 on it is infinite, and
below ten to the minus 330 it is zero, so only moderate powers of ten are formed. -/
def ofDecimal (mantissa : Nat) (exponent : Int) : Float :=
  let magnitude := exponent + (Nat.toDigits 10 mantissa).length
  if mantissa = 0 || magnitude < -330 then 0.0
  else if magnitude > 310 then infinity
  else
    match exponent with
    | .ofNat power => Float.ofScientific mantissa false power
    | .negSucc power => Float.ofScientific mantissa true (power + 1)

/-- A decimal number as it is written: the digits before and after the point,
and the power of ten behind the exponent mark. -/
structure DecimalText where
  whole : List Char
  fraction : List Char
  exponent : Int

/-- The float that a written decimal number denotes. -/
def DecimalText.toFloat (text : DecimalText) : Float :=
  ofDecimal (digitsValue (text.whole ++ text.fraction)) (text.exponent - text.fraction.length)

end ModelWeaver.Number
