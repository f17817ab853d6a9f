import ModelWeaver.Number.Shortest

/-!
# Floats with a set number of places

A float is rounded from its exact value; a half goes to the even neighbour.
-/

namespace ModelWeaver.Number

/-- Digits of a natural number with a point before the last `places` of them. -/
def pointed (n places : Nat) : List Char :=
  let digits := natDigits n
  let digits := zeros (places + 1 - digits.length) ++ digits
  let whole := digits.length - places
  if places = 0 then digits else digits.take whole ++ '.' :: digits.drop whole

/-- A float with `places` digits behind the point. -/
def fixedText (places : Nat) (x : Float) : String :=
  match finite? x with
  | some exact =>
    let (num, den) := exact.ratio
    let scaled := roundDiv .halfEven (num * tenPow places) den
    String.ofList (signText exact.negative ++ pointed scaled places)
  | none => plainText x

/-- The positive number `num / den` rounded to `places + 1` digits, and the power
of ten of its first digit. -/
def leadingDigits (places num den : Nat) : Nat × Int :=
  let point := magnitude num den
  let power := point - 1 - places
  let digits :=
    if 0 ≤ power then roundDiv .halfEven num (den * tenPow power.toNat)
    else roundDiv .halfEven (num * tenPow (-power).toNat) den
  if digits = tenPow (places + 1) then (digits / 10, point) else (digits, point - 1)

/-- A float with one digit before the point, `places` behind it and an
exponent. -/
def exponentText (places : Nat) (x : Float) : String :=
  match finite? x with
  | some exact =>
    let (num, den) := exact.ratio
    let (digits, power) := if num = 0 then (0, 0) else leadingDigits places num den
    String.ofList (signText exact.negative ++ pointed digits places ++ exponentMark power)
  | none => plainText x

end ModelWeaver.Number
