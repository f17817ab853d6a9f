import Mathlib.Data.Rat.Floor
import ModelWeaver.Snippet.Operator

/-!
# Integer arithmetic is exact or refused

An operator between integers gives the integer of mathematics if that fits in 64 bits, and fails
otherwise. Truth values count as integers.

A word is divided toward zero, and the result is corrected if the exact quotient lies below it:
that is so if there is a remainder and the signs of the operands differ (`RoundsUp`). The tests on
words for the quotient and the remainder look different, but both test for this. The corrections
never leave the 64 bits.
-/

namespace ModelWeaver.Snippet

open Number

/-! ## Rounding -/

/-- Rounding a quotient toward zero goes up. -/
def RoundsUp (a b : Int) : Prop := a.tmod b ≠ 0 ∧ ¬(a < 0 ↔ b < 0)

section Rounding

variable {a b : Int}

theorem tmod_bounds (nonzero : b ≠ 0) :
    (0 ≤ a → 0 ≤ a.tmod b) ∧ (a ≤ 0 → a.tmod b ≤ 0) ∧
      (a.tmod b).natAbs < b.natAbs := by
  refine ⟨Int.tmod_nonneg b, fun nonpositive => ?_, ?_⟩
  · have opposite := Int.tmod_nonneg b (Int.neg_nonneg_of_nonpos nonpositive)
    rw [Int.neg_tmod] at opposite
    omega
  · rw [Int.natAbs_tmod]
    exact Nat.mod_lt _ (Int.natAbs_pos.mpr nonzero)

theorem fdiv_fmod_of_bounds {q r : Int} (parts : b * q + r = a)
    (above : 0 < b → 0 ≤ r ∧ r < b) (below : b < 0 → b < r ∧ r ≤ 0) (nonzero : b ≠ 0) :
    a.fdiv b = q ∧ a.fmod b = r := by
  have sum : r + b * q = a := (Int.add_comm _ _).trans parts
  rcases Int.lt_or_gt_of_ne nonzero with negative | positive
  · exact (Int.fdiv_fmod_unique' negative).mpr ⟨sum, below negative⟩
  · exact (Int.fdiv_fmod_unique positive).mpr ⟨sum, above positive⟩

theorem fdiv_fmod_of_roundsUp (nonzero : b ≠ 0) (up : RoundsUp a b) :
    a.fdiv b = a.tdiv b - 1 ∧ a.fmod b = a.tmod b + b := by
  obtain ⟨nonnegative, nonpositive, small⟩ := tmod_bounds (a := a) nonzero
  obtain ⟨inexact, signs⟩ := up
  have parts := Int.mul_tdiv_add_tmod a b
  refine fdiv_fmod_of_bounds ?_ (by omega) (by omega) nonzero
  rw [Int.mul_sub, Int.mul_one]
  omega

theorem fdiv_fmod_of_not_roundsUp (nonzero : b ≠ 0) (notUp : ¬RoundsUp a b) :
    a.fdiv b = a.tdiv b ∧ a.fmod b = a.tmod b := by
  obtain ⟨nonnegative, nonpositive, small⟩ := tmod_bounds (a := a) nonzero
  rw [RoundsUp] at notUp
  exact fdiv_fmod_of_bounds (Int.mul_tdiv_add_tmod a b) (by omega) (by omega) nonzero

theorem fmod_bounds (a : Int) (nonzero : b ≠ 0) :
    (0 < b → 0 ≤ a.fmod b) ∧ (b < 0 → a.fmod b ≤ 0) ∧ |a.fmod b| < |b| := by
  rcases Int.lt_or_gt_of_ne nonzero with negative | positive
  · obtain ⟨-, above, below⟩ := (Int.fdiv_fmod_unique' negative).mp ⟨rfl, rfl⟩
    refine ⟨fun positive => absurd positive (by omega), fun _ => below, ?_⟩
    rw [abs_of_nonpos below, abs_of_neg negative]
    omega
  · obtain ⟨-, above, below⟩ := (Int.fdiv_fmod_unique positive).mp ⟨rfl, rfl⟩
    refine ⟨fun _ => above, fun negative => absurd negative (by omega), ?_⟩
    rwa [abs_of_nonneg above, abs_of_pos positive]

/-- Where rounding goes up, the divisor is not 1 or -1, so that the quotient is at most half of
the dividend. -/
theorem two_mul_natAbs_tdiv_le (nonzero : b ≠ 0) (up : RoundsUp a b) :
    2 * (a.tdiv b).natAbs ≤ a.natAbs := by
  have large : 2 ≤ b.natAbs := by
    have small := (tmod_bounds (a := a) nonzero).2.2
    have inexact := up.1
    omega
  rw [Int.natAbs_tdiv]
  calc 2 * (a.natAbs / b.natAbs)
      ≤ b.natAbs * (a.natAbs / b.natAbs) := Nat.mul_le_mul_right _ large
    _ ≤ a.natAbs := Nat.mul_div_le _ _

theorem fdiv_eq_floor (a b : Int) : a.fdiv b = ⌊(a : ℚ) / b⌋ := by
  have natural (a : Int) (b : Nat) : a.fdiv b = ⌊(a : ℚ) / b⌋ := by
    rw [Rat.floor_intCast_div_natCast, Int.fdiv_eq_ediv_of_nonneg a (Int.natCast_nonneg b)]
  rcases Int.eq_nat_or_neg b with ⟨n, rfl | rfl⟩
  · simpa using natural a n
  · have flipped := natural (-a) n
    rw [Int.cast_neg, neg_div, ← div_neg] at flipped
    rw [← Int.neg_fdiv_neg, Int.neg_neg, flipped]
    simp

end Rounding

/-! ## Division of words -/

section Words

variable {a b : Int64}

theorem quotientFits_iff :
    QuotientFits a b ↔ b.toInt ≠ 0 ∧ ¬(a.toInt = -0x8000000000000000 ∧ b.toInt = -1) := by
  rw [QuotientFits, Ne, ← Int64.toInt_inj, ← Int64.toInt_inj, ← Int64.toInt_inj]
  rfl

theorem toInt_div_of_quotientFits (fits : QuotientFits a b) :
    (a / b).toInt = a.toInt.tdiv b.toInt := by
  by_cases least : a = Int64.minValue
  · exact Int64.toInt_div_of_ne_right a b fun minusOne => fits.2 ⟨least, minusOne⟩
  · exact Int64.toInt_div_of_ne_left a b least

theorem roundedUp_iff {remainder number divisor : Int64} :
    roundedUp remainder number divisor = true ↔
      remainder.toInt ≠ 0 ∧ ¬(number.toInt < 0 ↔ divisor.toInt < 0) := by
  have zero : remainder = 0 ↔ remainder.toInt = 0 := Int64.toInt_inj.symm
  simp only [roundedUp, Bool.and_eq_true, bne_iff_ne, ne_eq, zero, decide_eq_decide,
    Int64.lt_iff_toInt_lt, Int64.toInt_zero]

theorem roundedUp_dividend_iff :
    roundedUp (a % b) a b = true ↔ RoundsUp a.toInt b.toInt := by
  rw [roundedUp_iff, Int64.toInt_mod, RoundsUp]

/-- The test with the remainder, which has the sign of the dividend unless it is zero. -/
theorem roundedUp_remainder_iff (fits : QuotientFits a b) :
    roundedUp (a % b) (a % b) b = true ↔ RoundsUp a.toInt b.toInt := by
  obtain ⟨nonnegative, nonpositive, -⟩ := tmod_bounds (a := a.toInt) (quotientFits_iff.mp fits).1
  rw [roundedUp_iff, Int64.toInt_mod, RoundsUp]
  omega

theorem toInt_add_of_fits (fits : FitsInt64 (a.toInt + b.toInt)) :
    (a + b).toInt = a.toInt + b.toInt := by
  rw [Int64.toInt_add]
  exact Int.bmod_eq_of_le fits.1 fits.2

theorem toInt_sub_of_fits (fits : FitsInt64 (a.toInt - b.toInt)) :
    (a - b).toInt = a.toInt - b.toInt := by
  rw [Int64.toInt_sub]
  exact Int.bmod_eq_of_le fits.1 fits.2

/-- The steps of a division that are taken without a check: the quotient and the remainder of
words, and their corrections. Each is exact, so that none leaves the 64 bits. -/
structure StepsExact (a b : Int64) : Prop where
  quotient : (a / b).toInt = a.toInt.tdiv b.toInt
  remainder : (a % b).toInt = a.toInt.tmod b.toInt
  lower : roundedUp (a % b) a b = true → (a / b - 1).toInt = (a / b).toInt - 1
  shift : roundedUp (a % b) (a % b) b = true → (a % b + b).toInt = (a % b).toInt + b.toInt

variable (fits : QuotientFits a b)
include fits

theorem stepsExact : StepsExact a b where
  quotient := toInt_div_of_quotientFits fits
  remainder := Int64.toInt_mod a b
  lower up := by
    have half := two_mul_natAbs_tdiv_le (quotientFits_iff.mp fits).1 (roundedUp_dividend_iff.mp up)
    have low := a.le_toInt
    have high := a.toInt_lt
    apply toInt_sub_of_fits
    rw [toInt_div_of_quotientFits fits, Int64.toInt_one, FitsInt64]
    omega
  shift up := by
    -- the two have different signs
    have signs := (roundedUp_iff.mp up).2
    have low := (a % b).le_toInt
    have high := (a % b).toInt_lt
    have low' := b.le_toInt
    have high' := b.toInt_lt
    apply toInt_add_of_fits
    rw [FitsInt64]
    omega

theorem floorDivInt_of_quotientFits :
    floorDivInt a b = .ok (.int (if roundedUp (a % b) a b then a / b - 1 else a / b)) := by
  rw [floorDivInt, if_neg fits.1, quotientInt64?, if_pos fits]

theorem moduloInt_of_quotientFits :
    moduloInt a b = .ok (.int (if roundedUp (a % b) (a % b) b then a % b + b else a % b)) := by
  rw [moduloInt, if_neg fits.1, remainderInt64?, if_pos fits]

theorem exists_floorDivInt :
    ∃ q : Int64, floorDivInt a b = .ok (.int q) ∧ q.toInt = a.toInt.fdiv b.toInt := by
  refine ⟨_, floorDivInt_of_quotientFits fits, ?_⟩
  have nonzero := (quotientFits_iff.mp fits).1
  split
  · next up =>
      rw [(stepsExact fits).lower up, (stepsExact fits).quotient,
        (fdiv_fmod_of_roundsUp nonzero (roundedUp_dividend_iff.mp up)).1]
  · next notUp =>
      rw [(stepsExact fits).quotient,
        (fdiv_fmod_of_not_roundsUp nonzero (mt roundedUp_dividend_iff.mpr notUp)).1]

theorem exists_moduloInt :
    ∃ r : Int64, moduloInt a b = .ok (.int r) ∧ r.toInt = a.toInt.fmod b.toInt := by
  refine ⟨_, moduloInt_of_quotientFits fits, ?_⟩
  have nonzero := (quotientFits_iff.mp fits).1
  split
  · next up =>
      rw [(stepsExact fits).shift up, (stepsExact fits).remainder,
        (fdiv_fmod_of_roundsUp nonzero ((roundedUp_remainder_iff fits).mp up)).2]
  · next notUp =>
      rw [(stepsExact fits).remainder,
        (fdiv_fmod_of_not_roundsUp nonzero (mt (roundedUp_remainder_iff fits).mpr notUp)).2]

end Words

/-! ## Powers -/

section Powers

variable {base : Int} {exponent : Nat}

/-- The powers of 0, 1 and -1 depend on the exponent only through its parity. -/
theorem pow_eq_pow_parity (small : base.natAbs < 2) (large : 64 ≤ exponent) :
    base ^ (64 + exponent % 2) = base ^ exponent := by
  obtain rfl | rfl | rfl : base = 0 ∨ base = 1 ∨ base = -1 := by omega
  · rw [Int.zero_pow (by omega), Int.zero_pow (by omega)]
  · rw [one_pow, one_pow]
  · rcases Nat.even_or_odd exponent with even | odd
    · rw [Nat.even_iff.mp even, even.neg_one_pow]
      rfl
    · rw [Nat.odd_iff.mp odd, odd.neg_one_pow]
      rfl

theorem not_fits_pow (several : 2 ≤ base.natAbs) (large : 64 ≤ exponent) :
    ¬FitsInt64 (base ^ exponent) := by
  have grows : 0x10000000000000000 ≤ (base ^ exponent).natAbs := by
    rw [Int.natAbs_pow]
    calc 0x10000000000000000
        = 2 ^ 64 := by norm_num
      _ ≤ 2 ^ exponent := Nat.pow_le_pow_right (by decide) large
      _ ≤ base.natAbs ^ exponent := Nat.pow_le_pow_left several exponent
  rintro ⟨low, high⟩
  omega

theorem powInt64_eq_exactly (base : Int) (exponent : Nat) :
    powInt64 base exponent = exactly (base ^ exponent) := by
  rw [powInt64]
  by_cases large : 64 ≤ exponent
  · by_cases several : 2 ≤ base.natAbs
    · rw [if_pos (by simp [large, several]), exactly,
        int64?_eq_none_iff.mpr (not_fits_pow several large)]
    · rw [if_neg (by simp [several]), if_pos large]
      exact congrArg exactly (pow_eq_pow_parity (Nat.lt_of_not_le several) large)
  · rw [if_neg (by simp [large]), if_neg large]
    rfl

end Powers

/-! ## Operators -/

/-- A result is the given integer if that fits in 64 bits, and refused otherwise. -/
def IsExact (n : Int) (result : Except Failure Value) : Prop :=
  (FitsInt64 n → ∃ m : Int64, result = .ok (.int m) ∧ m.toInt = n) ∧
    (¬FitsInt64 n → result = .error .overflow)

/-- A division gives what is wanted. It fails for a zero divisor, and for the one quotient that
is too large. -/
def Divides (a b : Int) (Wanted : Int → Prop) (result : Except Failure Value) : Prop :=
  (result = .error .divisionByZero ↔ b = 0) ∧
    (result = .error .overflow ↔ a = -0x8000000000000000 ∧ b = -1) ∧
    (b ≠ 0 → ¬(a = -0x8000000000000000 ∧ b = -1) →
      ∃ n : Int64, result = .ok (.int n) ∧ Wanted n.toInt)

theorem isExact_exactly (n : Int) : IsExact n (exactly n) := by
  rw [exactly]
  constructor
  · intro fits
    refine ⟨Int64.ofInt n, ?_, Int64.toInt_ofInt_of_le fits.1 fits.2⟩
    rw [int64?, if_pos fits]
  · intro large
    rw [int64?_eq_none_iff.mpr large]

theorem divides_of_cases {a b : Int64} {Wanted : Int → Prop} {result : Except Failure Value}
    (byZero : b = 0 → result = .error .divisionByZero)
    (large : a = Int64.minValue → b = -1 → result = .error .overflow)
    (returned : QuotientFits a b → ∃ n : Int64, result = .ok (.int n) ∧ Wanted n.toInt) :
    Divides a.toInt b.toInt Wanted result := by
  by_cases fits : QuotientFits a b
  · obtain ⟨n, rfl, wanted⟩ := returned fits
    obtain ⟨nonzero, notLeast⟩ := quotientFits_iff.mp fits
    exact ⟨iff_of_false nofun nonzero, iff_of_false nofun notLeast, fun _ _ => ⟨n, rfl, wanted⟩⟩
  · by_cases zero : b = 0
    · rw [byZero zero, zero]
      exact ⟨iff_of_true rfl rfl, iff_of_false nofun fun least => absurd least.2 (by decide),
        fun nonzero => absurd rfl nonzero⟩
    · obtain ⟨rfl, rfl⟩ : a = Int64.minValue ∧ b = -1 := by
        by_contra notLeast
        exact fits ⟨zero, notLeast⟩
      rw [large rfl rfl]
      exact ⟨iff_of_false nofun (by decide), iff_of_true rfl ⟨rfl, rfl⟩,
        fun _ notLeast => absurd ⟨rfl, rfl⟩ notLeast⟩

theorem divides_floorDivInt (a b : Int64) :
    Divides a.toInt b.toInt (fun q => q = ⌊(a.toInt : ℚ) / b.toInt⌋) (floorDivInt a b) := by
  refine divides_of_cases ?_ ?_ ?_
  · rintro rfl
    rfl
  · rintro rfl rfl
    rfl
  · intro fits
    obtain ⟨q, returned, value⟩ := exists_floorDivInt fits
    exact ⟨q, returned, value.trans (fdiv_eq_floor _ _)⟩

theorem divides_moduloInt (a b : Int64) :
    Divides a.toInt b.toInt
      (fun r => r = a.toInt - b.toInt * ⌊(a.toInt : ℚ) / b.toInt⌋ ∧
        (0 < b.toInt → 0 ≤ r) ∧ (b.toInt < 0 → r ≤ 0) ∧ |r| < |b.toInt|)
      (moduloInt a b) := by
  refine divides_of_cases ?_ ?_ ?_
  · rintro rfl
    rfl
  · rintro rfl rfl
    rfl
  · intro fits
    obtain ⟨r, returned, value⟩ := exists_moduloInt fits
    refine ⟨r, returned, ?_⟩
    rw [value, ← fdiv_eq_floor]
    exact ⟨Int.fmod_def _ _, fmod_bounds _ (quotientFits_iff.mp fits).1⟩

section Operators

variable {left right : Value} {a b : Int64}

section Operands

variable (isLeft : left.int? = some a) (isRight : right.int? = some b)
include isLeft isRight

theorem intPair?_eq_some : intPair? left right = some (a, b) := by
  rw [intPair?, isLeft, isRight]
  rfl

theorem arithmetic_eq (symbol : String) (onFloats : Float → Float → Float)
    {onInts : Int64 → Int64 → Option Int64} (compute : Int → Int → Int)
    (onInts_eq : ∀ a b : Int64, onInts a b = int64? (compute a.toInt b.toInt)) :
    arithmetic symbol onInts onFloats left right = exactly (compute a.toInt b.toInt) := by
  rw [arithmetic, isLeft, isRight, exactly, ← onInts_eq]

theorem applyBinary_addition_eq :
    applyBinary .addition left right = exactly (a.toInt + b.toInt) := by
  have sum := arithmetic_eq isLeft isRight "+" (· + ·) (· + ·) addInt64?_eq_int64?
  cases left with
  | bool _ | int _ => exact sum
  | _ => cases isLeft

theorem applyBinary_subtraction_eq :
    applyBinary .subtraction left right = exactly (a.toInt - b.toInt) :=
  arithmetic_eq isLeft isRight "-" (· - ·) (· - ·) fun _ _ => rfl

theorem applyBinary_multiplication_eq :
    applyBinary .multiplication left right = exactly (a.toInt * b.toInt) := by
  have product := arithmetic_eq isLeft isRight "*" (· * ·) (· * ·) fun _ _ => rfl
  cases left with
  | bool _ | int _ =>
    cases right with
    | bool _ | int _ => exact product
    | _ => cases isRight
  | _ => cases isLeft

omit isRight in
theorem applyUnary_negation_eq : applyUnary .negation left = exactly (-a.toInt) := by
  cases left with
  | bool _ | int _ =>
    cases isLeft
    rfl
  | _ => cases isLeft

theorem applyBinary_floorDivision_eq : applyBinary .floorDivision left right = floorDivInt a b := by
  rw [applyBinary, intPair?_eq_some isLeft isRight]

theorem applyBinary_modulo_eq : applyBinary .modulo left right = moduloInt a b := by
  have pair := intPair?_eq_some isLeft isRight
  cases left with
  | bool _ | int _ => simp only [applyBinary, pair]
  | _ => cases isLeft

theorem applyBinary_power_eq (low : 0 ≤ b.toInt) (high : b.toInt < 0x100000000) :
    applyBinary .power left right = exactly (a.toInt ^ b.toInt.toNat) := by
  have high' : b.toInt < (UInt32.size : Int) := high
  simp only [applyBinary, power, intPair?_eq_some isLeft isRight, if_pos low, if_pos high']
  exact powInt64_eq_exactly _ _

end Operands

/-- Operators between integers are exact or refuse. Sums, differences, products, negation and
powers give the result if it fits in 64 bits. A quotient is rounded down, and its remainder has
the sign of the divisor and is smaller; both are refused for a zero divisor, and for the
quotient of the least integer by -1 only. No step on the way is inexact. -/
theorem integer_operators_exact (isLeft : left.int? = some a) (isRight : right.int? = some b) :
    IsExact (a.toInt + b.toInt) (applyBinary .addition left right) ∧
    IsExact (a.toInt - b.toInt) (applyBinary .subtraction left right) ∧
    IsExact (a.toInt * b.toInt) (applyBinary .multiplication left right) ∧
    IsExact (-a.toInt) (applyUnary .negation left) ∧
    Divides a.toInt b.toInt (fun q => q = ⌊(a.toInt : ℚ) / b.toInt⌋)
      (applyBinary .floorDivision left right) ∧
    Divides a.toInt b.toInt
      (fun r => r = a.toInt - b.toInt * ⌊(a.toInt : ℚ) / b.toInt⌋ ∧
        (0 < b.toInt → 0 ≤ r) ∧ (b.toInt < 0 → r ≤ 0) ∧ |r| < |b.toInt|)
      (applyBinary .modulo left right) ∧
    (0 ≤ b.toInt → b.toInt < 0x100000000 →
      IsExact (a.toInt ^ b.toInt.toNat) (applyBinary .power left right)) ∧
    (QuotientFits a b → StepsExact a b) := by
  refine ⟨?_, ?_, ?_, ?_, ?_, ?_, ?_, stepsExact⟩
  · rw [applyBinary_addition_eq isLeft isRight]
    exact isExact_exactly _
  · rw [applyBinary_subtraction_eq isLeft isRight]
    exact isExact_exactly _
  · rw [applyBinary_multiplication_eq isLeft isRight]
    exact isExact_exactly _
  · rw [applyUnary_negation_eq isLeft]
    exact isExact_exactly _
  · rw [applyBinary_floorDivision_eq isLeft isRight]
    exact divides_floorDivInt a b
  · rw [applyBinary_modulo_eq isLeft isRight]
    exact divides_moduloInt a b
  · intro low high
    rw [applyBinary_power_eq isLeft isRight low high]
    exact isExact_exactly _

/-- The least integer divided by the greatest: the quotient lies just below -1, so that both
corrections are made, at the ends of the 64 bits. -/
theorem integer_operators_exact_leastByGreatest :
    (Value.int Int64.minValue).int? = some Int64.minValue ∧
      (Value.int Int64.maxValue).int? = some Int64.maxValue ∧
      (∃ q : Int64, q.toInt = -2 ∧
        applyBinary .floorDivision (.int Int64.minValue) (.int Int64.maxValue) = .ok (.int q)) ∧
      (∃ r : Int64, r.toInt = 0x7FFFFFFFFFFFFFFE ∧
        applyBinary .modulo (.int Int64.minValue) (.int Int64.maxValue) = .ok (.int r)) ∧
      applyBinary .subtraction (.int Int64.minValue) (.int Int64.maxValue) = .error .overflow := by
  have least : (Value.int Int64.minValue).int? = some Int64.minValue := rfl
  have greatest : (Value.int Int64.maxValue).int? = some Int64.maxValue := rfl
  have floor : ⌊(Int64.minValue.toInt : ℚ) / Int64.maxValue.toInt⌋ = -2 := by
    have leastInt : Int64.minValue.toInt = -0x8000000000000000 := rfl
    have greatestInt : Int64.maxValue.toInt = 0x7FFFFFFFFFFFFFFF := rfl
    rw [leastInt, greatestInt, Int.floor_eq_iff]
    norm_num
  obtain ⟨-, difference, -, -, quotient, remainder, -⟩ := integer_operators_exact least greatest
  obtain ⟨q, returned, q_eq⟩ := quotient.2.2 (by decide) (by decide)
  obtain ⟨r, returned', r_eq, -⟩ := remainder.2.2 (by decide) (by decide)
  rw [floor] at q_eq r_eq
  exact ⟨least, greatest, ⟨q, q_eq, returned⟩, ⟨r, r_eq, returned'⟩, difference.2 (by decide)⟩

end Operators

end ModelWeaver.Snippet
