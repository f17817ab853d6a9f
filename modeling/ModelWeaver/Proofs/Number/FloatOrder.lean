import ModelWeaver.Number.Decimal
import ModelWeaver.Proofs.Number.FloatValue

/-!
# The order of floats

Finite floats compare like the numbers that they stand for: of two mantissas that fit, the one
with the greater exponent has its leading bit, and so stands for more.
-/

namespace ModelWeaver.Number

open Float.Model Float.Model.UnpackedFloat

/-! ## Magnitudes -/

theorem scaled_lt_of_exponent_lt {m n : Nat} {e f : Int} (small : m < 2 ^ 53)
    (normal : 2 ^ 52 ≤ n) (lower : e < f) : (m : ℚ) * 2 ^ e < n * 2 ^ f := by
  have small_cast : (m : ℚ) < 2 ^ 53 := by exact_mod_cast small
  have normal_cast : (2 : ℚ) ^ 52 ≤ n := by exact_mod_cast normal
  calc (m : ℚ) * 2 ^ e
      < 2 ^ 53 * 2 ^ e := mul_lt_mul_of_pos_right small_cast (zpow_pos two_pos e)
    _ = 2 ^ 52 * 2 ^ (e + 1) := by rw [zpow_add_one₀ two_ne_zero]; ring
    _ ≤ n * 2 ^ f := mul_le_mul normal_cast (zpow_le_zpow_right₀ one_le_two lower)
        (zpow_pos two_pos _).le (Nat.cast_nonneg n)

/-- Exponents are compared first, and mantissas only where these are the same. -/
theorem compare_scaled {sign sign' : Sign} {m n : Nat} {e f : Int} {positive : 0 < m}
    {positive' : 0 < n} (fits : Fits (.finite sign m e positive))
    (fits' : Fits (.finite sign' n f positive')) :
    (compare e f).then (compare m n) = compare ((m : ℚ) * 2 ^ e) (n * 2 ^ f) := by
  rcases fits with ⟨small, low, -, normal⟩
  rcases fits' with ⟨small', low', -, normal'⟩
  rcases lt_trichotomy e f with lower | rfl | higher
  · have less := scaled_lt_of_exponent_lt small (normal'.resolve_right (by omega)) lower
    rw [compare_lt_iff_lt.mpr lower, compare_lt_iff_lt.mpr less]
    rfl
  · have power : (0 : ℚ) < 2 ^ e := zpow_pos two_pos e
    rw [compare_eq_iff_eq.mpr rfl]
    rcases lt_trichotomy m n with less | rfl | more
    · have less_cast : (m : ℚ) < n := by exact_mod_cast less
      have scaled_less := mul_lt_mul_of_pos_right less_cast power
      rw [compare_lt_iff_lt.mpr less, compare_lt_iff_lt.mpr scaled_less]
      rfl
    · rw [compare_eq_iff_eq.mpr rfl, compare_eq_iff_eq.mpr rfl]
      rfl
    · have more_cast : (n : ℚ) < m := by exact_mod_cast more
      have scaled_more := mul_lt_mul_of_pos_right more_cast power
      rw [compare_gt_iff_gt.mpr more, compare_gt_iff_gt.mpr scaled_more]
      rfl
  · have more := scaled_lt_of_exponent_lt small' (normal.resolve_right (by omega)) higher
    rw [compare_gt_iff_gt.mpr higher, compare_gt_iff_gt.mpr more]
    rfl

/-! ## Finite floats -/

/-- Sign, mantissa and exponent stand for a number. -/
inductive StandsFor : UnpackedFloat → ℚ → Prop
  | zero (sign : Sign) : StandsFor (.zero sign) 0
  | positive {m : Nat} {e : Int} (positive : 0 < m) :
      StandsFor (.finite .positive m e positive) ((m : ℚ) * 2 ^ e)
  | negative {m : Nat} {e : Int} (positive : 0 < m) :
      StandsFor (.finite .negative m e positive) (-((m : ℚ) * 2 ^ e))

theorem standsFor_of_exactValue? {x : Float} {q : ℚ} (exact_eq : exactValue? x = some q) :
    StandsFor (unpacked x) q := by
  rw [exactValue?_eq] at exact_eq
  cases unpacked_eq : unpacked x with
  | notANumber | infinity sign =>
    rw [unpacked_eq] at exact_eq
    cases exact_eq
  | zero sign =>
    rw [unpacked_eq] at exact_eq
    have value_eq : (0 : ℚ) = q := by simpa [toExact?, Exact.value] using exact_eq
    rw [← value_eq]
    exact .zero sign
  | finite sign m e positive =>
    rw [unpacked_eq] at exact_eq
    cases sign with
    | positive =>
      have value_eq : (m : ℚ) * 2 ^ e = q := by
        rw [← Option.some.inj exact_eq]
        change _ = (1 : ℚ) * m * 2 ^ e
        rw [one_mul]
      rw [← value_eq]
      exact .positive positive
    | negative =>
      have value_eq : -((m : ℚ) * 2 ^ e) = q := by
        rw [← Option.some.inj exact_eq]
        change _ = (-1 : ℚ) * m * 2 ^ e
        rw [neg_one_mul, neg_mul]
      rw [← value_eq]
      exact .negative positive

theorem StandsFor.exactValue?_eq {x : Float} {q : ℚ} (stands : StandsFor (unpacked x) q) :
    exactValue? x = some q := by
  rw [Number.exactValue?_eq]
  generalize unpacked x = u at stands
  cases stands with
  | zero sign => simp [toExact?, Exact.value]
  | positive _ => exact congrArg some (congrArg (· * _) (one_mul _))
  | negative _ =>
    refine congrArg some ?_
    change (-1 : ℚ) * _ * _ = _
    rw [neg_one_mul, neg_mul]

theorem compare_neg_neg (a b : ℚ) : compare (-a) (-b) = (compare a b).swap := by
  rcases lt_trichotomy a b with less | rfl | more
  · rw [compare_lt_iff_lt.mpr less, compare_gt_iff_gt.mpr (neg_lt_neg less)]
    rfl
  · rw [compare_eq_iff_eq.mpr rfl, compare_eq_iff_eq.mpr rfl]
    rfl
  · rw [compare_gt_iff_gt.mpr more, compare_lt_iff_lt.mpr (neg_lt_neg more)]
    rfl

theorem scaled_pos {m : Nat} (positive : 0 < m) (e : Int) : (0 : ℚ) < m * 2 ^ e :=
  mul_pos (Nat.cast_pos.mpr positive) (zpow_pos two_pos e)

theorem StandsFor.compare_eq {u v : UnpackedFloat} {p q : ℚ} (fits : Fits u) (fits' : Fits v)
    (first : StandsFor u p) (second : StandsFor v q) :
    UnpackedFloat.compare u v = some (compare p q) := by
  cases first with
  | zero sign =>
    cases second with
    | zero sign' =>
      rw [compare_eq_iff_eq.mpr rfl]
      rfl
    | @positive n f positive' =>
      rw [compare_lt_iff_lt.mpr (scaled_pos positive' f)]
      rfl
    | @negative n f positive' =>
      rw [compare_gt_iff_gt.mpr (neg_lt_zero.mpr (scaled_pos positive' f))]
      rfl
  | @positive m e positive =>
    cases second with
    | zero sign' =>
      rw [compare_gt_iff_gt.mpr (scaled_pos positive e)]
      rfl
    | positive positive' =>
      rw [← compare_scaled fits fits']
      rfl
    | @negative n f positive' =>
      have less : -((n : ℚ) * 2 ^ f) < m * 2 ^ e :=
        (neg_lt_zero.mpr (scaled_pos positive' f)).trans (scaled_pos positive e)
      rw [compare_gt_iff_gt.mpr less]
      rfl
  | @negative m e positive =>
    cases second with
    | zero sign' =>
      rw [compare_lt_iff_lt.mpr (neg_lt_zero.mpr (scaled_pos positive e))]
      rfl
    | @positive n f positive' =>
      have less : -((m : ℚ) * 2 ^ e) < n * 2 ^ f :=
        (neg_lt_zero.mpr (scaled_pos positive e)).trans (scaled_pos positive' f)
      rw [compare_lt_iff_lt.mpr less]
      rfl
    | @negative n f positive' =>
      rw [compare_neg_neg, ← compare_scaled fits fits']
      rfl

section Finite

variable {x y : Float} {p q : ℚ} (first : exactValue? x = some p) (second : exactValue? y = some q)

include first second in
theorem lt_iff_exactValue? : x < y ↔ p < q := by
  rw [lt_iff_unpacked, UnpackedFloat.lt, (standsFor_of_exactValue? first).compare_eq
    (fits_unpacked x) (fits_unpacked y) (standsFor_of_exactValue? second), beq_iff_eq,
    Option.some.injEq, compare_lt_iff_lt]

include first in
theorem isNaN_of_exactValue? : x.isNaN = false := by
  change (unpacked x).isNaN = false
  have stands := standsFor_of_exactValue? first
  generalize unpacked x = u at stands
  cases stands <;> rfl

include first in
theorem exactValue?_abs : exactValue? x.abs = some |p| := by
  apply StandsFor.exactValue?_eq
  rw [unpacked_abs]
  have stands := standsFor_of_exactValue? first
  generalize unpacked x = u at stands
  cases stands with
  | zero sign =>
    rw [abs_zero]
    exact .zero _
  | @positive m e positive =>
    rw [abs_of_pos (scaled_pos positive e)]
    exact .positive positive
  | @negative m e positive =>
    rw [abs_neg, abs_of_pos (scaled_pos positive e)]
    exact .positive positive

include first in
theorem lt_infinity : x < Number.infinity := by
  rw [lt_iff_unpacked]
  change UnpackedFloat.lt (unpacked x) (.infinity .positive) = true
  have stands := standsFor_of_exactValue? first
  generalize unpacked x = u at stands
  cases stands <;> rfl

include first in
theorem neg_infinity_lt : -Number.infinity < x := by
  rw [lt_iff_unpacked, unpacked_neg]
  change UnpackedFloat.lt (.infinity .negative) (unpacked x) = true
  have stands := standsFor_of_exactValue? first
  generalize unpacked x = u at stands
  cases stands <;> rfl

end Finite

end ModelWeaver.Number
