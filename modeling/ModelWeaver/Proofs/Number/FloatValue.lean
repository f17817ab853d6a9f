import ModelWeaver.Number.Exact
import Mathlib

/-!
# The exact value of a float

A finite float is a whole number of powers of two. Negation and absolute value are exact, as is
adding to zero, and so are whole numbers of less than 53 bits: a float is determined by its sign,
mantissa and exponent, and rounding leaves alone what fits. The lemmas on packed floats are those
of Batteries, which only the whole of Mathlib brings along.
-/

namespace ModelWeaver.Number

open Float.Model Float.Model.UnpackedFloat

/-! ## Taking floats apart and putting them together -/

/-- The sign, mantissa and exponent of a float. -/
def unpacked (x : Float) : UnpackedFloat := x.toModel.unpack

/-- The float with a sign, mantissa and exponent that fit. -/
def packed (u : UnpackedFloat) : Float := Float.ofModel (Float.Model.pack u)

/-- Mantissa and exponent are those of a float of 64 bits. -/
def Fits : UnpackedFloat → Prop
  | .finite _ m e _ => m < 2 ^ 53 ∧ -1074 ≤ e ∧ e ≤ 971 ∧ (2 ^ 52 ≤ m ∨ e = -1074)
  | _ => True

theorem packed_unpacked (x : Float) : packed (unpacked x) = x :=
  Float.ofBits_toBits x

theorem toNat_leadingBit_append (m : BitVec 52) : (1#1 ++ m).toNat = 2 ^ 52 + m.toNat := by
  rw [BitVec.toNat_append, ← Nat.shiftLeft_add_eq_or_of_lt m.isLt]
  simp [Nat.shiftLeft_eq]

theorem toNat_exponent {exponent : BitVec 11} (inner : exponent ≠ -1#11) :
    exponent.toNat ≤ 2046 := by
  have bound := exponent.isLt
  have inner' : exponent.toNat ≠ (-1#11).toNat := fun same => inner (BitVec.eq_of_toNat_eq same)
  have top : (-1#11).toNat = 2047 := by decide
  omega

theorem fits_unpacked (x : Float) : Fits (unpacked x) := by
  change Fits (UnpackedFloat.unpack Format.binary64 x.toModel.toBits.toBitVec)
  generalize x.toModel.toBits.toBitVec = bits
  fun_cases UnpackedFloat.unpack with
  | case1 | case2 | case3 => trivial
  | case4 mantissa exponent e sign _ _ zero nonzero =>
    have bound : mantissa.toNat < 2 ^ 52 := mantissa.isLt
    simp only [Fits, e, zero]
    refine ⟨by omega, by decide, by decide, Or.inr (by decide)⟩
  | case5 mantissa exponent e sign _ inner nonzero =>
    have bound : mantissa.toNat < 2 ^ 52 := mantissa.isLt
    have mantissa_eq := toNat_leadingBit_append mantissa
    have high := toNat_exponent inner
    have low : exponent.toNat ≠ 0 := fun same => nonzero (BitVec.eq_of_toNat_eq same)
    have e_eq : e = exponent.toNat - 1075 := rfl
    change (1#1 ++ mantissa).toNat < 2 ^ 53 ∧ -1074 ≤ e ∧ e ≤ 971 ∧
      (2 ^ 52 ≤ (1#1 ++ mantissa).toNat ∨ e = -1074)
    omega

variable {e : Int} {u : UnpackedFloat} {n : Nat}

/-- A finite float is packed with a leading bit that is left out, or else, if it is too
small for one, with an exponent field of zero. -/
theorem pack_finite {sign : Sign} {m : Nat} {positive : 0 < m} (small : m < 2 ^ 53)
    (high : e ≤ 971) :
    UnpackedFloat.pack Format.binary64 (.finite sign m e positive) =
      packComponents Format.binary64 sign
        (if 2 ^ 52 ≤ m then BitVec.ofNat 11 (e + 1075).toNat else 0#11) (BitVec.ofNat 52 m) := by
  have exponent_eq : (e + Format.binary64.exponentBias +
      Format.binary64.mantissaBitsWithoutImplicit).toNat = (e + 1075).toNat := by
    change (e + 1023 + 52).toNat = _
    congr 1
    omega
  have in_range : ¬ 2 ^ Format.binary64.exponentBits ≤ (e + 1075).toNat + 1 := by
    change ¬ 2048 ≤ _
    omega
  rw [UnpackedFloat.pack]
  simp only [exponent_eq, if_neg in_range]
  by_cases normal : 2 ^ 52 ≤ m
  · have leading : m.log2 + 1 = Format.binary64.mantissaBits :=
      congrArg (· + 1) ((Nat.log2_eq_iff (by omega)).mpr ⟨normal, small⟩)
    rw [if_pos normal, if_pos leading]
  · have short : m.log2 < 52 := (Nat.log2_lt (by omega)).mpr (by omega)
    have not_leading : ¬ m.log2 + 1 = Format.binary64.mantissaBits := by
      change ¬ m.log2 + 1 = 53
      omega
    rw [if_neg normal, if_neg not_leading]

theorem unpack_pack (fits : Fits u) :
    UnpackedFloat.unpack Format.binary64 (UnpackedFloat.pack Format.binary64 u) = u := by
  cases u with
  | notANumber => exact unpack_packedNaN
  | infinity sign =>
    cases sign <;> rfl
  | zero sign => exact unpack_packedZero
  | finite sign m e positive =>
    rcases fits with ⟨small, low, high, normal⟩
    rw [pack_finite small high]
    simp only [UnpackedFloat.unpack, unpackMantissa_packComponents,
      unpackExponent_packComponents, unpackSign_packComponents, Sign.ofBitVec_toBitVec]
    by_cases large : 2 ^ 52 ≤ m
    · -- A normal number: its leading bit is not stored.
      have field : (BitVec.ofNat 11 (e + 1075).toNat).toNat = (e + 1075).toNat :=
        (BitVec.toNat_ofNat _ _).trans (Nat.mod_eq_of_lt (by omega))
      have inner : BitVec.ofNat 11 (e + 1075).toNat ≠ -1#11 := by
        intro same
        have := congrArg BitVec.toNat same
        rw [field] at this
        change _ = 2047 at this
        omega
      have nonzero : BitVec.ofNat 11 (e + 1075).toNat ≠ 0#11 := by
        intro same
        have := congrArg BitVec.toNat same
        rw [field] at this
        change _ = 0 at this
        omega
      have mantissa_eq : (1#1 ++ BitVec.ofNat 52 m).toNat = m := by
        rw [toNat_leadingBit_append, BitVec.toNat_ofNat]
        omega
      have exponent_eq : ((e + 1075).toNat : Int) - (Format.binary64.exponentBias +
          Format.binary64.mantissaBitsWithoutImplicit) = e := by
        change ((e + 1075).toNat : Int) - (1023 + 52) = e
        omega
      simp only [if_pos large, if_neg inner, if_neg nonzero, field, mantissa_eq, exponent_eq]
    · -- A subnormal one, whose exponent field is zero.
      have field : (BitVec.ofNat 52 m).toNat = m :=
        (BitVec.toNat_ofNat _ _).trans (Nat.mod_eq_of_lt (by omega))
      have nonzero : BitVec.ofNat 52 m ≠ 0#52 := by
        intro same
        have := congrArg BitVec.toNat same
        rw [field] at this
        change m = 0 at this
        omega
      have inner : (0#11 : BitVec 11) ≠ -1#11 := by decide
      have exponent_eq : ((0#11 : BitVec 11).toNat : Int) - (Format.binary64.exponentBias +
          Format.binary64.mantissaBitsWithoutImplicit) + 1 = e := by
        change (0 : Int) - (1023 + 52) + 1 = e
        omega
      simp only [if_neg large, if_neg inner, if_true, dif_neg nonzero, field, exponent_eq]

theorem unpacked_packed (fits : Fits u) : unpacked (packed u) = u :=
  unpack_pack fits

/-! ## Values -/

/-- The number that an exact form stands for. -/
def Exact.value (exact : Exact) : ℚ :=
  (if exact.negative then -1 else 1) * exact.mantissa * 2 ^ exact.exponent

/-- The number that a finite float stands for. -/
def exactValue? (x : Float) : Option ℚ := (finite? x).map Exact.value

/-- The exact form of sign, mantissa and exponent. -/
def toExact? : UnpackedFloat → Option Exact
  | .finite sign m e _ => some ⟨sign == .negative, m, e⟩
  | .zero sign => some ⟨sign == .negative, 0, -1074⟩
  | _ => none

section Fields

variable (bits : BitVec Format.binary64.numBits)

theorem toNat_unpackExponent : (unpackExponent bits).toNat = (bits.toNat >>> 52) % 2048 := by
  rw [unpackExponent_def]
  exact BitVec.extractLsb'_toNat ..

theorem toNat_unpackMantissa : (unpackMantissa bits).toNat = bits.toNat % leadingBit := by
  rw [unpackMantissa_def]
  exact BitVec.extractLsb'_toNat ..

theorem unpackSign_eq_negative :
    (Sign.ofBitVec (unpackSign bits) == .negative) = decide (bits.toNat >>> 63 = 1) := by
  have field : (unpackSign bits).toNat = bits.toNat >>> 63 := by
    rw [unpackSign_def]
    refine (BitVec.extractLsb'_toNat ..).trans (Nat.mod_eq_of_lt ?_)
    have bound : bits.toNat < 2 ^ 64 := bits.isLt
    rw [Nat.shiftRight_eq_div_pow]
    change bits.toNat / 2 ^ 63 < 2
    omega
  rw [← field]
  generalize unpackSign bits = sign
  revert sign
  decide

end Fields

theorem finite?_eq_toExact? (x : Float) : finite? x = toExact? (unpacked x) := by
  change finite? x = toExact? (UnpackedFloat.unpack Format.binary64 x.toModel.toBits.toBitVec)
  have bits_eq : x.toBits.toNat = x.toModel.toBits.toBitVec.toNat := rfl
  rw [finite?, bits_eq]
  generalize (x.toModel.toBits.toBitVec : BitVec Format.binary64.numBits) = bits
  simp only [← toNat_unpackExponent, ← toNat_unpackMantissa, ← unpackSign_eq_negative]
  fun_cases UnpackedFloat.unpack with
  | case1 mantissa exponent sign _ top zero =>
    have scale : exponent.toNat = 2047 := by rw [top]; rfl
    rw [if_pos scale]
    rfl
  | case2 mantissa exponent top nonzero =>
    have scale : exponent.toNat = 2047 := by rw [top]; rfl
    rw [if_pos scale]
    rfl
  | case3 mantissa exponent sign _ inner zero fraction =>
    have scale : exponent.toNat = 0 := by rw [zero]; rfl
    have fraction : mantissa.toNat = 0 := by rw [fraction]; rfl
    change (if exponent.toNat = 2047 then none else if exponent.toNat = 0 then
      some (Exact.mk _ mantissa.toNat (-1074)) else _) = _
    rw [if_neg (by omega), if_pos scale, fraction]
    rfl
  | case4 mantissa exponent e sign _ _ zero nonzero =>
    have scale : exponent.toNat = 0 := by rw [zero]; rfl
    have e_eq : e = exponent.toNat - 1075 := rfl
    change (if exponent.toNat = 2047 then none else if exponent.toNat = 0 then
      some (Exact.mk _ mantissa.toNat (-1074)) else _) = some (Exact.mk _ mantissa.toNat (e + 1))
    rw [if_neg (by omega), if_pos scale, e_eq, scale]
    rfl
  | case5 mantissa exponent e sign _ inner nonzero =>
    have high := toNat_exponent inner
    have low : exponent.toNat ≠ 0 := fun same => nonzero (BitVec.eq_of_toNat_eq same)
    change (if exponent.toNat = 2047 then none else if exponent.toNat = 0 then _ else
        some (Exact.mk _ (2 ^ 52 + mantissa.toNat) e)) =
      some (Exact.mk _ (1#1 ++ mantissa).toNat e)
    rw [if_neg (by omega), if_neg low, toNat_leadingBit_append]

theorem exactValue?_eq (x : Float) : exactValue? x = (toExact? (unpacked x)).map Exact.value := by
  rw [exactValue?, finite?_eq_toExact?]

/-! ## Exact operations -/

theorem fits_neg (fits : Fits u) : Fits u.neg := by
  cases u with
  | finite => exact fits
  | infinity | notANumber | zero => trivial

theorem unpacked_neg (x : Float) : unpacked (-x) = (unpacked x).neg :=
  unpacked_packed (fits_neg (fits_unpacked x))

theorem unpacked_abs (x : Float) : unpacked x.abs = (unpacked x).abs := by
  apply unpacked_packed
  have fits := fits_unpacked x
  change Fits (unpacked x).abs
  cases unpacked_eq : unpacked x with
  | finite =>
    rw [unpacked_eq] at fits
    exact fits
  | infinity | notANumber | zero => trivial

theorem lt_iff_unpacked (x y : Float) : x < y ↔ (unpacked x).lt (unpacked y) = true := by
  change decide (x.toModel < y.toModel) = true ↔ _
  rw [decide_eq_true_iff]
  rfl

theorem exactValue?_neg (x : Float) : exactValue? (-x) = (exactValue? x).map Neg.neg := by
  rw [exactValue?_eq, exactValue?_eq, unpacked_neg]
  cases unpacked x with
  | infinity | notANumber => rfl
  | zero sign => simp [UnpackedFloat.neg, toExact?, Exact.value]
  | finite sign m e _ =>
    cases sign with
    | negative =>
      change some ((1 : ℚ) * m * 2 ^ e) = some (-((-1 : ℚ) * m * 2 ^ e))
      ring_nf
    | positive =>
      change some ((-1 : ℚ) * m * 2 ^ e) = some (-((1 : ℚ) * m * 2 ^ e))
      ring_nf

theorem minus_minus (x : Float) : - -x = x := by
  rw [← packed_unpacked (- -x), unpacked_neg, unpacked_neg]
  conv_rhs => rw [← packed_unpacked x]
  cases unpacked x with
  | notANumber => rfl
  | infinity sign | zero sign | finite sign => cases sign <;> rfl

theorem zero_plus {x : Float} (nonzero : ∀ sign, unpacked x ≠ .zero sign) : 0.0 + x = x := by
  conv_rhs => rw [← packed_unpacked x]
  change packed (UnpackedFloat.add Format.binary64 (.zero .positive) (unpacked x)) = _
  cases unpacked_eq : unpacked x with
  | zero sign => exact absurd unpacked_eq (nonzero sign)
  | notANumber | infinity | finite => rfl

theorem exactValue?_zero_add (x : Float) : exactValue? (0.0 + x) = exactValue? x := by
  by_cases nonzero : ∀ sign, unpacked x ≠ .zero sign
  · rw [zero_plus nonzero]
  · push Not at nonzero
    rcases nonzero with ⟨sign, unpacked_eq⟩
    have sum_eq : 0.0 + x = packed (.zero .positive) := by
      change packed (UnpackedFloat.add Format.binary64 (.zero .positive) (unpacked x)) = _
      rw [unpacked_eq]
      cases sign <;> rfl
    have fits : Fits (.zero .positive) := trivial
    rw [sum_eq, exactValue?_eq, exactValue?_eq, unpacked_packed fits, unpacked_eq]
    simp [toExact?, Exact.value]

/-! ## Rounding -/

theorem shiftRight_ofMantissa (m k : Nat) :
    (ExtendedMantissa.ofMantissaAndAccuracy (m * 2 ^ k) .exact) >>> k =
      ExtendedMantissa.ofMantissaAndAccuracy m .exact := by
  change k.repeat ExtendedMantissa.shiftRightOne _ = _
  induction k generalizing m with
  | zero => simp [Nat.repeat]
  | succ k ih =>
    have twice : m * 2 ^ (k + 1) = m * 2 * 2 ^ k := by rw [Nat.pow_succ]; ring
    rw [Nat.repeat, twice, ih]
    simp [ExtendedMantissa.shiftRightOne, ExtendedMantissa.ofMantissaAndAccuracy]

theorem mantissa_shiftRight (em : ExtendedMantissa) (k : Nat) :
    (em >>> k).mantissa = em.mantissa / 2 ^ k := by
  change (k.repeat ExtendedMantissa.shiftRightOne em).mantissa = _
  induction k with
  | zero => simp [Nat.repeat]
  | succ k ih =>
    rw [Nat.repeat, ExtendedMantissa.shiftRightOne, ih, Nat.pow_succ,
      Nat.div_div_eq_div_mul]

theorem roundedMantissa_bounds (em : ExtendedMantissa) :
    em.mantissa ≤ em.roundedMantissa ∧ em.roundedMantissa ≤ em.mantissa + 1 := by
  rcases em with ⟨m, _ | _, _ | _⟩ <;>
    simp only [ExtendedMantissa.roundedMantissa, ExtendedMantissa.accuracy,
      Accuracy.roundToNearestEven] <;> omega

/-- A mantissa is shifted to 53 bits, if the exponent is not too low for that. -/
theorem shiftToTargetExponent_eq {m k : Nat} {accuracy : Accuracy} (normal : 2 ^ 52 ≤ m / 2 ^ k)
    (small : m / 2 ^ k < 2 ^ 53) (low : -1074 ≤ e) :
    shiftToTargetExponent Format.binary64 m (e - k) accuracy =
      (ExtendedMantissa.ofMantissaAndAccuracy m accuracy >>> k, e) := by
  have positive := Nat.two_pow_pos k
  have lower := (Nat.le_div_iff_mul_le positive).mp normal
  have upper := (Nat.div_lt_iff_lt_mul positive).mp small
  have nonzero : m ≠ 0 := by
    rintro rfl
    simp at normal
  have leading : m.log2 = 52 + k := by
    rw [Nat.log2_eq_iff nonzero, Nat.pow_add, Nat.add_right_comm, Nat.pow_add]
    exact ⟨lower, upper⟩
  have target_eq : Format.binary64.targetExponent (totalExponent m (e - k)) = e := by
    change max (((m.log2 : Int) + 1 + (e - k)) - 53) (-1074) = e
    omega
  have shift_eq : (e - (e - k)).toNat = k := by omega
  simp only [shiftToTargetExponent, target_eq, shiftToExponent, shift_eq]
  congr 1
  omega

/-- Rounding to a mantissa of 53 bits. If it is rounded up to one bit more, its last bit
is dropped, which is zero. -/
theorem exists_roundWithAccuracy (sign : Sign) {m k r : Nat} (normal : 2 ^ 52 ≤ m / 2 ^ k)
    (small : m / 2 ^ k < 2 ^ 53) (low : -1074 ≤ e)
    (rounded : (ExtendedMantissa.ofMantissaAndAccuracy m .exact >>> k).roundedMantissa = r) :
    ∃ r' e' positive,
      roundWithAccuracy Format.binary64 sign m (e - k) .exact = .finite sign r' e' positive ∧
        2 ^ 52 ≤ r' ∧ r' < 2 ^ 53 ∧ e ≤ e' ∧ e' ≤ e + 1 ∧ (r < 2 ^ 53 → r' = r ∧ e' = e) := by
  have bounds := roundedMantissa_bounds (ExtendedMantissa.ofMantissaAndAccuracy m .exact >>> k)
  rw [mantissa_shiftRight, rounded] at bounds
  change m / 2 ^ k ≤ r ∧ r ≤ m / 2 ^ k + 1 at bounds
  have final : ∀ (j : Nat) (e' : Int), e' - j = e → -1074 ≤ e' → 2 ^ 52 ≤ r / 2 ^ j →
      r / 2 ^ j < 2 ^ 53 → ∃ positive, roundWithAccuracy Format.binary64 sign m (e - k) .exact =
        .finite sign (r / 2 ^ j) e' positive := by
    intro j e' e_eq low' normal' small'
    have nonzero : r / 2 ^ j ≠ 0 := by omega
    refine ⟨Nat.pos_of_ne_zero nonzero, ?_⟩
    simp only [roundWithAccuracy, shiftToTargetExponent_eq normal small low, rounded]
    simp only [← e_eq, shiftToTargetExponent_eq normal' small' low', mantissa_shiftRight]
    exact dif_neg nonzero
  by_cases fits : r < 2 ^ 53
  · rcases final 0 e (by simp) low (by simpa using by omega) (by simpa using fits) with
      ⟨positive, round_eq⟩
    simp only [Nat.pow_zero, Nat.div_one] at positive round_eq
    exact ⟨r, e, positive, round_eq, by omega, fits, Int.le_refl e, by omega,
      fun _ => ⟨rfl, rfl⟩⟩
  · have carry : r = 2 ^ 53 := by omega
    rcases final 1 (e + 1) (by simp) (by omega) (by omega) (by omega) with ⟨positive, round_eq⟩
    exact ⟨r / 2 ^ 1, e + 1, positive, round_eq, by omega, by omega, by omega, Int.le_refl _,
      fun kept => absurd kept fits⟩

theorem roundWithAccuracy_exact (sign : Sign) {m : Nat} (k : Nat) (normal : 2 ^ 52 ≤ m)
    (small : m < 2 ^ 53) (low : -1074 ≤ e) :
    roundWithAccuracy Format.binary64 sign (m * 2 ^ k) (e - k) .exact =
      .finite sign m e (by omega) := by
  have quotient : m * 2 ^ k / 2 ^ k = m := Nat.mul_div_cancel m (Nat.two_pow_pos k)
  have rounded : (ExtendedMantissa.ofMantissaAndAccuracy (m * 2 ^ k) .exact >>>
      k).roundedMantissa = m := by
    rw [shiftRight_ofMantissa]
    rfl
  rcases exists_roundWithAccuracy sign (quotient.symm ▸ normal)
    (quotient.symm ▸ small) low rounded with ⟨r, e', positive, round_eq, _, _, _, _, kept⟩
  rcases kept small with ⟨rfl, rfl⟩
  exact round_eq

/-! ## Whole numbers -/

/-- A whole number of at most 53 bits, with zeros put behind it to fill up the mantissa. -/
theorem normalize_natCast (positive : 0 < n) (small : n < 2 ^ 53) :
    ∃ k : Nat, k ≤ 52 ∧ ∃ normal : 2 ^ 52 ≤ n * 2 ^ k, n * 2 ^ k < 2 ^ 53 ∧
      UnpackedFloat.normalize Format.binary64 n 0 .positive =
        .finite .positive (n * 2 ^ k) (-k) (by omega) := by
  have leading := (Nat.log2_eq_iff (Nat.ne_of_gt positive)).mp (rfl : n.log2 = n.log2)
  have short : n.log2 < 53 := (Nat.log2_lt (Nat.ne_of_gt positive)).mpr small
  have power : 2 ^ n.log2 * 2 ^ (52 - n.log2) = 2 ^ 52 := by
    rw [← Nat.pow_add]
    congr 1
    omega
  have normal : 2 ^ 52 ≤ n * 2 ^ (52 - n.log2) := by
    rw [← power]
    exact Nat.mul_le_mul_right _ leading.1
  have below : n * 2 ^ (52 - n.log2) < 2 ^ 53 := by
    calc n * 2 ^ (52 - n.log2) < 2 ^ (n.log2 + 1) * 2 ^ (52 - n.log2) :=
          Nat.mul_lt_mul_of_pos_right leading.2 (Nat.two_pow_pos _)
      _ = 2 ^ 53 := by
          rw [Nat.pow_succ, Nat.mul_right_comm, power]
          rfl
  refine ⟨52 - n.log2, by omega, normal, below, ?_⟩
  have target_eq : Format.binary64.targetExponent (totalExponent n 0) =
      -((52 - n.log2 : Nat) : Int) := by
    change max (((n.log2 : Int) + 1 + 0) - 53) (-1074) = _
    omega
  have order : compare (n : Int) 0 = .gt := Int.compare_eq_gt.mpr (by omega)
  rw [UnpackedFloat.normalize, order]
  simp only [Int.toNat_natCast, UnpackedFloat.round, decreaseExponent, target_eq]
  have shift_eq : (0 - -((52 - n.log2 : Nat) : Int)).toNat = 52 - n.log2 := by omega
  rw [shift_eq, Nat.shiftLeft_eq]
  have low : (-1074 : Int) ≤ -((52 - n.log2 : Nat) : Int) := by omega
  simpa using roundWithAccuracy_exact .positive 0 normal below low

theorem ofNat_eq_mul (small : n < 2 ^ 53) :
    Float.ofNat n = packed (UnpackedFloat.mul Format.binary64
      (unpacked (packed (UnpackedFloat.normalize Format.binary64 n 0 .positive)))
        (.finite .positive (2 ^ 52) (-52) (by decide))) := by
  have fast : n < 2 ^ 53 ∧ 0 ≤ 22 := ⟨small, by decide⟩
  have word : n.toUInt64.toNat = n := by
    simp only [Nat.toUInt64, UInt64.toNat_ofNat']
    omega
  have factor : unpacked (Float.ofBits 0x3FF0000000000000) =
      .finite .positive (2 ^ 52) (-52) (by decide) := rfl
  rw [← factor]
  change Float.ofScientific n false 0 = _
  rw [Float.ofScientific, dif_pos fast]
  change packed (UnpackedFloat.mul Format.binary64 (unpacked n.toUInt64.toFloat) _) = _
  have converted : n.toUInt64.toFloat =
      packed (UnpackedFloat.normalize Format.binary64 n.toUInt64.toNat 0 .positive) := rfl
  rw [converted, word]
  rfl

theorem unpacked_ofNat (positive : 0 < n) (small : n < 2 ^ 53) :
    ∃ k : Nat, k ≤ 52 ∧ ∃ normal : 2 ^ 52 ≤ n * 2 ^ k,
      unpacked (Float.ofNat n) = .finite .positive (n * 2 ^ k) (-k) (by omega) := by
  rcases normalize_natCast positive small with ⟨k, short, normal, below, normalize_eq⟩
  refine ⟨k, short, normal, ?_⟩
  have fits : Fits (.finite .positive (n * 2 ^ k) (-k) (by omega)) :=
    ⟨below, by omega, by omega, Or.inl normal⟩
  rw [ofNat_eq_mul small, normalize_eq, unpacked_packed fits]
  change unpacked (packed (roundWithAccuracy Format.binary64 .positive (n * 2 ^ k * 2 ^ 52)
    (-k - (52 : Nat)) .exact)) = _
  rw [roundWithAccuracy_exact .positive 52 normal below (by omega), unpacked_packed fits]

theorem unpacked_ofNat_zero : unpacked (Float.ofNat 0) = .zero .positive := rfl

theorem exactValue?_ofNat (small : n < 2 ^ 53) : exactValue? (Float.ofNat n) = some (n : ℚ) := by
  rcases Nat.eq_zero_or_pos n with rfl | positive
  · rw [exactValue?_eq, unpacked_ofNat_zero]
    simp [toExact?, Exact.value]
  · rcases unpacked_ofNat positive small with ⟨k, _, _, unpacked_eq⟩
    rw [exactValue?_eq, unpacked_eq]
    simp [toExact?, Exact.value]

theorem exactValue?_ofInt {c : Int} (small : c.natAbs < 2 ^ 53) :
    exactValue? (Float.ofInt c) = some (c : ℚ) := by
  cases c with
  | ofNat n => exact exactValue?_ofNat small
  | negSucc n =>
    have value : exactValue? (Float.ofNat (n + 1)) = some ((n + 1 : Nat) : ℚ) :=
      exactValue?_ofNat small
    change exactValue? (-Float.ofNat (n + 1)) = _
    rw [exactValue?_neg, value, Option.map_some, Int.cast_negSucc]

/-- A float with a mantissa of 53 bits is not zero, even if it is too large to be finite. -/
theorem unpacked_packed_ne_zero {sign sign' : Sign} {m : Nat} {positive : 0 < m}
    (normal : 2 ^ 52 ≤ m) (small : m < 2 ^ 53) (low : -1074 ≤ e) :
    unpacked (packed (.finite sign m e positive)) ≠ .zero sign' := by
  by_cases high : e ≤ 971
  · have fits : Fits (.finite sign m e positive) := ⟨small, low, high, Or.inl normal⟩
    rw [unpacked_packed fits]
    exact UnpackedFloat.noConfusion
  · have overflow : packed (.finite sign m e positive) = packed (.infinity sign) := by
      have exponent_eq : ((e + Format.binary64.exponentBias +
          Format.binary64.mantissaBitsWithoutImplicit).toNat : Int) = e + 1075 := by
        change ((e + 1023 + 52).toNat : Int) = _
        omega
      have out_of_range : 2 ^ Format.binary64.exponentBits ≤ (e + Format.binary64.exponentBias +
          Format.binary64.mantissaBitsWithoutImplicit).toNat + 1 := by
        change 2048 ≤ _
        omega
      rw [packed, packed, Float.Model.pack, Float.Model.pack]
      congr 3
      rw [UnpackedFloat.pack]
      exact if_pos out_of_range
    have fits : Fits (.infinity sign) := trivial
    rw [overflow, unpacked_packed fits]
    exact UnpackedFloat.noConfusion

/-- A whole number of more than 53 bits is rounded to as many, and thus by at most one step of
the exponent that its leading bit gives. -/
theorem exists_packed_ofNat (large : 2 ^ 53 ≤ n) :
    ∃ r e positive, Float.ofNat n = packed (.finite .positive r e positive) ∧
      2 ^ 52 ≤ r ∧ r < 2 ^ 53 ∧ 0 ≤ e ∧ e ≤ n.log2 := by
  have nonzero : n ≠ 0 := by omega
  have rounded : Float.ofNat n = packed (roundWithAccuracy Format.binary64 .positive
      (n * 2 ^ 53) (-53) .exact) := by
    have slow : ¬ (n < 2 ^ 53 ∧ 0 ≤ 22) := fun fast => absurd fast.1 (by omega)
    have scaled : n <<< 53 * 10 ^ 0 = n * 2 ^ 53 := by rw [Nat.shiftLeft_eq]; omega
    change Float.ofScientific n false 0 = _
    rw [Float.ofScientific, dif_neg slow, ← scaled]
    change packed (UnpackedFloat.ofScientific Format.binary64 n 0) = _
    have in_range : ¬ (0 : Int) < -((2 ^ Format.binary64.exponentBits : Int) + n.log2) := by
      change ¬ (0 : Int) < -(2048 + n.log2)
      omega
    rw [UnpackedFloat.ofScientific, dif_neg nonzero, if_neg (by decide), if_neg in_range,
      if_pos (by decide)]
    rfl
  have leading := (Nat.log2_eq_iff nonzero).mp (rfl : n.log2 = n.log2)
  have long : 53 ≤ n.log2 := (Nat.le_log2 nonzero).mpr large
  have power := Nat.two_pow_pos (n.log2 + 1)
  have normal : 2 ^ 52 ≤ n * 2 ^ 53 / 2 ^ (n.log2 + 1) := by
    rw [Nat.le_div_iff_mul_le power, Nat.pow_succ]
    omega
  have below : n * 2 ^ 53 / 2 ^ (n.log2 + 1) < 2 ^ 53 := by
    rw [Nat.div_lt_iff_lt_mul power]
    omega
  have low : (-1074 : Int) ≤ (n.log2 + 1 : Nat) - 53 := by omega
  have exponent_eq : (-53 : Int) = (n.log2 + 1 : Nat) - 53 - (n.log2 + 1 : Nat) := by omega
  rcases exists_roundWithAccuracy .positive normal below low rfl with
    ⟨r, e, positive, round_eq, r_normal, r_small, e_low, e_high, _⟩
  refine ⟨r, e, positive, ?_, r_normal, r_small, by omega, by omega⟩
  rw [rounded, exponent_eq, round_eq]

theorem unpacked_ofNat_ne_zero (positive : 0 < n) (sign : Sign) :
    unpacked (Float.ofNat n) ≠ .zero sign := by
  by_cases small : n < 2 ^ 53
  · rcases unpacked_ofNat positive small with ⟨k, _, _, unpacked_eq⟩
    rw [unpacked_eq]
    exact UnpackedFloat.noConfusion
  · rcases exists_packed_ofNat (Nat.le_of_not_lt small) with
      ⟨r, e, _, packed_eq, r_normal, r_small, e_low, _⟩
    rw [packed_eq]
    exact unpacked_packed_ne_zero r_normal r_small (by omega)

/-- A whole number from one on is not rounded to less, and up to 64 bits it stays finite. -/
theorem exists_exactValue?_ofNat (positive : 0 < n) (bounded : n < 2 ^ 64) :
    ∃ q : ℚ, 1 ≤ q ∧ exactValue? (Float.ofNat n) = some q := by
  by_cases small : n < 2 ^ 53
  · exact ⟨n, Nat.one_le_cast.mpr positive, exactValue?_ofNat small⟩
  · rcases exists_packed_ofNat (Nat.le_of_not_lt small) with
      ⟨r, e, r_pos, packed_eq, r_normal, r_small, e_low, e_high⟩
    have short : n.log2 < 64 := (Nat.log2_lt (by omega)).mpr bounded
    have fits : Fits (.finite .positive r e r_pos) :=
      ⟨r_small, by omega, by omega, Or.inl r_normal⟩
    refine ⟨r * 2 ^ e, ?_, ?_⟩
    · have mantissa : (1 : ℚ) ≤ r := Nat.one_le_cast.mpr r_pos
      exact one_le_mul_of_one_le_of_one_le mantissa (one_le_zpow₀ one_le_two e_low)
    · rw [packed_eq, exactValue?_eq, unpacked_packed fits]
      exact congrArg some (congrArg (· * (2 : ℚ) ^ e) (one_mul (r : ℚ)))

theorem exists_exactValue?_ofInt {c : Int} (bounded : c.natAbs < 2 ^ 64) :
    ∃ q : ℚ, exactValue? (Float.ofInt c) = some q ∧ (c ≠ 0 → 1 ≤ |q|) := by
  cases c with
  | ofNat n =>
    rcases Nat.eq_zero_or_pos n with rfl | positive
    · exact ⟨0, exactValue?_ofInt (c := 0) (by decide), fun nonzero => absurd rfl nonzero⟩
    · rcases exists_exactValue?_ofNat positive bounded with ⟨q, least, exact_eq⟩
      exact ⟨q, exact_eq, fun _ => least.trans (le_abs_self q)⟩
  | negSucc n =>
    rcases exists_exactValue?_ofNat (Nat.succ_pos n) bounded with ⟨q, least, exact_eq⟩
    refine ⟨-q, ?_, fun _ => ?_⟩
    · change exactValue? (-Float.ofNat (n + 1)) = _
      rw [exactValue?_neg, exact_eq]
      rfl
    · rw [abs_neg]
      exact least.trans (le_abs_self q)

end ModelWeaver.Number
