/-!
# Integers of 64 bits

Arithmetic on 64-bit integers is exact or refused: a result is computed over
all integers and then admitted only if it fits.
-/

namespace ModelWeaver.Number

/-- Whether an integer fits in 64 bits. -/
def FitsInt64 (n : Int) : Prop := -0x8000000000000000 ≤ n ∧ n < 0x8000000000000000

/-- Whether an integer fits can be computed. -/
instance (n : Int) : Decidable (FitsInt64 n) :=
  inferInstanceAs (Decidable (_ ∧ _))

/-- The 64-bit integer of a given value, if it fits. -/
def int64? (n : Int) : Option Int64 :=
  if FitsInt64 n then some (Int64.ofInt n) else none

/-- The sum of two 64-bit integers, if it fits. The words are added; their signs tell
whether the sum has wrapped around. -/
def addInt64? (a b : Int64) : Option Int64 :=
  let sum := a + b
  if decide (a < 0) = decide (b < 0) ∧ decide (sum < 0) ≠ decide (a < 0) then none else some sum

/-- Adding words and looking at their signs gives the exact sum, where it fits. -/
theorem addInt64?_eq_int64? (a b : Int64) : addInt64? a b = int64? (a.toInt + b.toInt) := by
  have lowA := a.le_toInt
  have highA := a.toInt_lt
  have lowB := b.le_toInt
  have highB := b.toInt_lt
  have wrapped := Int64.toInt_add a b
  have exactSum : Int64.ofInt (a.toInt + b.toInt) = a + b := by
    rw [Int64.ofInt_add, Int64.ofInt_toInt, Int64.ofInt_toInt]
  have zero : (0 : Int64).toInt = 0 := rfl
  unfold addInt64? int64?
  rw [exactSum]
  simp only [Int64.lt_iff_toInt_lt, zero, wrapped, FitsInt64, Int.bmod]
  grind

/-- The value that was asked for is the value of what is returned. -/
theorem int64?_eq_some_iff {n : Int} {m : Int64} : int64? n = some m ↔ m.toInt = n := by
  rw [int64?]
  constructor
  · intro found
    split at found
    · next fits =>
        cases found
        exact Int64.toInt_ofInt_of_le fits.1 fits.2
    · cases found
  · rintro rfl
    rw [if_pos ⟨m.le_toInt, m.toInt_lt⟩, Int64.ofInt_toInt]

theorem int64?_eq_none_iff {n : Int} : int64? n = none ↔ ¬FitsInt64 n := by
  rw [int64?]
  split
  · next fits => exact iff_of_false nofun (not_not_intro fits)
  · next large => exact iff_of_true rfl large

/-! ## Division -/

/-- Whether two 64-bit integers have a quotient of 64 bits: there is none by zero, and that of
the least integer by -1 is too large. -/
def QuotientFits (a b : Int64) : Prop := b ≠ 0 ∧ ¬(a = Int64.minValue ∧ b = -1)

/-- Whether a quotient fits can be computed. -/
instance (a b : Int64) : Decidable (QuotientFits a b) :=
  inferInstanceAs (Decidable (_ ∧ _))

/-- The quotient rounded toward zero. -/
def quotientInt64? (a b : Int64) : Option Int64 :=
  if QuotientFits a b then some (a / b) else none

/-- The remainder of the quotient rounded toward zero, which has the sign of `a`. -/
def remainderInt64? (a b : Int64) : Option Int64 :=
  if QuotientFits a b then some (a % b) else none

end ModelWeaver.Number
