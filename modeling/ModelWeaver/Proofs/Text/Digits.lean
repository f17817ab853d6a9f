import Mathlib.Data.List.Induction

/-!
# Decimal digits

Numbers are told apart by their digits, also where a sign stands in front. The digits of one
number behind those of another are again the digits of a number, so digits have to end in a
character of another kind for a number to be read back.
-/

namespace ModelWeaver

theorem takeWhile_append_eq {kind : Char → Bool} {front rest : List Char}
    (inside : ∀ c ∈ front, kind c = true) (outside : ∀ c ∈ rest.head?, kind c = false) :
    (front ++ rest).takeWhile kind = front := by
  rw [List.takeWhile_append_of_pos inside]
  cases rest with
  | nil => exact List.append_nil front
  | cons c rest =>
    have stops : ¬kind c = true := Bool.eq_false_iff.mp (outside c rfl)
    rw [List.takeWhile_cons_of_neg stops, List.append_nil]

/-! ## Natural numbers -/

theorem toDigits_injective {i j : Nat} (same : Nat.toDigits 10 i = Nat.toDigits 10 j) : i = j := by
  rw [← Nat.ofDigitChars_ten_toDigits (n := i), same, Nat.ofDigitChars_ten_toDigits]

/-- The digits of two numbers in a row are those of a larger number. -/
theorem exists_toDigits_append {leading : Nat} (positive : 0 < leading) (number : Nat) :
    ∃ joined, number < joined ∧
      Nat.toDigits 10 leading ++ Nat.toDigits 10 number = Nat.toDigits 10 joined := by
  induction number using Nat.strongRecOn with
  | ind number ih =>
    by_cases small : number < 10
    · exact ⟨10 * leading + number, by omega,
        Nat.toDigits_append_toDigits (by decide) positive small⟩
    · have large : 10 ≤ number := Nat.le_of_not_lt small
      rcases ih (number / 10) (Nat.div_lt_self (by omega) (by decide)) with
        ⟨joined, larger, front⟩
      have last : number % 10 < 10 := Nat.mod_lt _ (by decide)
      refine ⟨10 * joined + number % 10, by omega, ?_⟩
      rw [Nat.toDigits_of_base_le (by decide) large, ← List.append_assoc, front,
        ← Nat.toDigits_append_toDigits (by decide) (by omega) last, Nat.toDigits_of_lt_base last]

theorem takeWhile_toDigits (number : Nat) (rest : List Char) :
    (Nat.toDigits 10 number ++ '_' :: rest).takeWhile (· ≠ '_') = Nat.toDigits 10 number := by
  apply takeWhile_append_eq
  · intro c mem
    have different : c ≠ '_' := by
      rintro rfl
      exact Nat.underscore_not_in_toDigits mem
    simp [different]
  · rintro _ ⟨⟩
    rfl

/-- The digits in front of others are those of a number. -/
theorem exists_toDigits_of_append {digits : List Char} (nonempty : digits ≠ []) {rest : List Char}
    (behind : rest ≠ []) {number : Nat} (split_eq : Nat.toDigits 10 number = digits ++ rest) :
    ∃ leading, 0 < leading ∧ digits = Nat.toDigits 10 leading := by
  induction rest using List.reverseRecOn generalizing number with
  | nil => exact absurd rfl behind
  | append_singleton rest last ih =>
    have large : 10 ≤ number := by
      by_contra small
      rw [Nat.toDigits_of_lt_base (Nat.lt_of_not_le small)] at split_eq
      have lengths := congrArg List.length split_eq
      have some_digit := List.length_pos_iff.mpr nonempty
      simp only [List.length_singleton, List.length_append] at lengths
      omega
    rw [Nat.toDigits_of_base_le (by decide) large, ← List.append_assoc] at split_eq
    rcases List.append_inj' split_eq rfl with ⟨front, -⟩
    by_cases more : rest = []
    · rw [more, List.append_nil] at front
      exact ⟨number / 10, by omega, front.symm⟩
    · exact ih more front

/-! ## Signs -/

theorem toList_toString_ofNat (k : Nat) :
    (toString (Int.ofNat k)).toList = Nat.toDigits 10 k :=
  Nat.toList_repr

theorem toList_toString_negSucc (k : Nat) :
    (toString (Int.negSucc k)).toList = '-' :: Nat.toDigits 10 (k + 1) := by
  change ("-" ++ (k + 1).repr).toList = _
  rw [String.toList_append, Nat.toList_repr]
  rfl

theorem toString_ne_nil (n : Int) : (toString n).toList ≠ [] := by
  cases n with
  | ofNat k =>
    rw [toList_toString_ofNat]
    exact Nat.toDigits_ne_nil
  | negSucc k =>
    rw [toList_toString_negSucc]
    exact List.cons_ne_nil _ _

theorem toDigits_ne_minus (k : Nat) (rest : List Char) : Nat.toDigits 10 k ≠ '-' :: rest := by
  intro same
  have digit := Nat.isDigit_of_mem_toDigits (b := 10) (n := k) (c := '-') (by decide) (by decide)
    (same ▸ List.mem_cons_self)
  revert digit
  decide

theorem toString_injective {m n : Int} (same : (toString m).toList = (toString n).toList) :
    m = n := by
  cases m with
  | ofNat j =>
    cases n with
    | ofNat k =>
      rw [toList_toString_ofNat, toList_toString_ofNat] at same
      rw [toDigits_injective same]
    | negSucc k =>
      rw [toList_toString_ofNat, toList_toString_negSucc] at same
      exact absurd same (toDigits_ne_minus j _)
  | negSucc j =>
    cases n with
    | ofNat k =>
      rw [toList_toString_ofNat, toList_toString_negSucc] at same
      exact absurd same.symm (toDigits_ne_minus k _)
    | negSucc k =>
      rw [toList_toString_negSucc, toList_toString_negSucc, List.cons.injEq] at same
      rw [Nat.succ.inj (toDigits_injective same.2)]

end ModelWeaver
