import Mathlib.Data.List.TakeWhile
import ModelWeaver.Text.Letter

/-!
# Trimming

What is trimmed off a text are characters of one kind at its ends. What is left starts and ends
with other characters, and a text with such ends is left as it is.
-/

namespace ModelWeaver.Text

variable {drop : Char → Bool} {cs : List Char}

theorem exists_trimBy (drop : Char → Bool) (cs : List Char) :
    ∃ front back, cs = front ++ trimBy drop cs ++ back ∧
      (∀ c ∈ front, drop c = true) ∧ ∀ c ∈ back, drop c = true := by
  refine ⟨cs.takeWhile drop, ((cs.dropWhile drop).reverse.takeWhile drop).reverse, ?_, ?_, ?_⟩
  · rw [trimBy, List.append_assoc, ← List.reverse_append, List.takeWhile_append_dropWhile,
      List.reverse_reverse, List.takeWhile_append_dropWhile]
  · exact fun c mem => List.mem_takeWhile_imp mem
  · exact fun c mem => List.mem_takeWhile_imp (List.mem_reverse.mp mem)

theorem head?_dropWhile_eq_false {c : Char} (first : (cs.dropWhile drop).head? = some c) :
    drop c = false := by
  have stays := List.head?_dropWhile_not drop cs
  rw [first] at stays
  simpa using stays

theorem trimBy_getLast? {c : Char} (last : (trimBy drop cs).getLast? = some c) :
    drop c = false := by
  rw [trimBy, List.getLast?_reverse] at last
  exact head?_dropWhile_eq_false last

theorem trimBy_head? {c : Char} (first : (trimBy drop cs).head? = some c) : drop c = false := by
  have front : trimBy drop cs <+: cs.dropWhile drop := by
    rw [trimBy, ← List.reverse_suffix, List.reverse_reverse]
    exact List.dropWhile_suffix drop
  obtain ⟨rest, split⟩ := front
  have starts : (cs.dropWhile drop).head? = some c := by
    rw [← split, List.head?_append, first]
    rfl
  exact head?_dropWhile_eq_false starts

/-- A text is what is left after trimming if its ends stay. -/
theorem trimBy_append (front : List Char) {core back : List Char} (nonempty : core ≠ [])
    (frontDropped : ∀ c ∈ front, drop c = true) (backDropped : ∀ c ∈ back, drop c = true)
    (first : ∀ c ∈ core.head?, drop c = false) (last : ∀ c ∈ core.getLast?, drop c = false) :
    trimBy drop (front ++ core ++ back) = core := by
  have skip {cs rest : List Char} (dropped : ∀ c ∈ cs, drop c = true)
      (stays : ∀ c ∈ rest.head?, drop c = false) : (cs ++ rest).dropWhile drop = rest := by
    rw [List.dropWhile_append_of_pos dropped]
    cases rest with
    | nil => rfl
    | cons c rest =>
      rw [List.dropWhile_cons_of_neg (Bool.eq_false_iff.mp (stays c rfl))]
  rw [trimBy, List.append_assoc, skip frontDropped, List.reverse_append, skip, List.reverse_reverse]
  · exact fun c mem => backDropped c (List.mem_reverse.mp mem)
  · rw [List.head?_reverse]
    exact last
  · rw [List.head?_append, List.head?_eq_some_head nonempty, Option.some_or,
      ← List.head?_eq_some_head nonempty]
    exact first

theorem trimBy_trimBy (drop : Char → Bool) (cs : List Char) :
    trimBy drop (trimBy drop cs) = trimBy drop cs := by
  by_cases empty : trimBy drop cs = []
  · rw [empty]
    rfl
  · have again : trimBy drop ([] ++ trimBy drop cs ++ []) = _ :=
      trimBy_append [] empty (List.forall_mem_nil _) (List.forall_mem_nil _)
        (fun c first => trimBy_head? first) fun c last => trimBy_getLast? last
    rwa [List.nil_append, List.append_nil] at again

theorem exists_eq_trimBy_append {base rest : List Char}
    (trimmed : trimBy drop (base ++ rest) = base ++ rest) :
    ∃ back, base = trimBy drop base ++ back ∧ ∀ c ∈ back, drop c = true := by
  obtain ⟨front, back, base_eq, frontDropped, backDropped⟩ := exists_trimBy drop base
  cases front with
  | nil => exact ⟨back, base_eq, backDropped⟩
  | cons c front =>
    have first : (trimBy drop (base ++ rest)).head? = some c := by
      rw [trimmed, base_eq]
      rfl
    have stays := trimBy_head? first
    rw [frontDropped c List.mem_cons_self] at stays
    cases stays

end ModelWeaver.Text
