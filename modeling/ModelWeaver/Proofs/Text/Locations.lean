import Mathlib.Data.List.Induction
import ModelWeaver.Proofs.Text.Octets

/-!
# Locations identify offsets

The location of an offset is found by a walk from the start of the text. Every character moves it
forward in the order of reading, by a line or by a column, so that two character boundaries never
share a location. What the walk has counted up to a boundary are the line feeds among the bytes
in front of it and the characters behind the last of these.
-/

namespace ModelWeaver.Text

/-! ## Line feeds -/

theorem count_charOctets_lineFeed (c : Char) :
    (charOctets c).count '\n' = if c = '\n' then 1 else 0 := by
  by_cases ascii : c.toNat < 128
  · rw [charOctets_of_ascii ascii, List.count_singleton]
    simp only [beq_iff_eq]
  · have other : c ≠ '\n' := by
      rintro rfl
      exact ascii (by decide)
    rw [if_neg other, List.count_eq_zero]
    intro mem
    exact absurd (le_of_mem_charOctets (Nat.le_of_not_lt ascii) mem) (by decide)

theorem count_octets_lineFeed (cs : List Char) : (octets cs).count '\n' = cs.count '\n' := by
  induction cs with
  | nil => rfl
  | cons c cs ih =>
    rw [octets_cons, List.count_append, count_charOctets_lineFeed, ih, List.count_cons,
      Nat.add_comm]
    simp only [beq_iff_eq]

namespace Location

/-! ## The order of reading -/

/-- A location comes before another in the order of reading: on an earlier line, or further left on
the same one. -/
def Precedes (first second : Location) : Prop :=
  first.line < second.line ∨ first.line = second.line ∧ first.column < second.column

instance (first second : Location) : Decidable (first.Precedes second) :=
  inferInstanceAs (Decidable (_ ∨ _))

theorem Precedes.trans {first second third : Location} (before : first.Precedes second)
    (before' : second.Precedes third) : first.Precedes third := by
  unfold Precedes at *
  omega

theorem not_precedes_self (location : Location) : ¬location.Precedes location := by
  unfold Precedes
  omega

theorem precedes_after (location : Location) (c : Char) : location.Precedes (location.after c) := by
  rw [after]
  split
  · exact .inl (Nat.lt_succ_self _)
  · exact .inr ⟨rfl, Nat.lt_succ_self _⟩

theorem precedes_foldl_after (location : Location) {cs : List Char} (nonempty : cs ≠ []) :
    location.Precedes (cs.foldl after location) := by
  induction cs generalizing location with
  | nil => exact absurd rfl nonempty
  | cons c cs ih =>
    have step := location.precedes_after c
    by_cases last : cs = []
    · rw [last]
      exact step
    · exact step.trans (ih (location.after c) last)

/-! ## Walks -/

theorem walk_zero (location : Location) (cs : List Char) : location.walk 0 cs = location := by
  cases cs with
  | nil => rfl
  | cons c cs => exact if_pos rfl

theorem walk_append (location : Location) (before rest : List Char) :
    location.walk (byteLength before) (before ++ rest) = before.foldl after location := by
  induction before generalizing location with
  | nil => exact walk_zero location rest
  | cons c before ih =>
    have width : 0 < c.utf8Size := c.utf8Size_pos
    rw [byteLength_cons, List.cons_append, walk, if_neg (by omega), Nat.add_sub_cancel_left]
    exact ih (location.after c)

theorem walk_of_byteLength_le (location : Location) {offset : Nat} {cs : List Char}
    (past : byteLength cs ≤ offset) : location.walk offset cs = cs.foldl after location := by
  induction cs generalizing location offset with
  | nil => rfl
  | cons c cs ih =>
    have width : 0 < c.utf8Size := c.utf8Size_pos
    rw [byteLength_cons] at past
    rw [walk, if_neg (by omega)]
    exact ih (location.after c) (by omega)

variable {source : String}

theorem ofOffset_of_append {before rest : List Char} (split : source.toList = before ++ rest) :
    ofOffset source (byteLength before) = before.foldl after origin := by
  rw [ofOffset, split, walk_append]

/-- The walk counts line feeds, and the characters behind the last one. -/
theorem foldl_after_origin (cs : List Char) :
    cs.foldl after origin =
      ⟨cs.count '\n' + 1, (cs.reverse.takeWhile (· ≠ '\n')).length + 1⟩ := by
  induction cs using List.reverseRecOn with
  | nil => rfl
  | append_singleton cs c ih =>
    rw [List.foldl_append, ih, List.count_append, List.count_singleton, List.reverse_append]
    change after _ c = _
    rw [after, List.reverse_singleton, List.singleton_append, List.takeWhile_cons]
    by_cases feed : c = '\n' <;> simp [feed]

/-! ## Boundaries -/

theorem exists_append_of_isValid {offset : Nat}
    (boundary : String.Pos.Raw.IsValid source ⟨offset⟩) :
    ∃ before rest, source.toList = before ++ rest ∧ byteLength before = offset := by
  obtain ⟨before, rest, split, size⟩ := String.Pos.Raw.isValid_iff_exists_append.mp boundary
  refine ⟨before.toList, rest.toList, ?_, ?_⟩
  · rw [split, String.toList_append]
  · rw [byteLength_toList]
    exact (congrArg String.Pos.Raw.byteIdx size).symm

theorem precedes_of_lt {first second : Nat} (boundary : String.Pos.Raw.IsValid source ⟨first⟩)
    (boundary' : String.Pos.Raw.IsValid source ⟨second⟩) (less : first < second) :
    (ofOffset source first).Precedes (ofOffset source second) := by
  obtain ⟨before, rest, split, rfl⟩ := exists_append_of_isValid boundary
  obtain ⟨before', rest', split', rfl⟩ := exists_append_of_isValid boundary'
  rw [ofOffset_of_append split, ofOffset_of_append split']
  -- The text in front of the later boundary continues that in front of the earlier one.
  rcases List.append_eq_append_iff.mp (split.symm.trans split') with
    ⟨between, rfl, -⟩ | ⟨between, rfl, -⟩
  · rw [List.foldl_append]
    refine precedes_foldl_after _ ?_
    rintro rfl
    rw [List.append_nil] at less
    exact Nat.lt_irrefl _ less
  · rw [byteLength_append] at less
    omega

/-- The location of a character boundary tells how many line feeds are among the bytes in front
of it and how many characters stand behind the last of these. It starts at line and column one,
moves forward from boundary to boundary, stays where it is past the end of the text, and so
belongs to one boundary only. -/
theorem locations_identify_offsets (source : String) :
    (∀ before rest : String, source = before ++ rest →
      ofOffset source before.utf8ByteSize =
        ⟨(octets before.toList).count '\n' + 1,
          (before.toList.reverse.takeWhile (· ≠ '\n')).length + 1⟩) ∧
    (∀ first second : Nat, String.Pos.Raw.IsValid source ⟨first⟩ →
      String.Pos.Raw.IsValid source ⟨second⟩ → first < second →
      (ofOffset source first).Precedes (ofOffset source second)) ∧
    ofOffset source 0 = ⟨1, 1⟩ ∧
    (∀ offset, source.utf8ByteSize ≤ offset →
      ofOffset source offset = ofOffset source source.utf8ByteSize) ∧
    (∀ first second : Nat, String.Pos.Raw.IsValid source ⟨first⟩ →
      String.Pos.Raw.IsValid source ⟨second⟩ →
      ofOffset source first = ofOffset source second → first = second) := by
  refine ⟨?_, fun first second => precedes_of_lt, walk_zero origin source.toList, ?_, ?_⟩
  · intro before rest split
    rw [← byteLength_toList, count_octets_lineFeed, ← foldl_after_origin]
    exact ofOffset_of_append (by rw [split, String.toList_append])
  · intro offset past
    rw [← byteLength_toList] at past ⊢
    rw [ofOffset, ofOffset, walk_of_byteLength_le _ past, walk_of_byteLength_le _ (Nat.le_refl _)]
  · intro first second boundary boundary' same
    rcases Nat.lt_trichotomy first second with less | equal | greater
    · exact absurd (same ▸ precedes_of_lt boundary boundary' less) (not_precedes_self _)
    · exact equal
    · exact absurd (same ▸ precedes_of_lt boundary' boundary greater) (not_precedes_self _)

/-- Boundaries behind a character of two bytes and behind an empty line. -/
theorem locations_identify_offsets_at_sample :
    let source := "é\n\nx"
    String.Pos.Raw.IsValid source ⟨2⟩ ∧ String.Pos.Raw.IsValid source ⟨4⟩ ∧
      (ofOffset source 2).Precedes (ofOffset source 4) ∧
      ofOffset source 2 = ⟨1, 2⟩ ∧ ofOffset source 4 = ⟨3, 1⟩ ∧
      ofOffset source 9 = ofOffset source 5 := by
  intro source
  obtain ⟨-, precedes, -, past, -⟩ := locations_identify_offsets source
  have boundary : String.Pos.Raw.IsValid source ⟨2⟩ :=
    String.Pos.Raw.isValid_iff_exists_append.mpr ⟨"é", "\n\nx", rfl, rfl⟩
  have boundary' : String.Pos.Raw.IsValid source ⟨4⟩ :=
    String.Pos.Raw.isValid_iff_exists_append.mpr ⟨"é\n\n", "x", rfl, rfl⟩
  exact ⟨boundary, boundary', precedes 2 4 boundary boundary' (by decide), by decide, by decide,
    past 9 (by decide)⟩

end Location

end ModelWeaver.Text
