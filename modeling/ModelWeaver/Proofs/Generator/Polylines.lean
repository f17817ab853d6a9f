import ModelWeaver.Generator.Polyline
import ModelWeaver.Proofs.Action
import ModelWeaver.Proofs.Generator.OrderedSets

/-!
# Polylines are exact

The weights of a polyline form an ordered set of the second kind and add up to one, so two
neighbours share the whole weight, and the pair lies on the segment between these two corners.
The bounds of the pair add nothing, since a segment lies within the extremes of all corners, and
so it makes no difference whether they are written.

Corners are converted to floats, which rounds integers beyond 2 to the 53.
-/

namespace ModelWeaver.Polyline

open Model Number OrderedSet

/-! ## Extremes -/

section Extremes

/-- One of two finite numbers is picked that does not come behind the other. -/
def Picks (pick : Float → Float → Float) (Before : ℚ → ℚ → Prop) : Prop :=
  ∀ x y p q, exactValue? x = some p → exactValue? y = some q →
    ∃ r, exactValue? (pick x y) = some r ∧ Before r p ∧ Before r q

variable {pick : Float → Float → Float} {Before : ℚ → ℚ → Prop} {xs : List Float}

/-- What is picked from a list does not come behind any of its numbers, if picking starts with
what is never picked. -/
theorem Picks.foldl (picks : Picks pick Before) (refl : ∀ p, Before p p)
    (trans : ∀ p q r, Before p q → Before q r → Before p r) {start : Float}
    (skipped : ∀ x q, exactValue? x = some q → pick start x = x)
    (finite : ∀ x ∈ xs, (exactValue? x).isSome) (nonempty : xs ≠ []) :
    ∃ r, exactValue? (xs.foldl pick start) = some r ∧
      ∀ x ∈ xs, ∀ q, exactValue? x = some q → Before r q := by
  induction xs using List.reverseRecOn with
  | nil => exact absurd rfl nonempty
  | append_singleton xs x ih =>
    obtain ⟨earlier, here⟩ := List.forall_mem_append.mp finite
    obtain ⟨q, x_eq⟩ := Option.isSome_iff_exists.mp (here x List.mem_cons_self)
    have same : ∀ q', exactValue? x = some q' → q = q' := fun q' x_eq' =>
      Option.some.inj (x_eq.symm.trans x_eq')
    rw [List.foldl_append, List.foldl_cons, List.foldl_nil]
    rcases eq_or_ne xs [] with rfl | filled
    · rw [List.foldl_nil, skipped x q x_eq]
      exact ⟨q, x_eq, List.forall_mem_singleton.mpr fun q' x_eq' => same q' x_eq' ▸ refl q⟩
    · obtain ⟨p, before_eq, before⟩ := ih earlier filled
      obtain ⟨r, picked_eq, before_p, before_q⟩ := picks _ x p q before_eq x_eq
      refine ⟨r, picked_eq, List.forall_mem_append.mpr ⟨fun other mem q' other_eq => ?_, ?_⟩⟩
      · exact trans _ _ _ before_p (before other mem q' other_eq)
      · exact List.forall_mem_singleton.mpr fun q' x_eq' => same q' x_eq' ▸ before_q

theorem picks_lesser : Picks lesser (· ≤ ·) := by
  intro x y p q x_eq y_eq
  rw [lesser, isNaN_of_exactValue? x_eq, isNaN_of_exactValue? y_eq]
  by_cases less : y < x
  · refine ⟨q, ?_, ((lt_iff_exactValue? y_eq x_eq).mp less).le, le_rfl⟩
    simpa [less] using y_eq
  · refine ⟨p, ?_, le_rfl, not_lt.mp (mt (lt_iff_exactValue? y_eq x_eq).mpr less)⟩
    simpa [less] using x_eq

theorem picks_greater : Picks greater (· ≥ ·) := by
  intro x y p q x_eq y_eq
  rw [greater, isNaN_of_exactValue? x_eq, isNaN_of_exactValue? y_eq]
  by_cases less : x < y
  · refine ⟨q, ?_, ((lt_iff_exactValue? x_eq y_eq).mp less).le, le_rfl⟩
    simpa [less] using y_eq
  · refine ⟨p, ?_, le_rfl, not_lt.mp (mt (lt_iff_exactValue? x_eq y_eq).mpr less)⟩
    simpa [less] using x_eq

theorem lesser_infinity {x : Float} {q : ℚ} (x_eq : exactValue? x = some q) :
    lesser Number.infinity x = x := by
  have number : Number.infinity.isNaN = false := by decide +kernel
  rw [lesser, number, isNaN_of_exactValue? x_eq]
  simp [lt_infinity x_eq]

theorem greater_neg_infinity {x : Float} {q : ℚ} (x_eq : exactValue? x = some q) :
    greater (-Number.infinity) x = x := by
  have number : (-Number.infinity).isNaN = false := by decide +kernel
  rw [greater, number, isNaN_of_exactValue? x_eq]
  simp [neg_infinity_lt x_eq]

variable {K : Type} [Field K] [LinearOrder K] [IsStrictOrderedRing K]

/-- A value between two of the numbers is within the bounds. -/
theorem admits_spanning {name : String} (finite : ∀ x ∈ xs, (exactValue? x).isSome) {value : K}
    (above : ∃ x ∈ xs, exactNumber x ≤ value) (below : ∃ x ∈ xs, value ≤ exactNumber x) :
    (spanning name xs).Admits value := by
  rcases above with ⟨least, least_mem, least_le⟩
  rcases below with ⟨greatest, greatest_mem, le_greatest⟩
  rcases Option.isSome_iff_exists.mp (finite least least_mem) with ⟨p, least_eq⟩
  rcases Option.isSome_iff_exists.mp (finite greatest greatest_mem) with ⟨q, greatest_eq⟩
  rw [exactNumber_of_exactValue? least_eq] at least_le
  rw [exactNumber_of_exactValue? greatest_eq] at le_greatest
  have nonempty := List.ne_nil_of_mem least_mem
  rcases picks_lesser.foldl le_refl (fun _ _ _ => le_trans)
    (fun _ _ => lesser_infinity) finite nonempty with ⟨lower, lower_eq, lower_le⟩
  rcases picks_greater.foldl le_refl (fun _ _ _ => ge_trans)
    (fun _ _ => greater_neg_infinity) finite nonempty with ⟨upper, upper_eq, le_upper⟩
  refine ⟨?_, ?_, trivial⟩
  · rintro _ ⟨⟩
    exact ⟨lower, lower_eq, (Rat.cast_le.mpr (lower_le least least_mem p least_eq)).trans least_le⟩
  · rintro _ ⟨⟩
    exact ⟨upper, upper_eq,
      le_greatest.trans (Rat.cast_le.mpr (le_upper greatest greatest_mem q greatest_eq))⟩

theorem admits_spanning_segment {name : String} (finite : ∀ x ∈ xs, (exactValue? x).isSome)
    {first second : Float} (first_mem : first ∈ xs) (second_mem : second ∈ xs) {t : K} (low : 0 ≤ t)
    (high : t ≤ 1) :
    (spanning name xs).Admits ((1 - t) * exactNumber first + t * exactNumber second) := by
  have rest : 0 ≤ 1 - t := sub_nonneg.mpr high
  have least := Convex.min_le_combo (exactNumber first : K) (exactNumber second) rest low
    (sub_add_cancel 1 t)
  have greatest := Convex.combo_le_max (exactNumber first : K) (exactNumber second) rest low
    (sub_add_cancel 1 t)
  apply admits_spanning finite
  · rcases min_le_iff.mp least with le | le
    · exact ⟨first, first_mem, le⟩
    · exact ⟨second, second_mem, le⟩
  · rcases le_max_iff.mp greatest with le | le
    · exact ⟨first, first_mem, le⟩
    · exact ⟨second, second_mem, le⟩

end Extremes

/-! ## Weights -/

section Weights

variable {stem : String}

theorem weight_eq (stem : String) (i : Nat) :
    weight stem i = String.ofList (stem.toList ++ 'z' :: '_' :: Nat.toDigits 10 i) := by
  apply String.toList_injective
  simp [weight]
  rfl

theorem stripMark_weight_inj {i j : Nat}
    (same : stripMark (weight stem i) = stripMark (weight stem j)) : i = j := by
  rw [weight_eq, weight_eq] at same
  exact (stripMark_numbered_inj (by decide) (by decide) same).2

theorem stripMark_weight_ne_selector (i j : Nat) :
    stripMark (weight stem i) ≠ stripMark (selector stem j) := by
  intro same
  rw [weight_eq, selector_eq] at same
  exact absurd (stripMark_numbered_inj (by decide) (by decide) same).1 (by decide)

theorem length_weights (count : Nat) : (weights stem count).length = count := by
  rw [weights, List.length_map, List.length_range]

theorem get_weights {count : Nat} (i : Fin (weights stem count).length) :
    (weights stem count).get i = weight stem i := by
  rw [List.get_eq_getElem]
  simp [weights]

theorem nodup_weights (count : Nat) : ((weights stem count).map stripMark).Nodup := by
  rw [weights, List.map_map]
  exact List.nodup_range.map fun _ _ same => stripMark_weight_inj same

variable {K : Type} [Field K] {values : String → K}

theorem reading_weighted (part : Point Float → Float) (points : List (Point Float)) :
    (weighted stem (points.map part)).reading values =
      ∑ i : Fin points.length,
        effective (part (points.get i)) * values (stripMark (weight stem i)) := by
  rw [weighted, Operand.reading_sum, ← List.sum_ofFn]
  congr 1
  apply List.ext_getElem
  · simp
  · intro i _ _
    simp

theorem sum_weights (count : Nat) :
    ((weights stem count).map fun name => values (stripMark name)).sum =
      ∑ i : Fin count, values (stripMark (weight stem i)) := by
  rw [← List.sum_ofFn]
  congr 1
  apply List.ext_getElem
  · simp [weights]
  · intro i _ _
    simp [weights]

theorem multiples_weighted (part : Point Float → Float) {points : List (Point Float)}
    (finite : ∀ point ∈ points, (exactValue? (part point)).isSome) :
    (weighted stem (points.map part)).Multiples ((weights stem points.length).map stripMark) := by
  have names_eq : ((points.map part).zipIdx.flatMap fun entry =>
      [stripMark (weight stem entry.2)]) = (weights stem points.length).map stripMark := by
    rw [← List.map_eq_flatMap, weights, List.map_map, List.range_eq_range', ← List.length_map part,
      ← List.zipIdx_map_snd, List.map_map]
    rfl
  rw [← names_eq]
  apply Operand.multiples_sum
  intro entry mem
  rcases entry with ⟨x, i⟩
  rcases List.mem_map.mp (List.fst_mem_of_mem_zipIdx mem) with ⟨point, point_mem, rfl⟩
  exact Operand.multiples_term _ (finite point point_mem)

end Weights

/-! ## Points -/

/-- The point with its coordinates changed. -/
def Point.map {κ μ : Type} (change : κ → μ) (point : Point κ) : Point μ :=
  ⟨change point.x, change point.y⟩

section Points

variable {K : Type} [Field K] {points : List (Point Float)} {a b : K}

/-- A coordinate is finite and does not count as zero unless it is. -/
structure Counts (x : Float) : Prop where
  finite : (exactValue? x).isSome
  significant : exactValue? x ≠ some 0 → isSignificant x = true

theorem Counts.effective_eq {x : Float} (counts : Counts x) :
    (effective x : K) = exactNumber x := by
  by_cases zero : exactValue? x = some 0
  · rw [effective, exactNumber_of_exactValue? zero, Rat.cast_zero, ite_self]
  · rw [effective, if_pos (counts.significant zero)]

theorem sum_eq_pair {n chosen : Nat} (inside : chosen + 1 < n) {f : Fin n → K}
    (others : ∀ i : Fin n, ¬ Kind.two.Allows chosen i → f i = 0) :
    ∑ i, f i = f ⟨chosen, by omega⟩ + f ⟨chosen + 1, inside⟩ := by
  apply Finset.sum_eq_add
  · simp
  · intro i _ differ
    apply others
    rw [Kind.allows_two_iff]
    simpa [Fin.ext_iff] using differ
  · exact fun missing => absurd (Finset.mem_univ _) missing
  · exact fun missing => absurd (Finset.mem_univ _) missing

variable [LinearOrder K]

/-- A pair lies between two neighbours among some points. -/
def OnPolyline (points : List (Point K)) (a b : K) : Prop :=
  ∃ i, ∃ _ : i + 1 < points.length, ∃ t : K, 0 ≤ t ∧ t ≤ 1 ∧
    a = (1 - t) * points[i].x + t * points[i + 1].x ∧
      b = (1 - t) * points[i].y + t * points[i + 1].y

/-- Weights that place a pair between a corner and the next. -/
structure Weighs (points : List (Point Float)) (z : Fin points.length → K) (chosen : Nat)
    (a b : K) : Prop where
  unit : ∀ i, 0 ≤ z i ∧ z i ≤ 1
  bounded : ∀ i, z i ≤ if Kind.two.Allows chosen i then 1 else 0
  total : ∑ i, z i = 1
  x_eq : ∑ i, exactNumber (points.get i).x * z i = a
  y_eq : ∑ i, exactNumber (points.get i).y * z i = b

theorem Weighs.onPolyline {z : Fin points.length → K} {chosen : Nat}
    (weighs : Weighs points z chosen a b) (inside : chosen + 1 < points.length) :
    OnPolyline (points.map (Point.map exactNumber)) a b := by
  have others : ∀ i : Fin points.length, ¬ Kind.two.Allows chosen i → z i = 0 := by
    intro i forbidden
    have bounded := weighs.bounded i
    rw [if_neg forbidden] at bounded
    exact le_antisymm bounded (weighs.unit i).1
  have total := weighs.total
  rw [sum_eq_pair inside others] at total
  have part (f : Fin points.length → K) : ∑ i, f i * z i =
      (1 - z ⟨chosen + 1, inside⟩) * f ⟨chosen, by omega⟩ +
        z ⟨chosen + 1, inside⟩ * f ⟨chosen + 1, inside⟩ := by
    rw [sum_eq_pair inside fun i forbidden => by rw [others i forbidden, mul_zero],
      eq_sub_of_add_eq total]
    ring
  rcases weighs.unit ⟨chosen + 1, inside⟩ with ⟨low, high⟩
  refine ⟨chosen, by rwa [List.length_map], z ⟨chosen + 1, inside⟩, low, high, ?_, ?_⟩
  · rw [← weighs.x_eq, part]
    simp [Point.map]
  · rw [← weighs.y_eq, part]
    simp [Point.map]

variable [IsStrictOrderedRing K]

theorem OnPolyline.exists_weighs (on : OnPolyline (points.map (Point.map exactNumber)) a b) :
    ∃ z chosen, chosen + 1 < points.length ∧ Weighs points z chosen a b := by
  rcases on with ⟨chosen, inside, t, low, high, a_eq, b_eq⟩
  rw [List.length_map] at inside
  let z : Fin points.length → K := fun i =>
    if i.val = chosen then 1 - t else if i.val = chosen + 1 then t else 0
  have others : ∀ i : Fin points.length, ¬ Kind.two.Allows chosen i → z i = 0 := by
    intro i forbidden
    rw [Kind.allows_two_iff, not_or] at forbidden
    exact (if_neg forbidden.1).trans (if_neg forbidden.2)
  have first : z ⟨chosen, by omega⟩ = 1 - t := if_pos rfl
  have second : z ⟨chosen + 1, inside⟩ = t :=
    (if_neg (Nat.succ_ne_self chosen)).trans (if_pos rfl)
  have unit : ∀ i, 0 ≤ z i ∧ z i ≤ 1 := by
    intro i
    simp only [z]
    split
    · exact ⟨sub_nonneg.mpr high, sub_le_self 1 low⟩
    · split
      · exact ⟨low, high⟩
      · exact ⟨le_rfl, zero_le_one⟩
  have part (f : Fin points.length → K) : ∑ i, f i * z i =
      (1 - t) * f ⟨chosen, by omega⟩ + t * f ⟨chosen + 1, inside⟩ := by
    rw [sum_eq_pair inside fun i forbidden => by rw [others i forbidden, mul_zero], first, second]
    ring
  refine ⟨z, chosen, inside, unit, fun i => ?_, ?_, ?_, ?_⟩
  · split
    · exact (unit i).2
    · next forbidden => exact (others i forbidden).le
  · rw [sum_eq_pair inside others, first, second, sub_add_cancel]
  · rw [part, a_eq]
    simp [Point.map]
  · rw [part, b_eq]
    simp [Point.map]

/-- A segment lies within the extremes of all corners. -/
theorem OnPolyline.admits {x y : String}
    (finite : ∀ point ∈ points, (exactValue? point.x).isSome ∧ (exactValue? point.y).isSome)
    (on : OnPolyline (points.map (Point.map exactNumber)) a b) :
    (spanning x (points.map Point.x)).Admits a ∧ (spanning y (points.map Point.y)).Admits b := by
  rcases on with ⟨i, inside, t, low, high, rfl, rfl⟩
  rw [List.length_map] at inside
  simp only [List.getElem_map, Point.map]
  have xs_finite : ∀ x ∈ points.map Point.x, (exactValue? x).isSome :=
    List.forall_mem_map.mpr fun point mem => (finite point mem).1
  have ys_finite : ∀ y ∈ points.map Point.y, (exactValue? y).isSome :=
    List.forall_mem_map.mpr fun point mem => (finite point mem).2
  constructor
  · exact admits_spanning_segment xs_finite (List.mem_map_of_mem (List.getElem_mem _))
      (List.mem_map_of_mem (List.getElem_mem _)) low high
  · exact admits_spanning_segment ys_finite (List.mem_map_of_mem (List.getElem_mem _))
      (List.mem_map_of_mem (List.getElem_mem _)) low high

end Points

/-! ## Programs -/

/-- The names that a polyline makes up. -/
def generated (stem : String) (count : Nat) : List String :=
  weights stem count ++ selectors stem (count - 1)

section Programs

variable {K : Type} [Field K] {stem x y : String} {points : List (Point Float)}
  {values : String → K}

theorem relations_eq (stem x y : String) (points : List (Point Float)) :
    relations stem x y points =
      ⟨.ofNames (weights stem points.length), .eq, .constant 1⟩ ::
        Kind.two.relations stem (weights stem points.length) 1 ++
          [⟨weighted stem (points.map Point.x), .eq, .single x⟩,
            ⟨weighted stem (points.map Point.y), .eq, .single y⟩] := rfl

theorem readable_relations (counts : ∀ point ∈ points, Counts point.x ∧ Counts point.y)
    (long : 2 ≤ points.length)
    (apart : ∀ name ∈ [x, y], stripMark name ∉ (generated stem points.length).map stripMark) :
    ∀ relation ∈ relations stem x y points, relation.Readable := by
  have filled : weights stem points.length ≠ [] := by
    rw [← List.length_pos_iff, length_weights]
    omega
  have linking (part : Point Float → Float)
      (finite : ∀ point ∈ points, (exactValue? (part point)).isSome) {name : String}
      (mem : name ∈ [x, y]) :
      Relation.Readable ⟨weighted stem (points.map part), .eq, .single name⟩ := by
    refine Relation.readable_of_multiples (multiples_weighted part finite)
      (Operand.multiples_single name) (by simp) ?_
    rw [List.nodup_append_comm]
    refine List.nodup_cons.mpr ⟨fun found => apart name mem ?_, nodup_weights _⟩
    rw [generated, List.map_append]
    exact List.mem_append_left _ found
  rw [relations_eq, List.forall_mem_append, List.forall_mem_cons, List.forall_mem_cons,
    List.forall_mem_singleton]
  refine ⟨⟨readable_total filled (nodup_weights _), ?_⟩, ?_, ?_⟩
  · apply OrderedSet.readable_relations
    · rwa [length_weights]
    · exact Option.isSome_iff_exists.mpr ⟨1, exactValue?_unit⟩
    · intro name mem found
      rcases List.mem_map.mp mem with ⟨i, _, rfl⟩
      rw [selectors, List.map_map] at found
      rcases List.mem_map.mp found with ⟨j, _, same⟩
      exact stripMark_weight_ne_selector i j same.symm
  · exact linking Point.x (fun point mem => (counts point mem).1.finite) (by simp)
  · exact linking Point.y (fun point mem => (counts point mem).2.finite) (by simp)

theorem effective_unit : (effective (1 : Float) : K) = 1 := by
  rw [effective_of_one_le exactValue?_unit (by simp), Rat.cast_one]

/-- The pair, the weights and the selectors have different names, so their values can be
given one by one. -/
theorem exists_assignment {count : Nat} (different : stripMark x ≠ stripMark y)
    (apart : ∀ name ∈ [x, y], stripMark name ∉ (generated stem count).map stripMark)
    (a b : K) (z : Fin count → K) (chosen : Nat) :
    ∃ values : String → K, values (stripMark x) = a ∧ values (stripMark y) = b ∧
      (∀ i : Fin count, values (stripMark (weight stem i)) = z i) ∧
        Selects values stem (count - 1) chosen := by
  let pair : Bool → String := fun second => cond second (stripMark y) (stripMark x)
  let own : Fin count → String := fun i => stripMark (weight stem i)
  have pair_apart (second : Bool) : pair second ∉ (generated stem count).map stripMark := by
    cases second with
    | false => exact apart x List.mem_cons_self
    | true => exact apart y (List.mem_cons_of_mem x List.mem_cons_self)
  simp only [generated, List.map_append, List.mem_append] at pair_apart
  have injective : Function.Injective (Sum.elim pair own) := by
    refine Function.Injective.sumElim (Bool.injective_iff.mpr different)
      (fun i j same => Fin.ext (stripMark_weight_inj same)) fun second i same => ?_
    apply pair_apart second
    rw [same, weights, List.map_map]
    exact Or.inl (List.mem_map_of_mem (List.mem_range.mpr i.isLt))
  have selectors_apart (part : Bool ⊕ Fin count) :
      Sum.elim pair own part ∉ (selectors stem (count - 1)).map stripMark := by
    cases part with
    | inl second => exact fun found => pair_apart second (Or.inr found)
    | inr i =>
      rw [selectors, List.map_map]
      intro found
      rcases List.mem_map.mp found with ⟨j, _, same⟩
      exact stripMark_weight_ne_selector i j same.symm
  rcases exists_values injective selectors_apart
    (Sum.elim (fun second => cond second b a) z) chosen with ⟨values, values_eq, selects⟩
  exact ⟨values, values_eq (.inl false), values_eq (.inl true),
    fun i => values_eq (.inr i), selects⟩

variable [LinearOrder K]

theorem admits_weights_iff {count : Nat} :
    (∀ v ∈ (weights stem count).map fun name =>
        ({ name, lower := some 0.0, upper := some 1.0 } : Variable),
      v.Admits (values (stripMark v.name))) ↔
      ∀ i < count, 0 ≤ values (stripMark (weight stem i)) ∧
        values (stripMark (weight stem i)) ≤ 1 := by
  rw [List.forall_mem_map, weights, List.forall_mem_map]
  simp only [List.mem_range, Variable.admits_unit_iff]

theorem holdsAsRead_linking_iff {part : Point Float → Float} {name : String}
    (counts : ∀ point ∈ points, Counts (part point)) :
    Relation.HoldsAsRead values ⟨weighted stem (points.map part), .eq, .single name⟩ ↔
      ∑ i : Fin points.length, exactNumber (part (points.get i)) *
        values (stripMark (weight stem i)) = values (stripMark name) := by
  have exact_eq : ∀ i : Fin points.length, (effective (part (points.get i)) : K) =
      exactNumber (part (points.get i)) := fun i =>
    (counts _ (List.get_mem points i)).effective_eq
  rw [Relation.HoldsAsRead, reading_weighted, Operand.reading_single]
  simp only [exact_eq]
  rfl

variable [IsStrictOrderedRing K]

/-- Weights that form an ordered set of the second kind. -/
theorem holds_neighbours_iff {count : Nat} (long : 2 ≤ count) :
    ((∀ v ∈ (selectors stem (count - 1)).map binary, v.Admits (values (stripMark v.name))) ∧
      ∀ relation ∈ Kind.two.relations stem (weights stem count) 1,
        relation.HoldsAsRead values) ↔
      ∃ chosen, chosen + 1 < count ∧ Selects values stem (count - 1) chosen ∧
        ∀ i < count, values (stripMark (weight stem i)) ≤
          if Kind.two.Allows chosen i then 1 else 0 := by
  have enough : Kind.two.span ≤ (weights stem count).length := by rwa [length_weights]
  have choices_eq : Kind.two.choices (weights stem count).length = count - 1 := by
    rw [length_weights]
    rfl
  rw [← choices_eq, holds_relations_iff enough, choices_eq]
  apply exists_congr
  intro chosen
  rw [Nat.lt_sub_iff_add_lt]
  apply and_congr_right'
  apply and_congr_right'
  simp only [Fin.forall_iff, get_weights, length_weights, effective_unit]

/-- The variables that a polyline makes up: its weights and its selectors. -/
def ownVars (stem : String) (count : Nat) : List Variable :=
  ((weights stem count).map fun name => { name, lower := some 0.0, upper := some 1.0 }) ++
    (selectors stem (count - 1)).map binary

omit [Field K] [LinearOrder K] [IsStrictOrderedRing K] in
theorem declared_ownVars (plain : Program.PlainStem stem) (count : Nat) :
    ∀ v ∈ ownVars stem count, Program.isDeclaredHere [] v = true := by
  have digits (i : Nat) : '[' ∉ Nat.toDigits 10 i := fun mem =>
    absurd (Nat.isDigit_of_mem_toDigits (b := 10) (by decide) (by decide) mem) (by decide)
  rw [ownVars, weights, selectors, List.map_map, List.map_map, List.forall_mem_append,
    List.forall_mem_map, List.forall_mem_map]
  constructor
  · intro i _
    refine Program.isDeclaredHere_of_plainStem plain ('z' :: '_' :: Nat.toDigits 10 i) ?_ ?_
    · exact (congrArg String.toList (weight_eq stem i)).trans String.toList_ofList
    · simpa using digits i
  · intro i _
    refine Program.isDeclaredHere_of_plainStem plain ('y' :: '_' :: Nat.toDigits 10 i) ?_ ?_
    · exact (congrArg String.toList (selector_eq stem i)).trans String.toList_ofList
    · simpa using digits i

/-- What is said of the pair and the weights. -/
theorem holds_iff (counts : ∀ point ∈ points, Counts point.x ∧ Counts point.y)
    (long : 2 ≤ points.length) :
    ((∀ v ∈ ownVars stem points.length, v.Admits (values (stripMark v.name))) ∧
      ∀ relation ∈ relations stem x y points, relation.HoldsAsRead values) ↔
      ∃ chosen, chosen + 1 < points.length ∧
        Selects values stem (points.length - 1) chosen ∧
          Weighs points (fun i => values (stripMark (weight stem i))) chosen
            (values (stripMark x)) (values (stripMark y)) := by
  rw [ownVars, List.forall_mem_append, admits_weights_iff, relations_eq, List.forall_mem_append,
    List.forall_mem_cons, List.forall_mem_cons, List.forall_mem_singleton, holdsAsRead_total,
    sum_weights, holdsAsRead_linking_iff fun point mem => (counts point mem).1,
    holdsAsRead_linking_iff fun point mem => (counts point mem).2]
  constructor
  · rintro ⟨⟨unit, chosen⟩, ⟨total, sets⟩, x_eq, y_eq⟩
    rcases (holds_neighbours_iff long).mp ⟨chosen, sets⟩ with ⟨chosen, inside, selects, bounded⟩
    exact ⟨chosen, inside, selects, fun i => unit i i.isLt, fun i => bounded i i.isLt, total, x_eq,
      y_eq⟩
  · rintro ⟨chosen, inside, selects, unit, bounded, total, x_eq, y_eq⟩
    rcases (holds_neighbours_iff long).mpr
      ⟨chosen, inside, selects, fun i below => bounded ⟨i, below⟩⟩ with ⟨chosen, sets⟩
    exact ⟨⟨fun i below => unit ⟨i, below⟩, chosen⟩, ⟨total, sets⟩, x_eq, y_eq⟩

/-- The pairs that fit to what is written of the program of a polyline. -/
theorem exists_program (plain : Program.PlainStem stem)
    (counts : ∀ point ∈ points, Counts point.x ∧ Counts point.y)
    (long : 2 ≤ points.length) (different : stripMark x ≠ stripMark y)
    (apart : ∀ name ∈ [x, y], stripMark name ∉ (generated stem points.length).map stripMark) :
    ∃ program, Program.build (vars stem x y points) (relations stem x y points) = .ok program ∧
      ∀ a b : K, (∃ values, values (stripMark x) = a ∧ values (stripMark y) = b ∧
        program.HoldsWritten values) ↔ OnPolyline (points.map (Point.map exactNumber)) a b := by
  rcases Program.exists_build_of_readable (K := K) (vars stem x y points)
    (readable_relations counts long apart) with ⟨program, built, states⟩
  have vars_eq : vars stem x y points = spanning x (points.map Point.x) ::
      spanning y (points.map Point.y) :: ownVars stem points.length := rfl
  refine ⟨program, built, fun a b => ⟨?_, fun on => ?_⟩⟩
  · rintro ⟨values, rfl, rfl, written⟩
    obtain ⟨bounds, stated⟩ := (states.holdsWritten_iff values).mp written
    rw [vars_eq, List.forall_mem_cons, List.forall_mem_cons] at bounds
    have own : ∀ v ∈ ownVars stem points.length, v.Admits (values (stripMark v.name)) :=
      fun v mem => bounds.2.2 v mem (declared_ownVars plain _ v mem)
    obtain ⟨chosen, inside, -, weighs⟩ := (holds_iff counts long).mp ⟨own, stated⟩
    exact weighs.onPolyline inside
  · rcases on.exists_weighs with ⟨z, chosen, inside, weighs⟩
    rcases exists_assignment different apart a b z chosen with
      ⟨values, x_value, y_value, weight_value, selects⟩
    have weighs' : Weighs points (fun i => values (stripMark (weight stem i))) chosen
        (values (stripMark x)) (values (stripMark y)) := by
      rwa [x_value, y_value, funext weight_value]
    obtain ⟨own, stated⟩ := (holds_iff counts long).mpr ⟨chosen, inside, selects, weighs'⟩
    have admitted := on.admits (x := x) (y := y) fun point mem =>
      ⟨(counts point mem).1.finite, (counts point mem).2.finite⟩
    rw [← x_value, ← y_value] at admitted
    refine ⟨values, x_value, y_value, (states.holdsWritten_iff values).mpr ⟨?_, stated⟩⟩
    rw [vars_eq, List.forall_mem_cons, List.forall_mem_cons]
    exact ⟨fun _ => admitted.1, fun _ => admitted.2, fun v mem _ => own v mem⟩

end Programs

/-! ## Integer points -/

section Integers

/-- An integer as it stands in a program. -/
def coordinate (c : Int64) : Float := Float.ofInt c.toInt

def Point.value (point : Point Int64) : Value := .tuple [.int point.x, .int point.y]

theorem counts_coordinate (c : Int64) : Counts (coordinate c) := by
  have bounded : c.toInt.natAbs < 2 ^ 64 := by
    have low := c.le_toInt
    have high := c.toInt_lt
    omega
  rcases exists_exactValue?_ofInt bounded with ⟨q, exact_eq, large⟩
  constructor
  · exact Option.isSome_iff_exists.mpr ⟨q, exact_eq⟩
  · intro nonzero
    apply isSignificant_of_one_le exact_eq
    apply large
    intro zero
    apply nonzero
    rw [coordinate, zero]
    decide +kernel

/-- Up to 2 to the 53, integers stay as they are. -/
theorem exactNumber_coordinate {K : Type} [Field K] {c : Int64}
    (small : c.toInt.natAbs ≤ 2 ^ 53) : (exactNumber (coordinate c) : K) = c.toInt := by
  have exact_eq : exactValue? (Float.ofInt c.toInt) = some (c.toInt : ℚ) := by
    rcases Nat.lt_or_eq_of_le small with below | edge
    · exact exactValue?_ofInt below
    · rcases Int.natAbs_eq_iff.mp edge with top | bottom
      · rw [top]
        decide +kernel
      · rw [bottom]
        decide +kernel
  rw [coordinate, exactNumber_of_exactValue? exact_eq, Rat.cast_intCast]

theorem ofValue_value (point : Point Int64) :
    (liftM (Point.ofValue point.value) : Taking (Point Float)) = pure (point.map coordinate) := rfl

theorem mapM_ofValue (points : List (Point Int64)) :
    ((points.map Point.value).mapM fun point => liftM (Point.ofValue point) :
      Taking (List (Point Float))) = pure (points.map (Point.map coordinate)) := by
  induction points with
  | nil => rfl
  | cons point points ih =>
    rw [List.map_cons, List.mapM_cons, ofValue_value, pure_bind, ih, pure_bind]
    rfl

def call (text stem : String) (points : List (Point Int64)) : Invocation where
  index := some text
  arguments := { positional := [.list (points.map Point.value)] }
  stem

def program (stem x y : String) (points : List (Point Int64)) : Except Failure Program :=
  Program.build (vars stem x y (points.map (Point.map coordinate)))
    (relations stem x y (points.map (Point.map coordinate)))

/-- A polyline writes its program. -/
theorem run_call {text stem x y : String} {points : List (Point Int64)} {result : Program}
    (read : parseVariableList text = .ok [x, y]) (long : 2 ≤ points.length)
    (built : program stem x y points = .ok result) (context : Context) :
    run (call text stem points) context =
      .ok () (context.emit .model (result.renderFor stem [])) := by
  have given : (call text stem points).arguments.reading "PWL" ["xyvalues"] 1 (do
      (← (← Bound.required "xyvalues").elements).mapM fun point => liftM (Point.ofValue point)) =
        .ok (points.map (Point.map coordinate)) := by
    change StateT.run' ((points.map Point.value).mapM fun point => liftM (Point.ofValue point) :
      Taking (List (Point Float))) ⟨"PWL", [("xyvalues", none)]⟩ = _
    rw [mapM_ofValue]
    rfl
  have enough : ¬ (points.map (Point.map coordinate)).length < 2 := by
    rw [List.length_map]
    omega
  have indexed : (call text stem points).requireIndex "PWL" = .ok text := rfl
  rw [run, indexed, lift_ok_bind, read, lift_ok_bind]
  dsimp only
  rw [given, lift_ok_bind, if_neg enough]
  change ((liftM (program stem x y points) : Action Context Program) >>= _) context = _
  rw [built, lift_ok_bind]
  rfl

variable {K : Type} [Field K] [LinearOrder K] [IsStrictOrderedRing K]

/-- The corners of a polyline, as they stand in its program. -/
def corners (points : List (Point Int64)) : List (Point K) :=
  points.map (Point.map fun c => exactNumber (coordinate c))

theorem exists_fitting_program {stem x y : String} {points : List (Point Int64)}
    (plain : Program.PlainStem stem) (long : 2 ≤ points.length)
    (different : stripMark x ≠ stripMark y)
    (apart : ∀ name ∈ [x, y], stripMark name ∉ (generated stem points.length).map stripMark) :
    ∃ result, program stem x y points = .ok result ∧
      ∀ a b : K, (∃ values, values (stripMark x) = a ∧ values (stripMark y) = b ∧
        result.HoldsWritten values) ↔ OnPolyline (corners points) a b := by
  have counts : ∀ point ∈ points.map (Point.map coordinate),
      Counts point.x ∧ Counts point.y :=
    List.forall_mem_map.mpr fun point _ => ⟨counts_coordinate point.x, counts_coordinate point.y⟩
  have length_eq : (points.map (Point.map coordinate)).length = points.length := List.length_map _
  have corners_eq : (corners points : List (Point K)) =
      (points.map (Point.map coordinate)).map (Point.map exactNumber) := by
    rw [List.map_map]
    rfl
  rw [corners_eq]
  exact exists_program plain counts (length_eq.symm ▸ long) different (length_eq.symm ▸ apart)

/-- What a polyline through integer points writes allows just the pairs on it, if no coordinate is
beyond 2 to the 53. -/
theorem run_exact {text stem x y : String} {points : List (Point Int64)}
    (plain : Program.PlainStem stem) (read : parseVariableList text = .ok [x, y])
    (long : 2 ≤ points.length)
    (small : ∀ point ∈ points, point.x.toInt.natAbs ≤ 2 ^ 53 ∧ point.y.toInt.natAbs ≤ 2 ^ 53)
    (different : stripMark x ≠ stripMark y)
    (apart : ∀ name ∈ [x, y], stripMark name ∉ (generated stem points.length).map stripMark) :
    ∃ result, program stem x y points = .ok result ∧
      (∀ context, run (call text stem points) context =
        .ok () (context.emit .model (result.renderFor stem []))) ∧
      ∀ a b : K, (∃ values, values (stripMark x) = a ∧ values (stripMark y) = b ∧
        result.HoldsWritten values) ↔
          OnPolyline (points.map (Point.map fun c => (c.toInt : K))) a b := by
  rcases exists_fitting_program (K := K) plain long different apart with ⟨result, built, fits⟩
  have corners_eq : corners points = points.map (Point.map fun c => (c.toInt : K)) := by
    apply List.map_congr_left
    intro point mem
    rw [Point.map, Point.map, exactNumber_coordinate (small point mem).1,
      exactNumber_coordinate (small point mem).2]
  rw [corners_eq] at fits
  exact ⟨result, built, run_call read long built, fits⟩

/-- Points of which the last two stand above each other. -/
def steep : List (Point Int64) := [⟨0, 0⟩, ⟨1, 2⟩, ⟨1, 5⟩]

theorem plainStem_pwl : Program.PlainStem "_pwl0_" := by
  unfold Program.PlainStem
  decide

theorem run_exact_steep :
    ∃ result, program "_pwl0_" "x" "^y" steep = .ok result ∧
      (∀ context, run (call "x,^y" "_pwl0_" steep) context =
        .ok () (context.emit .model (result.renderFor "_pwl0_" []))) ∧
        (∃ values : String → ℚ, values "x" = 1 ∧ values "y" = 7 / 2 ∧
          result.HoldsWritten values) ∧
          ¬ ∃ values : String → ℚ, values "x" = 1 / 2 ∧ values "y" = 2 ∧
            result.HoldsWritten values := by
  have read : parseVariableList "x,^y" = .ok ["x", "^y"] := by rfl
  have long : 2 ≤ steep.length := by decide
  have small : ∀ point ∈ steep,
      point.x.toInt.natAbs ≤ 2 ^ 53 ∧ point.y.toInt.natAbs ≤ 2 ^ 53 := by decide
  have apart : ∀ name ∈ ["x", "^y"],
      stripMark name ∉ (generated "_pwl0_" steep.length).map stripMark := by decide
  rcases run_exact (K := ℚ) plainStem_pwl read long small (by decide) apart with
    ⟨result, built, written, fits⟩
  have steep_eq : steep.map (Point.map fun c => (c.toInt : ℚ)) = [⟨0, 0⟩, ⟨1, 2⟩, ⟨1, 5⟩] := by
    rfl
  rw [steep_eq] at fits
  refine ⟨result, built, written, (fits 1 (7 / 2)).mpr ?_, fun fitting => ?_⟩
  · exact ⟨1, by decide, 1 / 2, by norm_num, by norm_num, by norm_num, by norm_num⟩
  · rcases (fits _ _).mp fitting with ⟨i, inside, t, -, -, x_eq, y_eq⟩
    have segment : i = 0 ∨ i = 1 := by
      have inside : i + 1 < 3 := inside
      omega
    rcases segment with rfl | rfl
    · norm_num at x_eq y_eq
      linarith
    · norm_num at x_eq

/-- Points of which the last is too far away for a float. -/
def distant : List (Point Int64) := [⟨0, 0⟩, ⟨9007199254740993, 1⟩]

/-- A corner that is rounded does not fit itself. -/
theorem distant_corner_unreachable :
    ∃ result, program "_pwl0_" "x" "y" distant = .ok result ∧
      (∀ context, run (call "x,y" "_pwl0_" distant) context =
        .ok () (context.emit .model (result.renderFor "_pwl0_" []))) ∧
        ¬ ∃ values : String → ℚ, values "x" = 9007199254740993 ∧ values "y" = 1 ∧
          result.HoldsWritten values := by
  have read : parseVariableList "x,y" = .ok ["x", "y"] := by rfl
  have long : 2 ≤ distant.length := by decide
  have apart : ∀ name ∈ ["x", "y"],
      stripMark name ∉ (generated "_pwl0_" distant.length).map stripMark := by decide
  rcases exists_fitting_program (K := ℚ) plainStem_pwl long (by decide) apart with
    ⟨result, built, fits⟩
  refine ⟨result, built, run_call read long built, fun fitting => ?_⟩
  rcases (fits _ _).mp fitting with ⟨i, inside, t, -, -, x_eq, y_eq⟩
  obtain rfl : i = 0 := by
    have inside : i + 1 < 2 := inside
    omega
  have rounded : exactValue? (coordinate 9007199254740993) = some 9007199254740992 := by
    decide +kernel
  have one : exactValue? (coordinate 1) = some 1 := by decide +kernel
  have zero : exactValue? (coordinate 0) = some 0 := by decide +kernel
  simp only [corners, distant, List.map_cons, Point.map, List.getElem_cons_zero,
    List.getElem_cons_succ, exactNumber_of_exactValue? rounded, exactNumber_of_exactValue? one,
    exactNumber_of_exactValue? zero] at x_eq y_eq
  norm_num at x_eq y_eq
  linarith

end Integers

end ModelWeaver.Polyline
