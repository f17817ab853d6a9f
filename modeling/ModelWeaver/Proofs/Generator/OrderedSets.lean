import ModelWeaver.Generator.OrderedSet
import ModelWeaver.Proofs.Generator.Selection
import ModelWeaver.Proofs.Model.ExactReading
import ModelWeaver.Proofs.Text.Digits

/-!
# Ordered sets are exact

Of the selectors of an ordered set exactly one is chosen. It allows a variable, or two
neighbours, to differ from zero, and bounds all others by zero. Some choice fits exactly if
the variables that differ from zero lie close enough together. The upper bound stands as a
coefficient, so up to the tolerance it counts as zero.
-/

namespace ModelWeaver.OrderedSet

open Model Number

/-! ## Numbered names -/

theorem stripMark_numbered_inj {first second : Char} (unmarked : first ≠ hiddenMark)
    (unmarked' : second ≠ hiddenMark) {stem : String} {i j : Nat}
    (same : stripMark (String.ofList (stem.toList ++ first :: '_' :: Nat.toDigits 10 i)) =
      stripMark (String.ofList (stem.toList ++ second :: '_' :: Nat.toDigits 10 j))) :
    first = second ∧ i = j := by
  rw [stripMark_append unmarked, stripMark_append unmarked'] at same
  have rest_eq := List.append_cancel_left (String.ofList_injective same)
  simp only [List.cons.injEq, true_and] at rest_eq
  exact ⟨rest_eq.1, toDigits_injective rest_eq.2⟩

theorem selector_eq (stem : String) (i : Nat) :
    selector stem i = String.ofList (stem.toList ++ 'y' :: '_' :: Nat.toDigits 10 i) := by
  apply String.toList_injective
  simp [selector]
  rfl

theorem stripMark_selector_inj {stem : String} {i j : Nat}
    (same : stripMark (selector stem i) = stripMark (selector stem j)) : i = j := by
  rw [selector_eq, selector_eq] at same
  exact (stripMark_numbered_inj (by decide) (by decide) same).2

theorem nodup_selectors (stem : String) (count : Nat) :
    ((selectors stem count).map stripMark).Nodup := by
  rw [selectors, List.map_map]
  exact List.nodup_range.map fun _ _ same => stripMark_selector_inj same

/-! ## Kinds -/

namespace Kind

/-- How many neighbours may differ from zero. -/
def span : Kind → Nat
  | one => 1
  | two => 2

/-- The number of selectors for some variables. -/
def choices (kind : Kind) (count : Nat) : Nat := count + 1 - kind.span

/-- A selector allows a variable to differ from zero. -/
def Allows (kind : Kind) (chosen i : Nat) : Prop := chosen ≤ i ∧ i < chosen + kind.span

instance (kind : Kind) (chosen i : Nat) : Decidable (kind.Allows chosen i) :=
  inferInstanceAs (Decidable (_ ∧ _))

theorem allows_two_iff {chosen i : Nat} :
    two.Allows chosen i ↔ i = chosen ∨ i = chosen + 1 := by
  simp only [Allows, span]
  omega

/-- What bounds a variable. -/
def bound (kind : Kind) (stem : String) (count i : Nat) (upper : Float) : Operand Float :=
  match kind with
  | one => .term (selector stem i) upper
  | two => bound2 stem count i upper

/-- Each variable has its bound, and one selector is chosen. -/
def relations (kind : Kind) (stem : String) (names : List String) (upper : Float) :
    List (Relation Float) :=
  (names.zipIdx.map fun entry =>
    ⟨.single entry.1, .le, kind.bound stem names.length entry.2 upper⟩) ++
      [oneSelected stem (kind.choices names.length)]

theorem relations_one (stem : String) (names : List String) (upper : Float) :
    one.relations stem names upper = relations1 stem names upper := rfl

theorem relations_two (stem : String) (names : List String) (upper : Float) :
    two.relations stem names upper = relations2 stem names upper := rfl

end Kind

theorem program_eq {kind : Kind} {names : List String} (enough : kind.span ≤ names.length)
    (stem : String) (upper : Float) : program kind stem names upper =
      Program.build ((names.map fun name => { name : Variable }) ++
        (selectors stem (kind.choices names.length)).map binary)
          (kind.relations stem names upper) := by
  cases kind with
  | one =>
    rw [Kind.relations_one]
    rfl
  | two =>
    have several : ¬ names.length < 2 := Nat.not_lt.mpr enough
    rw [Kind.relations_two, program, if_neg several]
    rfl

/-! ## Readable relations -/

section Readable

variable {kind : Kind} {stem : String} {names : List String} {upper : Float}

/-- A bound adds up multiples of different selectors. -/
theorem multiples_bound (finite : (exactValue? upper).isSome) {count i : Nat} (inside : i < count)
    (enough : kind.span ≤ count) :
    ∃ own : List Nat, own.Nodup ∧ (∀ j ∈ own, j < kind.choices count) ∧
      (kind.bound stem count i upper).Multiples
        (own.map fun j => stripMark (selector stem j)) := by
  have single (j : Nat) : (Operand.term (selector stem j) upper).Multiples
      ([j].map fun j => stripMark (selector stem j)) := Operand.multiples_term _ finite
  cases kind with
  | one => exact ⟨[i], List.nodup_singleton i, List.forall_mem_singleton.mpr inside, single i⟩
  | two =>
    have several : 2 ≤ count := enough
    change ∃ own : List Nat, own.Nodup ∧ (∀ j ∈ own, j < count - 1) ∧
      (bound2 stem count i upper).Multiples _
    rw [bound2]
    split
    · exact ⟨[0], List.nodup_singleton 0, List.forall_mem_singleton.mpr (by omega), single 0⟩
    · split
      · exact ⟨[i - 1], List.nodup_singleton _, List.forall_mem_singleton.mpr (by omega),
          single (i - 1)⟩
      · refine ⟨[i - 1, i], ?_, ?_, ?_⟩
        · rw [List.nodup_cons, List.mem_singleton]
          exact ⟨by omega, List.nodup_singleton i⟩
        · rw [List.forall_mem_cons, List.forall_mem_singleton]
          omega
        · have added (js : List Nat) :
              (Operand.sum (js.map fun j => .term (selector stem j) upper)).Multiples
                (js.flatMap fun j => [stripMark (selector stem j)]) :=
            Operand.multiples_sum fun j _ => single j
          exact added [i - 1, i]

theorem choices_pos (enough : kind.span ≤ names.length) : 0 < kind.choices names.length := by
  rw [Kind.choices]
  omega

theorem exactValue?_unit : exactValue? (1 : Float) = some 1 := by decide +kernel

theorem readable_total (nonempty : names ≠ []) (distinct : (names.map stripMark).Nodup) :
    Relation.Readable ⟨.ofNames names, .eq, .constant 1⟩ :=
  Relation.readable_of_constant (Operand.multiples_ofNames names)
    (Option.isSome_iff_exists.mpr ⟨1, exactValue?_unit⟩)
    (fun empty => nonempty (List.map_eq_nil_iff.mp empty)) distinct

theorem readable_relations (enough : kind.span ≤ names.length)
    (finite : (exactValue? upper).isSome)
    (apart : ∀ name ∈ names,
      stripMark name ∉ (selectors stem (kind.choices names.length)).map stripMark) :
    ∀ relation ∈ kind.relations stem names upper, relation.Readable := by
  rw [Kind.relations, List.forall_mem_append, List.forall_mem_map, List.forall_mem_singleton]
  constructor
  · intro entry mem
    rcases entry with ⟨name, i⟩
    rcases List.mem_zipIdx' mem with ⟨inside, name_eq⟩
    obtain ⟨own, different, within, multiples⟩ := @multiples_bound _ stem _ finite _ _ inside enough
    refine Relation.readable_of_multiples (Operand.multiples_single name) multiples
      (List.cons_ne_nil _ _) (List.nodup_cons.mpr ⟨?_, ?_⟩)
    · intro found
      rcases List.mem_map.mp found with ⟨j, j_mem, same⟩
      apply apart name (name_eq ▸ List.getElem_mem inside)
      rw [← same, selectors, List.map_map]
      exact List.mem_map_of_mem (List.mem_range.mpr (within j j_mem))
    · exact different.map fun _ _ same => stripMark_selector_inj same
  · apply readable_total _ (nodup_selectors stem _)
    rw [selectors, Ne, List.map_eq_nil_iff, List.range_eq_nil]
    exact Nat.ne_of_gt (choices_pos enough)

end Readable

/-! ## Choices -/

section Choices

variable {K : Type} [Field K] {kind : Kind} {stem : String} {names : List String} {upper : Float}
  {values : String → K}

/-- Of some selectors, one is one and the others are zero. -/
def Selects (values : String → K) (stem : String) (count chosen : Nat) : Prop :=
  ∀ j < count, values (stripMark (selector stem j)) = if j = chosen then 1 else 0

/-- A bound is the upper bound if the choice allows the variable, and else zero. -/
theorem Selects.reading_bound {chosen i : Nat} {count : Nat}
    (selects : Selects values stem (kind.choices count) chosen)
    (available : chosen < kind.choices count) (inside : i < count) (enough : kind.span ≤ count) :
    (kind.bound stem count i upper).reading values =
      if kind.Allows chosen i then effective upper else 0 := by
  cases kind with
  | one =>
    have own := selects i inside
    rw [Kind.bound, Operand.reading_term, own, mul_ite, mul_one, mul_zero]
    apply if_congr _ rfl rfl
    simp only [Kind.Allows, Kind.span]
    omega
  | two =>
    have gaps : Kind.two.choices count = count - 1 := rfl
    rw [gaps] at selects available
    have share (j : Nat) (below : j < count - 1) :
        (Operand.term (selector stem j) upper).reading values =
          if j = chosen then effective upper else 0 := by
      rw [Operand.reading_term, selects j below, mul_ite, mul_one, mul_zero]
    have several : 2 ≤ count := enough
    rw [if_congr Kind.allows_two_iff rfl rfl, Kind.bound, bound2]
    split
    · next first =>
        rw [share 0 (by omega)]
        apply if_congr _ rfl rfl
        omega
    · split
      · next last =>
          rw [share (i - 1) (by omega)]
          apply if_congr _ rfl rfl
          omega
      · rw [Operand.reading_sum, List.map_cons, List.map_cons, List.map_nil, List.sum_cons,
          List.sum_singleton, share (i - 1) (by omega), share i (by omega)]
        by_cases before : i - 1 = chosen
        · rw [if_pos before, if_neg (by omega), if_pos (by omega), add_zero]
        · rw [if_neg before, zero_add]
          apply if_congr _ rfl rfl
          omega

variable [LinearOrder K]

/-- The choice bounds each variable. -/
theorem Selects.bounds_iff {chosen : Nat}
    (selects : Selects values stem (kind.choices names.length) chosen)
    (available : chosen < kind.choices names.length) (enough : kind.span ≤ names.length) :
    (∀ entry ∈ names.zipIdx, Relation.HoldsAsRead values
        ⟨.single entry.1, .le, kind.bound stem names.length entry.2 upper⟩) ↔
      ∀ i : Fin names.length, values (stripMark (names.get i)) ≤
        if kind.Allows chosen i then effective upper else 0 := by
  have one_iff (i : Fin names.length) : Relation.HoldsAsRead values
      ⟨.single (names.get i), .le, kind.bound stem names.length i upper⟩ ↔
        values (stripMark (names.get i)) ≤
          if kind.Allows chosen i then effective upper else 0 := by
    rw [Relation.HoldsAsRead, Operand.reading_single,
      selects.reading_bound available i.isLt enough]
    rfl
  constructor
  · intro holds i
    rw [← one_iff]
    apply holds (names.get i, i)
    exact List.mem_zipIdx_iff_getElem?.mpr (List.getElem?_eq_getElem i.isLt)
  · intro bounded entry mem
    rcases entry with ⟨name, i⟩
    rcases List.mem_zipIdx' mem with ⟨inside, name_eq⟩
    rw [name_eq]
    exact (one_iff ⟨i, inside⟩).mpr (bounded ⟨i, inside⟩)

theorem admits_binary_iff {name : String} {value : K} :
    (binary name).Admits value ↔ value = 0 ∨ value = 1 := by
  simp [binary, Variable.Admits]

theorem holdsAsRead_total {list : List String} :
    Relation.HoldsAsRead values ⟨.ofNames list, .eq, .constant 1⟩ ↔
      (list.map fun name => values (stripMark name)).sum = 1 := by
  rw [Relation.HoldsAsRead, Operand.reading_ofNames, Operand.reading_constant,
    exactNumber_of_exactValue? exactValue?_unit, Rat.cast_one]
  rfl

variable [IsStrictOrderedRing K]

/-- Zeros and ones add up to one exactly if there is one one. -/
theorem exists_chosen_iff {x : Nat → K} {count : Nat} :
    ((∀ j < count, x j = 0 ∨ x j = 1) ∧ ((List.range count).map x).sum = 1) ↔
      ∃ chosen < count, ∀ j < count, x j = if j = chosen then 1 else 0 := by
  constructor
  · rintro ⟨binary_values, total⟩
    have indicates : ∀ j ∈ List.range count, x j = if decide (x j = 1) = true then 1 else 0 := by
      intro j mem
      rcases binary_values j (List.mem_range.mp mem) with zero | one
      · simp [zero]
      · simp [one]
    rcases Tour.exists_filter_eq indicates total with ⟨chosen, filter_eq⟩
    have chosen_iff : ∀ j, j < count ∧ x j = 1 ↔ j = chosen := by
      intro j
      rw [← List.mem_singleton (b := chosen), ← filter_eq, List.mem_filter, List.mem_range,
        decide_eq_true_iff]
    refine ⟨chosen, ((chosen_iff chosen).mpr rfl).1, fun j below => ?_⟩
    rcases binary_values j below with zero | one
    · rw [zero, if_neg]
      intro same
      exact zero_ne_one (zero.symm.trans ((chosen_iff j).mpr same).2)
    · rw [one, if_pos ((chosen_iff j).mp ⟨below, one⟩)]
  · rintro ⟨chosen, available, selects⟩
    constructor
    · intro j below
      rw [selects j below]
      split
      · exact Or.inr rfl
      · exact Or.inl rfl
    · have indicates : ∀ j ∈ List.range count, x j = if (j == chosen) = true then 1 else 0 := by
        intro j mem
        rw [selects j (List.mem_range.mp mem)]
        exact if_congr beq_iff_eq.symm rfl rfl
      rw [Tour.sum_eq_countP indicates, ← List.count_eq_countP,
        List.count_eq_one_of_mem List.nodup_range (List.mem_range.mpr available), Nat.cast_one]

theorem exists_selects_iff {count : Nat} :
    ((∀ v ∈ (selectors stem count).map binary, v.Admits (values (stripMark v.name))) ∧
      (oneSelected stem count).HoldsAsRead values) ↔
        ∃ chosen < count, Selects values stem count chosen := by
  rw [List.forall_mem_map, oneSelected, holdsAsRead_total, selectors, List.forall_mem_map,
    List.map_map]
  simp only [List.mem_range, admits_binary_iff]
  exact exists_chosen_iff

/-- All that is said of the variables: one selector is chosen, and it bounds each of them. -/
theorem holds_relations_iff (enough : kind.span ≤ names.length) :
    ((∀ v ∈ (selectors stem (kind.choices names.length)).map binary,
        v.Admits (values (stripMark v.name))) ∧
      ∀ relation ∈ kind.relations stem names upper, relation.HoldsAsRead values) ↔
      ∃ chosen < kind.choices names.length,
        Selects values stem (kind.choices names.length) chosen ∧
          ∀ i : Fin names.length, values (stripMark (names.get i)) ≤
            if kind.Allows chosen i then effective upper else 0 := by
  rw [Kind.relations, List.forall_mem_append, List.forall_mem_singleton,
    and_comm (b := Relation.HoldsAsRead _ _), ← and_assoc, exists_selects_iff, List.forall_mem_map]
  constructor
  · rintro ⟨⟨chosen, available, selects⟩, bounded⟩
    exact ⟨chosen, available, selects, (selects.bounds_iff available enough).mp bounded⟩
  · rintro ⟨chosen, available, selects, bounded⟩
    exact ⟨⟨chosen, available, selects⟩, (selects.bounds_iff available enough).mpr bounded⟩

end Choices

/-! ## Patterns -/

section Patterns

variable {K : Type} [Field K] [LinearOrder K] {kind : Kind} {n : Nat} {amounts : Fin n → K}

/-- The variables that differ from zero. -/
def nonzero (amounts : Fin n → K) : Finset (Fin n) := Finset.univ.filter fun i => amounts i ≠ 0

theorem mem_nonzero {i : Fin n} : i ∈ nonzero amounts ↔ amounts i ≠ 0 := by
  rw [nonzero, Finset.mem_filter, and_iff_right (Finset.mem_univ i)]

/-- At most one variable differs from zero, or at most two that are neighbours. -/
def Kind.Pattern (kind : Kind) (amounts : Fin n → K) : Prop :=
  match kind with
  | one => (nonzero amounts).card ≤ 1
  | two => (nonzero amounts).card ≤ 2 ∧
      ∀ i j, amounts i ≠ 0 → amounts j ≠ 0 → i < j → j.val = i.val + 1

/-- Variables that differ from zero are less than a span apart. -/
def Close (span : Nat) (amounts : Fin n → K) : Prop :=
  ∀ i j, amounts i ≠ 0 → amounts j ≠ 0 → j.val < i.val + span

theorem pattern_iff_close : kind.Pattern amounts ↔ Close kind.span amounts := by
  cases kind with
  | one =>
    rw [Kind.Pattern, Finset.card_le_one, Close]
    simp only [mem_nonzero, Kind.span]
    constructor
    · intro equal i j i_nonzero j_nonzero
      rw [equal i i_nonzero j j_nonzero]
      exact Nat.lt_succ_self _
    · intro close i i_nonzero j j_nonzero
      have below := close i j i_nonzero j_nonzero
      have above := close j i j_nonzero i_nonzero
      omega
  | two =>
    constructor
    · rintro ⟨-, neighbours⟩ i j i_nonzero j_nonzero
      by_contra far
      have next := neighbours i j i_nonzero j_nonzero
      simp only [Kind.span] at far
      omega
    · intro close
      have near (i j) (i_nonzero : amounts i ≠ 0) (j_nonzero : amounts j ≠ 0) :
          j.val < i.val + 2 ∧ i.val < j.val + 2 :=
        ⟨close i j i_nonzero j_nonzero, close j i j_nonzero i_nonzero⟩
      refine ⟨?_, fun i j i_nonzero j_nonzero less => ?_⟩
      · by_contra many
        rcases Finset.two_lt_card.mp (Nat.lt_of_not_le many) with
          ⟨a, a_mem, b, b_mem, c, c_mem, a_ne_b, a_ne_c, b_ne_c⟩
        rw [mem_nonzero] at a_mem b_mem c_mem
        have a_near_b := near a b a_mem b_mem
        have a_near_c := near a c a_mem c_mem
        have b_near_c := near b c b_mem c_mem
        omega
      · have i_near_j := near i j i_nonzero j_nonzero
        omega

/-- Some selector allows all variables that differ from zero exactly if these are close
together. -/
theorem exists_allows_iff_close (enough : kind.span ≤ n) :
    (∃ chosen < kind.choices n, ∀ i : Fin n, amounts i ≠ 0 → kind.Allows chosen i) ↔
      Close kind.span amounts := by
  constructor
  · rintro ⟨chosen, -, allowed⟩ i j i_nonzero j_nonzero
    exact Nat.lt_of_lt_of_le (allowed j j_nonzero).2
      (Nat.add_le_add_right (allowed i i_nonzero).1 kind.span)
  · intro close
    rcases (nonzero amounts).eq_empty_or_nonempty with empty | filled
    · refine ⟨0, by rw [Kind.choices]; omega, fun i i_nonzero => ?_⟩
      exact absurd (mem_nonzero.mpr i_nonzero) (empty ▸ Finset.notMem_empty i)
    · -- The first variable that differs from zero, unless the last selector comes before it.
      let first := (nonzero amounts).min' filled
      have first_nonzero : amounts first ≠ 0 := mem_nonzero.mp (Finset.min'_mem _ filled)
      refine ⟨min first (n - kind.span), ?_, fun i i_nonzero => ?_⟩
      · rw [Kind.choices]
        omega
      · have after : first ≤ i := Finset.min'_le _ i (mem_nonzero.mpr i_nonzero)
        have near := close first i first_nonzero i_nonzero
        have inside := i.isLt
        rw [Kind.Allows]
        omega

end Patterns

/-! ## Programs -/

section Programs

variable {K : Type} [Field K] {kind : Kind} {stem : String} {names : List String} {upper : Float}
  {bound : ℚ}

theorem injective_stripMark_get (distinct : (names.map stripMark).Nodup) :
    Function.Injective fun i => stripMark (names.get i) := fun i j same =>
  List.nodup_iff_injective_get.mp distinct.of_map (List.inj_on_of_nodup_map distinct
    (List.get_mem names i) (List.get_mem names j) same)

/-- Values of different variables go together with any choice of a selector. -/
theorem exists_values {ι : Type} {name : ι → String} (injective : Function.Injective name)
    {count : Nat} (apart : ∀ i, name i ∉ (selectors stem count).map stripMark)
    (amounts : ι → K) (chosen : Nat) :
    ∃ values : String → K, (∀ i, values (name i) = amounts i) ∧
      Selects values stem count chosen := by
  refine ⟨Function.extend name amounts fun other =>
    if other = stripMark (selector stem chosen) then 1 else 0, injective.extend_apply _ _, ?_⟩
  intro j below
  rw [Function.extend_apply']
  · exact if_congr ⟨stripMark_selector_inj, congrArg fun j => stripMark (selector stem j)⟩ rfl rfl
  · rintro ⟨i, same⟩
    apply apart i
    rw [same, selectors, List.map_map]
    exact List.mem_map_of_mem (List.mem_range.mpr below)

theorem effective_eq (finite : exactValue? upper = some bound) (positive : 0 < bound) :
    (effective upper : K) = if zeroTolerance < upper then (bound : K) else 0 := by
  rw [effective, exactNumber_of_exactValue? finite]
  apply if_congr _ rfl rfl
  rw [isSignificant_iff finite, abs_of_pos positive,
    lt_iff_exactValue? exactValue?_zeroTolerance finite]

variable [LinearOrder K]

theorem admits_free (name : String) (value : K) : Variable.Admits { name } value := by
  simp [Variable.Admits]

/-- Where no amount is negative, a choice fits exactly if all are within the limit, and those
that differ from zero are close together. -/
theorem exists_fitting_iff {n : Nat} {amounts : Fin n → K} {limit : K}
    (nonnegative : ∀ i, 0 ≤ amounts i) (within : 0 ≤ limit) (enough : kind.span ≤ n) :
    (∃ chosen < kind.choices n, ∀ i,
      amounts i ≤ if kind.Allows chosen i then limit else 0) ↔
        (∀ i, amounts i ≤ limit) ∧ kind.Pattern amounts := by
  rw [pattern_iff_close, ← exists_allows_iff_close enough]
  constructor
  · rintro ⟨chosen, available, bounded⟩
    refine ⟨fun i => (bounded i).trans ?_, chosen, available, fun i i_nonzero => ?_⟩
    · split
      · exact le_rfl
      · exact within
    · by_contra forbidden
      have zero := bounded i
      rw [if_neg forbidden] at zero
      exact i_nonzero (le_antisymm zero (nonnegative i))
  · rintro ⟨limited, chosen, available, allowed⟩
    refine ⟨chosen, available, fun i => ?_⟩
    split
    · exact limited i
    · next forbidden => exact (not_imp_comm.mp (allowed i) forbidden).le

variable [IsStrictOrderedRing K]

/-- The values of variables that fit to the program of an ordered set. -/
theorem exists_program (distinct : (names.map stripMark).Nodup)
    (apart : ∀ name ∈ names,
      stripMark name ∉ (selectors stem (kind.choices names.length)).map stripMark)
    (finite : (exactValue? upper).isSome) (enough : kind.span ≤ names.length) :
    ∃ program, OrderedSet.program kind stem names upper = .ok program ∧
      ∀ amounts : Fin names.length → K,
        (∃ values, (∀ i, values (stripMark (names.get i)) = amounts i) ∧ program.Holds values) ↔
          ∃ chosen < kind.choices names.length, ∀ i,
            amounts i ≤ if kind.Allows chosen i then effective upper else 0 := by
  rw [program_eq enough]
  rcases Program.exists_build_of_readable (K := K) _ (readable_relations enough finite apart) with
    ⟨program, built, states⟩
  refine ⟨program, built, fun amounts => ?_⟩
  have holds_iff (values : String → K) : program.Holds values ↔
      ∃ chosen < kind.choices names.length,
        Selects values stem (kind.choices names.length) chosen ∧
          ∀ i : Fin names.length, values (stripMark (names.get i)) ≤
            if kind.Allows chosen i then effective upper else 0 := by
    rw [states.holds_iff, List.forall_mem_append, List.forall_mem_map, and_assoc,
      and_iff_right fun name _ => admits_free name _, holds_relations_iff enough]
  constructor
  · rintro ⟨values, values_eq, all_hold⟩
    rcases (holds_iff values).mp all_hold with ⟨chosen, available, -, bounded⟩
    exact ⟨chosen, available, fun i => values_eq i ▸ bounded i⟩
  · rintro ⟨chosen, available, bounded⟩
    rcases exists_values (injective_stripMark_get distinct)
      (fun i => apart _ (List.get_mem names i)) amounts chosen with ⟨values, values_eq, selects⟩
    refine ⟨values, values_eq, (holds_iff values).mpr ⟨chosen, available, selects, fun i => ?_⟩⟩
    rw [values_eq]
    exact bounded i

/-- The program of an ordered set of different variables, none of them a selector, allows
just those amounts that are within the limit and differ from zero for at most one variable, or
for at most two that are neighbours. The limit is the upper bound, which counts as zero up to
the tolerance. -/
theorem programs_exact (distinct : (names.map stripMark).Nodup)
    (apart : ∀ name ∈ names,
      stripMark name ∉ (selectors stem (kind.choices names.length)).map stripMark)
    (finite : exactValue? upper = some bound) (positive : 0 < bound)
    (enough : kind.span ≤ names.length) :
    ∃ program, OrderedSet.program kind stem names upper = .ok program ∧
      ∀ amounts : Fin names.length → K, (∀ i, 0 ≤ amounts i) →
        ((∃ values, (∀ i, values (stripMark (names.get i)) = amounts i) ∧
          program.Holds values) ↔
            (∀ i, amounts i ≤ if zeroTolerance < upper then (bound : K) else 0) ∧
              kind.Pattern amounts) := by
  rcases exists_program (K := K) distinct apart (Option.isSome_iff_exists.mpr ⟨bound, finite⟩)
    enough with ⟨program, built, fits⟩
  refine ⟨program, built, fun amounts nonnegative => ?_⟩
  rw [fits, effective_eq finite positive]
  apply exists_fitting_iff nonnegative _ enough
  split
  · exact_mod_cast positive.le
  · exact le_rfl

/-- Two neighbours may differ from zero, but not the two ends. -/
theorem programs_exact_neighbours :
    ∃ program, OrderedSet.program .two "_sos20_" ["a", "^b", "c"] 2.5 = .ok program ∧
      (∃ values : String → ℚ, values "a" = 0 ∧ values "b" = 2 ∧ values "c" = 5 / 2 ∧
        program.Holds values) ∧
      ¬ ∃ values : String → ℚ, values "a" = 1 ∧ values "b" = 0 ∧ values "c" = 1 ∧
        program.Holds values := by
  have distinct : (["a", "^b", "c"].map stripMark).Nodup := by decide
  have apart : ∀ name ∈ ["a", "^b", "c"], stripMark name ∉
      (selectors "_sos20_" (Kind.two.choices ["a", "^b", "c"].length)).map stripMark := by decide
  have finite : exactValue? 2.5 = some (5 / 2) := by decide +kernel
  rcases programs_exact (K := ℚ) distinct apart finite (by norm_num) (by decide) with
    ⟨program, built, fits⟩
  refine ⟨program, built, ?_, ?_⟩
  · have pattern : Kind.two.Pattern (![0, 2, 5 / 2] : Fin 3 → ℚ) :=
      ⟨by decide +kernel, by decide +kernel⟩
    rcases (fits ![0, 2, 5 / 2] (by decide +kernel)).mpr ⟨by decide +kernel, pattern⟩ with
      ⟨values, values_eq, holds⟩
    exact ⟨values, values_eq 0, values_eq 1, values_eq 2, holds⟩
  · rintro ⟨values, a_eq, b_eq, c_eq, holds⟩
    have values_eq : ∀ i : Fin 3, values (stripMark (["a", "^b", "c"].get i)) =
        (![1, 0, 1] : Fin 3 → ℚ) i :=
      Fin.forall_fin_succ.mpr ⟨a_eq, Fin.forall_fin_two.mpr ⟨b_eq, c_eq⟩⟩
    rcases (fits ![1, 0, 1] (by decide +kernel)).mp ⟨values, values_eq, holds⟩ with
      ⟨-, -, neighbours⟩
    exact absurd (neighbours 0 2 (by decide) (by decide) (by decide)) (by decide)

/-- A bound within the tolerance cannot be reached. -/
theorem tiny_bound_unreachable :
    ∃ bound : ℚ, exactValue? 1e-13 = some bound ∧ 0 < bound ∧
      ∃ program, OrderedSet.program .one "_sos10_" ["x"] 1e-13 = .ok program ∧
        ¬ ∃ values : String → ℚ, values "x" = bound ∧ program.Holds values := by
  have finite : exactValue? 1e-13 = some (3961408125713217 / 2 ^ 95) := by decide +kernel
  have positive : (0 : ℚ) < 3961408125713217 / 2 ^ 95 := by norm_num
  have apart : ∀ name ∈ ["x"], stripMark name ∉
      (selectors "_sos10_" (Kind.one.choices ["x"].length)).map stripMark := by decide
  rcases exists_program (K := ℚ) (by decide) apart
    (Option.isSome_iff_exists.mpr ⟨_, finite⟩) (by decide) with ⟨program, built, fits⟩
  refine ⟨_, finite, positive, program, built, ?_⟩
  rintro ⟨values, value_eq, holds⟩
  have values_eq : ∀ i : Fin 1, values (stripMark (["x"].get i)) = 3961408125713217 / 2 ^ 95 :=
    Fin.forall_fin_one.mpr value_eq
  rcases (fits fun _ => 3961408125713217 / 2 ^ 95).mp ⟨values, values_eq, holds⟩ with
    ⟨chosen, -, bounded⟩
  have zero : (effective 1e-13 : ℚ) = 0 := by
    rw [effective_eq finite positive, if_neg (by decide +kernel)]
  have limited := bounded 0
  rw [zero, ite_self] at limited
  exact absurd positive limited.not_gt

end Programs

end ModelWeaver.OrderedSet
