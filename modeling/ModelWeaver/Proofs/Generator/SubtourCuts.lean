import ModelWeaver.Proofs.Generator.RoundTrip
import ModelWeaver.Proofs.Model.ExactReading

/-!
# Cuts keep all tours

A cut bounds the pairs chosen inside a connected component by one less than its nodes.
A circuit through all nodes has to leave the component, so it satisfies the cut. The
components are those of the pairs that a solution chooses, and each cut is about pairs
of its own.
-/

namespace ModelWeaver.Tour

open Model Number

/-! ## Names of pairs -/

section Names

variable (tour : Tour)

theorem pairName_eq (pair : tour.Node × tour.Node) :
    tour.pairName pair = String.ofList (tour.stem.toList ++ 'c' :: ('_' ::
      ((tour.label pair.1).toList ++ '_' :: (tour.label pair.2).toList))) := by
  apply String.toList_injective
  simp [pairName]
  rfl

theorem stripMark_pairName_inj {first second : tour.Node × tour.Node} :
    stripMark (tour.pairName first) = stripMark (tour.pairName second) ↔
      tour.pairName first = tour.pairName second := by
  constructor
  · intro same
    have letter : 'c' ≠ hiddenMark := by decide
    rw [pairName_eq, pairName_eq, stripMark_append letter, stripMark_append letter] at same
    rw [pairName_eq, pairName_eq]
    have rest_eq := List.append_cancel_left (String.ofList_injective same)
    rw [rest_eq]
  · exact congrArg stripMark

end Names

/-! ## Components -/

section Components

variable (tour : Tour) (solution : Solution)

/-- Pairs that a solution chooses connect two nodes, possibly by way of others. -/
def Linked : tour.Node → tour.Node → Prop :=
  Relation.EqvGen fun a b => (a, b) ∈ tour.pairs ∧ tour.isLinked solution (a, b) = true

/-- A connected component under the pairs that a solution chooses. -/
structure IsComponent (group : Finset tour.Node) : Prop where
  nonempty : group.Nonempty
  mem_iff : ∀ a ∈ group, ∀ b, b ∈ group ↔ tour.Linked solution a b

/-- The chosen pairs, as pairs of numbers. -/
def chosenPairs : List (Nat × Nat) :=
  (tour.pairs.filter (tour.isLinked solution)).map fun pair => (pair.1.val, pair.2.val)

theorem mem_chosenPairs_iff {a b : tour.Node} :
    (a.val, b.val) ∈ tour.chosenPairs solution ↔
      (a, b) ∈ tour.pairs ∧ tour.isLinked solution (a, b) = true := by
  simp only [chosenPairs, List.mem_map, List.mem_filter, Prod.mk.injEq, Fin.val_inj]
  constructor
  · rintro ⟨⟨a', b'⟩, chosen, rfl, rfl⟩
    exact chosen
  · intro chosen
    exact ⟨(a, b), chosen, rfl, rfl⟩

theorem connected_iff_linked {a b : tour.Node} :
    DisjointSets.Connected (tour.chosenPairs solution) a b ↔ tour.Linked solution a b := by
  constructor
  · -- Connected numbers are linked to the same nodes.
    intro connected
    let class_of (x : Nat) : Set tour.Node :=
      {c | ∃ bound : x < tour.size, tour.Linked solution ⟨x, bound⟩ c}
    have agrees : ∀ x y, (x, y) ∈ tour.chosenPairs solution → class_of x = class_of y := by
      intro x y mem
      rcases List.mem_map.mp mem with ⟨pair, chosen, pair_eq⟩
      cases pair_eq
      have step : tour.Linked solution pair.1 pair.2 :=
        Relation.EqvGen.rel _ _ (List.mem_filter.mp chosen)
      ext c
      constructor
      · rintro ⟨_, linked⟩
        exact ⟨pair.2.isLt, step.symm.trans _ _ _ linked⟩
      · rintro ⟨_, linked⟩
        exact ⟨pair.1.isLt, step.trans _ _ _ linked⟩
    have same : class_of a = class_of b := connected.congr class_of agrees
    have mem : b ∈ class_of b := ⟨b.isLt, Relation.EqvGen.refl b⟩
    rw [← same] at mem
    exact mem.2
  · intro linked
    induction linked with
    | rel a b chosen =>
      exact Relation.EqvGen.rel _ _ ((tour.mem_chosenPairs_iff solution).mpr chosen)
    | refl a => exact Relation.EqvGen.refl _
    | symm a b _ ih => exact ih.symm
    | trans a b c _ _ first second => exact first.trans _ _ _ second

theorem exists_splits_linked :
    ∃ leader, (tour.linked solution).Splits tour.size leader ∧
      ∀ a b : tour.Node, leader a = leader b ↔ tour.Linked solution a b := by
  have bounds : ∀ pair ∈ tour.chosenPairs solution, pair.1 < tour.size ∧ pair.2 < tour.size := by
    intro pair mem
    rcases List.mem_map.mp mem with ⟨ends, _, rfl⟩
    exact ⟨ends.1.isLt, ends.2.isLt⟩
  rcases DisjointSets.exists_splits_links bounds with ⟨leader, splits, joins⟩
  rw [chosenPairs, List.foldl_map] at splits
  refine ⟨leader, splits, ?_⟩
  intro a b
  rw [joins, connected_iff_linked]

def members (group : List Nat) : Finset tour.Node :=
  Finset.univ.filter fun v => v.val ∈ group

theorem mem_members {group : List Nat} {v : tour.Node} :
    v ∈ tour.members group ↔ v.val ∈ group := by
  rw [members, Finset.mem_filter]
  exact and_iff_right (Finset.mem_univ v)

variable {tour solution}

/-- The groups of linked nodes are connected components. -/
theorem isComponent_members {group : List Nat} (mem : group ∈ (tour.linked solution).groups) :
    tour.IsComponent solution (tour.members group) ∧
      (tour.members group).card = group.length := by
  rcases tour.exists_splits_linked solution with ⟨leader, splits, same_iff⟩
  rcases splits.mem_groups_iff.mp mem with ⟨x, bound, rfl⟩
  have mem_iff : ∀ v : tour.Node, v ∈ tour.members ((List.range tour.size).filter
      fun y => leader y = leader x) ↔ leader v = leader x := by
    intro v
    simp [mem_members]
  constructor
  · constructor
    · exact ⟨⟨x, bound⟩, (mem_iff ⟨x, bound⟩).mpr rfl⟩
    · intro a inside b
      rw [mem_iff, ← same_iff, (mem_iff a).mp inside, eq_comm]
  · have nodup : ((List.range tour.size).filter fun y => leader y = leader x).Nodup :=
      List.nodup_range.filter _
    rw [← List.toFinset_card_of_nodup nodup, ← Finset.card_map Fin.valEmbedding]
    congr 1
    ext y
    simp only [Finset.mem_map, mem_iff, Fin.valEmbedding_apply, List.mem_toFinset,
      List.mem_filter, List.mem_range, decide_eq_true_eq]
    constructor
    · rintro ⟨v, same, rfl⟩
      exact ⟨v.isLt, same⟩
    · rintro ⟨inside, same⟩
      exact ⟨⟨y, inside⟩, same, rfl⟩

theorem IsComponent.exists_group {group : Finset tour.Node}
    (component : tour.IsComponent solution group) :
    ∃ numbers ∈ (tour.linked solution).groups, tour.members numbers = group := by
  rcases tour.exists_splits_linked solution with ⟨leader, splits, same_iff⟩
  rcases component.nonempty with ⟨a, inside⟩
  refine ⟨_, splits.mem_groups_iff.mpr ⟨a, a.isLt, rfl⟩, ?_⟩
  ext b
  rw [component.mem_iff a inside, ← same_iff, eq_comm]
  simp [mem_members]

theorem count_linked_le_one_iff :
    (tour.linked solution).count ≤ 1 ↔ ∀ a b, tour.Linked solution a b := by
  rcases tour.exists_splits_linked solution with ⟨leader, splits, same_iff⟩
  rw [splits.count_le_one_iff]
  constructor
  · intro same a b
    exact (same_iff a b).mp (same a a.isLt b b.isLt)
  · intro linked x x_lt y y_lt
    exact (same_iff ⟨x, x_lt⟩ ⟨y, y_lt⟩).mpr (linked _ _)

theorem IsComponent.card_lt_iff {group : Finset tour.Node}
    (component : tour.IsComponent solution group) :
    group.card < tour.size ↔ ¬ ∀ a b, tour.Linked solution a b := by
  have full_iff : group.card = tour.size ↔ ∀ b, b ∈ group := by
    rw [← Finset.eq_univ_iff_forall, ← Finset.card_eq_iff_eq_univ, Fintype.card_fin]
  have at_most : group.card ≤ tour.size := (Finset.card_le_univ group).trans_eq (Fintype.card_fin _)
  rw [Nat.lt_iff_le_and_ne, and_iff_right at_most, Ne, full_iff, not_iff_not]
  constructor
  · intro full a b
    exact (component.mem_iff a (full a) b).mp (full b)
  · intro linked b
    rcases component.nonempty with ⟨a, inside⟩
    exact (component.mem_iff a inside b).mpr (linked a b)

end Components

/-! ## Cuts -/

section Cuts

theorem contributions_ofNames (names : List String) :
    (Operand.ofNames names).contributions =
      names.map fun name => .toVariable (stripMark name) 1.0 := by
  rw [Operand.ofNames, Operand.contributions]
  induction names with
  | nil => rfl
  | cons name names ih => exact congrArg (List.cons _) ih

/-- The constraint that bounds a sum of variables by a number other than zero. -/
theorem exists_ofRelation_ofNames {names : List String} (sense : Sense) {limit : Float}
    (nonempty : names ≠ []) (distinct : (names.map stripMark).Nodup)
    (nonzero : ∀ sign, unpacked limit ≠ .zero sign) :
    ∃ constraint, Constraint.ofRelation ⟨.ofNames names, sense, .constant limit⟩ =
        .ok constraint ∧
      constraint.terms.entries.Perm (names.map fun name => (stripMark name, 1.0)) ∧
        constraint.sense = sense ∧ constraint.rhs = limit := by
  let relation : Relation Float := ⟨.ofNames names, sense, .constant limit⟩
  have contributions_eq : relation.contributions =
      (names.map fun name => .toVariable (stripMark name) 1.0) ++ [.toConstant (-limit)] := by
    rw [← contributions_ofNames]
    rfl
  have terms_eq : relation.contributions.filterMap Contribution.term? =
      names.map fun name => (stripMark name, 1.0) := by
    rw [contributions_eq, List.filterMap_append, List.filterMap_map]
    change names.filterMap (some ∘ fun name => (stripMark name, 1.0)) ++ [] = _
    rw [List.filterMap_eq_map, List.append_nil]
  have distinct_terms :
      ((relation.contributions.filterMap Contribution.term?).map Prod.fst).Nodup := by
    rw [terms_eq, List.map_map]
    exact distinct
  have gathered := gatherTerms_perm distinct_terms
  rw [terms_eq] at gathered
  have filled : ¬ (gatherTerms relation.contributions).entries.isEmpty := by
    rw [List.isEmpty_iff]
    intro empty
    rw [empty] at gathered
    exact nonempty (List.map_eq_nil_iff.mp gathered.nil_eq.symm)
  have significant : ∀ term ∈ (gatherTerms relation.contributions).entries,
      isSignificant term.2 = true := by
    intro term mem
    rcases List.mem_map.mp (gathered.mem_iff.mp mem) with ⟨name, _, rfl⟩
    exact whole_one.significant.mpr (by decide)
  refine ⟨_, if_neg filled, ?_, rfl, ?_⟩
  · rw [cleanTerms_eq_self significant (mt List.isEmpty_iff.mpr filled)]
    exact gathered
  · have constant_eq : gatherConstant relation.contributions = 0.0 + -limit := by
      have no_constant : names.filterMap (Contribution.constant? ∘ fun name =>
          Contribution.toVariable (stripMark name) 1.0) = [] :=
        List.filterMap_eq_nil_iff.mpr fun _ _ => rfl
      rw [gatherConstant_eq, contributions_eq, List.filterMap_append, List.filterMap_map,
        no_constant]
      rfl
    have negative_nonzero : ∀ sign, unpacked (-limit) ≠ .zero sign := by
      intro sign
      rw [unpacked_neg]
      cases limit_eq : unpacked limit with
      | zero sign' => exact absurd limit_eq (nonzero sign')
      | notANumber | infinity | finite => exact Float.Model.UnpackedFloat.noConfusion
    change -gatherConstant relation.contributions = limit
    rw [constant_eq, zero_plus negative_nonzero, minus_minus]

variable (tour : Tour)

/-- A constraint says that fewer pairs inside a group are chosen than it has nodes. -/
structure IsCutOf (cut : Constraint) (group : Finset tour.Node) : Prop where
  terms : cut.terms.entries.Perm
    ((tour.pairsInside group).map fun pair => (stripMark (tour.pairName pair), 1.0))
  sense : cut.sense = .le
  rhs : cut.rhs = Float.ofNat (group.card - 1)

/-- What a solution gives to the pairs inside a group, added up in their order. -/
def insideTotal (solution : Solution) (group : Finset tour.Node) : Float :=
  ((tour.pairsInside group).map tour.pairName).foldl (fun total name => total + solution name) 0.0

variable {tour} {solution : Solution}

theorem Linked.eq_or_exists_pair {a b : tour.Node} (linked : tour.Linked solution a b) :
    a = b ∨ ∃ pair ∈ tour.pairs, tour.isLinked solution pair = true ∧
      tour.Linked solution a pair.1 := by
  induction linked with
  | rel a b chosen => exact Or.inr ⟨(a, b), chosen.1, chosen.2, Relation.EqvGen.refl a⟩
  | refl a => exact Or.inl rfl
  | symm a b linked ih =>
    rcases ih with same | ⟨pair, mem, chosen, reached⟩
    · exact Or.inl same.symm
    · exact Or.inr ⟨pair, mem, chosen, (linked.symm).trans _ _ _ reached⟩
  | trans a b c linked _ first second =>
    rcases first with rfl | found
    · exact second
    · exact Or.inr found

theorem IsComponent.pairsInside_ne_nil {group : Finset tour.Node}
    (component : tour.IsComponent solution group) (several : 1 < group.card) :
    tour.pairsInside group ≠ [] := by
  rcases Finset.one_lt_card.mp several with ⟨a, a_inside, b, b_inside, differ⟩
  have linked := (component.mem_iff a a_inside b).mp b_inside
  rcases linked.eq_or_exists_pair with same | ⟨pair, mem, chosen, reached⟩
  · exact absurd same differ
  · have step : tour.Linked solution pair.1 pair.2 := Relation.EqvGen.rel _ _ ⟨mem, chosen⟩
    apply List.ne_nil_of_mem (a := pair)
    rw [mem_pairsInside, component.mem_iff a a_inside, component.mem_iff a a_inside]
    exact ⟨mem, reached, reached.trans _ _ _ step⟩

section Distinct

variable (distinct : (tour.pairs.map tour.pairName).Nodup)
include distinct

theorem inj_stripMark_pairName {first second : tour.Node × tour.Node}
    (first_mem : first ∈ tour.pairs) (second_mem : second ∈ tour.pairs)
    (same : stripMark (tour.pairName first) = stripMark (tour.pairName second)) : first = second :=
  List.inj_on_of_nodup_map distinct first_mem second_mem (tour.stripMark_pairName_inj.mp same)

theorem nodup_names_inside (group : Finset tour.Node) :
    (((tour.pairsInside group).map tour.pairName).map stripMark).Nodup := by
  rw [List.map_map]
  apply (nodup_pairsInside group).map_on
  intro first first_inside second second_inside same
  exact inj_stripMark_pairName distinct (mem_pairsInside.mp first_inside).1
    (mem_pairsInside.mp second_inside).1 same

variable {group : Finset tour.Node} {cut : Constraint}

theorem exists_isCutOf (component : tour.IsComponent solution group) (several : 1 < group.card) :
    ∃ cut, Constraint.ofRelation ⟨.ofNames ((tour.pairsInside group).map tour.pairName), .le,
      .constant (Float.ofNat (group.card - 1))⟩ = .ok cut ∧ tour.IsCutOf cut group := by
  have nonempty : (tour.pairsInside group).map tour.pairName ≠ [] := by
    rw [Ne, List.map_eq_nil_iff]
    exact component.pairsInside_ne_nil several
  have positive : 0 < group.card - 1 := Nat.sub_pos_of_lt several
  rcases exists_ofRelation_ofNames .le nonempty (nodup_names_inside distinct group)
    (unpacked_ofNat_ne_zero positive) with ⟨cut, made, terms, sense, rhs⟩
  rw [List.map_map] at terms
  exact ⟨cut, made, terms, sense, rhs⟩

omit distinct in
/-- What a cut says about exact values. -/
theorem IsCutOf.holds_iff {K : Type} [Field K] [LinearOrder K] [IsStrictOrderedRing K]
    (isCut : tour.IsCutOf cut group) (small : group.card ≤ 2 ^ 53) (values : String → K) :
    cut.Holds values ↔
      ((tour.pairsInside group).map fun pair => values (stripMark (tour.pairName pair))).sum ≤
        ((group.card - 1 : Nat) : K) := by
  have finite : ∀ term ∈ cut.terms.entries, (exactValue? term.2).isSome := by
    intro term mem
    rcases List.mem_map.mp (isCut.terms.mem_iff.mp mem) with ⟨pair, _, rfl⟩
    exact Option.isSome_iff_exists.mpr ⟨1, exactValue?_one⟩
  have sum_eq : (cut.terms.entries.map fun term => exactNumber term.2 * values term.1).sum =
      ((tour.pairsInside group).map fun pair => values (stripMark (tour.pairName pair))).sum := by
    rw [(isCut.terms.map _).sum_eq, List.map_map]
    congr 1
    apply List.map_congr_left
    intro pair _
    rw [Function.comp_apply, whole_one.exactNumber_eq, Int.cast_one, one_mul]
  have rhs_eq : exactValue? cut.rhs = some ((group.card - 1 : Nat) : ℚ) := by
    rw [isCut.rhs]
    exact exactValue?_ofNat (by omega)
  rw [Constraint.Holds, exactSum?_of_finite values finite, rhs_eq, isCut.sense, sum_eq]
  constructor
  · rintro ⟨lhs, rhs, lhs_eq, rhs_eq, holds⟩
    cases lhs_eq
    cases rhs_eq
    rwa [Rat.cast_natCast] at holds
  · intro holds
    refine ⟨_, _, rfl, rfl, ?_⟩
    rwa [Rat.cast_natCast]

/-- A solution chooses too much inside a group of three or more nodes. -/
def Exceeds (tour : Tour) (solution : Solution) (group : Finset tour.Node) : Prop :=
  3 ≤ group.card ∧ Float.ofNat (group.card - 1) < tour.insideTotal solution group

omit distinct in
/-- Cuts are made for components in which a solution chooses too much. -/
theorem cut?_eq_some_iff {numbers : List Nat} (mem : numbers ∈ (tour.linked solution).groups) :
    tour.cut? solution numbers = some cut ↔
      tour.Exceeds solution (tour.members numbers) ∧
      Constraint.ofRelation ⟨.ofNames ((tour.pairsInside (tour.members numbers)).map tour.pairName),
        .le, .constant (Float.ofNat ((tour.members numbers).card - 1))⟩ = .ok cut := by
  have inside_eq : (tour.pairs.filter fun pair =>
      numbers.contains pair.1.val && numbers.contains pair.2.val) =
        tour.pairsInside (tour.members numbers) := by
    apply List.filter_congr
    intro pair _
    simp [mem_members]
  have condition_iff : (decide (2 < (tour.members numbers).card) &&
      decide (Float.ofNat ((tour.members numbers).card - 1) <
        tour.insideTotal solution (tour.members numbers))) = true ↔
        tour.Exceeds solution (tour.members numbers) := by
    rw [Bool.and_eq_true, decide_eq_true_iff, decide_eq_true_iff]
    rfl
  rw [cut?, inside_eq, ← (isComponent_members mem).2]
  change (if (decide (2 < (tour.members numbers).card) &&
    decide (Float.ofNat ((tour.members numbers).card - 1) <
      tour.insideTotal solution (tour.members numbers))) = true then _ else none) = _ ↔ _
  rw [Option.ite_none_right_eq_some, condition_iff]
  apply and_congr_right
  intro _
  generalize Constraint.ofRelation _ = made
  cases made with
  | error => exact ⟨nofun, nofun⟩
  | ok constraint => simp [Except.toOption]

omit distinct in
theorem mem_cuts_iff :
    cut ∈ tour.cuts solution ↔ (¬ ∀ a b, tour.Linked solution a b) ∧
      ∃ numbers ∈ (tour.linked solution).groups, tour.cut? solution numbers = some cut := by
  rw [← count_linked_le_one_iff, cuts]
  split
  · next single => simp [single]
  · next several => simp only [List.mem_filterMap, several, not_false_eq_true, true_and]

theorem isCutOf_of_cut? {numbers : List Nat} (mem : numbers ∈ (tour.linked solution).groups)
    (made : tour.cut? solution numbers = some cut) :
    3 ≤ (tour.members numbers).card ∧ tour.IsCutOf cut (tour.members numbers) := by
  rcases (cut?_eq_some_iff mem).mp made with ⟨exceeds, of_relation⟩
  rcases exists_isCutOf distinct (isComponent_members mem).1
    (Nat.lt_of_lt_of_le (by decide) exceeds.1) with ⟨cut', of_relation', isCut⟩
  rw [of_relation] at of_relation'
  cases of_relation'
  exact ⟨exceeds.1, isCut⟩

/-- Cuts of groups without common nodes have no common variables. -/
theorem IsCutOf.disjoint {cut' : Constraint} {group' : Finset tour.Node}
    (isCut : tour.IsCutOf cut group) (isCut' : tour.IsCutOf cut' group')
    (apart : Disjoint group group') :
    (cut.terms.entries.map Prod.fst).Disjoint (cut'.terms.entries.map Prod.fst) := by
  have support : ∀ {cut : Constraint} {group : Finset tour.Node} {name : String},
      tour.IsCutOf cut group → name ∈ cut.terms.entries.map Prod.fst →
        ∃ pair ∈ tour.pairsInside group, stripMark (tour.pairName pair) = name := by
    intro cut group name isCut mem
    rw [(isCut.terms.map Prod.fst).mem_iff, List.map_map] at mem
    exact List.mem_map.mp mem
  intro name mem mem'
  rcases support isCut mem with ⟨pair, inside, rfl⟩
  rcases support isCut' mem' with ⟨pair', inside', same⟩
  rw [mem_pairsInside] at inside inside'
  cases inj_stripMark_pairName distinct inside'.1 inside.1 same
  exact Finset.disjoint_left.mp apart inside.2.1 inside'.2.1

omit distinct in
theorem disjoint_members {first second : List Nat} (disjoint : first.Disjoint second) :
    Disjoint (tour.members first) (tour.members second) := by
  rw [Finset.disjoint_left]
  intro v inside inside'
  exact disjoint (tour.mem_members.mp inside) (tour.mem_members.mp inside')

theorem pairwise_disjoint_cuts :
    (tour.cuts solution).Pairwise fun cut cut' =>
      (cut.terms.entries.map Prod.fst).Disjoint (cut'.terms.entries.map Prod.fst) := by
  rw [cuts]
  split
  · exact List.Pairwise.nil
  · rw [List.pairwise_filterMap]
    rcases tour.exists_splits_linked solution with ⟨leader, splits, _⟩
    apply splits.pairwise_disjoint_groups.imp_of_mem
    intro numbers numbers' mem mem' disjoint cut made cut' made'
    exact (isCutOf_of_cut? distinct mem made).2.disjoint distinct
      (isCutOf_of_cut? distinct mem' made').2 (disjoint_members disjoint)

end Distinct

theorem IsRoundTrip.uses_lt {next : tour.Node → tour.Node}
    (trip : tour.IsRoundTrip next) {group : Finset tour.Node} (several : 3 ≤ group.card)
    (proper : group.card < tour.size) :
    (group.filter fun v => next v ∈ group).card ≤ group.card - 1 ∧
      ((tour.pairsInside group).map (uses next)).sum ≤ group.card - 1 := by
  have nonempty : group.Nonempty := Finset.card_pos.mp (Nat.lt_of_lt_of_le (by decide) several)
  have inside_lt := trip.circuit.card_inside_lt nonempty proper
  rw [trip.sum_uses (by omega) group]
  exact ⟨Nat.le_sub_one_of_lt inside_lt, Nat.le_sub_one_of_lt inside_lt⟩

/-- Every cut is about the pairs inside one connected component of at least three nodes
but not all nodes, and every round trip satisfies it. Cuts have no variables in common.
There is a cut for each component in which a solution chooses too much, and none if all
nodes are linked. -/
theorem cuts_keep_round_trips (tour : Tour) (solution : Solution)
    (distinct : (tour.pairs.map tour.pairName).Nodup) :
    (∀ cut ∈ tour.cuts solution, ∃ group : Finset tour.Node,
      tour.IsComponent solution group ∧ 3 ≤ group.card ∧ group.card < tour.size ∧
      tour.IsCutOf cut group ∧ ∀ next, tour.IsRoundTrip next →
        (group.filter fun v => next v ∈ group).card ≤ group.card - 1 ∧
        ((tour.pairsInside group).map (uses next)).sum ≤ group.card - 1 ∧
        (group.card ≤ 2 ^ 53 → ∀ values : String → ℚ,
          (∀ pair ∈ tour.pairs, values (stripMark (tour.pairName pair)) = uses next pair) →
            cut.Holds values)) ∧
    ((tour.cuts solution).Pairwise fun cut cut' =>
      (cut.terms.entries.map Prod.fst).Disjoint (cut'.terms.entries.map Prod.fst)) ∧
    (∀ group, tour.IsComponent solution group → group.card < tour.size →
      tour.Exceeds solution group → ∃ cut ∈ tour.cuts solution, tour.IsCutOf cut group) ∧
    ((∀ a b, tour.Linked solution a b) → tour.cuts solution = []) := by
  refine ⟨?_, pairwise_disjoint_cuts distinct, ?_, ?_⟩
  · intro cut cut_mem
    rcases mem_cuts_iff.mp cut_mem with ⟨several, numbers, mem, made⟩
    have component := (isComponent_members mem).1
    have proper := component.card_lt_iff.mpr several
    rcases isCutOf_of_cut? distinct mem made with ⟨large, isCut⟩
    refine ⟨_, component, large, proper, isCut, ?_⟩
    intro next trip
    rcases trip.uses_lt large proper with ⟨steps, used⟩
    refine ⟨steps, used, ?_⟩
    intro small values values_eq
    rw [isCut.holds_iff small values]
    have used_eq : (tour.pairsInside (tour.members numbers)).map
        (fun pair => values (stripMark (tour.pairName pair))) =
          ((tour.pairsInside (tour.members numbers)).map (uses next)).map (Nat.cast : Nat → ℚ) := by
      rw [List.map_map]
      apply List.map_congr_left
      intro pair inside
      exact values_eq pair (mem_pairsInside.mp inside).1
    rw [used_eq, ← Nat.cast_list_sum, Nat.cast_le]
    exact used
  · intro group component proper exceeds
    rcases component.exists_group with ⟨numbers, mem, rfl⟩
    rcases exists_isCutOf distinct component
      (Nat.lt_of_lt_of_le (by decide) exceeds.1) with ⟨cut, of_relation, isCut⟩
    have made := (cut?_eq_some_iff mem).mpr ⟨exceeds, of_relation⟩
    exact ⟨cut, mem_cuts_iff.mpr ⟨component.card_lt_iff.mp proper, numbers, mem, made⟩, isCut⟩
  · intro linked
    apply List.eq_nil_iff_forall_not_mem.mpr
    intro cut cut_mem
    exact (mem_cuts_iff.mp cut_mem).1 linked

/-- Two triangles with an arc from each to the other. -/
def twoTriangles : Tour where
  arcVariable := "x"
  stem := "_t_"
  nodes := #[.int 1, .int 2, .int 3, .int 4, .int 5, .int 6]
  arcs := [⟨0, 1, "x[1,2]"⟩, ⟨1, 2, "x[2,3]"⟩, ⟨2, 0, "x[3,1]"⟩, ⟨3, 4, "x[4,5]"⟩,
    ⟨4, 5, "x[5,6]"⟩, ⟨5, 3, "x[6,4]"⟩, ⟨2, 3, "x[3,4]"⟩, ⟨5, 0, "x[6,1]"⟩]
  start := 0

/-- A solution that goes round each triangle. -/
def aroundBoth : Solution := fun name =>
  if name ∈ ["_t_c_3_4", "_t_c_1_6"] then 0.0 else 1.0

/-- Going round all six nodes. -/
def aroundAll (v : Fin twoTriangles.size) : Fin twoTriangles.size := Fin.ofNat 6 (v.val + 1)

theorem isRoundTrip_aroundAll : twoTriangles.IsRoundTrip aroundAll where
  circuit := by
    have reached : ∀ a b, aroundAll^[6 + b.val - a.val] a = b := by decide
    exact fun a b => ⟨_, reached a b⟩
  along := by decide

theorem cuts_keep_round_trips_twoTriangles :
    (twoTriangles.pairs.map twoTriangles.pairName).Nodup ∧
      (twoTriangles.cuts aroundBoth).length = 2 ∧
      ∀ cut ∈ twoTriangles.cuts aroundBoth, ∃ group : Finset (Fin twoTriangles.size),
        twoTriangles.IsCutOf cut group ∧
          ((twoTriangles.pairsInside group).map (uses aroundAll)).sum ≤
            group.card - 1 := by
  have distinct : (twoTriangles.pairs.map twoTriangles.pairName).Nodup := by decide +kernel
  refine ⟨distinct, by decide +kernel, ?_⟩
  intro cut mem
  rcases (cuts_keep_round_trips twoTriangles aroundBoth distinct).1 cut mem with
    ⟨group, _, _, _, isCut, satisfied⟩
  exact ⟨group, isCut, (satisfied _ isRoundTrip_aroundAll).2.1⟩

end Cuts

end ModelWeaver.Tour
