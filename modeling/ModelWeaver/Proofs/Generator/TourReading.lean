import ModelWeaver.Proofs.Generator.Selection
import ModelWeaver.Proofs.Model.ExactReading

/-!
# Tours as systems of linear relations

Each variable of a formulation stands for a quantity of a tour. Here the relations of all
formulations are read as equations and inequalities between these quantities. If the
variables have different names, the quantities can have any values, and the program that
is built says the same as the relations.
-/

namespace ModelWeaver.Tour

open Model

/-! ## Quantities -/

section Quantities

variable (tour : Tour)

/-- What the variables of a tour stand for. -/
inductive Quantity where
  | arc (arc : tour.Arc)
  | pair (pair : tour.Node × tour.Node)
  | potential (node : tour.Node)
  | flow (arc : tour.Arc)
  | flowTo (commodity : tour.Node) (arc : tour.Arc)

variable {tour} in
def Quantity.name : tour.Quantity → String
  | .arc link => link.name
  | .pair ends => tour.pairName ends
  | .potential node => tour.potential node
  | .flow link => tour.flow link
  | .flowTo commodity link => tour.flowTo commodity link

variable {tour} in
/-- The variable of a quantity as it occurs in constraints. -/
def Quantity.key (quantity : tour.Quantity) : String := stripMark quantity.name

/-- The quantities by which a formulation forbids smaller circuits. -/
def ownQuantities : Formulation → List tour.Quantity
  | .potentials => tour.commodities.map .potential
  | .singleFlow => tour.arcs.map .flow
  | .manyFlows => tour.arcs.flatMap fun arc => tour.commodities.map fun commodity =>
    .flowTo commodity arc

/-- The quantities in a formulation. -/
def quantities (formulation : Formulation) : List tour.Quantity :=
  tour.arcs.map .arc ++ tour.ownQuantities formulation ++ tour.pairs.map .pair

/-- The variables of a formulation have different names. -/
def NamesDiffer (formulation : Formulation) : Prop :=
  ((tour.vars formulation).map fun v => stripMark v.name).Nodup

theorem vars_eq_map_ownQuantities (formulation : Formulation) :
    formulation.vars tour = (tour.ownQuantities formulation).map fun quantity =>
      { name := quantity.name, lower := some 0.0 } := by
  cases formulation with
  | potentials | singleFlow =>
    rw [ownQuantities, List.map_map]
    rfl
  | manyFlows =>
    rw [ownQuantities, List.map_flatMap]
    simp only [List.map_map]
    rfl

theorem map_key_quantities (formulation : Formulation) :
    (tour.quantities formulation).map Quantity.key =
      (tour.vars formulation).map fun v => stripMark v.name := by
  rw [quantities, vars, vars_eq_map_ownQuantities, arcVariables, pairVariables]
  simp only [List.map_append, List.map_map]
  rfl

variable {tour} {formulation : Formulation} {arc : tour.Arc}

theorem NamesDiffer.exists_values {K : Type} [Zero K] (differ : tour.NamesDiffer formulation)
    (amount : tour.Quantity → K) :
    ∃ values : String → K, ∀ quantity ∈ tour.quantities formulation,
      values quantity.key = amount quantity := by
  rw [NamesDiffer, ← map_key_quantities] at differ
  refine ⟨fun name => (((tour.quantities formulation).find?
    fun quantity => quantity.key = name).map amount).getD 0, ?_⟩
  intro quantity mem
  have found : (tour.quantities formulation).find? (fun other => other.key = quantity.key) =
      some quantity := (find?_eq_some_iff_of_nodup differ).mpr ⟨mem, rfl⟩
  simp only [found, Option.map_some, Option.getD_some]

theorem NamesDiffer.nodup_keys (differ : tour.NamesDiffer formulation)
    (list : List tour.Quantity) (nodup : list.Nodup)
    (subset : list ⊆ tour.quantities formulation) : (list.map Quantity.key).Nodup := by
  rw [NamesDiffer, ← map_key_quantities] at differ
  apply nodup.map_on
  intro first first_mem second second_mem same
  exact List.inj_on_of_nodup_map differ (subset first_mem) (subset second_mem) same

theorem arc_mem_quantities (mem : arc ∈ tour.arcs) : .arc arc ∈ tour.quantities formulation :=
  List.mem_append_left _ (List.mem_append_left _ (List.mem_map_of_mem mem))

theorem own_mem_quantities {quantity : tour.Quantity}
    (mem : quantity ∈ tour.ownQuantities formulation) :
    quantity ∈ tour.quantities formulation :=
  List.mem_append_left _ (List.mem_append_right _ mem)

theorem pair_mem_quantities {pair : tour.Node × tour.Node} (mem : pair ∈ tour.pairs) :
    .pair pair ∈ tour.quantities formulation :=
  List.mem_append_right _ (List.mem_map_of_mem mem)

theorem mem_commodities {node : tour.Node} : node ∈ tour.commodities ↔ node ≠ tour.start := by
  simp [commodities]

theorem potential_mem_own {node : tour.Node} (other : node ≠ tour.start) :
    .potential node ∈ tour.ownQuantities .potentials :=
  List.mem_map_of_mem (mem_commodities.mpr other)

theorem flow_mem_own (mem : arc ∈ tour.arcs) : .flow arc ∈ tour.ownQuantities .singleFlow :=
  List.mem_map_of_mem mem

theorem flowTo_mem_own {commodity : tour.Node} (mem : arc ∈ tour.arcs)
    (other : commodity ≠ tour.start) : .flowTo commodity arc ∈ tour.ownQuantities .manyFlows :=
  List.mem_flatMap.mpr ⟨arc, mem, List.mem_map_of_mem (mem_commodities.mpr other)⟩

end Quantities

/-! ## Names that are made up -/

section Names

variable {tour : Tour}

/-- The nodes that a quantity is about. -/
def Quantity.nodes : tour.Quantity → List tour.Node
  | .arc link => [link.tail, link.head]
  | .pair ends => [ends.1, ends.2]
  | .potential node => [node]
  | .flow link => [link.tail, link.head]
  | .flowTo commodity link => [link.tail, link.head, commodity]

/-- The letter for the kind of a quantity; arcs have variables of their own. -/
def Quantity.letter : tour.Quantity → Option Char
  | .arc _ => none
  | .pair _ => some 'c'
  | .potential _ => some 'u'
  | .flow _ => some 'y'
  | .flowTo _ _ => some 'y'

/-- The labels of the nodes that a quantity is about, with underscores between. -/
def Quantity.joined (quantity : tour.Quantity) : String :=
  "_".intercalate (quantity.nodes.map tour.label)

theorem toList_name {quantity : tour.Quantity} {letter : Char}
    (kind : quantity.letter = some letter) :
    quantity.name.toList = tour.stem.toList ++ letter :: '_' :: quantity.joined.toList := by
  have itself (text : String) : toString text = text := rfl
  cases quantity with
  | arc link => cases kind
  | pair ends | potential node | flow link | flowTo commodity link =>
    cases kind
    simp [itself, Quantity.name, pairName, potential, flow, flowTo, Quantity.joined,
      Quantity.nodes]

/-- A name that is made up for a tour has a bracket only from the label of a node. -/
theorem isDeclaredHere_of_labels (quantity : tour.Quantity) {letter : Char}
    (plain : Program.PlainStem tour.stem) (bracketless : ∀ node, '[' ∉ (tour.label node).toList)
    (kind : quantity.letter = some letter) {v : Variable} (name_eq : v.name = quantity.name) :
    Program.isDeclaredHere [] v = true := by
  refine Program.isDeclaredHere_of_plainStem plain _ (name_eq ▸ toList_name kind) ?_
  cases quantity with
  | arc link => cases kind
  | pair ends | potential node | flow link | flowTo commodity link =>
    cases kind
    simp [Quantity.joined, Quantity.nodes, bracketless]

/-- The variables by which a formulation forbids smaller circuits are declared. -/
theorem declared_own (plain : Program.PlainStem tour.stem)
    (bracketless : ∀ node, '[' ∉ (tour.label node).toList) (formulation : Formulation) :
    ∀ v ∈ formulation.vars tour, Program.isDeclaredHere [] v = true := by
  rw [vars_eq_map_ownQuantities, List.forall_mem_map]
  intro quantity mem
  cases formulation with
  | potentials =>
    obtain ⟨node, -, rfl⟩ := List.mem_map.mp mem
    exact isDeclaredHere_of_labels (.potential node) plain bracketless rfl rfl
  | singleFlow =>
    obtain ⟨arc, -, rfl⟩ := List.mem_map.mp mem
    exact isDeclaredHere_of_labels (.flow arc) plain bracketless rfl rfl
  | manyFlows =>
    obtain ⟨arc, -, inside⟩ := List.mem_flatMap.mp mem
    obtain ⟨commodity, -, rfl⟩ := List.mem_map.mp inside
    exact isDeclaredHere_of_labels (.flowTo commodity arc) plain bracketless rfl rfl

theorem declared_pairs (plain : Program.PlainStem tour.stem)
    (bracketless : ∀ node, '[' ∉ (tour.label node).toList) :
    ∀ v ∈ tour.pairVariables, Program.isDeclaredHere [] v = true :=
  List.forall_mem_map.mpr fun pair _ =>
    isDeclaredHere_of_labels (.pair pair) plain bracketless rfl rfl

end Names

/-! ## What the relations say -/

section Relations

variable {tour : Tour} {K : Type} [Field K] {values : String → K}

/-- What comes into a node minus what goes out. -/
def net (tour : Tour) (node : tour.Node) (f : tour.Arc → K) : K :=
  ((tour.arcsInto node).map f).sum - ((tour.arcsOutOf node).map f).sum

theorem value_balance (node : tour.Node) (flow : tour.Arc → String) :
    (tour.balance node flow).value values =
      tour.net node fun arc => values (stripMark (flow arc)) := by
  rw [balance, Operand.value_sum, List.map_append, List.sum_append, net, sub_eq_add_neg,
    List.sum_neg]
  simp [List.map_map, Function.comp_def]

variable [LinearOrder K]

theorem holds_assignment_iff :
    (∀ relation ∈ tour.assignment, relation.Holds values) ↔ ∀ node,
      ((tour.arcsInto node).map fun arc => values (Quantity.arc arc).key).sum = 1 ∧
        ((tour.arcsOutOf node).map fun arc => values (Quantity.arc arc).key).sum = 1 := by
  simp [assignment, Relation.Holds, Sense.Holds, Operand.value_ofNames, List.map_map,
    Function.comp_def, Quantity.key, Quantity.name, or_imp, forall_and]

theorem holds_pairRelations_iff :
    (∀ relation ∈ tour.pairRelations, relation.Holds values) ↔ ∀ pair ∈ tour.pairs,
      ((tour.arc? pair.1 pair.2).elim 0 fun arc => values (Quantity.arc arc).key) +
        ((tour.arc? pair.2 pair.1).elim 0 fun arc => values (Quantity.arc arc).key) =
          values (Quantity.pair pair).key := by
  rw [pairRelations, List.forall_mem_map]
  apply forall₂_congr
  intro pair _
  rw [Relation.Holds, Sense.Holds, Operand.value_ofNames, Operand.value_single]
  cases tour.arc? pair.1 pair.2 <;> cases tour.arc? pair.2 pair.1 <;>
    simp [Quantity.key, Quantity.name]

theorem holds_potentialRelations_iff {lifted : Bool} :
    (∀ relation ∈ tour.potentialRelations lifted, relation.Holds values) ↔
      ∀ arc ∈ tour.arcs, arc.tail ≠ tour.start → arc.head ≠ tour.start →
        values (Quantity.potential arc.tail).key - values (Quantity.potential arc.head).key +
          (tour.size - 1) * values (Quantity.arc arc).key +
            (if lifted then (tour.size - 3) * (tour.arc? arc.head arc.tail).elim 0 fun back =>
              values (Quantity.arc back).key else 0) ≤ tour.size - 2 := by
  rw [potentialRelations, List.forall_mem_map]
  simp only [List.mem_filter, Bool.and_eq_true, decide_eq_true_eq, and_imp]
  apply forall₄_congr
  intro arc _ _ _
  have lifting_eq : ((if lifted then tour.arc? arc.head arc.tail else none).toList.map
      fun back => (Operand.term back.name ((tour.size : Int) - 3)).value values).sum =
        if lifted then (tour.size - 3) * (tour.arc? arc.head arc.tail).elim 0 fun back =>
          values (Quantity.arc back).key else 0 := by
    cases lifted with
    | false => rfl
    | true => cases tour.arc? arc.head arc.tail <;> simp [Quantity.key, Quantity.name]
  rw [← lifting_eq, Relation.Holds, Sense.Holds, Operand.value_sum, Operand.value_constant,
    List.map_append, List.sum_append, List.map_map]
  simp [Quantity.key, Quantity.name, Function.comp_def, sub_eq_add_neg, add_assoc]

theorem holds_flowRelations_iff :
    (∀ relation ∈ tour.flowRelations, relation.Holds values) ↔
      (∀ arc ∈ tour.arcs, values (Quantity.flow arc).key ≤
        (if arc.head = tour.start then (tour.size : K) - 1 else tour.size - 2) *
          values (Quantity.arc arc).key) ∧
      ∀ node, (tour.net node fun arc => values (Quantity.flow arc).key) =
        if node = tour.start then (tour.size : K) - 1 else -1 := by
  rw [flowRelations, List.forall_mem_append, List.forall_mem_map, List.forall_mem_map]
  apply and_congr
  · apply forall₂_congr
    intro arc _
    rw [Relation.Holds, Sense.Holds, Operand.value_single, Operand.value_term]
    split <;> simp [Quantity.key, Quantity.name]
  · simp only [List.mem_finRange, forall_const]
    apply forall_congr'
    intro node
    rw [Relation.Holds, Sense.Holds, value_balance, Operand.value_constant]
    split <;> simp [Quantity.key, Quantity.name]

theorem holds_flowToRelations_iff :
    (∀ relation ∈ tour.flowToRelations, relation.Holds values) ↔
      (∀ arc ∈ tour.arcs, ∀ commodity ≠ tour.start,
        values (Quantity.flowTo commodity arc).key ≤ values (Quantity.arc arc).key) ∧
      ∀ node, ∀ commodity ≠ tour.start,
        (tour.net node fun arc => values (Quantity.flowTo commodity arc).key) =
          if node = commodity then 1 else if node = tour.start then -1 else 0 := by
  rw [flowToRelations, List.forall_mem_append, List.forall_mem_flatMap, List.forall_mem_flatMap]
  simp only [List.forall_mem_map, mem_commodities, List.mem_finRange, forall_const]
  apply and_congr
  · apply forall₄_congr
    intro arc _ commodity _
    rw [Relation.Holds, Sense.Holds, Operand.value_single, Operand.value_single]
    rfl
  · apply forall₃_congr
    intro node commodity _
    rw [Relation.Holds, Sense.Holds, value_balance, Operand.value_constant]
    split
    · simp [Quantity.key, Quantity.name]
    · split <;> simp [Quantity.key, Quantity.name]

theorem admits_vars_iff [IsStrictOrderedRing K] {formulation : Formulation} :
    (∀ v ∈ tour.vars formulation, v.Admits (values (stripMark v.name))) ↔
      (∀ arc ∈ tour.arcs, values (Quantity.arc arc).key = 0 ∨
        values (Quantity.arc arc).key = 1) ∧
      (∀ quantity ∈ tour.ownQuantities formulation, 0 ≤ values quantity.key) ∧
      ∀ pair ∈ tour.pairs, 0 ≤ values (Quantity.pair pair).key ∧
        values (Quantity.pair pair).key ≤ 1 := by
  rw [vars, vars_eq_map_ownQuantities, List.forall_mem_append, List.forall_mem_append,
    arcVariables, pairVariables, and_assoc]
  simp only [List.forall_mem_map, Variable.admits_binary_iff, Variable.admits_nonnegative_iff,
    Variable.admits_unit_iff]
  rfl

end Relations

/-! ## The program of a tour -/

section Legible

variable {tour : Tour} {formulation : Formulation} {pair : tour.Node × tour.Node}

variable (wellFormed : tour.WellFormed)
include wellFormed

theorem WellFormed.nodup_arcsAt (node : tour.Node) :
    (tour.arcsInto node ++ tour.arcsOutOf node).Nodup := by
  rw [List.nodup_append']
  refine ⟨wellFormed.nodup_arcsInto node, wellFormed.nodup_arcsOutOf node, ?_⟩
  intro arc into outOf
  rcases mem_arcsInto.mp into with ⟨mem, head_eq⟩
  exact wellFormed.loopless arc mem ((mem_arcsOutOf.mp outOf).2.trans head_eq.symm)

omit wellFormed in
theorem NamesDiffer.nodup_map_key (differ : tour.NamesDiffer formulation) {α : Type}
    {list : List α} (quantity : α → tour.Quantity) (nodup : list.Nodup)
    (injective : Function.Injective quantity)
    (members : ∀ a ∈ list, quantity a ∈ tour.quantities formulation) :
    (list.map fun a => (quantity a).key).Nodup := by
  have keys := differ.nodup_keys _ (nodup.map injective) (List.forall_mem_map.mpr members)
  rwa [List.map_map] at keys

theorem WellFormed.legible_assignment (differ : tour.NamesDiffer formulation) :
    ∀ relation ∈ tour.assignment, relation.Legible := by
  have legible : ∀ arcs : List tour.Arc, arcs ⊆ tour.arcs → arcs.Nodup → arcs ≠ [] →
      Relation.Legible ⟨.ofNames (arcs.map TourArc.name), .eq, .constant 1⟩ := by
    intro arcs subset nodup nonempty
    apply Relation.legible_of_constant (Operand.linear_ofNames _) (by decide)
    · rw [Operand.names_ofNames, List.map_map, Ne, List.map_eq_nil_iff]
      exact nonempty
    · rw [Operand.names_ofNames, List.map_map]
      exact differ.nodup_map_key .arc nodup (fun _ _ => Quantity.arc.inj)
        fun arc mem => arc_mem_quantities (subset mem)
  intro relation mem
  rcases List.mem_flatMap.mp mem with ⟨node, _, here⟩
  rcases List.mem_pair.mp here with rfl | rfl
  · exact legible _ (List.filter_subset_self _) (wellFormed.nodup_arcsInto node)
      (wellFormed.entered node)
  · exact legible _ (List.filter_subset_self _) (wellFormed.nodup_arcsOutOf node)
      (wellFormed.exited node)

theorem WellFormed.pair_ne (mem : pair ∈ tour.pairs) : pair.1 ≠ pair.2 := by
  rcases tour.mem_pairs_iff.mp mem with ⟨arc, arc_mem, rfl⟩
  have loopless := wellFormed.loopless arc arc_mem
  rw [sortedPair]
  split
  · exact loopless
  · exact loopless.symm

/-- The arcs between the nodes of a pair. -/
def arcsBetween (tour : Tour) (pair : tour.Node × tour.Node) : List tour.Arc :=
  (tour.arc? pair.1 pair.2).toList ++ (tour.arc? pair.2 pair.1).toList

omit wellFormed in
theorem names_arcsBetween (pair : tour.Node × tour.Node) :
    [tour.arc? pair.1 pair.2, tour.arc? pair.2 pair.1].filterMap
      (fun arc => arc.map TourArc.name) = (tour.arcsBetween pair).map TourArc.name := by
  rw [arcsBetween]
  cases tour.arc? pair.1 pair.2 <;> cases tour.arc? pair.2 pair.1 <;> rfl

theorem WellFormed.nodup_arcsBetween (mem : pair ∈ tour.pairs) :
    (tour.arcsBetween pair).Nodup := by
  rw [arcsBetween, List.nodup_append']
  refine ⟨Option.toList_nodup _, Option.toList_nodup _, ?_⟩
  intro arc forth back
  rw [Option.mem_toList, wellFormed.arc?_eq_some_iff] at forth back
  exact wellFormed.pair_ne mem (forth.2.1.symm.trans back.2.1)

theorem WellFormed.mem_arcs_of_between {arc : tour.Arc}
    (between : arc ∈ tour.arcsBetween pair) : arc ∈ tour.arcs := by
  simp only [arcsBetween, List.mem_append, Option.mem_toList,
    wellFormed.arc?_eq_some_iff] at between
  rcases between with forth | back
  · exact forth.1
  · exact back.1

theorem WellFormed.legible_pairRelations (differ : tour.NamesDiffer formulation) :
    ∀ relation ∈ tour.pairRelations, relation.Legible := by
  rw [pairRelations, List.forall_mem_map]
  intro pair mem
  dsimp only
  rw [names_arcsBetween]
  apply Relation.legible_of_linear (Operand.linear_ofNames _) (Operand.linear_single _)
  · exact List.append_ne_nil_of_right_ne_nil _ (List.cons_ne_nil _ _)
  · have keys_eq : (Operand.ofNames ((tour.arcsBetween pair).map TourArc.name)).names ++
        (Operand.single (tour.pairName pair)).names =
          ((tour.arcsBetween pair).map Quantity.arc ++ [Quantity.pair pair]).map Quantity.key := by
      rw [Operand.names_ofNames, List.map_append, List.map_map, List.map_map]
      rfl
    rw [keys_eq]
    apply differ.nodup_keys
    · have nodup := (wellFormed.nodup_arcsBetween mem).map fun _ _ => Quantity.arc.inj
      simp [List.nodup_append', nodup]
    · apply List.append_subset_of_subset_of_subset
      · exact List.forall_mem_map.mpr fun arc between =>
          arc_mem_quantities (wellFormed.mem_arcs_of_between between)
      · exact List.forall_mem_singleton.mpr (pair_mem_quantities mem)

theorem WellFormed.legible_potentialRelations (small : tour.size ≤ 2 ^ 53)
    (differ : tour.NamesDiffer .potentials) (lifted : Bool) :
    ∀ relation ∈ tour.potentialRelations lifted, relation.Legible := by
  rw [potentialRelations, List.forall_mem_map]
  intro arc kept
  simp only [List.mem_filter, Bool.and_eq_true, decide_eq_true_eq] at kept
  rcases kept with ⟨mem, tail_ne, head_ne⟩
  have loopless := wellFormed.loopless arc mem
  have several := wellFormed.several
  dsimp only
  generalize back_eq : (if lifted then tour.arc? arc.head arc.tail else none) = back
  have back_spec : ∀ other ∈ back, other ∈ tour.arcs ∧ other ≠ arc := by
    intro other found
    rw [← back_eq] at found
    split at found
    · rcases wellFormed.arc?_eq_some_iff.mp found with ⟨other_mem, tail_eq, _⟩
      refine ⟨other_mem, ?_⟩
      rintro rfl
      exact loopless tail_eq
    · cases found
  have keys_eq : (Operand.sum ([.term (tour.potential arc.tail) 1,
      .term (tour.potential arc.head) (-1), .term arc.name ((tour.size : Int) - 1)] ++
        back.toList.map fun arc => .term arc.name (tour.size - 3))).names =
          ([Quantity.potential arc.tail, Quantity.potential arc.head, Quantity.arc arc] ++
            back.toList.map Quantity.arc).map Quantity.key := by
    rw [Operand.names_sum]
    cases back <;> rfl
  apply Relation.legible_of_constant
  · apply Operand.linear_sum
    simp only [List.forall_mem_append, List.forall_mem_cons, List.forall_mem_map]
    exact ⟨⟨Operand.linear_term (by decide), Operand.linear_term (by decide),
      Operand.linear_term (by omega), List.forall_mem_nil _⟩, fun _ _ =>
        Operand.linear_term (by omega)⟩
  · omega
  · rw [keys_eq]
    exact List.cons_ne_nil _ _
  · rw [keys_eq]
    apply differ.nodup_keys
    · cases back with
      | none => simp [loopless]
      | some other => simp [loopless, (back_spec other rfl).2.symm]
    · apply List.append_subset_of_subset_of_subset
      · simp [own_mem_quantities (potential_mem_own tail_ne),
          own_mem_quantities (potential_mem_own head_ne), arc_mem_quantities mem]
      · exact List.forall_mem_map.mpr fun other found =>
          arc_mem_quantities (back_spec other (Option.mem_toList.mp found)).1

/-- A balance of flows can be stated exactly. -/
theorem WellFormed.legible_balance (differ : tour.NamesDiffer formulation)
    (quantity : tour.Arc → tour.Quantity) (injective : Function.Injective quantity)
    (members : ∀ arc ∈ tour.arcs, quantity arc ∈ tour.quantities formulation) (node : tour.Node)
    {gain : Int} (small : gain.natAbs < 2 ^ 53) :
    Relation.Legible ⟨tour.balance node fun arc => (quantity arc).name, .eq, .constant gain⟩ := by
  have names_eq : (tour.balance node fun arc => (quantity arc).name).names =
      (tour.arcsInto node ++ tour.arcsOutOf node).map fun arc => (quantity arc).key := by
    rw [balance, Operand.names_sum, List.flatMap_append, List.flatMap_map, List.flatMap_map,
      List.map_append, List.map_eq_flatMap, List.map_eq_flatMap]
    rfl
  apply Relation.legible_of_constant _ small
  · rw [names_eq, Ne, List.map_eq_nil_iff]
    exact List.append_ne_nil_of_left_ne_nil (wellFormed.entered node) _
  · rw [names_eq]
    apply differ.nodup_map_key quantity (wellFormed.nodup_arcsAt node) injective
    intro arc mem
    rcases List.mem_append.mp mem with into | outOf
    · exact members arc (mem_arcsInto.mp into).1
    · exact members arc (mem_arcsOutOf.mp outOf).1
  · apply Operand.linear_sum
    rw [List.forall_mem_append, List.forall_mem_map, List.forall_mem_map]
    exact ⟨fun _ _ => Operand.linear_term (by decide), fun _ _ => Operand.linear_term (by decide)⟩

theorem WellFormed.legible_flowRelations (small : tour.size ≤ 2 ^ 53)
    (differ : tour.NamesDiffer .singleFlow) :
    ∀ relation ∈ tour.flowRelations, relation.Legible := by
  have several := wellFormed.several
  rw [flowRelations, List.forall_mem_append, List.forall_mem_map, List.forall_mem_map]
  constructor
  · intro arc mem
    apply Relation.legible_of_linear (Operand.linear_single _)
    · apply Operand.linear_term
      split <;> omega
    · exact List.cons_ne_nil _ _
    · apply differ.nodup_keys [.flow arc, .arc arc]
      · simp
      · simp [own_mem_quantities (flow_mem_own mem), arc_mem_quantities mem]
  · intro node _
    apply wellFormed.legible_balance differ .flow (fun _ _ => Quantity.flow.inj)
      fun arc mem => own_mem_quantities (flow_mem_own mem)
    split <;> omega

theorem WellFormed.legible_flowToRelations (differ : tour.NamesDiffer .manyFlows) :
    ∀ relation ∈ tour.flowToRelations, relation.Legible := by
  rw [flowToRelations, List.forall_mem_append, List.forall_mem_flatMap, List.forall_mem_flatMap]
  simp only [List.forall_mem_map, mem_commodities]
  constructor
  · intro arc mem commodity other
    apply Relation.legible_of_linear (Operand.linear_single _) (Operand.linear_single _)
    · exact List.cons_ne_nil _ _
    · apply differ.nodup_keys [.flowTo commodity arc, .arc arc]
      · simp
      · simp [own_mem_quantities (flowTo_mem_own mem other), arc_mem_quantities mem]
  · intro node _ commodity other
    apply wellFormed.legible_balance differ (.flowTo commodity)
      (fun _ _ same => (Quantity.flowTo.inj same).2)
      fun arc mem => own_mem_quantities (flowTo_mem_own mem other)
    split
    · decide
    · split <;> decide

/-- The program of a tour has its variables and says the same as its relations. -/
theorem WellFormed.exists_program {K : Type} [Field K] [LinearOrder K] [IsStrictOrderedRing K]
    (small : tour.size ≤ 2 ^ 53) (differ : tour.NamesDiffer formulation) (lifted : Bool) :
    ∃ program, tour.program formulation lifted = .ok program ∧
      program.States (tour.vars formulation) fun values : String → K =>
        ∀ relation ∈ tour.relations formulation lifted, relation.Holds values := by
  have legible : ∀ relation ∈ tour.relations formulation lifted, relation.Legible := by
    rw [relations, List.forall_mem_append, List.forall_mem_append]
    refine ⟨⟨wellFormed.legible_assignment differ, ?_⟩, wellFormed.legible_pairRelations differ⟩
    cases formulation with
    | potentials => exact wellFormed.legible_potentialRelations small differ lifted
    | singleFlow => exact wellFormed.legible_flowRelations small differ
    | manyFlows => exact wellFormed.legible_flowToRelations differ
  have connected : tour.unconnected? = none := by
    rw [unconnected?, List.find?_eq_none]
    intro node _
    simp [wellFormed.entered node, wellFormed.exited node]
  rw [program, connected]
  exact Program.exists_build (tour.vars formulation) legible

end Legible

end ModelWeaver.Tour
