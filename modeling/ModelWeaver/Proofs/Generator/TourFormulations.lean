import ModelWeaver.Proofs.Generator.TourReading

/-!
# All formulations admit the same tours

Potentials, a single flow and flows to all nodes each forbid circuits that miss the start, because
on such a circuit something would have to grow from node to node and come back to where it was.
Potentials and flows of a round trip are read off the positions of its nodes.

Flows have to be bounded below for this, and bounds are written with declarations, which variables
with a bracket in their names do not get. So a label with a bracket lets flows become negative,
and circuits that miss the start come back. Potentials need no bounds.
-/

namespace ModelWeaver.Tour

open Model

variable {tour : Tour} {K : Type} [Field K] [LinearOrder K] {values : String → K}
  {chosen : tour.Arc → Bool} {next : tour.Node → tour.Node}

/-- The variables of arcs say which of them are chosen. -/
def Indicates (tour : Tour) (values : String → K) (chosen : tour.Arc → Bool) : Prop :=
  ∀ arc ∈ tour.arcs, values (stripMark arc.name) = if chosen arc then 1 else 0

/-! ## Formulations forbid smaller circuits -/

section Soundness

variable [IsStrictOrderedRing K] (wellFormed : tour.WellFormed)
  (indicates : ∀ arc ∈ tour.arcs, values (Quantity.arc arc).key = if chosen arc then 1 else 0)
  (selects : tour.Selects chosen next) (injective : Function.Injective next)

include wellFormed indicates selects injective

/-- Potentials grow along chosen arcs, so these lead to the start. -/
theorem reaches_start_of_potentials {lifted : Bool}
    (holds : ∀ relation ∈ tour.potentialRelations lifted, relation.Holds values)
    (v : tour.Node) : ∃ k, next^[k] v = tour.start := by
  rw [holds_potentialRelations_iff] at holds
  have at_least_three : (3 : K) ≤ tour.size := by exact_mod_cast wellFormed.several
  have lifting_nonneg : ∀ arc : tour.Arc,
      (0 : K) ≤ if lifted then (tour.size - 3) * (tour.arc? arc.head arc.tail).elim 0 fun back =>
        values (Quantity.arc back).key else 0 := by
    intro arc
    split
    · apply mul_nonneg (sub_nonneg.mpr at_least_three)
      cases found : tour.arc? arc.head arc.tail with
      | none => exact le_refl _
      | some back =>
        rw [Option.elim_some, indicates back (wellFormed.arc?_eq_some_iff.mp found).1]
        exact ite_nonneg zero_le_one le_rfl
    · exact le_refl _
  have climbs : ∀ w, w ≠ tour.start → next w ≠ tour.start →
      values (Quantity.potential w).key + 1 ≤ values (Quantity.potential (next w)).key := by
    intro w tail_ne head_ne
    rcases selects.exists_leaving w with ⟨arc, mem, taken, rfl, head_eq⟩
    have bound := holds arc mem tail_ne (head_eq ▸ head_ne)
    have lifting := lifting_nonneg arc
    rw [indicates arc mem, if_pos taken] at bound
    rw [← head_eq]
    linarith
  apply reaches_start_of_rise (zero_lt_one' K) injective
    fun w => values (Quantity.potential w).key
  · intro w tail_ne head_ne
    exact (le_add_of_nonneg_right zero_le_one).trans (climbs w tail_ne head_ne)
  · rintro w tail_ne head_ne rfl
    exact climbs w tail_ne head_ne

/-- The single flow grows by one at each node, so chosen arcs lead to the start. -/
theorem reaches_start_of_flow
    (nonneg : ∀ arc ∈ tour.arcs, 0 ≤ values (Quantity.flow arc).key)
    (holds : ∀ relation ∈ tour.flowRelations, relation.Holds values)
    (v : tour.Node) : ∃ k, next^[k] v = tour.start := by
  rcases holds_flowRelations_iff.mp holds with ⟨capacity, balance⟩
  have vanishes : ∀ arc ∈ tour.arcs, chosen arc = false → values (Quantity.flow arc).key = 0 := by
    intro arc mem skipped
    have bound := capacity arc mem
    rw [indicates arc mem, skipped] at bound
    simp only [Bool.false_eq_true, if_false, mul_zero] at bound
    exact le_antisymm bound (nonneg arc mem)
  let outflow (w : tour.Node) : K :=
    ((tour.arcsOutOf w).map fun arc => values (Quantity.flow arc).key).sum
  have climbs : ∀ w, next w ≠ tour.start → outflow w + 1 = outflow (next w) := by
    intro w head_ne
    have gain := balance (next w)
    rw [net, if_neg head_ne, selects.sum_arcsInto_next wellFormed injective vanishes] at gain
    linarith
  apply reaches_start_of_rise (zero_lt_one' K) injective outflow
  · intro w _ head_ne
    exact (le_add_of_nonneg_right zero_le_one).trans (climbs w head_ne).le
  · rintro w _ head_ne rfl
    exact (climbs w head_ne).le

/-- The flow to a node ends there, so chosen arcs lead from that node to the start. -/
theorem reaches_start_of_flows
    (nonneg : ∀ arc ∈ tour.arcs, ∀ commodity ≠ tour.start,
      0 ≤ values (Quantity.flowTo commodity arc).key)
    (holds : ∀ relation ∈ tour.flowToRelations, relation.Holds values)
    (v : tour.Node) : ∃ k, next^[k] v = tour.start := by
  rcases holds_flowToRelations_iff.mp holds with ⟨capacity, balance⟩
  by_cases at_start : v = tour.start
  · exact ⟨0, at_start⟩
  · have vanishes : ∀ arc ∈ tour.arcs, chosen arc = false →
        values (Quantity.flowTo v arc).key = 0 := by
      intro arc mem skipped
      have bound := capacity arc mem v at_start
      rw [indicates arc mem, skipped] at bound
      exact le_antisymm bound (nonneg arc mem v at_start)
    let outflow (w : tour.Node) : K :=
      ((tour.arcsOutOf w).map fun arc => values (Quantity.flowTo v arc).key).sum
    have changes : ∀ w, next w ≠ tour.start →
        -outflow w + (if next w = v then 1 else 0) = -outflow (next w) := by
      intro w head_ne
      have gain := balance (next w) v at_start
      rw [net, if_neg head_ne, selects.sum_arcsInto_next wellFormed injective vanishes] at gain
      linarith
    apply reaches_start_of_rise (zero_lt_one' K) injective fun w => -outflow w
    · intro w _ head_ne
      rw [← changes w head_ne]
      apply le_add_of_nonneg_right
      exact ite_nonneg zero_le_one le_rfl
    · rintro w _ _ rfl
      have change := changes w at_start
      rw [if_pos rfl] at change
      exact change.le

end Soundness

/-! ## Positions as potentials and flows -/

section Positions

variable {n : Nat} {next : Fin n → Fin n} (circuit : IsCircuit next) (start : Fin n)

omit [LinearOrder K] in
theorem cast_position_last {v : Fin n} (closes : next v = start) :
    (circuit.position start v : K) = n - 1 := by
  have positive : 1 ≤ n := Nat.succ_le_of_lt (Nat.zero_lt_of_lt v.isLt)
  rw [circuit.position_last start closes, Nat.cast_sub positive, Nat.cast_one]

/-- Positions satisfy the lifted relations between potentials. -/
theorem position_rise_le [IsStrictOrderedRing K] (several : 3 ≤ n) {tail head : Fin n}
    (tail_ne : tail ≠ start) (head_ne : head ≠ start) :
    (circuit.position start tail : K) - circuit.position start head +
      (n - 1) * (if head = next tail then 1 else 0) +
        (n - 3) * (if next head = tail then 1 else 0) ≤ n - 2 := by
  by_cases forth : head = next tail
  · -- The position grows by one, and no step leads back.
    have no_return : next head ≠ tail := by
      rw [forth]
      exact circuit.next_next_ne several tail
    have step : (circuit.position start head : K) = circuit.position start tail + 1 := by
      rw [forth, circuit.position_next start (forth ▸ head_ne)]
      push_cast
      rfl
    rw [if_pos forth, if_neg no_return, step]
    linarith
  · rw [if_neg forth]
    by_cases back : next head = tail
    · have step : (circuit.position start tail : K) = circuit.position start head + 1 := by
        rw [← back, circuit.position_next start (back ▸ tail_ne)]
        push_cast
        rfl
      rw [if_pos back, step]
      linarith
    · have tail_le : (circuit.position start tail : K) + 1 ≤ n := by
        exact_mod_cast circuit.position_lt start tail
      have head_ge : (1 : K) ≤ circuit.position start head := by
        exact_mod_cast circuit.position_pos start head_ne
      rw [if_neg back]
      linarith

/-- Only the last arc carries as much as there are other nodes. -/
theorem position_le_capacity [IsStrictOrderedRing K] (v : Fin n) :
    (circuit.position start v : K) ≤ if next v = start then (n : K) - 1 else n - 2 := by
  split
  · next closes => exact (cast_position_last circuit start closes).le
  · next open_end =>
      have step := circuit.position_next start open_end
      have bound := circuit.position_lt start (next v)
      have early : (circuit.position start v : K) + 2 ≤ n := by
        exact_mod_cast (by omega : circuit.position start v + 2 ≤ n)
      linarith

omit [LinearOrder K] in
theorem position_sub_next (v : Fin n) :
    (circuit.position start v : K) - circuit.position start (next v) =
      if next v = start then (n : K) - 1 else -1 := by
  split
  · next closes =>
      rw [cast_position_last circuit start closes, closes, circuit.position_start, Nat.cast_zero,
        sub_zero]
  · next open_end =>
      rw [circuit.position_next start open_end, Nat.cast_add, Nat.cast_one, sub_add_cancel_left]

omit [LinearOrder K] in
/-- What passes the nodes before a given one arrives there, and starts at the start. -/
theorem passing_sub_next {commodity : Fin n} (other : commodity ≠ start) (v : Fin n) :
    ((if circuit.position start v < circuit.position start commodity then 1 else 0) -
      if circuit.position start (next v) < circuit.position start commodity then 1 else 0 : K) =
        if next v = commodity then 1 else if next v = start then -1 else 0 := by
  by_cases closes : next v = start
  · have late : ¬ circuit.position start v < circuit.position start commodity := by
      have bound := circuit.position_lt start commodity
      rw [circuit.position_last start closes]
      omega
    rw [if_neg late, closes, circuit.position_start, if_pos (circuit.position_pos start other),
      if_neg other.symm, if_pos rfl, zero_sub]
  · rw [if_neg closes, circuit.position_next start closes]
    by_cases arrives : next v = commodity
    · have step := circuit.position_next start closes
      rw [arrives] at step
      rw [if_pos arrives, if_pos (by omega), if_neg (by omega), sub_zero]
    · have differ : circuit.position start v + 1 ≠ circuit.position start commodity := by
        rw [← circuit.position_next start closes]
        exact fun same => arrives (circuit.position_injective start same)
      have same_iff : circuit.position start v < circuit.position start commodity ↔
          circuit.position start v + 1 < circuit.position start commodity := by
        omega
      rw [if_neg arrives]
      simp only [same_iff, sub_self]

end Positions

/-! ## Round trips satisfy all formulations -/

section Completeness

/-- What a round trip makes of each quantity. Potentials and the single flow count the
nodes that were visited, and the flow to a node passes those before it. -/
def tripAmount (circuit : IsCircuit next) (chosen : tour.Arc → Bool) :
    tour.Quantity → K
  | .arc link => if chosen link then 1 else 0
  | .pair ends => uses next ends
  | .potential node => circuit.position tour.start node - 1
  | .flow link => if chosen link then circuit.position tour.start link.tail else 0
  | .flowTo commodity link =>
    if chosen link then
      if circuit.position tour.start link.tail < circuit.position tour.start commodity then 1 else 0
    else 0

/-- Variables have the values that a round trip gives to their quantities. -/
def ReadsTrip (values : String → K) (formulation : Formulation) (circuit : IsCircuit next)
    (chosen : tour.Arc → Bool) : Prop :=
  ∀ quantity ∈ tour.quantities formulation, values quantity.key = tripAmount circuit chosen quantity

variable {formulation : Formulation} {circuit : IsCircuit next}

omit [LinearOrder K] in
theorem ReadsTrip.arc_eq (reads : ReadsTrip values formulation circuit chosen)
    {arc : tour.Arc} (mem : arc ∈ tour.arcs) :
    values (Quantity.arc arc).key = if chosen arc then 1 else 0 :=
  reads (.arc arc) (arc_mem_quantities mem)

section Assigned

variable (reads : ReadsTrip values formulation circuit chosen) (wellFormed : tour.WellFormed)
  (selects : tour.Selects chosen next)
include reads wellFormed selects

theorem ReadsTrip.holds_assignment : ∀ relation ∈ tour.assignment, relation.Holds values := by
  rw [holds_assignment_iff]
  intro node
  rcases selects.exists_amounts wellFormed circuit.injective (fun _ => (1 : K))
    (fun arc mem => reads.arc_eq mem) node with ⟨_, _, into, outOf⟩
  exact ⟨into, outOf⟩

omit [LinearOrder K] in
theorem ReadsTrip.elim_arc?_eq (tail head : tour.Node) :
    ((tour.arc? tail head).elim 0 fun arc => values (Quantity.arc arc).key) =
      if next tail = head then 1 else 0 := by
  cases found : tour.arc? tail head with
  | none =>
    rw [Option.elim_none, if_neg]
    rintro rfl
    rcases selects.along tail with ⟨arc, mem, tail_eq, head_eq⟩
    rw [wellFormed.arc?_eq_some_iff.mpr ⟨mem, tail_eq, head_eq⟩] at found
    cases found
  | some arc =>
    rcases wellFormed.arc?_eq_some_iff.mp found with ⟨mem, rfl, rfl⟩
    rw [Option.elim_some, reads.arc_eq mem]
    simp only [selects.chosen_iff arc mem, eq_comm]

theorem ReadsTrip.holds_pairRelations : ∀ relation ∈ tour.pairRelations, relation.Holds values := by
  rw [holds_pairRelations_iff]
  intro pair mem
  rw [reads.elim_arc?_eq wellFormed selects, reads.elim_arc?_eq wellFormed selects,
    reads _ (pair_mem_quantities mem), tripAmount, uses]
  push_cast
  rfl

end Assigned

variable [IsStrictOrderedRing K]

theorem ReadsTrip.holds_potentialRelations
    (reads : ReadsTrip values .potentials circuit chosen)
    (wellFormed : tour.WellFormed) (selects : tour.Selects chosen next) (lifted : Bool) :
    ∀ relation ∈ tour.potentialRelations lifted, relation.Holds values := by
  rw [holds_potentialRelations_iff]
  intro arc mem tail_ne head_ne
  have several : (3 : K) ≤ tour.size := by exact_mod_cast wellFormed.several
  have lifting_le : (if lifted then (tour.size - 3) * (tour.arc? arc.head arc.tail).elim 0
      fun back => values (Quantity.arc back).key else 0) ≤
        ((tour.size : K) - 3) * (if next arc.head = arc.tail then 1 else 0) := by
    rw [reads.elim_arc?_eq wellFormed selects]
    cases lifted with
    | true => exact le_refl _
    | false =>
      apply mul_nonneg (sub_nonneg.mpr several)
      exact ite_nonneg zero_le_one le_rfl
  have rise := position_rise_le (K := K) circuit tour.start wellFormed.several tail_ne head_ne
  rw [reads _ (own_mem_quantities (potential_mem_own tail_ne)),
    reads _ (own_mem_quantities (potential_mem_own head_ne)), reads.arc_eq mem]
  simp only [tripAmount, selects.chosen_iff arc mem]
  linarith

theorem ReadsTrip.holds_flowRelations (reads : ReadsTrip values .singleFlow circuit chosen)
    (wellFormed : tour.WellFormed) (selects : tour.Selects chosen next) :
    ∀ relation ∈ tour.flowRelations, relation.Holds values := by
  have flow_eq : ∀ arc ∈ tour.arcs, values (Quantity.flow arc).key =
      if chosen arc then (circuit.position tour.start arc.tail : K) else 0 :=
    fun arc mem => reads _ (own_mem_quantities (flow_mem_own mem))
  rw [holds_flowRelations_iff]
  constructor
  · intro arc mem
    rw [flow_eq arc mem, reads.arc_eq mem]
    by_cases taken : chosen arc = true
    · rw [if_pos taken, if_pos taken, mul_one, (selects.chosen_iff arc mem).mp taken]
      exact position_le_capacity circuit tour.start arc.tail
    · rw [if_neg taken, if_neg taken, mul_zero]
  · intro node
    rcases selects.exists_amounts wellFormed circuit.injective
      (fun v => (circuit.position tour.start v : K)) flow_eq node with ⟨before, rfl, into, outOf⟩
    rw [net, into, outOf]
    exact position_sub_next circuit tour.start before

theorem ReadsTrip.holds_flowToRelations (reads : ReadsTrip values .manyFlows circuit chosen)
    (wellFormed : tour.WellFormed) (selects : tour.Selects chosen next) :
    ∀ relation ∈ tour.flowToRelations, relation.Holds values := by
  have flow_eq : ∀ arc ∈ tour.arcs, ∀ commodity ≠ tour.start,
      values (Quantity.flowTo commodity arc).key = if chosen arc then
        if circuit.position tour.start arc.tail < circuit.position tour.start commodity then (1 : K)
        else 0 else 0 :=
    fun arc mem commodity other =>
      reads _ (own_mem_quantities (flowTo_mem_own mem other))
  rw [holds_flowToRelations_iff]
  constructor
  · intro arc mem commodity other
    rw [flow_eq arc mem commodity other, reads.arc_eq mem]
    split
    · exact ite_le_one le_rfl zero_le_one
    · exact le_rfl
  · intro node commodity other
    rcases selects.exists_amounts wellFormed circuit.injective (fun v =>
      if circuit.position tour.start v < circuit.position tour.start commodity then (1 : K) else 0)
      (fun arc mem => flow_eq arc mem commodity other) node with
        ⟨before, rfl, into, outOf⟩
    rw [net, into, outOf]
    exact passing_sub_next circuit tour.start other before

theorem tripAmount_nonneg (circuit : IsCircuit next) {quantity : tour.Quantity}
    (mem : quantity ∈ tour.ownQuantities formulation) :
    (0 : K) ≤ tripAmount circuit chosen quantity := by
  cases formulation with
  | potentials =>
    rcases List.mem_map.mp mem with ⟨node, other, rfl⟩
    have position_pos := circuit.position_pos tour.start (mem_commodities.mp other)
    exact sub_nonneg.mpr (by exact_mod_cast position_pos)
  | singleFlow =>
    rcases List.mem_map.mp mem with ⟨arc, _, rfl⟩
    rw [tripAmount]
    split
    · exact Nat.cast_nonneg _
    · exact le_refl _
  | manyFlows =>
    rcases List.mem_flatMap.mp mem with ⟨arc, _, inside⟩
    rcases List.mem_map.mp inside with ⟨commodity, _, rfl⟩
    rw [tripAmount]
    split
    · exact ite_nonneg zero_le_one le_rfl
    · exact le_refl _

theorem ReadsTrip.admits_vars (reads : ReadsTrip values formulation circuit chosen)
    (wellFormed : tour.WellFormed) :
    ∀ v ∈ tour.vars formulation, v.Admits (values (stripMark v.name)) := by
  rw [admits_vars_iff]
  refine ⟨?_, ?_, ?_⟩
  · intro arc mem
    rw [reads.arc_eq mem]
    split
    · exact Or.inr rfl
    · exact Or.inl rfl
  · intro quantity mem
    rw [reads quantity (own_mem_quantities mem)]
    exact tripAmount_nonneg circuit mem
  · intro pair mem
    rw [reads _ (pair_mem_quantities mem), tripAmount]
    have at_most_one := uses_le_one circuit wellFormed.several pair
    exact ⟨Nat.cast_nonneg _, by exact_mod_cast at_most_one⟩

end Completeness

/-! ## Formulations and round trips -/

/-- A choice of arcs extends to values that satisfy all relations of a formulation and the bounds
that count. -/
def Admits (K : Type) [Field K] [LinearOrder K] (tour : Tour) (formulation : Formulation)
    (lifted : Bool) (counts : Variable → Bool) (chosen : tour.Arc → Bool) : Prop :=
  ∃ values : String → K, tour.Indicates values chosen ∧
    (∀ v ∈ tour.vars formulation, counts v = true → v.Admits (values (stripMark v.name))) ∧
    ∀ relation ∈ tour.relations formulation lifted, relation.Holds values

/-- A choice of arcs is admitted if all bounds count. -/
abbrev AdmitsChoice (K : Type) [Field K] [LinearOrder K] (tour : Tour) (formulation : Formulation)
    (lifted : Bool) (chosen : tour.Arc → Bool) : Prop :=
  Admits K tour formulation lifted (fun _ => true) chosen

/-- A choice of arcs is admitted if the bounds of variables count that are declared with them. -/
abbrev AdmitsWritten (K : Type) [Field K] [LinearOrder K] (tour : Tour) (formulation : Formulation)
    (lifted : Bool) (chosen : tour.Arc → Bool) : Prop :=
  Admits K tour formulation lifted (Program.isDeclaredHere []) chosen

variable {formulation : Formulation} {lifted : Bool} [IsStrictOrderedRing K]

/-- The relations of a formulation forbid smaller circuits, if no flow is negative. -/
theorem formRoundTrip_of_relations (wellFormed : tour.WellFormed)
    (indicates : tour.Indicates values chosen)
    (nonneg : formulation ≠ .potentials →
      ∀ quantity ∈ tour.ownQuantities formulation, 0 ≤ values quantity.key)
    (holds : ∀ relation ∈ tour.relations formulation lifted, relation.Holds values) :
    tour.FormRoundTrip chosen := by
  rw [relations, List.forall_mem_append, List.forall_mem_append] at holds
  rcases holds with ⟨⟨assigns, forbids⟩, _⟩
  rw [holds_assignment_iff] at assigns
  rcases wellFormed.exists_selects indicates (fun node => (assigns node).1)
    (fun node => (assigns node).2) with ⟨next, injective, selects⟩
  have reaches : ∀ v, ∃ k, next^[k] v = tour.start := by
    cases formulation with
    | potentials => exact reaches_start_of_potentials wellFormed indicates selects injective forbids
    | singleFlow =>
      exact reaches_start_of_flow wellFormed indicates selects injective
        (fun arc mem => nonneg (by decide) _ (flow_mem_own mem)) forbids
    | manyFlows =>
      exact reaches_start_of_flows wellFormed indicates selects injective
        (fun arc mem commodity other => nonneg (by decide) _ (flowTo_mem_own mem other)) forbids
  exact ⟨next, ⟨isCircuit_of_reaching injective reaches, selects.along⟩, selects.chosen_iff⟩

/-- Potentials need no bounds; flows need theirs, which are written if no label of a node has a
bracket. -/
def BoundsWritten (tour : Tour) (formulation : Formulation) : Prop :=
  formulation = .potentials ∨ ∀ node, '[' ∉ (tour.label node).toList

theorem formRoundTrip_of_admitsWritten (wellFormed : tour.WellFormed)
    (plain : Program.PlainStem tour.stem) (bounded : tour.BoundsWritten formulation)
    (admits : AdmitsWritten K tour formulation lifted chosen) : tour.FormRoundTrip chosen := by
  rcases admits with ⟨values, indicates, bounds, holds⟩
  refine formRoundTrip_of_relations wellFormed indicates (fun flows => ?_) holds
  have declared := declared_own plain (bounded.resolve_left flows) formulation
  have within : ∀ v ∈ formulation.vars tour, v.Admits (values (stripMark v.name)) :=
    fun v mem => bounds v (List.mem_append_left _ (List.mem_append_right _ mem))
      (declared v mem)
  rw [vars_eq_map_ownQuantities, List.forall_mem_map] at within
  exact fun quantity mem => Variable.admits_nonnegative_iff.mp (within quantity mem)

/-- Round trips are admitted, whatever bounds count. -/
theorem admits_of_formRoundTrip (wellFormed : tour.WellFormed)
    (differ : tour.NamesDiffer formulation) (forms : tour.FormRoundTrip chosen)
    (counts : Variable → Bool) : Admits K tour formulation lifted counts chosen := by
  rcases forms with ⟨next, ⟨circuit, along⟩, chosen_iff⟩
  have selects : tour.Selects chosen next := ⟨along, chosen_iff⟩
  have assigned : ∃ values : String → K, ReadsTrip values formulation circuit chosen :=
    differ.exists_values (tripAmount circuit chosen)
  rcases assigned with ⟨values, reads⟩
  refine ⟨values, fun arc mem => reads.arc_eq mem,
    fun v mem _ => reads.admits_vars wellFormed v mem, ?_⟩
  rw [relations, List.forall_mem_append, List.forall_mem_append]
  refine ⟨⟨reads.holds_assignment wellFormed selects, ?_⟩,
    reads.holds_pairRelations wellFormed selects⟩
  cases formulation with
  | potentials => exact reads.holds_potentialRelations wellFormed selects lifted
  | singleFlow => exact reads.holds_flowRelations wellFormed selects
  | manyFlows => exact reads.holds_flowToRelations wellFormed selects

theorem admitsWritten_iff_formRoundTrip (wellFormed : tour.WellFormed)
    (plain : Program.PlainStem tour.stem) (differ : tour.NamesDiffer formulation)
    (bounded : tour.BoundsWritten formulation) :
    AdmitsWritten K tour formulation lifted chosen ↔ tour.FormRoundTrip chosen :=
  ⟨formRoundTrip_of_admitsWritten wellFormed plain bounded,
    fun forms => admits_of_formRoundTrip wellFormed differ forms _⟩

/-- Every formulation admits a choice of arcs that form one circuit through all nodes, also if
the bounds of all variables count. If the bounds of its flows are written, it admits no other
choice, so all such formulations admit the same choices. The program that is written admits what
its formulation admits, as long as floats can count the nodes. -/
theorem formulations_admit_round_trips (K : Type) [Field K] [LinearOrder K]
    [IsStrictOrderedRing K] (tour : Tour) (wellFormed : tour.WellFormed)
    (plain : Program.PlainStem tour.stem) :
    (∀ formulation lifted, tour.NamesDiffer formulation →
      (∀ chosen, tour.FormRoundTrip chosen → AdmitsChoice K tour formulation lifted chosen) ∧
      (tour.BoundsWritten formulation → ∀ chosen,
        AdmitsWritten K tour formulation lifted chosen ↔ tour.FormRoundTrip chosen) ∧
      (tour.size ≤ 2 ^ 53 → ∃ program, tour.program formulation lifted = .ok program ∧
        ∀ chosen, (∃ values : String → K, tour.Indicates values chosen ∧
          program.HoldsWritten values) ↔ AdmitsWritten K tour formulation lifted chosen)) ∧
    ∀ first second lifted lifted', tour.NamesDiffer first → tour.NamesDiffer second →
      tour.BoundsWritten first → tour.BoundsWritten second → ∀ chosen,
        AdmitsWritten K tour first lifted chosen ↔ AdmitsWritten K tour second lifted' chosen := by
  constructor
  · intro formulation lifted differ
    refine ⟨fun chosen forms => admits_of_formRoundTrip wellFormed differ forms _,
      fun bounded chosen => admitsWritten_iff_formRoundTrip wellFormed plain differ bounded, ?_⟩
    intro small
    rcases wellFormed.exists_program (K := K) small differ lifted with ⟨program, made, states⟩
    refine ⟨program, made, ?_⟩
    intro chosen
    simp only [states.holdsWritten_iff]
    rfl
  · intro first second lifted lifted' first_differ second_differ first_bounded second_bounded chosen
    rw [admitsWritten_iff_formRoundTrip wellFormed plain first_differ first_bounded,
      admitsWritten_iff_formRoundTrip wellFormed plain second_differ second_bounded]

omit [Field K] [LinearOrder K] [IsStrictOrderedRing K] in
theorem not_formRoundTrip_of_bothWays (forth back : tour.Arc) (several : 2 < tour.size)
    (forth_mem : forth ∈ tour.arcs) (back_mem : back ∈ tour.arcs)
    (returns : back.tail = forth.head ∧ back.head = forth.tail)
    (taken : chosen forth = true ∧ chosen back = true) : ¬tour.FormRoundTrip chosen := by
  rintro ⟨next, trip, chosen_iff⟩
  apply trip.circuit.next_next_ne several forth.tail
  rw [← (chosen_iff forth forth_mem).mp taken.1, ← returns.1,
    ← (chosen_iff back back_mem).mp taken.2, returns.2]

/-- Four nodes in a ring, with arcs back on two sides. -/
def ring : Tour where
  arcVariable := "x"
  stem := "_t_"
  nodes := #[.int 1, .int 2, .int 3, .int 4]
  arcs := [⟨0, 1, "x[1,2]"⟩, ⟨1, 2, "x[2,3]"⟩, ⟨2, 3, "x[3,4]"⟩, ⟨3, 0, "x[4,1]"⟩,
    ⟨1, 0, "x[2,1]"⟩, ⟨3, 2, "x[4,3]"⟩]
  start := 1

def nextInRing (v : Fin ring.size) : Fin ring.size := Fin.ofNat 4 (v.val + 1)

/-- The arcs round the ring. -/
def aroundRing (arc : TourArc ring.size) : Bool := arc.head = nextInRing arc.tail

/-- The arcs forth and back on two sides. -/
def bothSides (arc : TourArc ring.size) : Bool := arc.head.val / 2 = arc.tail.val / 2

theorem wellFormed_ring : ring.WellFormed where
  several := by decide
  simple := by decide
  loopless := by decide
  entered := by decide
  exited := by decide

theorem namesDiffer_ring (formulation : Formulation) : ring.NamesDiffer formulation := by
  unfold NamesDiffer
  cases formulation <;> decide +kernel

theorem formRoundTrip_aroundRing : ring.FormRoundTrip aroundRing := by
  have reached : ∀ a b, nextInRing^[4 + b.val - a.val] a = b := by decide
  exact ⟨nextInRing, ⟨fun a b => ⟨_, reached a b⟩, by decide⟩, by decide⟩

theorem not_formRoundTrip_bothSides : ¬ ring.FormRoundTrip bothSides :=
  not_formRoundTrip_of_bothWays ⟨(0 : Fin 4), (1 : Fin 4), "x[1,2]"⟩
    ⟨(1 : Fin 4), (0 : Fin 4), "x[2,1]"⟩ (by decide) (by decide) (by decide) ⟨rfl, rfl⟩ ⟨rfl, rfl⟩

theorem plainStem_ring : Program.PlainStem ring.stem := by
  unfold Program.PlainStem
  decide

theorem formulations_admit_round_trips_ring :
    ring.WellFormed ∧ Program.PlainStem ring.stem ∧
      (∀ formulation, ring.NamesDiffer formulation ∧ ring.BoundsWritten formulation) ∧
      ∀ formulation lifted, AdmitsWritten ℚ ring formulation lifted aroundRing ∧
        ¬ AdmitsWritten ℚ ring formulation lifted bothSides := by
  have bounded (formulation : Formulation) : ring.BoundsWritten formulation :=
    .inr (by decide)
  refine ⟨wellFormed_ring, plainStem_ring, fun formulation =>
    ⟨namesDiffer_ring formulation, bounded formulation⟩, ?_⟩
  intro formulation lifted
  have admits_iff := ((formulations_admit_round_trips ℚ ring wellFormed_ring plainStem_ring).1
    formulation lifted (namesDiffer_ring formulation)).2.1 (bounded formulation)
  rw [admits_iff, admits_iff]
  exact ⟨formRoundTrip_aroundRing, not_formRoundTrip_bothSides⟩

/-- Four nodes whose labels have brackets, with arcs both ways between two and two of them. -/
def bracketed : Tour where
  arcVariable := "x"
  stem := "_atsp_scf0_"
  nodes := #[.str "a[1]", .str "b[1]", .str "c[1]", .str "d[1]"]
  arcs := [⟨0, 1, "x['a[1]','b[1]']"⟩, ⟨1, 0, "x['b[1]','a[1]']"⟩, ⟨2, 3, "x['c[1]','d[1]']"⟩,
    ⟨3, 2, "x['d[1]','c[1]']"⟩, ⟨0, 2, "x['a[1]','c[1]']"⟩, ⟨0, 3, "x['a[1]','d[1]']"⟩]
  start := 0

/-- The arcs forth and back between two and two nodes. -/
def twoCircuits (arc : TourArc bracketed.size) : Bool := arc.head.val / 2 = arc.tail.val / 2

/-- A flow that is negative where it leaves the first circuit. -/
def flowBackwards (name : String) : ℚ :=
  if name ∈ ["_atsp_scf0_y_a[1]_c[1]", "_atsp_scf0_y_a[1]_d[1]"] then -1
  else if name ∈ ["_atsp_scf0_c_a[1]_b[1]", "_atsp_scf0_c_c[1]_d[1]"] then 2
  else if name ∈ ["x['a[1]','b[1]']", "x['b[1]','a[1]']", "x['c[1]','d[1]']", "x['d[1]','c[1]']",
    "_atsp_scf0_y_b[1]_a[1]"] then 1
  else 0

instance (values : String → ℚ) (relation : Relation Int) : Decidable (relation.Holds values) :=
  match relation with
  | ⟨left, .le, right⟩ => inferInstanceAs (Decidable (left.value values ≤ right.value values))
  | ⟨left, .ge, right⟩ => inferInstanceAs (Decidable (right.value values ≤ left.value values))
  | ⟨left, .eq, right⟩ => inferInstanceAs (Decidable (left.value values = right.value values))

/-- Two circuits satisfy all that is written for a single flow through nodes whose labels have
brackets. -/
theorem two_circuits_admitted_bracketed :
    bracketed.WellFormed ∧ bracketed.NamesDiffer .singleFlow ∧
      (∃ program, bracketed.program .singleFlow false = .ok program ∧
        bracketed.Indicates flowBackwards twoCircuits ∧ program.HoldsWritten flowBackwards) ∧
      ¬bracketed.FormRoundTrip twoCircuits := by
  have wellFormed : bracketed.WellFormed :=
    ⟨by decide, by decide, by decide, by decide, by decide⟩
  have differ : bracketed.NamesDiffer .singleFlow := by
    unfold NamesDiffer
    decide +kernel
  obtain ⟨program, made, states⟩ := wellFormed.exists_program (K := ℚ) (by decide) differ false
  refine ⟨wellFormed, differ, ⟨program, made, by unfold Indicates; decide +kernel, ?_⟩, ?_⟩
  · rw [states.holdsWritten_iff]
    have none_declared : ∀ v ∈ bracketed.vars .singleFlow,
        Program.isDeclaredHere [] v = false := by
      decide +kernel
    refine ⟨fun v mem declared => ?_, by decide +kernel⟩
    cases (none_declared v mem).symm.trans declared
  · exact not_formRoundTrip_of_bothWays ⟨(0 : Fin 4), (1 : Fin 4), "x['a[1]','b[1]']"⟩
      ⟨(1 : Fin 4), (0 : Fin 4), "x['b[1]','a[1]']"⟩ (by decide) (by decide) (by decide)
      ⟨rfl, rfl⟩ ⟨rfl, rfl⟩

end ModelWeaver.Tour
