import ModelWeaver.Proofs.Generator.TourDecoding
import ModelWeaver.Proofs.Generator.TourFormulations

/-!
# Tours of two nodes

The round trip through two nodes goes from one to the other and back, so it uses their pair
twice. The variable of a pair is one at most, so no formulation admits this round trip,
although a graph of two nodes is accepted. From three nodes on, no round trip is lost. The bound
of a pair is only written if its variable is declared, that is, if no label has a bracket.
-/

namespace ModelWeaver.Tour

open Model

variable {tour : Tour} {chosen : tour.Arc → Bool}
  {next : tour.Node → tour.Node}

theorem FormRoundTrip.wellFormed (forms : tour.FormRoundTrip chosen) (several : 3 ≤ tour.size)
    (simple : (tour.arcs.map fun arc => (arc.tail, arc.head)).Nodup)
    (loopless : ∀ arc ∈ tour.arcs, arc.tail ≠ arc.head) : tour.WellFormed := by
  rcases forms with ⟨next, trip, _⟩
  refine ⟨several, simple, loopless, ?_, ?_⟩
  · intro node
    rcases Finite.injective_iff_surjective.mp trip.circuit.injective node with ⟨before, rfl⟩
    rcases trip.along before with ⟨arc, mem, _, head_eq⟩
    exact List.ne_nil_of_mem (mem_arcsInto.mpr ⟨mem, head_eq⟩)
  · intro node
    rcases trip.along node with ⟨arc, mem, tail_eq, _⟩
    exact List.ne_nil_of_mem (mem_arcsOutOf.mpr ⟨mem, tail_eq⟩)

/-! ## Forth and back -/

section TwoNodes

theorem next_next_eq {n : Nat} {next : Fin n → Fin n} (circuit : IsCircuit next) (two : n = 2)
    (v : Fin n) : next (next v) = v := by
  have several : 1 < n := two ▸ Nat.one_lt_two
  have leaves := circuit.next_ne several v
  have returns := circuit.next_ne several (next v)
  rw [Ne, Fin.ext_iff] at leaves returns
  apply Fin.ext
  omega

theorem Selects.exists_arc?_next (selects : tour.Selects chosen next) (v : tour.Node) :
    ∃ arc ∈ tour.arcs, tour.arc? v (next v) = some arc ∧ arc.tail = v ∧ chosen arc = true := by
  cases found : tour.arc? v (next v) with
  | none =>
    rcases selects.along v with ⟨arc, mem, tail_eq, head_eq⟩
    have missing := List.find?_eq_none.mp found arc mem
    rw [Bool.and_eq_true, decide_eq_true_iff, decide_eq_true_iff] at missing
    exact absurd ⟨tail_eq, head_eq⟩ missing
  | some arc =>
    have ends := List.find?_some found
    rw [Bool.and_eq_true, decide_eq_true_iff, decide_eq_true_iff] at ends
    have mem := List.mem_of_find?_eq_some found
    refine ⟨arc, mem, rfl, ends.1, (selects.chosen_iff arc mem).mpr ?_⟩
    rw [ends.1, ends.2]

theorem exists_pair_both_ways (trip : tour.IsRoundTrip next) (two : tour.size = 2) :
    ∃ pair ∈ tour.pairs, next pair.1 = pair.2 ∧ next pair.2 = pair.1 := by
  rcases trip.along tour.start with ⟨arc, mem, tail_eq, head_eq⟩
  refine ⟨sortedPair arc.tail arc.head, tour.mem_pairs_iff.mpr ⟨arc, mem, rfl⟩, ?_⟩
  have forth : next arc.tail = arc.head := by rw [tail_eq, head_eq]
  have back : next arc.head = arc.tail := by rw [← forth, next_next_eq trip.circuit two]
  rw [sortedPair]
  split
  · exact ⟨forth, back⟩
  · exact ⟨back, forth⟩

/-- The relation of a pair with arcs in both directions. -/
def bothWays (pair : tour.Node × tour.Node) (forth back : tour.Arc) :
    Relation Int :=
  ⟨.ofNames [forth.name, back.name], .eq, .single (tour.pairName pair)⟩

section BothWays

variable {pair : tour.Node × tour.Node} {forth back : tour.Arc}

theorem bothWays_mem_pairRelations (mem : pair ∈ tour.pairs)
    (found : tour.arc? pair.1 pair.2 = some forth)
    (found' : tour.arc? pair.2 pair.1 = some back) :
    bothWays pair forth back ∈ tour.pairRelations := by
  refine List.mem_map.mpr ⟨pair, mem, ?_⟩
  rw [found, found']
  rfl

theorem legible_bothWays {formulation : Formulation} (differ : tour.NamesDiffer formulation)
    (mem : pair ∈ tour.pairs) (forth_mem : forth ∈ tour.arcs) (back_mem : back ∈ tour.arcs)
    (apart : forth ≠ back) : (bothWays pair forth back).Legible := by
  apply Relation.legible_of_linear (Operand.linear_ofNames _) (Operand.linear_single _)
  · exact List.append_ne_nil_of_right_ne_nil _ (List.cons_ne_nil _ _)
  · apply differ.nodup_keys [.arc forth, .arc back, .pair pair]
    · simp [apart]
    · simp [arc_mem_quantities forth_mem, arc_mem_quantities back_mem, pair_mem_quantities mem]

theorem holds_bothWays_iff {K : Type} [Field K] [LinearOrder K] {values : String → K} :
    (bothWays pair forth back).Holds values ↔
      values (Quantity.arc forth).key + values (Quantity.arc back).key =
        values (Quantity.pair pair).key := by
  rw [bothWays, Relation.Holds, Sense.Holds, Operand.value_ofNames, Operand.value_single]
  simp [Quantity.key, Quantity.name]

end BothWays

variable {K : Type} [Field K] [LinearOrder K] [IsStrictOrderedRing K]
  {formulation : Formulation} {lifted : Bool}

section Formed

variable (forms : tour.FormRoundTrip chosen)
include forms

variable {values : String → K}

omit [IsStrictOrderedRing K] in
/-- Where both arcs between two nodes are chosen, the variable of their pair is two. -/
theorem FormRoundTrip.exists_pair_eq_two (two : tour.size = 2)
    (differ : tour.NamesDiffer formulation)
    (indicates : tour.Indicates values chosen)
    (holds : ∀ relation ∈ tour.pairRelations, relation.Legible → relation.Holds values) :
    ∃ pair ∈ tour.pairs, values (Quantity.pair pair).key = 2 := by
  rcases forms with ⟨next, trip, chosen_iff⟩
  have selects : tour.Selects chosen next := ⟨trip.along, chosen_iff⟩
  rcases exists_pair_both_ways trip two with ⟨pair, mem, next_first, next_second⟩
  rcases selects.exists_arc?_next pair.1 with ⟨forth, forth_mem, found, forth_tail, forth_taken⟩
  rcases selects.exists_arc?_next pair.2 with ⟨back, back_mem, found', back_tail, back_taken⟩
  rw [next_first] at found
  rw [next_second] at found'
  have apart : forth ≠ back := by
    rintro rfl
    apply trip.circuit.next_ne (two ▸ Nat.one_lt_two) pair.1
    rw [next_first, ← back_tail, forth_tail]
  have forth_eq : values (Quantity.arc forth).key = 1 :=
    (indicates forth forth_mem).trans (if_pos forth_taken)
  have back_eq : values (Quantity.arc back).key = 1 :=
    (indicates back back_mem).trans (if_pos back_taken)
  have total := holds_bothWays_iff.mp (holds _ (bothWays_mem_pairRelations mem found found')
    (legible_bothWays differ mem forth_mem back_mem apart))
  refine ⟨pair, mem, ?_⟩
  rw [← total, forth_eq, back_eq, one_add_one_eq_two]

/-- No values satisfy the relations of a round trip through two nodes and the bounds of pairs, even
if only those relations count that can be stated exactly. -/
theorem FormRoundTrip.not_all_hold (two : tour.size = 2) (differ : tour.NamesDiffer formulation)
    (indicates : tour.Indicates values chosen)
    (bounds : ∀ v ∈ tour.pairVariables, v.Admits (values (stripMark v.name))) :
    ¬ ∀ relation ∈ tour.relations formulation lifted, relation.Legible →
      relation.Holds values := by
  intro holds
  rcases forms.exists_pair_eq_two two differ indicates fun relation mem =>
    holds relation (List.mem_append_right _ mem) with ⟨pair, mem, value_eq⟩
  have value_le :=
    (Variable.admits_unit_iff.mp (List.forall_mem_map.mp bounds pair mem)).2
  change values (Quantity.pair pair).key ≤ 1 at value_le
  rw [value_eq] at value_le
  exact absurd value_le (not_le_of_gt one_lt_two)

/-- The program that is made for two nodes does not admit their round trip either. -/
theorem FormRoundTrip.not_holds_program (two : tour.size = 2)
    (differ : tour.NamesDiffer formulation) {program : Program}
    (made : tour.program formulation lifted = .ok program)
    (indicates : tour.Indicates values chosen)
    (bounds : ∀ v ∈ program.vars, v ∈ tour.pairVariables → v.Admits (values (stripMark v.name))) :
    ¬ ∀ entry ∈ program.constraints, entry.2.Holds values := by
  intro holds
  rw [Tour.program] at made
  split at made
  · cases made
  · rcases Program.relations_hold_of_build made holds with ⟨vars_eq, stated⟩
    refine forms.not_all_hold two differ indicates (fun v mem => bounds v ?_ mem) stated
    rw [vars_eq, List.mem_toArray]
    exact List.mem_append_right _ mem

end Formed

end TwoNodes

/-! ## From three nodes on -/

/-- A round trip is admitted if and only if it goes through three or more nodes. This is also
what the program says, as long as floats can count the nodes, and it is what is written of it, if
no label of a node has a bracket. -/
theorem round_trips_admitted_iff (K : Type) [Field K] [LinearOrder K] [IsStrictOrderedRing K]
    {arcVariable stem : String} {nodes : Array Value} {arcs : List Value} {start : Option Value}
    {tour : Tour} (built : ofValues arcVariable stem nodes arcs start = .ok tour)
    (simple : (tour.arcs.map fun arc => (arc.tail, arc.head)).Nodup)
    (loopless : ∀ arc ∈ tour.arcs, arc.tail ≠ arc.head)
    {formulation : Formulation} (differ : tour.NamesDiffer formulation) (lifted : Bool)
    {chosen : tour.Arc → Bool} (forms : tour.FormRoundTrip chosen) :
    (AdmitsChoice K tour formulation lifted chosen ↔ 3 ≤ tour.size) ∧
    (Program.PlainStem tour.stem → (∀ node, '[' ∉ (tour.label node).toList) →
      (AdmitsWritten K tour formulation lifted chosen ↔ 3 ≤ tour.size)) ∧
    (tour.size ≤ 2 ^ 53 →
      (3 ≤ tour.size → ∃ program, tour.program formulation lifted = .ok program) ∧
      ∀ program, tour.program formulation lifted = .ok program →
        ((∃ values : String → K, tour.Indicates values chosen ∧ program.Holds values) ↔
          3 ≤ tour.size) ∧
        (Program.PlainStem tour.stem → (∀ node, '[' ∉ (tour.label node).toList) →
          ((∃ values : String → K, tour.Indicates values chosen ∧ program.HoldsWritten values) ↔
            3 ≤ tour.size))) := by
  have two_of_few : ¬ 3 ≤ tour.size → tour.size = 2 := by
    have := (yields_ofValues arcVariable stem nodes arcs start built).1
    omega
  have admits_iff {counts : Variable → Bool} (counted : ∀ v ∈ tour.pairVariables, counts v = true) :
      Admits K tour formulation lifted counts chosen ↔ 3 ≤ tour.size := by
    refine ⟨fun ⟨values, indicates, bounds, holds⟩ => ?_, fun several => admits_of_formRoundTrip
      (forms.wellFormed several simple loopless) differ forms counts⟩
    by_contra few
    exact forms.not_all_hold (two_of_few few) differ indicates
      (fun v mem => bounds v (List.mem_append_right _ mem) (counted v mem))
      fun relation mem _ => holds relation mem
  have choice_iff : AdmitsChoice K tour formulation lifted chosen ↔ 3 ≤ tour.size :=
    admits_iff fun _ _ => rfl
  refine ⟨choice_iff, fun plain bracketless => admits_iff (declared_pairs plain bracketless),
    fun small => ?_⟩
  by_cases several : 3 ≤ tour.size
  · have wellFormed := forms.wellFormed several simple loopless
    rcases wellFormed.exists_program (K := K) small differ lifted with ⟨program, made, states⟩
    refine ⟨fun _ => ⟨program, made⟩, ?_⟩
    intro other made'
    cases made.symm.trans made'
    constructor
    · rw [← choice_iff]
      simp only [states.holds_iff, Admits, true_imp_iff]
    · intro plain bracketless
      rw [← admits_iff (declared_pairs plain bracketless)]
      simp only [states.holdsWritten_iff, Admits]
  · refine ⟨fun enough => absurd enough several, fun program made => ⟨?_, ?_⟩⟩
    · refine iff_of_false ?_ several
      rintro ⟨values, indicates, holds⟩
      exact forms.not_holds_program (two_of_few several) differ made indicates
        (fun v mem _ => holds.1 v mem) holds.2
    · intro plain bracketless
      refine iff_of_false ?_ several
      rintro ⟨values, indicates, holds⟩
      exact forms.not_holds_program (two_of_few several) differ made indicates
        (fun v mem pair => holds.1 v mem (declared_pairs plain bracketless v pair)) holds.2

theorem round_trips_admitted_iff_ring :
    ofValues "x" "_t_" ring.nodes ring.arcPairs (some (.int 2)) = .ok ring ∧
    ring.FormRoundTrip aroundRing ∧ 3 ≤ ring.size ∧
    ∀ formulation lifted, ring.NamesDiffer formulation ∧
      AdmitsChoice ℚ ring formulation lifted aroundRing := by
  have built : ofValues "x" "_t_" ring.nodes ring.arcPairs (some (.int 2)) = .ok ring := by
    with_unfolding_all rfl
  have several : 3 ≤ ring.size := by decide
  refine ⟨built, formRoundTrip_aroundRing, several, ?_⟩
  intro formulation lifted
  have admits_iff := (round_trips_admitted_iff ℚ built wellFormed_ring.simple
    wellFormed_ring.loopless (namesDiffer_ring formulation) lifted formRoundTrip_aroundRing).1
  exact ⟨namesDiffer_ring formulation, admits_iff.mpr several⟩

/-- Two nodes with an arc each way. -/
def twoNodes : Tour where
  arcVariable := "x"
  stem := "_atsp_mtz0_"
  nodes := #[.int 1, .int 2]
  arcs := [⟨0, 1, "x[1,2]"⟩, ⟨1, 0, "x[2,1]"⟩]
  start := 0

def otherNode (v : Fin twoNodes.size) : Fin twoNodes.size := Fin.ofNat 2 (v.val + 1)

theorem formRoundTrip_twoNodes : twoNodes.FormRoundTrip fun _ => true := by
  have reached : ∀ a b, otherNode^[2 + b.val - a.val] a = b := by decide
  exact ⟨otherNode, ⟨fun a b => ⟨_, reached a b⟩, by decide⟩, by decide⟩

theorem namesDiffer_twoNodes (formulation : Formulation) : twoNodes.NamesDiffer formulation := by
  unfold NamesDiffer
  cases formulation <;> decide +kernel

theorem exists_program_twoNodes (formulation : Formulation) (lifted : Bool) :
    ∃ program, twoNodes.program formulation lifted = .ok program := by
  have succeeds : (twoNodes.program formulation lifted).isOk = true := by
    cases formulation <;> cases lifted <;> decide +kernel
  cases made : twoNodes.program formulation lifted with
  | ok program => exact ⟨program, rfl⟩
  | error failure =>
    rw [made] at succeeds
    cases succeeds

/-- The graph of two nodes is accepted and its program is written, but what is written does not
admit the only round trip. -/
theorem round_trip_lost_twoNodes :
    ofValues "x" "_atsp_mtz0_" #[.int 1, .int 2]
      [.tuple [.int 1, .int 2], .tuple [.int 2, .int 1]] none = .ok twoNodes ∧
    (twoNodes.arcs.map fun arc => (arc.tail, arc.head)).Nodup ∧
    (∀ arc ∈ twoNodes.arcs, arc.tail ≠ arc.head) ∧
    (twoNodes.FormRoundTrip fun _ => true) ∧
    ∀ formulation lifted, twoNodes.NamesDiffer formulation ∧
      ¬ AdmitsWritten ℚ twoNodes formulation lifted (fun _ => true) ∧
      ∃ program, twoNodes.program formulation lifted = .ok program ∧
        ∀ values : String → ℚ, (∀ arc ∈ twoNodes.arcs, values (stripMark arc.name) = 1) →
          ¬ program.HoldsWritten values := by
  refine ⟨by with_unfolding_all rfl, by decide, by decide, formRoundTrip_twoNodes, ?_⟩
  intro formulation lifted
  have differ := namesDiffer_twoNodes formulation
  have declared : ∀ v ∈ twoNodes.pairVariables, Program.isDeclaredHere [] v = true := by decide
  rcases exists_program_twoNodes formulation lifted with ⟨program, made⟩
  refine ⟨differ, ?_, program, made, ?_⟩
  · rintro ⟨values, indicates, bounds, holds⟩
    exact formRoundTrip_twoNodes.not_all_hold rfl differ indicates
      (fun v mem => bounds v (List.mem_append_right _ mem) (declared v mem))
      fun relation mem _ => holds relation mem
  · intro values ones holds
    exact formRoundTrip_twoNodes.not_holds_program rfl differ made ones
      (fun v mem pair => holds.1 v mem (declared v pair)) holds.2

end ModelWeaver.Tour
