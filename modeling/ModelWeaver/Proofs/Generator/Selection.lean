import ModelWeaver.Proofs.Generator.RoundTrip
import Mathlib.Algebra.BigOperators.Group.List.Lemmas
import Mathlib.Data.Nat.Cast.Defs
import Mathlib.Algebra.CharZero.Defs

/-!
# Chosen arcs

If one chosen arc leaves each node and one enters it, the chosen arcs lead from each node
to a next one, and each node comes after only one other. A sum over the arcs at a node
then comes down to one arc, as far as only chosen arcs count.
-/

namespace ModelWeaver.Tour

/-- A graph of three or more nodes, each with an arc in and an arc out. No arc is
repeated, and none leads from a node to itself. -/
structure WellFormed (tour : Tour) : Prop where
  several : 3 ≤ tour.size
  simple : (tour.arcs.map fun arc => (arc.tail, arc.head)).Nodup
  loopless : ∀ arc ∈ tour.arcs, arc.tail ≠ arc.head
  entered : ∀ node, tour.arcsInto node ≠ []
  exited : ∀ node, tour.arcsOutOf node ≠ []

/-- The chosen arcs form one circuit through all nodes. -/
def FormRoundTrip (tour : Tour) (chosen : tour.Arc → Bool) : Prop :=
  ∃ next, tour.IsRoundTrip next ∧
    ∀ arc ∈ tour.arcs, chosen arc = true ↔ arc.head = next arc.tail

/-- The chosen arcs lead from each node to the next. -/
structure Selects (tour : Tour) (chosen : tour.Arc → Bool)
    (next : tour.Node → tour.Node) : Prop where
  along : ∀ v, ∃ arc ∈ tour.arcs, arc.tail = v ∧ arc.head = next v
  chosen_iff : ∀ arc ∈ tour.arcs, chosen arc = true ↔ arc.head = next arc.tail

theorem find?_eq_some_iff_of_nodup {α β : Type} [DecidableEq β] {key : α → β} {list : List α}
    (distinct : (list.map key).Nodup) {k : β} {a : α} :
    list.find? (fun a => key a = k) = some a ↔ a ∈ list ∧ key a = k := by
  constructor
  · intro found
    exact ⟨List.mem_of_find?_eq_some found, by simpa using List.find?_some found⟩
  · rintro ⟨mem, rfl⟩
    cases found : list.find? (fun other => key other = key a) with
    | none =>
      have missing := List.find?_eq_none.mp found a mem
      exact absurd (decide_eq_true rfl) missing
    | some other =>
      have same : key other = key a := by simpa using List.find?_some found
      rw [List.inj_on_of_nodup_map distinct (List.mem_of_find?_eq_some found) mem same]

variable {tour : Tour}

theorem mem_arcsInto {node : tour.Node} {arc : tour.Arc} :
    arc ∈ tour.arcsInto node ↔ arc ∈ tour.arcs ∧ arc.head = node := by
  rw [arcsInto, List.mem_filter, decide_eq_true_iff]

theorem mem_arcsOutOf {node : tour.Node} {arc : tour.Arc} :
    arc ∈ tour.arcsOutOf node ↔ arc ∈ tour.arcs ∧ arc.tail = node := by
  rw [arcsOutOf, List.mem_filter, decide_eq_true_iff]

namespace WellFormed

theorem nodup_arcs (wellFormed : tour.WellFormed) : tour.arcs.Nodup :=
  List.Nodup.of_map _ wellFormed.simple

theorem nodup_arcsInto (wellFormed : tour.WellFormed) (node : tour.Node) :
    (tour.arcsInto node).Nodup :=
  wellFormed.nodup_arcs.filter _

theorem nodup_arcsOutOf (wellFormed : tour.WellFormed) (node : tour.Node) :
    (tour.arcsOutOf node).Nodup :=
  wellFormed.nodup_arcs.filter _

theorem arc_eq (wellFormed : tour.WellFormed) {arc other : tour.Arc}
    (mem : arc ∈ tour.arcs) (other_mem : other ∈ tour.arcs) (tails : arc.tail = other.tail)
    (heads : arc.head = other.head) : arc = other :=
  List.inj_on_of_nodup_map wellFormed.simple mem other_mem (Prod.ext tails heads)

theorem arc?_eq_some_iff (wellFormed : tour.WellFormed) {tail head : tour.Node}
    {arc : tour.Arc} :
    tour.arc? tail head = some arc ↔ arc ∈ tour.arcs ∧ arc.tail = tail ∧ arc.head = head := by
  have by_ends : tour.arc? tail head =
      tour.arcs.find? fun arc => (arc.tail, arc.head) = (tail, head) := by
    simp only [arc?, Prod.mk.injEq, Bool.decide_and]
  rw [by_ends, find?_eq_some_iff_of_nodup wellFormed.simple, Prod.mk.injEq]

end WellFormed

/-! ## From sums to a selection -/

section Sums

variable {K : Type} [AddCommMonoidWithOne K]

theorem sum_eq_countP {α : Type} {x : α → K} {chosen : α → Bool} {list : List α}
    (indicates : ∀ a ∈ list, x a = if chosen a then 1 else 0) :
    (list.map x).sum = (list.countP chosen : K) := by
  induction list with
  | nil => simp
  | cons a list inductionHypothesis =>
    rcases List.forall_mem_cons.mp indicates with ⟨here, later⟩
    rw [List.map_cons, List.sum_cons, List.countP_cons, inductionHypothesis later, here,
      Nat.cast_add, add_comm]
    cases chosen a <;> simp

theorem exists_filter_eq [CharZero K] {α : Type} {x : α → K} {chosen : α → Bool} {list : List α}
    (indicates : ∀ a ∈ list, x a = if chosen a then 1 else 0) (total : (list.map x).sum = 1) :
    ∃ a, list.filter chosen = [a] := by
  rw [sum_eq_countP indicates, Nat.cast_eq_one, List.countP_eq_length_filter] at total
  exact List.length_eq_one_iff.mp total

/-- If one chosen arc leaves and one enters each node, the chosen arcs are a selection. -/
theorem WellFormed.exists_selects [CharZero K] (wellFormed : tour.WellFormed)
    {chosen : tour.Arc → Bool} {x : tour.Arc → K}
    (indicates : ∀ arc ∈ tour.arcs, x arc = if chosen arc then 1 else 0)
    (into : ∀ node, ((tour.arcsInto node).map x).sum = 1)
    (outOf : ∀ node, ((tour.arcsOutOf node).map x).sum = 1) :
    ∃ next, Function.Injective next ∧ tour.Selects chosen next := by
  have one_out : ∀ v, ∃ arc, (tour.arcsOutOf v).filter chosen = [arc] := fun v =>
    exists_filter_eq (fun arc mem => indicates arc (mem_arcsOutOf.mp mem).1) (outOf v)
  have one_in : ∀ v, ∃ arc, (tour.arcsInto v).filter chosen = [arc] := fun v =>
    exists_filter_eq (fun arc mem => indicates arc (mem_arcsInto.mp mem).1) (into v)
  choose leaving leaving_eq using one_out
  have leaving_mem : ∀ v, leaving v ∈ (tour.arcsOutOf v).filter chosen := by
    intro v
    rw [leaving_eq]
    exact List.mem_singleton_self _
  simp only [List.mem_filter, mem_arcsOutOf] at leaving_mem
  refine ⟨fun v => (leaving v).head, ?_, ?_, ?_⟩
  · intro v w same
    rcases one_in (leaving v).head with ⟨arc, arc_eq⟩
    have entering : ∀ u, (leaving u).head = (leaving v).head → leaving u = arc := by
      intro u head_eq
      have mem : leaving u ∈ (tour.arcsInto (leaving v).head).filter chosen := by
        rw [List.mem_filter, mem_arcsInto]
        exact ⟨⟨(leaving_mem u).1.1, head_eq⟩, (leaving_mem u).2⟩
      rw [arc_eq] at mem
      exact List.mem_singleton.mp mem
    rw [← (leaving_mem v).1.2, ← (leaving_mem w).1.2, entering v rfl, entering w same.symm]
  · exact fun v => ⟨leaving v, (leaving_mem v).1.1, (leaving_mem v).1.2, rfl⟩
  · intro arc mem
    constructor
    · intro taken
      have mem' : arc ∈ (tour.arcsOutOf arc.tail).filter chosen := by
        rw [List.mem_filter, mem_arcsOutOf]
        exact ⟨⟨mem, rfl⟩, taken⟩
      rw [leaving_eq] at mem'
      exact congrArg TourArc.head (List.mem_singleton.mp mem')
    · intro head_eq
      have same := wellFormed.arc_eq mem (leaving_mem arc.tail).1.1
        (leaving_mem arc.tail).1.2.symm head_eq
      rw [same]
      exact (leaving_mem arc.tail).2

end Sums

/-! ## From a selection to sums -/

namespace Selects

variable {K : Type} [AddMonoid K] {chosen : tour.Arc → Bool}
  {next : tour.Node → tour.Node} {f : tour.Arc → K} {arc : tour.Arc}

theorem exists_leaving (selects : tour.Selects chosen next) (v : tour.Node) :
    ∃ arc ∈ tour.arcs, chosen arc = true ∧ arc.tail = v ∧ arc.head = next v := by
  rcases selects.along v with ⟨arc, mem, rfl, head_eq⟩
  exact ⟨arc, mem, (selects.chosen_iff arc mem).mpr head_eq, rfl, head_eq⟩

variable (selects : tour.Selects chosen next) (wellFormed : tour.WellFormed)
include selects wellFormed

/-- Of the arcs out of a node, only the chosen one counts. -/
theorem sum_arcsOutOf (vanishes : ∀ arc ∈ tour.arcs, chosen arc = false → f arc = 0)
    (mem : arc ∈ tour.arcs) (taken : chosen arc = true) :
    ((tour.arcsOutOf arc.tail).map f).sum = f arc := by
  rw [List.sum_map_eq_nsmul_single arc f, List.count_eq_one_of_mem, one_nsmul]
  · exact wellFormed.nodup_arcsOutOf arc.tail
  · exact mem_arcsOutOf.mpr ⟨mem, rfl⟩
  · intro other differ other_mem
    rcases mem_arcsOutOf.mp other_mem with ⟨other_arc, tails⟩
    apply vanishes other other_arc
    by_contra other_taken
    rw [Bool.not_eq_false, selects.chosen_iff other other_arc, tails,
      ← (selects.chosen_iff arc mem).mp taken] at other_taken
    exact differ (wellFormed.arc_eq other_arc mem tails other_taken)

variable (injective : Function.Injective next)
include injective

/-- Of the arcs into a node, only the chosen one counts. -/
theorem sum_arcsInto (vanishes : ∀ arc ∈ tour.arcs, chosen arc = false → f arc = 0)
    (mem : arc ∈ tour.arcs) (taken : chosen arc = true) :
    ((tour.arcsInto arc.head).map f).sum = f arc := by
  rw [List.sum_map_eq_nsmul_single arc f, List.count_eq_one_of_mem, one_nsmul]
  · exact wellFormed.nodup_arcsInto arc.head
  · exact mem_arcsInto.mpr ⟨mem, rfl⟩
  · intro other differ other_mem
    rcases mem_arcsInto.mp other_mem with ⟨other_arc, heads⟩
    apply vanishes other other_arc
    by_contra other_taken
    rw [Bool.not_eq_false, selects.chosen_iff other other_arc, heads,
      (selects.chosen_iff arc mem).mp taken] at other_taken
    exact differ (wellFormed.arc_eq other_arc mem (injective other_taken).symm heads)

theorem sum_arcsInto_next (vanishes : ∀ arc ∈ tour.arcs, chosen arc = false → f arc = 0)
    (v : tour.Node) :
    ((tour.arcsInto (next v)).map f).sum = ((tour.arcsOutOf v).map f).sum := by
  rcases selects.exists_leaving v with ⟨arc, mem, taken, rfl, head_eq⟩
  rw [← head_eq, selects.sum_arcsInto wellFormed injective vanishes mem taken,
    selects.sum_arcsOutOf wellFormed vanishes mem taken]

/-- If chosen arcs carry amounts that depend on their tails, then the amount of the node before
comes into a node and its own goes out. -/
theorem exists_amounts (amount : tour.Node → K)
    (carries : ∀ arc ∈ tour.arcs, f arc = if chosen arc then amount arc.tail else 0)
    (node : tour.Node) :
    ∃ before, next before = node ∧ ((tour.arcsInto node).map f).sum = amount before ∧
      ((tour.arcsOutOf node).map f).sum = amount node := by
  have vanishes : ∀ arc ∈ tour.arcs, chosen arc = false → f arc = 0 := by
    intro arc mem skipped
    rw [carries arc mem, skipped]
    rfl
  have outOf (v : tour.Node) : ((tour.arcsOutOf v).map f).sum = amount v := by
    rcases selects.exists_leaving v with ⟨arc, mem, taken, rfl, _⟩
    rw [selects.sum_arcsOutOf wellFormed vanishes mem taken, carries arc mem, if_pos taken]
  rcases Finite.injective_iff_surjective.mp injective node with ⟨before, rfl⟩
  have into := selects.sum_arcsInto_next wellFormed injective vanishes before
  exact ⟨before, rfl, into.trans (outOf before), outOf _⟩

end Selects

end ModelWeaver.Tour
