import Mathlib.Data.Fintype.Card
import Mathlib.Dynamics.PeriodicPts.Lemmas

/-!
# Circuits

A circuit through `n` nodes is given by the node after each node. It is a single circuit
if following it from any node reaches every other. Then it leaves every group of nodes
that does not hold all of them, and the nodes have positions from `0` to `n - 1` counted
from a start. Conversely, if each node follows only one other, and from each one can go
on to the start, then there is a single circuit.
-/

namespace ModelWeaver

variable {n : Nat} {next : Fin n → Fin n}

/-- Going from each node to the next is one circuit through all nodes. -/
def IsCircuit (next : Fin n → Fin n) : Prop := ∀ a b, ∃ k, next^[k] a = b

/-! ## Groups of nodes -/

theorem IsCircuit.exists_leaving (circuit : IsCircuit next) {group : Finset (Fin n)}
    (nonempty : group.Nonempty) (proper : group.card < n) :
    ∃ v ∈ group, next v ∉ group := by
  by_contra stays
  push Not at stays
  rcases nonempty with ⟨a, mem⟩
  have iterate_mem : ∀ k, next^[k] a ∈ group := by
    intro k
    induction k with
    | zero => exact mem
    | succ k ih =>
      rw [Function.iterate_succ_apply']
      exact stays _ ih
  have all : group = Finset.univ := by
    rw [Finset.eq_univ_iff_forall]
    intro b
    rcases circuit a b with ⟨k, rfl⟩
    exact iterate_mem k
  rw [all, Finset.card_univ, Fintype.card_fin] at proper
  exact Nat.lt_irrefl n proper

theorem IsCircuit.card_inside_lt (circuit : IsCircuit next) {group : Finset (Fin n)}
    (nonempty : group.Nonempty) (proper : group.card < n) :
    (group.filter fun v => next v ∈ group).card < group.card := by
  rcases circuit.exists_leaving nonempty proper with ⟨v, mem, leaves⟩
  apply Finset.card_lt_card
  rw [Finset.ssubset_iff_of_subset (Finset.filter_subset _ _)]
  refine ⟨v, mem, ?_⟩
  rw [Finset.mem_filter]
  exact fun inside => leaves inside.2

theorem IsCircuit.next_ne (circuit : IsCircuit next) (several : 1 < n) (v : Fin n) :
    next v ≠ v := by
  have proper : ({v} : Finset (Fin n)).card < n := (Finset.card_singleton v).trans_lt several
  rcases circuit.exists_leaving (Finset.singleton_nonempty v) proper with ⟨w, inside, leaves⟩
  cases Finset.mem_singleton.mp inside
  exact mt Finset.mem_singleton.mpr leaves

theorem IsCircuit.next_next_ne (circuit : IsCircuit next) (several : 2 < n) (v : Fin n) :
    next (next v) ≠ v := by
  have proper : ({v, next v} : Finset (Fin n)).card < n := Finset.card_le_two.trans_lt several
  rcases circuit.exists_leaving (Finset.insert_nonempty v _) proper with ⟨w, inside, leaves⟩
  rcases Finset.mem_insert.mp inside with rfl | again
  · exact absurd (Finset.mem_insert_of_mem (Finset.mem_singleton_self _)) leaves
  · cases Finset.mem_singleton.mp again
    intro returns
    rw [returns] at leaves
    exact leaves (Finset.mem_insert_self v _)

theorem IsCircuit.injective (circuit : IsCircuit next) : Function.Injective next := by
  apply Finite.injective_iff_surjective.mpr
  intro b
  rcases circuit (next b) b with ⟨k, reached⟩
  rw [← Function.iterate_succ_apply, Function.iterate_succ_apply'] at reached
  exact ⟨next^[k] b, reached⟩

/-! ## Positions -/

/-- The number of steps from the start to a node. -/
def IsCircuit.position (circuit : IsCircuit next) (start v : Fin n) : Nat :=
  Nat.find (circuit start v)

section Position

variable (circuit : IsCircuit next) (start : Fin n) {v : Fin n}

theorem IsCircuit.iterate_position (v : Fin n) : next^[circuit.position start v] start = v :=
  Nat.find_spec (circuit start v)

theorem IsCircuit.position_le {k : Nat} (reached : next^[k] start = v) :
    circuit.position start v ≤ k :=
  Nat.find_min' (circuit start v) reached

theorem IsCircuit.position_start : circuit.position start start = 0 :=
  Nat.le_zero.mp (circuit.position_le start rfl)

theorem IsCircuit.position_injective : Function.Injective (circuit.position start) := by
  intro v w same
  rw [← circuit.iterate_position start v, same, circuit.iterate_position]

theorem IsCircuit.position_pos (other : v ≠ start) : 0 < circuit.position start v := by
  apply Nat.pos_of_ne_zero
  intro zero
  rw [← circuit.position_start start] at zero
  exact other (circuit.position_injective start zero)

theorem IsCircuit.position_next (other : next v ≠ start) :
    circuit.position start (next v) = circuit.position start v + 1 := by
  have reached := circuit.iterate_position start v
  apply Nat.le_antisymm
  · apply circuit.position_le
    rw [Function.iterate_succ_apply', reached]
  · rcases Nat.exists_eq_succ_of_ne_zero (Nat.ne_of_gt (circuit.position_pos start other)) with
      ⟨k, position_eq⟩
    rw [position_eq]
    apply Nat.succ_le_succ
    apply circuit.position_le
    have before := circuit.iterate_position start (next v)
    rw [position_eq, Function.iterate_succ_apply'] at before
    exact circuit.injective before

/-- If the start is reached again, then so is every node within one round. -/
theorem IsCircuit.position_lt_of_return {k : Nat} (returns : next^[k + 1] start = start)
    (v : Fin n) : circuit.position start v < k + 1 := by
  by_contra late
  have reached : next^[circuit.position start v - (k + 1)] start = v := by
    calc next^[circuit.position start v - (k + 1)] start
        = next^[circuit.position start v - (k + 1)] (next^[k + 1] start) := by rw [returns]
      _ = next^[circuit.position start v] start := by
          rw [← Function.iterate_add_apply, Nat.sub_add_cancel (Nat.le_of_not_lt late)]
      _ = v := circuit.iterate_position start v
  have := circuit.position_le start reached
  omega

theorem IsCircuit.position_iterate {k : Nat} (early : k ≤ circuit.position start v) :
    circuit.position start (next^[k] start) = k := by
  induction k with
  | zero => exact circuit.position_start start
  | succ k ih =>
    have other : next (next^[k] start) ≠ start := by
      intro returns
      rw [← Function.iterate_succ_apply' next k start] at returns
      have := circuit.position_lt_of_return start returns v
      omega
    rw [Function.iterate_succ_apply', circuit.position_next start other,
      ih (Nat.le_of_succ_le early)]

theorem IsCircuit.position_lt (v : Fin n) : circuit.position start v < n := by
  have injective : Function.Injective
      fun k : Fin (circuit.position start v + 1) => next^[k.val] start := by
    intro i j same
    have positions := congrArg (circuit.position start) same
    simp only [circuit.position_iterate start (Nat.le_of_lt_succ i.isLt),
      circuit.position_iterate start (Nat.le_of_lt_succ j.isLt)] at positions
    exact Fin.ext positions
  have := Fintype.card_le_of_injective _ injective
  rwa [Fintype.card_fin, Fintype.card_fin] at this

theorem IsCircuit.position_last (last : next v = start) : circuit.position start v = n - 1 := by
  have returns : next^[circuit.position start v + 1] start = start := by
    rw [Function.iterate_succ_apply', circuit.iterate_position, last]
  have injective : Function.Injective fun w : Fin n =>
      (⟨circuit.position start w, circuit.position_lt_of_return start returns w⟩ :
        Fin (circuit.position start v + 1)) := by
    intro w w' same
    exact circuit.position_injective start (Fin.mk.inj same)
  have := Fintype.card_le_of_injective _ injective
  rw [Fintype.card_fin, Fintype.card_fin] at this
  have := circuit.position_lt start v
  omega

end Position

/-! ## From steps to circuits -/

/-- If each node follows only one other and the start can be reached from all, there is
one circuit. -/
theorem isCircuit_of_reaching (injective : Function.Injective next) {start : Fin n}
    (reaches : ∀ v, ∃ k, next^[k] v = start) : IsCircuit next := by
  intro a b
  rcases reaches a with ⟨k, from_a⟩
  rcases reaches b with ⟨j, from_b⟩
  rcases Function.mem_periodicPts.mp (injective.mem_periodicPts b) with ⟨m, positive, period⟩
  -- Enough rounds from `b` pass the start and come back to `b`.
  have enough : j ≤ j * m := Nat.le_mul_of_pos_right j positive
  have rounds : next^[j * m] b = b := (period.const_mul j)
  refine ⟨j * m - j + k, ?_⟩
  rw [Function.iterate_add_apply, from_a, ← from_b, ← Function.iterate_add_apply,
    Nat.sub_add_cancel enough]
  exact rounds

/-- A quantity that never falls from one node to the next, and grows at a given node,
cannot come back to where it was. So the way from that node leads to the start, where it
may fall. -/
theorem reaches_start_of_rise {K : Type} [AddCommGroup K] [LinearOrder K] [IsOrderedAddMonoid K]
    {step : K} (positive : 0 < step) (injective : Function.Injective next) {start v : Fin n}
    (level : Fin n → K)
    (rises : ∀ w, w ≠ start → next w ≠ start → level w ≤ level (next w))
    (grows : ∀ w, w ≠ start → v ≠ start → next w = v → level w + step ≤ level v) :
    ∃ k, next^[k] v = start := by
  by_contra never
  push Not at never
  have at_least : ∀ k, level v ≤ level (next^[k] v) := by
    intro k
    induction k with
    | zero => exact le_refl _
    | succ k ih =>
      rw [Function.iterate_succ_apply']
      refine ih.trans (rises _ (never k) ?_)
      rw [← Function.iterate_succ_apply' next k v]
      exact never (k + 1)
  rcases Function.mem_periodicPts.mp (injective.mem_periodicPts v) with ⟨m, m_pos, period⟩
  rcases Nat.exists_eq_succ_of_ne_zero (Nat.ne_of_gt m_pos) with ⟨k, rfl⟩
  have closes : next (next^[k] v) = v := by
    rw [← Function.iterate_succ_apply' next k v]
    exact period
  have grown := grows _ (never k) (never 0) closes
  exact absurd ((add_le_add_left (at_least k) step).trans grown)
    (not_le_of_gt (lt_add_of_pos_right _ positive))

end ModelWeaver
