import ModelWeaver.Generator.Tour
import ModelWeaver.Proofs.Generator.Circuit
import ModelWeaver.Proofs.Generator.Components
import Mathlib.Algebra.BigOperators.Group.Finset.Basic

/-!
# Round trips

A round trip is a circuit through all nodes along arcs of the graph. It uses a pair of
nodes as often as it goes from one of them to the other, so it uses as many pairs inside
a group as it makes steps there.
-/

namespace ModelWeaver.Tour

/-! ## Pairs -/

section Pairs

variable (tour : Tour) {pair : tour.Node × tour.Node}

/-- Two nodes, the lesser first. -/
def sortedPair {n : Nat} (a b : Fin n) : Fin n × Fin n := if a ≤ b then (a, b) else (b, a)

theorem mem_pairs_iff :
    pair ∈ tour.pairs ↔ ∃ arc ∈ tour.arcs, sortedPair arc.tail arc.head = pair := by
  rw [pairs, DisjointSets.mem_foldl_firsts tour.pairOf]
  simp only [List.not_mem_nil, false_or]
  rfl

theorem nodup_pairs : tour.pairs.Nodup :=
  DisjointSets.nodup_foldl_firsts tour.pairOf List.nodup_nil

theorem le_of_mem_pairs (mem : pair ∈ tour.pairs) : pair.1 ≤ pair.2 := by
  rcases tour.mem_pairs_iff.mp mem with ⟨arc, _, rfl⟩
  rw [sortedPair]
  split
  · next sorted => exact sorted
  · next unsorted => exact le_of_lt (lt_of_not_ge unsorted)

/-- The pairs of nodes inside a group. -/
def pairsInside (group : Finset tour.Node) : List (tour.Node × tour.Node) :=
  tour.pairs.filter fun pair => pair.1 ∈ group ∧ pair.2 ∈ group

variable {tour}

theorem mem_pairsInside {group : Finset tour.Node} :
    pair ∈ tour.pairsInside group ↔ pair ∈ tour.pairs ∧ pair.1 ∈ group ∧ pair.2 ∈ group := by
  rw [pairsInside, List.mem_filter, decide_eq_true_iff]

theorem nodup_pairsInside (group : Finset tour.Node) : (tour.pairsInside group).Nodup :=
  tour.nodup_pairs.filter _

end Pairs

/-! ## Round trips -/

variable {tour : Tour}

/-- A circuit through all nodes along arcs of the graph. -/
structure IsRoundTrip (tour : Tour) (next : tour.Node → tour.Node) : Prop where
  circuit : IsCircuit next
  along : ∀ v, ∃ arc ∈ tour.arcs, arc.tail = v ∧ arc.head = next v

/-- How often two nodes follow each other. -/
def uses {n : Nat} (next : Fin n → Fin n) (pair : Fin n × Fin n) : Nat :=
  (if next pair.1 = pair.2 then 1 else 0) + (if next pair.2 = pair.1 then 1 else 0)

theorem uses_le_one {n : Nat} {next : Fin n → Fin n} (circuit : IsCircuit next)
    (several : 2 < n) (pair : Fin n × Fin n) : uses next pair ≤ 1 := by
  rw [uses]
  split
  · next forth =>
      have no_return : next pair.2 ≠ pair.1 := by
        rw [← forth]
        exact circuit.next_next_ne several pair.1
      rw [if_neg no_return]
  · split
    · exact Nat.le_refl 1
    · exact Nat.zero_le 1

theorem sortedPair_eq_iff {n : Nat} {a b v w : Fin n} (sorted : a ≤ b) :
    sortedPair v w = (a, b) ↔ v = a ∧ w = b ∨ v = b ∧ w = a := by
  rw [sortedPair]
  split <;> simp only [Prod.mk.injEq] <;> omega

/-- A pair is used by the steps between its two nodes. -/
theorem card_steps_eq_uses {n : Nat} {next : Fin n → Fin n} (moves : ∀ v, next v ≠ v)
    {group : Finset (Fin n)} {pair : Fin n × Fin n} (sorted : pair.1 ≤ pair.2)
    (first : pair.1 ∈ group) (second : pair.2 ∈ group) :
    ((group.filter fun v => next v ∈ group).filter
      fun v => sortedPair v (next v) = pair).card = uses next pair := by
  rcases pair with ⟨a, b⟩
  dsimp only at sorted first second
  have steps_eq : ((group.filter fun v => next v ∈ group).filter
      fun v => sortedPair v (next v) = (a, b)) =
        (({a} : Finset (Fin n)).filter fun v => next v = b) ∪
          (({b} : Finset (Fin n)).filter fun v => next v = a) := by
    ext v
    simp only [Finset.mem_filter, Finset.mem_union, Finset.mem_singleton,
      sortedPair_eq_iff sorted]
    constructor
    · exact fun step => step.2
    · intro step
      refine ⟨?_, step⟩
      rcases step with ⟨rfl, next_eq⟩ | ⟨rfl, next_eq⟩
      · exact ⟨first, next_eq ▸ second⟩
      · exact ⟨second, next_eq ▸ first⟩
  have disjoint : Disjoint (({a} : Finset (Fin n)).filter fun v => next v = b)
      (({b} : Finset (Fin n)).filter fun v => next v = a) := by
    rw [Finset.disjoint_left]
    intro v forth back
    rw [Finset.mem_filter, Finset.mem_singleton] at forth back
    exact moves v (back.2.trans forth.1.symm)
  rw [steps_eq, Finset.card_union_of_disjoint disjoint, Finset.filter_singleton,
    Finset.filter_singleton, apply_ite Finset.card, apply_ite Finset.card]
  rfl

/-- A round trip uses as many pairs inside a group as it makes steps there. -/
theorem IsRoundTrip.sum_uses {next : tour.Node → tour.Node}
    (trip : tour.IsRoundTrip next) (several : 1 < tour.size) (group : Finset tour.Node) :
    ((tour.pairsInside group).map (uses next)).sum =
      (group.filter fun v => next v ∈ group).card := by
  have steps_to_pairs : Set.MapsTo (fun v => sortedPair v (next v))
      (group.filter fun v => next v ∈ group) (tour.pairsInside group).toFinset := by
    intro v mem
    rcases Finset.mem_filter.mp mem with ⟨inside, next_inside⟩
    rw [Finset.mem_coe, List.mem_toFinset, mem_pairsInside]
    refine ⟨?_, ?_⟩
    · rcases trip.along v with ⟨arc, arc_mem, rfl, head_eq⟩
      exact tour.mem_pairs_iff.mpr ⟨arc, arc_mem, by rw [head_eq]⟩
    · dsimp only
      rw [sortedPair]
      split
      · exact ⟨inside, next_inside⟩
      · exact ⟨next_inside, inside⟩
  rw [Finset.card_eq_sum_card_fiberwise steps_to_pairs,
    ← List.sum_toFinset (uses next) (nodup_pairsInside group)]
  apply Finset.sum_congr rfl
  intro pair mem
  rcases mem_pairsInside.mp (List.mem_toFinset.mp mem) with ⟨pair_mem, first, second⟩
  exact (card_steps_eq_uses (trip.circuit.next_ne several) (tour.le_of_mem_pairs pair_mem)
    first second).symm

end ModelWeaver.Tour
