import ModelWeaver.Generator.BinPacking
import ModelWeaver.Proofs.Generator.FlowPackings

/-!
# Loads out of range

A load with one more copy of an item is computed before it is compared with the capacity, and one
that is too large for 64 bits ends the program. Which problems that happens to can be said without
the graph: it is a question of what one more copy on top of a filling weighs. Since every filling
has a node, and every node stands for a filling, the answer is exact. In the graphs that are built
all loads are exact.
-/

namespace ModelWeaver.FlowGraph

open Number

/-- All loads that are computed are exact. -/
def LoadsExact (capacity : Load) (items : List Item) (graph : FlowGraph) : Prop :=
  ∀ node ∈ graph.nodes, ∀ item k, items[node.layer]? = some item →
    Tried capacity item node.load k → ∃ packed, node.load.pack k item.weight = .ok packed ∧
      ∀ j, packed.component j = node.load.component j + k * item.weight.component j

/-- No arc packs more than fits. -/
def ArcsFit (capacity : Load) (items : List Item) (graph : FlowGraph) : Prop :=
  ∀ arc ∈ graph.arcs, ∀ tail packing item, graph.nodes[arc.tail]? = some tail →
    arc.packing = some packing → items[packing.item]? = some item → ∀ j,
      tail.load.component j + packing.copies * item.weight.component j ≤ capacity.component j

/-! ## Panics -/

variable {capacity load weight : Load} {items : List Item} {item : Item} {failure : Failure}
  {ks : List Nat} {k : Nat}

theorem panics_orPanic {α : Type} {operation : Failure.Panic} {result : Option α}
    (failed : Failure.orPanic operation result = .error failure) :
    ∃ operation, failure = .panic operation := by
  cases result with
  | none =>
    cases failed
    exact ⟨operation, rfl⟩
  | some value => cases failed

theorem panics_pack (failed : load.pack k weight = .error failure) :
    ∃ operation, failure = .panic operation := by
  obtain ⟨⟨l, w⟩, -, failed⟩ := exists_of_mapM_eq_error failed
  rcases bind_eq_error_iff.mp failed with failed | ⟨added, -, failed⟩
  · exact panics_orPanic failed
  · exact panics_orPanic failed

theorem panics_packings {limit copies : Nat}
    (failed : packings capacity weight load limit copies = .error failure) :
    ∃ operation, failure = .panic operation := by
  induction limit generalizing copies with
  | zero => cases failed
  | succ limit ih =>
    rcases bind_eq_error_iff.mp failed with failed | ⟨packed, -, failed⟩
    · exact panics_pack failed
    · split at failed
      · cases failed
      · rcases bind_eq_error_iff.mp failed with failed | ⟨others, -, failed⟩
        · exact ih failed
        · cases failed

theorem panics_addLayers {index base : Nat} {loads : List Load} {graph : FlowGraph}
    (failed : addLayers capacity index base loads graph items = .error failure) :
    ∃ operation, failure = .panic operation := by
  induction items generalizing index base loads graph with
  | nil => cases failed
  | cons item items ih =>
    rcases bind_eq_error_iff.mp failed with failed | ⟨chosen, -, failed⟩
    · obtain ⟨load, -, failed⟩ := exists_of_mapM_eq_error failed
      rcases bind_eq_error_iff.mp failed with failed | ⟨packed, -, failed⟩
      · exact panics_packings failed
      · cases failed
    · exact ih failed

/-! ## Exact loads -/

section Built

variable {graph : FlowGraph} (built : Built capacity items graph)
  (measured : Measured capacity items)
include built measured

/-- A graph has a node for every filling, so one more copy was tried on top of it. -/
theorem Built.staysInRange (countable : ∀ item ∈ items, item.copies < 2 ^ 63) :
    StaysInRange capacity items := by
  intro ks k item here fewer filling j
  obtain ⟨v, node, path, found, -, -, represents⟩ :=
    built.exists_walk measured ((filling_snoc_iff measured here).mp filling).1
  have bound := (List.getElem?_eq_some_iff.mp here).1
  have before_sink := built.lt_sink found (represents.layer ▸ Nat.le_of_lt bound)
  obtain ⟨packed, packs⟩ := built.layered.settled found before_sink item (represents.layer ▸ here)
    (k + 1) (represents.tried_succ measured here fewer filling)
  have small : k + 1 < 2 ^ 63 :=
    Nat.lt_of_le_of_lt fewer (countable item (List.mem_of_getElem? here))
  have load_eq := component_of_pack (j := j) (represents.same_length measured here) packs
    (.inl small)
  rw [represents.load, ← totalWeight_snoc here] at load_eq
  rw [← load_eq]
  exact component_lt packed j

variable (stays : StaysInRange capacity items)
include stays

theorem Built.exists_represents {v : Nat} {node : FlowNode} (found : graph.nodes[v]? = some node)
    (here : items[node.layer]? = some item) : ∃ ks, Represents capacity items node ks := by
  obtain ⟨path, walk⟩ := built.exists_walk_from_source found
  have bound := (List.getElem?_eq_some_iff.mp here).1
  exact ⟨_, walk.represents built measured stays found (Nat.le_of_lt bound)⟩

theorem Built.loadsExact : LoadsExact capacity items graph := by
  intro node mem item k here tried
  obtain ⟨v, found⟩ := Array.getElem?_of_mem mem
  obtain ⟨ks, represents⟩ := built.exists_represents measured stays found here
  rw [represents.layer] at here
  obtain ⟨packed, packs, -, load_eq⟩ := represents.exists_pack measured here
    (represents.in_range_of_tried measured here stays tried)
  refine ⟨packed, packs, fun j => ?_⟩
  rw [load_eq, represents.load, totalWeight_snoc here]

theorem Built.arcsFit : ArcsFit capacity items graph := by
  intro arc mem tail packing item tail_at packs packed j
  obtain ⟨tail', head, tail_at', -, allowed⟩ := built.layered.arcs_lead arc mem
  cases tail_at.symm.trans tail_at'
  rw [allowed.item_eq packs] at packed
  obtain ⟨ks, represents⟩ := built.exists_represents measured stays tail_at packed
  rw [represents.layer] at packed
  obtain ⟨k, represents', packing_eq⟩ := represents.of_leads measured packed stays allowed
  have copies_eq : packing.copies = k := by
    rw [packs, packingOf] at packing_eq
    split at packing_eq
    · cases packing_eq
    · cases packing_eq
      rfl
  rw [copies_eq, represents.load, ← totalWeight_snoc packed]
  exact represents'.filling.within j

end Built

end ModelWeaver.FlowGraph

namespace ModelWeaver.BinPacking

open FlowGraph

variable {problem : Problem} {items : List Item}

theorem Problem.length_of_check (checked : problem.check = .ok ()) :
    ∀ weight ∈ problem.weights, weight.length = problem.capacity.length := by
  intro weight mem
  obtain ⟨i, found⟩ := List.getElem?_of_mem mem
  rw [Problem.check] at checked
  split at checked
  · cases checked
  · split at checked
    · cases checked
    · next none_differs =>
        have same := List.find?_eq_none.mp none_differs (weight, i)
          (List.mem_zipIdx_iff_getElem?.mpr found)
        simpa using same

theorem Problem.weight_mem (counted : problem.items = .ok items) :
    ∀ item ∈ items, item.weight ∈ problem.weights := by
  have yields : Yields (fun items : List Item => ∀ item ∈ items, item.weight ∈ problem.weights)
      problem.items := by
    refine Yields.mapM fun entry mem => ?_
    have inWeights : entry.1.1 ∈ problem.weights :=
      (List.of_mem_zip (List.fst_mem_of_mem_zipIdx mem)).1
    exact Yields.after fun limit => Yields.ok inWeights
  exact yields counted

theorem Problem.copies_lt (counted : problem.items = .ok items) :
    ∀ item ∈ items, item.copies < 2 ^ 63 := by
  have yields : Yields (fun items : List Item => ∀ item ∈ items, item.copies < 2 ^ 63)
      problem.items := by
    refine Yields.mapM fun entry mem => Yields.after fun limit => Yields.ok ?_
    dsimp only
    have := Int64.toInt_lt (if problem.binary then min limit 1 else limit)
    omega
  exact yields counted

theorem Problem.measured (checked : problem.check = .ok ()) (counted : problem.items = .ok items)
    (capacity_nonneg : ∀ c ∈ problem.capacity, 0 ≤ c.toInt)
    (weight_nonneg : ∀ weight ∈ problem.weights, ∀ w ∈ weight, 0 ≤ w.toInt) :
    Measured problem.capacity items where
  capacity_nonneg := component_nonneg capacity_nonneg
  dimension item mem :=
    Problem.length_of_check checked _ (Problem.weight_mem counted item mem)
  weight_nonneg item mem :=
    component_nonneg (weight_nonneg _ (Problem.weight_mem counted item mem))

/-- Consider a bin packing problem that passes the checks, without negative numbers. There is a
graph for it if and only if one more copy of an item on top of a filling always has a load of 64
bits; it is enough that no capacity and weight together exceed them. Otherwise the program ends
with a panic. In a graph that is built all loads are exact, and no arc packs more than fits. -/
theorem loads_exact_or_panic (problem : Problem) (items : List Item)
    (checked : problem.check = .ok ()) (counted : problem.items = .ok items)
    (capacity_nonneg : ∀ c ∈ problem.capacity, 0 ≤ c.toInt)
    (weight_nonneg : ∀ weight ∈ problem.weights, ∀ w ∈ weight, 0 ≤ w.toInt) :
    ((∃ graph, build problem.capacity items = .ok graph) ↔ StaysInRange problem.capacity items) ∧
      (¬StaysInRange problem.capacity items →
        ∃ operation, build problem.capacity items = .error (.panic operation)) ∧
      (∀ graph, build problem.capacity items = .ok graph →
        LoadsExact problem.capacity items graph ∧ ArcsFit problem.capacity items graph) ∧
      ((∀ item ∈ items, ∀ j,
          problem.capacity.component j + item.weight.component j < 2 ^ 63) →
        StaysInRange problem.capacity items) := by
  have measured := Problem.measured checked counted capacity_nonneg weight_nonneg
  have stays_of_built : ∀ graph, build problem.capacity items = .ok graph →
      StaysInRange problem.capacity items := fun graph built =>
    (build_built built).staysInRange measured (Problem.copies_lt counted)
  refine ⟨⟨?_, exists_build measured⟩, ?_, ?_, staysInRange_of_small⟩
  · rintro ⟨graph, built⟩
    exact stays_of_built graph built
  · intro leaves
    cases result : build problem.capacity items with
    | ok graph => exact absurd (stays_of_built graph result) leaves
    | error failure =>
      obtain ⟨operation, rfl⟩ := panics_addLayers result
      exact ⟨operation, rfl⟩
  · intro graph built
    have stays := stays_of_built graph built
    exact ⟨(build_built built).loadsExact measured stays,
      (build_built built).arcsFit measured stays⟩

/-- In two dimensions, the second copy of an item is out of range in the first one. That it does
not fit in the other one is not noticed in time. -/
theorem loads_exact_or_panic_twoDimensions :
    let problem : Problem :=
      { binVariable := "Z", capacity := [Int64.maxValue, 5], weights := [[0x4000000000000000, 3]]
        demands := [.fixed 2], bounds := none, labels := none, binary := false }
    let items : List Item := [⟨[0x4000000000000000, 3], 2⟩]
    problem.check = .ok () ∧ problem.items = .ok items ∧
      (∀ c ∈ problem.capacity, 0 ≤ c.toInt) ∧
      (∀ weight ∈ problem.weights, ∀ w ∈ weight, 0 ≤ w.toInt) ∧
      ∃ operation, build problem.capacity items = .error (.panic operation) := by
  intro problem items
  have checked : problem.check = .ok () := rfl
  have counted : problem.items = .ok items := rfl
  have greatest : 0 ≤ Int64.maxValue.toInt := by decide
  have capacity_nonneg : ∀ c ∈ problem.capacity, 0 ≤ c.toInt := by simp [problem, greatest]
  have weight_nonneg : ∀ weight ∈ problem.weights, ∀ w ∈ weight, 0 ≤ w.toInt := by simp [problem]
  have measured := Problem.measured checked counted capacity_nonneg weight_nonneg
  obtain ⟨-, panics, -⟩ :=
    loads_exact_or_panic problem items checked counted capacity_nonneg weight_nonneg
  refine ⟨checked, counted, capacity_nonneg, weight_nonneg, panics fun stays => ?_⟩
  have single : Filling problem.capacity items ([] ++ [1]) := by
    refine (filling_snoc_iff measured (k := 1) rfl).mpr ⟨filling_nil measured, by decide, ?_⟩
    rintro (_ | _ | j)
    · decide
    · decide
    · exact Int.le_refl 0
  exact absurd (stays [] 1 _ rfl (by decide) single 0) (by decide)

/-- One copy of an item fits into a bin and two do not. Before the second is found to be too much,
the program has ended. -/
theorem second_copy_panics :
    let problem : Problem :=
      { binVariable := "Z", capacity := [Int64.maxValue], weights := [[0x4000000000000000]]
        demands := [.fixed 2], bounds := none, labels := none, binary := false }
    let items : List Item := [⟨[0x4000000000000000], 2⟩]
    problem.check = .ok () ∧ problem.items = .ok items ∧
      Load.component [0x4000000000000000] 0 ≤ problem.capacity.component 0 ∧
      problem.capacity.component 0 < 2 * Load.component [0x4000000000000000] 0 ∧
      build problem.capacity items = .error (.panic .multiplication) := by
  refine ⟨rfl, rfl, ?_, ?_, ?_⟩
  · decide
  · decide
  · rfl

end ModelWeaver.BinPacking
