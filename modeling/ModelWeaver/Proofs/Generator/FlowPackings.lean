import ModelWeaver.Proofs.Generator.Loads
import Mathlib.Algebra.BigOperators.Fin
import Mathlib.Data.Set.Function

/-!
# Paths are packings

The paths from source to sink of an arc-flow graph stand for the ways to fill a bin:
a path is determined by how many copies it packs of each item, and any numbers of
copies occur that are within their limits and fit into the bin together.
-/

namespace ModelWeaver.FlowGraph

section Built

variable {capacity : Load} {items : List Item} {graph : FlowGraph} {v : Nat} {node : FlowNode}
  {path : List Nat}

/-! ## Layers -/

variable (built : Built capacity items graph)
include built

theorem Built.enters (found : graph.nodes[v]? = some node) (above : 0 < node.layer) :
    ∃ arc tail, arc ∈ graph.arcs ∧ arc.head = v ∧ graph.nodes[arc.tail]? = some tail ∧
      Leads capacity items tail arc.packing node := by
  have positive : 0 < v := by
    apply Nat.pos_of_ne_zero
    intro at_source
    rw [at_source, ← built.source_first, built.source_at] at found
    cases found
    exact Nat.lt_irrefl 0 above
  rcases built.layered.enters positive (Array.getElem?_eq_some_iff.mp found).1 with
    ⟨arc, mem, rfl⟩
  rcases built.layered.arcs_lead arc mem with ⟨tail, head, tail_at, head_at, allowed⟩
  rw [head_at] at found
  cases found
  exact ⟨arc, tail, mem, rfl, tail_at, allowed⟩

theorem Built.lt_sink (found : graph.nodes[v]? = some node) (inner : node.layer ≤ items.length) :
    v < graph.sink := by
  by_contra after
  have top := built.layered.late found (Nat.le_of_not_lt after)
  omega

/-! ## Paths and numbers of copies -/

/-- The copies that an arc packs; none if it passes an item over. -/
def arcCopies (graph : FlowGraph) (a : Nat) : Nat :=
  (graph.arcs[a]?.bind FlowArc.packing).elim 0 Packing.copies

omit built in
theorem arcCopies_of_packingOf {a index k : Nat} {arc : FlowArc}
    (found : graph.arcs[a]? = some arc) (packs : arc.packing = packingOf index k) :
    graph.arcCopies a = k := by
  rw [arcCopies, found, Option.bind_some, packs, packingOf]
  split
  · next zero => exact zero.symm
  · rfl

/-- Arcs out of the same node that pack as many copies are the same arc. -/
theorem Built.arc_unique {a b : Nat} {first second : FlowArc}
    (first_at : graph.arcs[a]? = some first) (second_at : graph.arcs[b]? = some second)
    (same_tail : first.tail = second.tail) (same_copies : graph.arcCopies a = graph.arcCopies b) :
    a = b := by
  rcases built.lead first_at with ⟨tail, _, tail_at, _, allowed⟩
  rcases built.lead second_at with ⟨tail', _, tail_at', _, allowed'⟩
  rw [← same_tail, tail_at] at tail_at'
  cases tail_at'
  have same_packing : first.packing = second.packing := by
    rw [arcCopies, arcCopies, first_at, second_at] at same_copies
    rw [allowed.packing_eq, allowed'.packing_eq]
    exact congrArg (packingOf tail.layer) same_copies
  by_contra differ
  have pairwise := List.pairwise_iff_getElem.mp built.layered.arcs_differ
  obtain ⟨a_bound, a_eq⟩ := Array.getElem?_eq_some_iff.mp first_at
  obtain ⟨b_bound, b_eq⟩ := Array.getElem?_eq_some_iff.mp second_at
  subst a_eq b_eq
  rcases Nat.lt_or_gt_of_ne differ with less | greater
  · exact pairwise a b a_bound b_bound less same_tail same_packing
  · exact pairwise b a b_bound a_bound greater same_tail.symm same_packing.symm

/-- A walk is determined by where it starts and by the copies that it packs. -/
theorem Built.walk_unique {v target target' : Nat} {path' : List Nat}
    (walk : graph.Walk v path target) (walk' : graph.Walk v path' target')
    (same_copies : path.map graph.arcCopies = path'.map graph.arcCopies) : path = path' := by
  induction path generalizing v path' with
  | nil => exact (List.map_eq_nil_iff.mp same_copies.symm).symm
  | cons a path ih =>
    cases path' with
    | nil => simp at same_copies
    | cons b path' =>
      rcases walk with ⟨arc, arc_at, tail_eq, walk⟩
      rcases walk' with ⟨arc', arc_at', tail_eq', walk'⟩
      rw [List.map_cons, List.map_cons, List.cons.injEq] at same_copies
      have same_arc := built.arc_unique arc_at arc_at' (tail_eq.trans tail_eq'.symm)
        same_copies.1
      subst same_arc
      rw [arc_at] at arc_at'
      cases arc_at'
      rw [ih walk walk' same_copies.2]

/-! ## Reach -/

theorem Built.exists_walk_from_source (found : graph.nodes[v]? = some node) :
    ∃ path, graph.Walk graph.source path v := by
  generalize layer_eq : node.layer = layer
  induction layer generalizing v node with
  | zero =>
    have at_source := (built.layered.first found layer_eq).trans built.source_first.symm
    exact ⟨[], at_source.symm⟩
  | succ layer ih =>
    rcases built.enters found (by omega) with ⟨arc, tail, mem, rfl, tail_at, allowed⟩
    have climb := allowed.1
    rcases ih tail_at (by omega) with ⟨path, walk⟩
    obtain ⟨a, arc_at⟩ := Array.getElem?_of_mem mem
    exact ⟨path ++ [a], walk.append ⟨arc, arc_at, rfl, rfl⟩⟩

/-- From every node the sink is reached, by passing over all items that follow. -/
theorem Built.exists_walk_to_sink (found : graph.nodes[v]? = some node) :
    ∃ path, graph.Walk v path graph.sink := by
  generalize left_eq : items.length + 1 - node.layer = left
  induction left generalizing v node with
  | zero =>
    have below := built.layer_le found
    exact ⟨[], built.eq_sink found (by omega)⟩
  | succ left ih =>
    have before_sink : v < graph.sink := built.lt_sink found (by omega)
    have allowed : ∃ head, Leads capacity items node none head := by
      cases here : items[node.layer]? with
      | none =>
        have last : node.layer = items.length := by
          have := List.getElem?_eq_none_iff.mp here
          omega
        exact ⟨_, (leads_sink last).mpr ⟨rfl, rfl⟩⟩
      | some item =>
        exact ⟨⟨node.load, node.layer + 1⟩, (leads_item here).mpr ⟨rfl, .inl ⟨rfl, rfl⟩⟩⟩
    rcases allowed with ⟨head, allowed⟩
    rcases built.layered.leaves found before_sink allowed with ⟨arc, mem, rfl, _, head_at⟩
    have climb := allowed.1
    rcases ih head_at (by omega) with ⟨path, walk⟩
    obtain ⟨a, arc_at⟩ := Array.getElem?_of_mem mem
    exact ⟨a :: path, arc, arc_at, rfl, walk⟩

/-! ## Walks and fillings -/

/-- A walk from the source leads to a node that stands for the copies it has packed, if all loads
are in range. -/
theorem Walk.represents (measured : Measured capacity items)
    (stays : StaysInRange capacity items) (walk : graph.Walk graph.source path v)
    (found : graph.nodes[v]? = some node) (inner : node.layer ≤ items.length) :
    Represents capacity items node (path.map graph.arcCopies) := by
  induction path using List.reverseRecOn generalizing v node with
  | nil =>
    change graph.source = v at walk
    rw [← walk, built.source_at] at found
    cases found
    exact represents_empty measured
  | append_singleton path a ih =>
    obtain ⟨_, front, arc, arc_at, rfl, rfl⟩ := walk_append_iff.mp walk
    obtain ⟨tail, head, tail_at, head_at, allowed⟩ := built.lead arc_at
    cases head_at.symm.trans found
    have climb := allowed.1
    have represents := ih front tail_at (by omega)
    have bound : (path.map graph.arcCopies).length < items.length := by
      rw [← represents.layer]
      omega
    obtain ⟨k, next, packs⟩ := represents.of_leads measured
      (List.getElem?_eq_getElem bound) stays allowed
    rwa [List.map_append, List.map_singleton, arcCopies_of_packingOf arc_at packs]

/-- Every filling is packed by a walk to a node that stands for it. -/
theorem Built.exists_walk (measured : Measured capacity items) {ks : List Nat}
    (filling : Filling capacity items ks) :
    ∃ v node path, graph.nodes[v]? = some node ∧ graph.Walk graph.source path v ∧
      path.map graph.arcCopies = ks ∧ Represents capacity items node ks := by
  induction ks using List.reverseRecOn with
  | nil => exact ⟨graph.source, _, [], built.source_at, rfl, rfl, represents_empty measured⟩
  | append_singleton ks k ih =>
    have longer := filling.length_le
    rw [List.length_append, List.length_singleton] at longer
    have here : items[ks.length]? = some items[ks.length] := List.getElem?_eq_getElem longer
    obtain ⟨v, node, path, found, walk, rfl, represents⟩ :=
      ih ((filling_snoc_iff measured here).mp filling).1
    have before_sink := built.lt_sink found (represents.layer ▸ Nat.le_of_lt longer)
    obtain ⟨next, allowed, represents'⟩ := represents.exists_leads measured here filling
    obtain ⟨arc, mem, rfl, packs, head_at⟩ :=
      built.layered.leaves found before_sink allowed
    obtain ⟨a, arc_at⟩ := Array.getElem?_of_mem mem
    refine ⟨arc.head, _, path ++ [a], head_at, walk.append ⟨arc, arc_at, rfl, rfl⟩, ?_,
      represents'⟩
    rw [List.map_append, List.map_singleton, arcCopies_of_packingOf arc_at packs]

/-- What packed copies of items weigh in a dimension. -/
def packedWeight (items : List Item) (pattern : List Packing) (j : Nat) : Int :=
  (pattern.map fun packing =>
    (packing.copies : Int) * items[packing.item]?.elim 0 (·.weight.component j)).sum

theorem Walk.totalWeight_eq (walk : graph.Walk graph.source path v)
    (found : graph.nodes[v]? = some node) (inner : node.layer ≤ items.length) (j : Nat) :
    totalWeight j items (path.map graph.arcCopies) =
      packedWeight items (graph.pattern path) j := by
  induction path using List.reverseRecOn generalizing v node with
  | nil => simp [totalWeight, pattern, packedWeight]
  | append_singleton path a ih =>
    obtain ⟨_, front, arc, arc_at, rfl, rfl⟩ := walk_append_iff.mp walk
    obtain ⟨tail, head, tail_at, head_at, allowed⟩ := built.lead arc_at
    cases head_at.symm.trans found
    have climb := allowed.1
    obtain ⟨last, last_at, layer_eq⟩ := front.layer_target built built.source_at
    cases last_at.symm.trans tail_at
    have tail_layer : tail.layer = path.length := layer_eq.trans (Nat.zero_add _)
    have here : items[path.length]? = some items[path.length] :=
      List.getElem?_eq_getElem (by omega)
    have here' : items[(path.map graph.arcCopies).length]? = some items[path.length] := by
      rw [List.length_map, here]
    have packs : arc.packing = packingOf path.length (graph.arcCopies a) := by
      rw [allowed.packing_eq, arcCopies, arc_at, tail_layer]
      rfl
    rw [List.map_append, List.map_singleton, totalWeight_snoc here', ih front tail_at (by omega),
      pattern, pattern, List.filterMap_append, packedWeight, packedWeight, List.map_append,
      List.sum_append]
    congr 1
    by_cases zero : graph.arcCopies a = 0
    · simp [arc_at, packs, packingOf, zero]
    · simp [arc_at, packs, packingOf, zero, here]

/-! ## The bijection -/

/-- Copies of the items that are within their limits and fit into the bin together. -/
def Feasible (capacity : Load) (items : List Item) (k : Fin items.length → Nat) : Prop :=
  (∀ i, k i ≤ items[i].copies) ∧
    ∀ j < capacity.length, ∑ i, (k i : Int) * items[i].weight.component j ≤ capacity.component j

/-- The copies that a path packs of each of `n` items. -/
def copiesAlong (graph : FlowGraph) (n : Nat) (path : List Nat) (i : Fin n) : Nat :=
  path[i.val]?.elim 0 graph.arcCopies

omit built in
theorem totalWeight_ofFn (k : Fin items.length → Nat) (j : Nat) :
    totalWeight j items (List.ofFn k) = ∑ i, (k i : Int) * items[i].weight.component j := by
  rw [totalWeight, ← List.sum_ofFn]
  congr 1
  apply List.ext_getElem
  · simp
  · intro i _ _
    simp

omit built in
theorem filling_ofFn_iff (packable : Packable capacity items) (k : Fin items.length → Nat) :
    Filling capacity items (List.ofFn k) ↔ Feasible capacity items k := by
  constructor
  · rintro ⟨-, limits, within⟩
    refine ⟨fun i => limits i (k i) items[i] (by simp) (by simp), fun j _ => ?_⟩
    rw [← totalWeight_ofFn]
    exact within j
  · rintro ⟨limits, within⟩
    refine ⟨by simp, fun i copies item found here => ?_, fun j => ?_⟩
    · obtain ⟨bound, rfl⟩ := List.getElem?_eq_some_iff.mp here
      rw [List.getElem?_ofFn, dif_pos bound] at found
      cases found
      exact limits ⟨i, bound⟩
    · rw [totalWeight_ofFn]
      rcases Nat.lt_or_ge j capacity.length with inside | beyond
      · exact within j inside
      · rw [component_of_length_le beyond]
        apply Int.le_of_eq
        apply Finset.sum_eq_zero
        intro i _
        have dimension := packable.dimension items[i] (List.getElem_mem i.isLt)
        rw [component_of_length_le (dimension ▸ beyond), Int.mul_zero]

omit built in
theorem ofFn_copiesAlong {n : Nat} {ks : List Nat}
    (copies_eq : path.map graph.arcCopies = ks ++ [0]) (length_eq : ks.length = n) :
    List.ofFn (graph.copiesAlong n path) = ks := by
  apply List.ext_getElem
  · simp [length_eq]
  · intro i bound bound'
    have here : path[i]?.map graph.arcCopies = some ks[i] := by
      rw [← List.getElem?_map, copies_eq, List.getElem?_append_left bound',
        List.getElem?_eq_getElem bound']
    rw [List.getElem_ofFn, copiesAlong]
    cases found : path[i]? with
    | none => simp [found] at here
    | some a => simpa [found] using here

/-- A path from source to sink ends with an arc that packs nothing. -/
theorem Built.walk_sink_iff : graph.Walk graph.source path graph.sink ↔
    ∃ front a arc tail, path = front ++ [a] ∧ graph.Walk graph.source front arc.tail ∧
      graph.arcs[a]? = some arc ∧ arc.packing = none ∧ arc.head = graph.sink ∧
      graph.nodes[arc.tail]? = some tail ∧ tail.layer = items.length := by
  constructor
  · intro walk
    rcases List.eq_nil_or_concat path with rfl | ⟨front, a, rfl⟩
    · exact absurd walk built.source_ne_sink
    · rw [List.concat_eq_append] at walk ⊢
      obtain ⟨_, front_walk, arc, arc_at, rfl, head_eq⟩ := walk_append_iff.mp walk
      change arc.head = graph.sink at head_eq
      obtain ⟨tail, head, tail_at, head_at, allowed⟩ := built.lead arc_at
      rw [head_eq, built.sink_at] at head_at
      cases head_at
      have last : tail.layer = items.length := (Nat.succ.inj allowed.1).symm
      exact ⟨front, a, arc, tail, rfl, front_walk, arc_at, ((leads_sink last).mp allowed).1,
        head_eq, tail_at, last⟩
  · rintro ⟨front, a, arc, tail, rfl, front_walk, arc_at, -, head_eq, -⟩
    exact front_walk.append ⟨arc, arc_at, rfl, head_eq⟩

/-- The copies of a path from source to sink, as a list and as a vector. -/
theorem Built.map_arcCopies (packable : Packable capacity items)
    (walk : graph.Walk graph.source path graph.sink) :
    path.map graph.arcCopies = List.ofFn (graph.copiesAlong items.length path) ++ [0] ∧
      Feasible capacity items (graph.copiesAlong items.length path) := by
  obtain ⟨front, a, arc, tail, rfl, front_walk, arc_at, packs, -, tail_at, last⟩ :=
    built.walk_sink_iff.mp walk
  have represents := front_walk.represents built packable.measured packable.staysInRange tail_at
    (Nat.le_of_eq last)
  have copies_eq : (front ++ [a]).map graph.arcCopies = front.map graph.arcCopies ++ [0] := by
    rw [List.map_append, List.map_singleton, arcCopies, arc_at, Option.bind_some, packs]
    rfl
  have ks_eq := ofFn_copiesAlong copies_eq (represents.layer.symm.trans last)
  constructor
  · rw [copies_eq, ks_eq]
  · rw [← filling_ofFn_iff packable, ks_eq]
    exact represents.filling

/-- Paths from source to sink stand for the feasible vectors of copies, one each. -/
theorem Built.bijOn_copiesAlong (packable : Packable capacity items) :
    Set.BijOn (graph.copiesAlong items.length)
      {path | graph.Walk graph.source path graph.sink} {k | Feasible capacity items k} := by
  refine ⟨fun path walk => (built.map_arcCopies packable walk).2, ?_, ?_⟩
  · intro path walk path' walk' same_copies
    apply built.walk_unique walk walk'
    rw [(built.map_arcCopies packable walk).1, (built.map_arcCopies packable walk').1,
      same_copies]
  · intro k feasible
    obtain ⟨v, node, front, found, walk, copies_eq, represents⟩ :=
      built.exists_walk packable.measured ((filling_ofFn_iff packable k).mpr feasible)
    have last : node.layer = items.length := represents.layer.trans List.length_ofFn
    obtain ⟨arc, mem, rfl, packs, head_at⟩ := built.layered.leaves found
      (built.lt_sink found (Nat.le_of_eq last)) ((leads_sink last).mpr ⟨rfl, rfl⟩)
    obtain ⟨a, arc_at⟩ := Array.getElem?_of_mem mem
    have path_walk := built.walk_sink_iff.mpr ⟨front, a, arc, node, rfl, walk, arc_at, packs,
      built.eq_sink head_at rfl, found, last⟩
    refine ⟨front ++ [a], path_walk, List.ofFn_injective ?_⟩
    refine ofFn_copiesAlong ?_ List.length_ofFn
    rw [List.map_append, List.map_singleton, copies_eq, arcCopies, arc_at, Option.bind_some, packs]
    rfl

/-- The arcs of a path from source to sink, layer by layer. -/
theorem Built.path_layers (walk : graph.Walk graph.source path graph.sink) :
    path.length = items.length + 1 ∧
      ∀ i a : Nat, path[i]? = some a → ∃ arc tail, graph.arcs[a]? = some arc ∧
        graph.nodes[arc.tail]? = some tail ∧ tail.layer = i ∧
          ∀ packing ∈ arc.packing, packing.item = i := by
  constructor
  · rcases walk.layer_target built built.source_at with ⟨last, last_at, layer_eq⟩
    rw [built.sink_at] at last_at
    cases last_at
    simpa using layer_eq.symm
  · intro i a here
    rcases walk.layer_arc built built.source_at here with
      ⟨arc, tail, _, arc_at, tail_at, _, allowed, layer_eq⟩
    have layer_eq : tail.layer = i := by simpa using layer_eq
    exact ⟨arc, tail, arc_at, tail_at, layer_eq,
      fun packing packs => (allowed.item_eq packs).trans layer_eq⟩

theorem Built.load_length (packable : Packable capacity items)
    (found : graph.nodes[v]? = some node) :
    node.load.length = if v = graph.sink then 0 else capacity.length := by
  split
  · next at_sink =>
      rw [at_sink, built.sink_at] at found
      cases found
      rfl
  · next inner =>
      have below := built.layer_le found
      have not_top : node.layer ≠ items.length + 1 := fun top => inner (built.eq_sink found top)
      obtain ⟨path, walk⟩ := built.exists_walk_from_source found
      exact (walk.represents built packable.measured packable.staysInRange found
        (by omega)).dimension

end Built

/-- There is a graph of the ways to fill a bin. Its paths from source to sink correspond to the
feasible numbers of copies, item by item along their layers. Arcs go from each layer to
the next, every node is of use, and nodes differ in layer or load. The load of a node is
what any path to it has packed; only the sink, which all fillings share, has none. -/
theorem build_represents_fillings (capacity : Load) (items : List Item)
    (packable : Packable capacity items) :
    ∃ graph, build capacity items = .ok graph ∧
      Set.BijOn (graph.copiesAlong items.length)
        {path | graph.Walk graph.source path graph.sink} {k | Feasible capacity items k} ∧
      (∀ path, graph.Walk graph.source path graph.sink →
        path.length = items.length + 1 ∧
          ∀ i a : Nat, path[i]? = some a → ∃ arc tail, graph.arcs[a]? = some arc ∧
            graph.nodes[arc.tail]? = some tail ∧ tail.layer = i ∧
              ∀ packing ∈ arc.packing, packing.item = i) ∧
      (∀ arc ∈ graph.arcs, ∃ tail head, graph.nodes[arc.tail]? = some tail ∧
        graph.nodes[arc.head]? = some head ∧ head.layer = tail.layer + 1) ∧
      (∀ v < graph.nodes.size, ∃ before after,
        graph.Walk graph.source before v ∧ graph.Walk v after graph.sink) ∧
      (∀ (v w : Nat) node, graph.nodes[v]? = some node → graph.nodes[w]? = some node → v = w) ∧
      ∀ (v : Nat) node, graph.nodes[v]? = some node →
        node.load.length = (if v = graph.sink then 0 else capacity.length) ∧
          ∀ path, graph.Walk graph.source path v → ∀ j < node.load.length,
            node.load.component j = packedWeight items (graph.pattern path) j := by
  obtain ⟨graph, built_eq⟩ := exists_build packable.measured packable.staysInRange
  have built := build_built built_eq
  refine ⟨graph, built_eq, built.bijOn_copiesAlong packable, fun path => built.path_layers, ?_, ?_,
    ?_, ?_⟩
  · intro arc mem
    rcases built.layered.arcs_lead arc mem with ⟨tail, head, tail_at, head_at, allowed⟩
    exact ⟨tail, head, tail_at, head_at, allowed.1⟩
  · intro v bound
    have found : graph.nodes[v]? = some graph.nodes[v] := Array.getElem?_eq_getElem bound
    rcases built.exists_walk_from_source found with ⟨before, reach⟩
    rcases built.exists_walk_to_sink found with ⟨after, finish⟩
    exact ⟨before, after, reach, finish⟩
  · intro v w node found found'
    have bound := (Array.getElem?_eq_some_iff.mp found).1
    rw [← Array.getElem?_toList] at found found'
    exact (List.getElem?_inj bound built.layered.nodup).mp (found.trans found'.symm)
  · intro v node found
    refine ⟨built.load_length packable found, ?_⟩
    intro path walk j inside
    have inner : node.layer ≤ items.length := by
      by_contra above
      have below := built.layer_le found
      rw [built.eq_sink found (by omega), built.sink_at] at found
      cases found
      exact absurd inside (Nat.not_lt_zero j)
    rw [(walk.represents built packable.measured packable.staysInRange found inner).load,
      walk.totalWeight_eq built found inner]

/-- A bin for seven by five, and two items with at most two and three copies: exactly one
path packs one copy of the first and two of the second. -/
theorem build_represents_fillings_sevenByFive :
    Packable [7, 5] [⟨[3, 1], 2⟩, ⟨[2, 2], 3⟩] ∧
      ∃ graph, build [7, 5] [⟨[3, 1], 2⟩, ⟨[2, 2], 3⟩] = .ok graph ∧
        ∃! path, graph.Walk graph.source path graph.sink ∧
          graph.copiesAlong 2 path = ![1, 2] := by
  have packable : Packable [7, 5] [⟨[3, 1], 2⟩, ⟨[2, 2], 3⟩] :=
    ⟨by simp, by decide, by simp, by decide⟩
  obtain ⟨graph, built, represents, -⟩ := build_represents_fillings [7, 5] _ packable
  refine ⟨packable, graph, built, ?_⟩
  have feasible : Feasible [7, 5] [⟨[3, 1], 2⟩, ⟨[2, 2], 3⟩] ![1, 2] := by
    constructor <;> decide
  rcases represents.surjOn feasible with ⟨path, walk, copies_eq⟩
  refine ⟨path, ⟨walk, copies_eq⟩, ?_⟩
  rintro other ⟨walk', copies_eq'⟩
  exact represents.injOn walk' walk (copies_eq'.trans copies_eq.symm)

end ModelWeaver.FlowGraph
