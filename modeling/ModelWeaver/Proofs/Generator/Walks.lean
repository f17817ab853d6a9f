import ModelWeaver.Proofs.Generator.Layers
import Mathlib.Data.List.Count

/-!
# Walks in an arc-flow graph

A walk is a list of arcs, each given by its number, that leads from one node to
another. In a built graph the arcs of a walk climb one layer each. So a walk never
uses an arc twice, never packs the same item twice, and has as many arcs as there
are layers between its ends.
-/

namespace ModelWeaver.FlowGraph

variable {node target : Nat} {path : List Nat}

/-- The arcs with the given numbers lead from one node to another. -/
def Walk (graph : FlowGraph) : Nat → List Nat → Nat → Prop
  | node, [], target => node = target
  | node, a :: path, target =>
    ∃ arc, graph.arcs[a]? = some arc ∧ arc.tail = node ∧ graph.Walk arc.head path target

variable {graph : FlowGraph}

theorem walk_append_iff {rest : List Nat} :
    graph.Walk node (path ++ rest) target ↔
      ∃ middle, graph.Walk node path middle ∧ graph.Walk middle rest target := by
  induction path generalizing node with
  | nil =>
    refine ⟨fun walk => ⟨node, rfl, walk⟩, ?_⟩
    rintro ⟨_, ⟨⟩, walk⟩
    exact walk
  | cons a path ih =>
    constructor
    · rintro ⟨arc, found, tail_eq, walk⟩
      obtain ⟨middle, start, finish⟩ := ih.mp walk
      exact ⟨middle, ⟨arc, found, tail_eq, start⟩, finish⟩
    · rintro ⟨middle, ⟨arc, found, tail_eq, start⟩, finish⟩
      exact ⟨arc, found, tail_eq, ih.mpr ⟨middle, start, finish⟩⟩

theorem Walk.append {middle : Nat} {rest : List Nat} (start : graph.Walk node path middle)
    (finish : graph.Walk middle rest target) : graph.Walk node (path ++ rest) target :=
  walk_append_iff.mpr ⟨middle, start, finish⟩

/-- Whether the arc with a number has a property. -/
def onArc (graph : FlowGraph) (property : FlowArc → Bool) (a : Nat) : Bool :=
  graph.arcs[a]?.any property

theorem onArc_of_eq_some {property : FlowArc → Bool} {a : Nat} {arc : FlowArc}
    (found : graph.arcs[a]? = some arc) : graph.onArc property a = property arc := by
  rw [onArc, found]
  rfl

theorem Walk.count_tail (walk : graph.Walk node path target) (v : Nat) :
    path.countP (graph.onArc fun arc => arc.tail = v) + (if target = v then 1 else 0) =
      path.countP (graph.onArc fun arc => arc.head = v) + if node = v then 1 else 0 := by
  induction path generalizing node with
  | nil =>
    change node = target at walk
    simp [walk]
  | cons a path ih =>
    rcases walk with ⟨arc, found, rfl, walk⟩
    have rest := ih walk
    simp only [List.countP_cons, onArc_of_eq_some found, decide_eq_true_eq]
    omega

/-! ## Walks climb -/

/-- What an arc of a layer packs for a number of copies. -/
def packingOf (index k : Nat) : Option Packing := if k = 0 then none else some ⟨index, k⟩

theorem Leads.packing_eq {capacity : Load} {items : List Item} {tail head : FlowNode}
    {packing : Option Packing} (allowed : Leads capacity items tail packing head) :
    packing = packingOf tail.layer (packing.elim 0 Packing.copies) := by
  rcases allowed with ⟨_, allowed⟩
  cases here : items[tail.layer]? with
  | none =>
    simp only [here] at allowed
    rw [allowed.2.1]
    rfl
  | some item =>
    simp only [here] at allowed
    rcases allowed with ⟨rfl, -⟩ | ⟨k, tried, -, rfl⟩
    · rfl
    · exact (if_neg (Nat.ne_of_gt tried.positive)).symm

theorem Leads.item_eq {capacity : Load} {items : List Item} {tail head : FlowNode}
    {packing : Option Packing} {packed : Packing}
    (allowed : Leads capacity items tail packing head) (packs : packing = some packed) :
    packed.item = tail.layer := by
  have packing_eq := allowed.packing_eq
  rw [packs, packingOf] at packing_eq
  split at packing_eq
  · cases packing_eq
  · exact congrArg Packing.item (Option.some.inj packing_eq)

section Built

variable {capacity : Load} {items : List Item} {graph : FlowGraph}
  (built : Built capacity items graph)
include built

theorem Built.lead {a : Nat} {arc : FlowArc} (found : graph.arcs[a]? = some arc) :
    ∃ tail head, graph.nodes[arc.tail]? = some tail ∧ graph.nodes[arc.head]? = some head ∧
      Leads capacity items tail arc.packing head :=
  built.layered.arcs_lead arc (Array.mem_of_getElem? found)

theorem Built.head_ne_source {a : Nat} {arc : FlowArc} (found : graph.arcs[a]? = some arc) :
    arc.head ≠ graph.source := by
  intro head_eq
  rcases built.lead found with ⟨tail, head, _, head_at, allowed⟩
  rw [head_eq, built.source_at] at head_at
  have bottom := congrArg FlowNode.layer (Option.some.inj head_at)
  have above := allowed.1
  simp only at bottom
  omega

theorem Built.layer_le {v : Nat} {node : FlowNode} (found : graph.nodes[v]? = some node) :
    node.layer ≤ items.length + 1 := by
  rcases Nat.lt_or_ge v graph.sink with before | after
  · exact Nat.le_of_lt (built.layered.early found before)
  · exact Nat.le_of_eq (built.layered.late found after)

theorem Built.eq_sink {v : Nat} {node : FlowNode} (found : graph.nodes[v]? = some node)
    (top : node.layer = items.length + 1) : v = graph.sink := by
  obtain ⟨bound, _⟩ := Array.getElem?_eq_some_iff.mp found
  have last := built.sink_last
  rcases Nat.lt_or_ge v graph.sink with before | after
  · have := built.layered.early found before
    omega
  · omega

theorem Built.source_ne_sink : graph.source ≠ graph.sink := by
  have below := built.layered.depth_le
  have first := built.source_first
  omega

theorem Built.layers_le : items.length + 2 ≤ graph.nodes.size := by
  have below := built.layered.depth_le
  have last := built.sink_last
  omega

variable {v target : Nat} {path : List Nat} {node : FlowNode}

theorem Walk.first_arc {a : Nat} (walk : graph.Walk v (a :: path) target)
    (found : graph.nodes[v]? = some node) :
    ∃ arc head, graph.arcs[a]? = some arc ∧ arc.tail = v ∧ graph.nodes[arc.head]? = some head ∧
      Leads capacity items node arc.packing head ∧ graph.Walk arc.head path target := by
  rcases walk with ⟨arc, arc_at, rfl, walk⟩
  rcases built.lead arc_at with ⟨tail, head, tail_at, head_at, allowed⟩
  cases tail_at.symm.trans found
  exact ⟨arc, head, arc_at, rfl, head_at, allowed, walk⟩

variable (walk : graph.Walk v path target) (found : graph.nodes[v]? = some node)
include walk found

theorem Walk.layer_target :
    ∃ last, graph.nodes[target]? = some last ∧ last.layer = node.layer + path.length := by
  induction path generalizing v node with
  | nil =>
    change v = target at walk
    exact ⟨node, walk ▸ found, rfl⟩
  | cons a path ih =>
    rcases walk.first_arc built found with ⟨arc, head, _, _, head_at, allowed, walk⟩
    rcases ih walk head_at with ⟨last, last_at, last_layer⟩
    refine ⟨last, last_at, ?_⟩
    rw [last_layer, allowed.1, List.length_cons]
    omega

/-- The arc at each place of a walk starts as many layers up. -/
theorem Walk.layer_arc {i a : Nat} (here : path[i]? = some a) :
    ∃ arc tail head, graph.arcs[a]? = some arc ∧ graph.nodes[arc.tail]? = some tail ∧
      graph.nodes[arc.head]? = some head ∧ Leads capacity items tail arc.packing head ∧
      tail.layer = node.layer + i := by
  induction path generalizing v node i with
  | nil => simp at here
  | cons b path ih =>
    rcases walk.first_arc built found with ⟨arc, head, arc_at, rfl, head_at, allowed, walk⟩
    cases i with
    | zero =>
      simp only [List.getElem?_cons_zero, Option.some.injEq] at here
      subst here
      exact ⟨arc, node, head, arc_at, found, head_at, allowed, rfl⟩
    | succ i =>
      rcases ih walk head_at here with
        ⟨later, tail', head', later_at, tail_at', head_at', allowed', layer_eq⟩
      refine ⟨later, tail', head', later_at, tail_at', head_at', allowed', ?_⟩
      rw [layer_eq, allowed.1]
      omega

theorem Walk.nodup : path.Nodup := by
  rw [List.nodup_iff_getElem?_ne_getElem?]
  intro i j less bound same
  have later : path[j]? = some path[j] := List.getElem?_eq_getElem bound
  rcases walk.layer_arc built found later with ⟨arc, tail, _, arc_at, tail_at, _, _, layer_j⟩
  rcases walk.layer_arc built found (same.trans later) with
    ⟨arc', tail', _, arc_at', tail_at', _, _, layer_i⟩
  rw [arc_at] at arc_at'
  cases arc_at'
  rw [tail_at] at tail_at'
  cases tail_at'
  omega

/-! ## What a walk packs -/

/-- A walk packs items in increasing order. -/
theorem Walk.pairwise_pattern :
    (graph.pattern path).Pairwise (fun first second => first.item < second.item) ∧
      ∀ packed ∈ graph.pattern path, node.layer ≤ packed.item := by
  induction path generalizing v node with
  | nil => simp [pattern]
  | cons a path ih =>
    rcases walk.first_arc built found with ⟨arc, head, arc_at, _, head_at, allowed, walk⟩
    rcases ih walk head_at with ⟨ordered, above⟩
    have step := allowed.1
    have pattern_eq : graph.pattern (a :: path) =
        arc.packing.toList ++ graph.pattern path := by
      cases packs : arc.packing <;> simp [pattern, arc_at, packs]
    rw [pattern_eq]
    cases packs : arc.packing with
    | none =>
      refine ⟨ordered, ?_⟩
      intro packed mem
      have := above packed mem
      omega
    | some own =>
      have item_eq := allowed.item_eq packs
      constructor
      · apply List.Pairwise.cons _ ordered
        intro packed mem
        have := above packed mem
        omega
      · intro packed mem
        rcases List.mem_cons.mp mem with rfl | later
        · exact Nat.le_of_eq item_eq.symm
        · have := above packed later
          omega

theorem Walk.nodup_pattern : (graph.pattern path).Nodup := by
  apply (walk.pairwise_pattern built found).1.imp
  intro first second less equal
  exact Nat.ne_of_lt less (congrArg Packing.item equal)

end Built

end ModelWeaver.FlowGraph
