import ModelWeaver.Failure
import ModelWeaver.Number.Int64Range

/-!
# Arc-flow graphs

The ways to fill a bin, as paths in a graph. A node is a load of the bin after some
of the items were decided on; an arc packs a number of copies of the next item, or
passes it over. From the last item all loads lead into the sink. A flow from
source to sink is a multiset of paths, that is, of filled bins.
-/

namespace ModelWeaver

open Number

/-- What is in a bin, in each of its dimensions. Loads are 64-bit words. -/
abbrev Load := List Int64

/-- A node: a load after the items of the first `layer` kinds. -/
structure FlowNode where
  load : Load
  layer : Nat
  deriving DecidableEq, Repr, Inhabited

/-- Some copies of an item. -/
structure Packing where
  item : Nat
  copies : Nat
  deriving DecidableEq, Repr, Inhabited

/-- An arc, with the copies that it packs. -/
structure FlowArc where
  tail : Nat
  head : Nat
  packing : Option Packing := none
  deriving DecidableEq, Repr, Inhabited

/-- A graph of loads. -/
structure FlowGraph where
  nodes : Array FlowNode
  arcs : Array FlowArc
  source : Nat
  sink : Nat
  deriving Repr, Inhabited

/-! ## Construction -/

/-- A load with copies of an item added. A product or sum that is no 64-bit word panics. -/
def Load.pack (load : Load) (copies : Nat) (weight : Load) : Except Failure Load :=
  (load.zip weight).mapM fun (l, w) => do
    let added ← Failure.orPanic .multiplication
      (int64? ((Int64.ofNat copies).toInt * w.toInt))
    Failure.orPanic .addition (addInt64? l added)

/-- Whether a load exceeds the capacity in some dimension. -/
def Load.exceeds (load capacity : Load) : Bool :=
  (load.zip capacity).any fun (l, c) => c < l

namespace FlowGraph

/-- The loads with 1, 2, … copies of an item added, as long as they fit, at most `limit` of them
after `copies`. -/
def packings (capacity weight load : Load) :
    (limit copies : Nat) → Except Failure (List (Nat × Load))
  | 0, _ => .ok []
  | limit + 1, copies => do
      let packed ← load.pack (copies + 1) weight
      if packed.exceeds capacity then return []
      return (copies + 1, packed) :: (← packings capacity weight load limit (copies + 1))

/-- An item: its weight and how many copies fit or are wanted. -/
structure Item where
  weight : Load
  copies : Nat
  deriving Inhabited

/-- The loads that can follow a load when an item is decided on: those with copies
packed, then the same load. -/
def choices (capacity : Load) (item : Item) (index : Nat) (load : Load) :
    Except Failure (List (Option Packing × Load)) := do
  let packings ← packings capacity item.weight load item.copies 0
  return (packings.map fun (copies, packed) => (some ⟨index, copies⟩, packed)) ++ [(none, load)]

/-- The loads of a layer, and the arcs to them. -/
structure Layer where
  loads : List Load
  arcs : List FlowArc

/-- The layer that follows when something is chosen at each of the nodes from `base` on. -/
def Layer.after (base : Nat) (chosen : List (List (Option Packing × Load))) : Layer :=
  let loads := (chosen.flatten.map Prod.snd).eraseDups
  { loads
    arcs := chosen.zipIdx.flatMap fun (choices, i) => choices.map fun (packing, load) =>
      ⟨base + i, base + chosen.length + loads.idxOf load, packing⟩ }

/-- The nodes of a layer. -/
def nodesAt (depth : Nat) (loads : List Load) : Array FlowNode :=
  (loads.map fun load => ⟨load, depth⟩).toArray

/-- Add a layer behind the nodes and arcs of a graph. -/
def addLayer (graph : FlowGraph) (depth : Nat) (layer : Layer) : FlowGraph :=
  { graph with
    nodes := graph.nodes ++ nodesAt depth layer.loads
    arcs := graph.arcs ++ layer.arcs.toArray }

/-- Add the layers of the items to a graph whose last layer is `loads`, numbered
from `base`; then the sink, to which all loads lead. -/
def addLayers (capacity : Load) (index base : Nat) (loads : List Load) (graph : FlowGraph) :
    List Item → Except Failure FlowGraph
  | [] =>
    let layer := .after base (loads.map fun _ => [(none, [])])
    .ok { graph.addLayer (index + 1) layer with sink := graph.nodes.size }
  | item :: items => do
      let layer := Layer.after base (← loads.mapM (choices capacity item index))
      addLayers capacity (index + 1) (base + loads.length) layer.loads
        (graph.addLayer (index + 1) layer) items

/-- The graph of the ways to fill a bin of some capacity with items. -/
def build (capacity : Load) (items : List Item) : Except Failure FlowGraph :=
  let empty : Load := List.replicate capacity.length 0
  addLayers capacity 0 0 [empty] { nodes := #[⟨empty, 0⟩], arcs := #[], source := 0, sink := 0 }
    items

/-! ## Paths -/

/-- The first arc out of a node that has some flow left. -/
def usableArc? (graph : FlowGraph) (flows : Array Nat) (node : Nat) : Option Nat :=
  (List.range graph.arcs.size).find? fun a =>
    graph.arcs[a]?.any (fun arc => arc.tail = node) && 0 < flows.getD a 0

/-- The arcs on a way from a node to the sink with flow left on all of them, in at
most `steps` steps. -/
def path? (graph : FlowGraph) (flows : Array Nat) : (steps node : Nat) → Option (List Nat)
  | 0, _ => none
  | steps + 1, node =>
    if node = graph.sink then some []
    else do
      let a ← graph.usableArc? flows node
      let arc ← graph.arcs[a]?
      return a :: (← graph.path? flows steps arc.head)

/-- Take some flow off each of the arcs. -/
def takeOff (amount : Nat) (path : List Nat) (flows : Array Nat) : Array Nat :=
  path.foldl (fun flows a => flows.modify a (· - amount)) flows

/-- What paths pack, each with the number of its occurrences. -/
abbrev Patterns := List (Nat × List Packing)

/-- Count a pattern; equal patterns are counted together. -/
def countPattern (amount : Nat) (pattern : List Packing) : Patterns → Patterns
  | [] => [(amount, pattern)]
  | (count, other) :: patterns =>
    if other = pattern then (count + amount, other) :: patterns
    else (count, other) :: countPattern amount pattern patterns

/-- What the arcs of a path pack. -/
def pattern (graph : FlowGraph) (path : List Nat) : List Packing :=
  path.filterMap fun a => graph.arcs[a]?.bind FlowArc.packing

/-- Take paths off a flow until `left` units are used up or no path is left, in at
most `rounds` rounds. -/
def peel (graph : FlowGraph) : (rounds : Nat) → (flows : Array Nat) → (left : Nat) →
    (patterns : Patterns) → Patterns
  | 0, _, _, patterns => patterns
  | rounds + 1, flows, left, patterns =>
    if left = 0 then patterns
    else match graph.path? flows graph.nodes.size graph.source with
      | none | some [] => patterns
      | some path =>
        let amount := (path.map fun a => flows.getD a 0).foldl min left
        graph.peel rounds (takeOff amount path flows) (left - amount)
          (countPattern amount (graph.pattern path) patterns)

/-- A flow of at most `limit` units as paths: how often each occurs and what it packs, as they
are found. Every round uses up an arc or the limit. -/
def decompose (graph : FlowGraph) (flows : Array Nat) (limit : Nat) : Patterns :=
  graph.peel (graph.arcs.size + 1) flows limit []

end FlowGraph

end ModelWeaver
