import ModelWeaver.Context
import ModelWeaver.Generator.DisjointSets
import ModelWeaver.Generator.Invocation
import ModelWeaver.Model.Declaration
import ModelWeaver.Model.Program

/-!
# Tours

A tour is a circuit of chosen arcs through all nodes of a directed graph. Every
formulation says that one chosen arc enters and one leaves each node, forbids
smaller circuits in its own way, and gives each pair of nodes a variable that adds
up the two arcs between them. Solutions are decoded by following chosen arcs, and
cut off where pairs close a circuit too early.
-/

namespace ModelWeaver

open Model

mutual

/-- The part of generated names that stands for a node. -/
def nodeLabel : Value → String
  | .tuple items => "_".intercalate (nodeLabels items)
  | node => node.text
termination_by structural node => node

/-- The labels of several nodes. -/
def nodeLabels : List Value → List String
  | [] => []
  | item :: items => nodeLabel item :: nodeLabels items
termination_by structural items => items

end

/-- An arc between two of `n` nodes, with the variable that says whether it is
chosen. -/
structure TourArc (n : Nat) where
  tail : Fin n
  head : Fin n
  name : String
  deriving DecidableEq, Repr

/-- A graph in which a tour is sought. -/
structure Tour where
  /-- The indexed variable whose elements choose the arcs. -/
  arcVariable : String
  /-- The start of all names that are made up for this tour. -/
  stem : String
  nodes : Array Value
  arcs : List (TourArc nodes.size)
  start : Fin nodes.size

namespace Tour

/-! ## Construction -/

/-- The position of a node. -/
def position (nodes : Array Value) (node : Value) : Except Failure (Fin nodes.size) :=
  match nodes.findFinIdx? fun other => other.equals node with
  | some i => .ok i
  | none => .error (.badArgument (.nodeUnknown node.repr))

/-- The ends of an arc. -/
def arcEnds (nodes : Array Value) (arc : Value) :
    Except Failure (Fin nodes.size × Fin nodes.size) := do
  match ← arc.elements with
  | [tail, head] => return (← position nodes tail, ← position nodes head)
  | _ => throw (.badArgument .arcShape)

/-- The arc with given ends. -/
def makeArc (arcVariable : String) (nodes : Array Value)
    (ends : Fin nodes.size × Fin nodes.size) : Except Failure (TourArc nodes.size) := do
  let tail ← literal nodes[ends.1]
  let head ← literal nodes[ends.2]
  return ⟨ends.1, ends.2, s!"{arcVariable}[{tail},{head}]"⟩

/-- The tour in a graph of at least two nodes. It starts at the first of them
unless another start is given. -/
def ofValues (arcVariable stem : String) (nodes : Array Value) (arcs : List Value)
    (start : Option Value) : Except Failure Tour := do
  if few : nodes.size < 2 then throw (.badArgument .tourTooSmall)
  else
    let ends ← arcs.mapM (arcEnds nodes)
    let start ← match start with
      | some node => position nodes node
      | none => pure ⟨0, Nat.lt_of_lt_of_le Nat.two_pos (Nat.le_of_not_lt few)⟩
    let arcs ← ends.mapM (makeArc arcVariable nodes)
    return { arcVariable, stem, nodes, arcs, start }

variable (tour : Tour)

/-- The number of nodes. -/
abbrev size : Nat := tour.nodes.size

/-- A node, by its position. -/
abbrev Node := Fin tour.size

/-- An arc between two nodes. -/
abbrev Arc := TourArc tour.size

/-- The label of a node. -/
def label (i : tour.Node) : String := nodeLabel tour.nodes[i]

/-- The arc between two nodes. -/
def arc? (tail head : tour.Node) : Option tour.Arc :=
  tour.arcs.find? fun arc => arc.tail = tail && arc.head = head

/-- The arcs into a node. -/
def arcsInto (node : tour.Node) : List tour.Arc :=
  tour.arcs.filter fun arc => arc.head = node

/-- The arcs out of a node. -/
def arcsOutOf (node : tour.Node) : List tour.Arc :=
  tour.arcs.filter fun arc => arc.tail = node

/-! ## One arc into and one out of each node -/

/-- The variables of the arcs. -/
def arcVariables : List Variable :=
  tour.arcs.map fun arc =>
    { name := arc.name, lower := some 0.0, upper := some 1.0, type := .binary }

/-- The first node that no arc enters or none leaves. -/
def unconnected? : Option tour.Node :=
  (List.finRange tour.size).find? fun node =>
    (tour.arcsInto node).isEmpty || (tour.arcsOutOf node).isEmpty

/-- One chosen arc enters and one leaves each node. -/
def assignment : List (Relation Int) :=
  (List.finRange tour.size).flatMap fun node =>
    [⟨.ofNames ((tour.arcsInto node).map TourArc.name), .eq, .constant 1⟩,
      ⟨.ofNames ((tour.arcsOutOf node).map TourArc.name), .eq, .constant 1⟩]

/-! ## Pairs of nodes -/

/-- The two ends of an arc, the lesser first. -/
def pairOf (arc : tour.Arc) : tour.Node × tour.Node :=
  if arc.tail ≤ arc.head then (arc.tail, arc.head) else (arc.head, arc.tail)

/-- The pairs of nodes with an arc between them, each listed once. -/
def pairs : List (tour.Node × tour.Node) :=
  tour.arcs.foldl (fun pairs arc =>
    if pairs.contains (tour.pairOf arc) then pairs else pairs ++ [tour.pairOf arc]) []

/-- The name of the variable of a pair. -/
def pairName (pair : tour.Node × tour.Node) : String :=
  s!"{tour.stem}c_{tour.label pair.1}_{tour.label pair.2}"

/-- The variables of the pairs. -/
def pairVariables : List Variable :=
  tour.pairs.map fun pair =>
    { name := tour.pairName pair, lower := some 0.0, upper := some 1.0 }

/-- The variable of a pair is the sum of the arcs in both directions. -/
def pairRelations : List (Relation Int) :=
  tour.pairs.map fun pair =>
    let both := [tour.arc? pair.1 pair.2, tour.arc? pair.2 pair.1]
    ⟨.ofNames (both.filterMap fun arc => arc.map TourArc.name), .eq,
      .single (tour.pairName pair)⟩

/-! ## Potentials -/

/-- The name of the potential of a node. -/
def potential (i : tour.Node) : String := s!"{tour.stem}u_{tour.label i}"

/-- Each node but the start has a potential. -/
def potentialVariables : List Variable :=
  ((List.finRange tour.size).filter (· ≠ tour.start)).map fun i =>
    { name := tour.potential i, lower := some 0.0 }

/-- The potential grows along chosen arcs away from the start. A lifted relation
also counts the arc in the other direction. -/
def potentialRelations (lifted : Bool) : List (Relation Int) :=
  let away := tour.arcs.filter fun arc => arc.tail ≠ tour.start && arc.head ≠ tour.start
  away.map fun arc =>
    let back := if lifted then tour.arc? arc.head arc.tail else none
    let terms := [
      .term (tour.potential arc.tail) 1,
      .term (tour.potential arc.head) (-1),
      .term arc.name (tour.size - 1)]
    let lifting := back.toList.map fun arc => .term arc.name (tour.size - 3)
    ⟨.sum (terms ++ lifting), .le, .constant (tour.size - 2)⟩

/-! ## Flows -/

/-- What flows into a node minus what flows out, where `flow` names the flow on an
arc. -/
def balance (node : tour.Node) (flow : tour.Arc → String) : Operand Int :=
  .sum (((tour.arcsInto node).map fun arc => .term (flow arc) 1) ++
    (tour.arcsOutOf node).map fun arc => .term (flow arc) (-1))

/-- The name of the flow on an arc. -/
def flow (arc : tour.Arc) : String :=
  s!"{tour.stem}y_{tour.label arc.tail}_{tour.label arc.head}"

/-- The variables of a single flow. -/
def flowVariables : List Variable :=
  tour.arcs.map fun arc => { name := tour.flow arc, lower := some 0.0 }

/-- One flow on chosen arcs grows by one at each node, and all of it arrives at the
start. -/
def flowRelations : List (Relation Int) :=
  (tour.arcs.map fun arc =>
    let capacity : Int := if arc.head = tour.start then tour.size - 1 else tour.size - 2
    ⟨.single (tour.flow arc), .le, .term arc.name capacity⟩) ++
  (List.finRange tour.size).map fun node =>
    let gain : Int := if node = tour.start then tour.size - 1 else -1
    ⟨tour.balance node tour.flow, .eq, .constant gain⟩

/-- The nodes that a flow of their own goes to: all but the start. -/
def commodities : List tour.Node := (List.finRange tour.size).filter (· ≠ tour.start)

/-- The name of the flow to one node on an arc. -/
def flowTo (commodity : tour.Node) (arc : tour.Arc) : String :=
  s!"{tour.flow arc}_{tour.label commodity}"

/-- The variables of the flows to all nodes. -/
def flowToVariables : List Variable :=
  tour.arcs.flatMap fun arc => tour.commodities.map fun commodity =>
    { name := tour.flowTo commodity arc, lower := some 0.0 }

/-- A unit of each flow goes from the start to its node, along chosen arcs. -/
def flowToRelations : List (Relation Int) :=
  (tour.arcs.flatMap fun arc => tour.commodities.map fun commodity =>
    ⟨.single (tour.flowTo commodity arc), .le, .single arc.name⟩) ++
  (List.finRange tour.size).flatMap fun node => tour.commodities.map fun commodity =>
    let gain : Int := if node = commodity then 1 else if node = tour.start then -1 else 0
    ⟨tour.balance node (tour.flowTo commodity), .eq, .constant gain⟩

/-! ## Formulations -/

/-- How smaller circuits are forbidden. -/
inductive Formulation where
  /-- By potentials that grow along the tour. -/
  | potentials
  /-- By one flow that serves all nodes. -/
  | singleFlow
  /-- By a flow for each node. -/
  | manyFlows
  deriving DecidableEq, Repr, Inhabited

namespace Formulation

/-- The command of a formulation. -/
def command : Formulation → String
  | potentials => "ATSP_MTZ"
  | singleFlow => "ATSP_SCF"
  | manyFlows => "ATSP_MCF"

/-- The parameters of the command; only potentials can be lifted. -/
def parameters : Formulation → List String
  | potentials => ["V", "A", "start", "DL"]
  | singleFlow | manyFlows => ["V", "A", "start"]

/-- The variables that a formulation needs besides those of arcs and pairs. -/
def vars : Formulation → Tour → List Variable
  | potentials => potentialVariables
  | singleFlow => flowVariables
  | manyFlows => flowToVariables

/-- The relations that forbid smaller circuits. -/
def relations (formulation : Formulation) (lifted : Bool) (tour : Tour) :
    List (Relation Int) :=
  match formulation with
  | potentials => tour.potentialRelations lifted
  | singleFlow => tour.flowRelations
  | manyFlows => tour.flowToRelations

end Formulation

/-- All relations of a tour in a formulation. -/
def relations (formulation : Formulation) (lifted : Bool) : List (Relation Int) :=
  tour.assignment ++ formulation.relations lifted tour ++ tour.pairRelations

/-- All variables of a tour in a formulation. -/
def vars (formulation : Formulation) : List Variable :=
  tour.arcVariables ++ formulation.vars tour ++ tour.pairVariables

/-- The program of a tour. Every node needs an arc in and an arc out. -/
def program (formulation : Formulation) (lifted : Bool) : Except Failure Program :=
  match tour.unconnected? with
  | some node => .error (.badArgument (.nodeUnconnected tour.nodes[node].repr))
  | none =>
    Program.build (tour.vars formulation)
      ((tour.relations formulation lifted).map (Relation.map Float.ofInt))

/-- `ATSP_MTZ[x]{V, A, start=None, DL=False}` and the commands of the flows. -/
def run (formulation : Formulation) (invocation : Invocation) : Action Context Tour := do
  let symbol ← SymbolName.parse (← invocation.requireIndex formulation.command)
  let (tour, lifted) ← invocation.arguments.reading formulation.command
    formulation.parameters 2 do
      let nodes ← (← Bound.required "V").elements
      let arcs ← (← Bound.required "A").elements
      let start ← Bound.take "start"
      let lifted ← Bound.flag "DL"
      return (← ofValues symbol.name invocation.stem nodes.toArray arcs start, lifted)
  let program ← tour.program formulation lifted
  modify (·.emit .model (program.renderFor invocation.stem []))
  return tour

/-! ## Solutions -/

/-- A pair counts as chosen if its value is this close to one. -/
def linkTolerance : Float := 1e-5

/-- Whether a solution chooses a pair. -/
def isLinked (solution : Solution) (pair : tour.Node × tour.Node) : Bool :=
  (1.0 - solution (tour.pairName pair)).abs < linkTolerance

/-- The nodes, joined along the pairs that a solution chooses. -/
def linked (solution : Solution) : DisjointSets :=
  (tour.pairs.filter (tour.isLinked solution)).foldl
    (fun sets pair => sets.link pair.1 pair.2) (DisjointSets.singletons tour.size)

/-- The cut for a group of nodes: fewer pairs inside than nodes may be chosen. It needs three or
more nodes and a solution that breaks it. -/
def cut? (solution : Solution) (group : List Nat) : Option Constraint :=
  let inside := (tour.pairs.filter fun pair =>
    group.contains pair.1.val && group.contains pair.2.val).map tour.pairName
  let limit := Float.ofNat (group.length - 1)
  let total := inside.foldl (fun total name => total + solution name) 0.0
  if 2 < group.length && limit < total then
    (Constraint.ofRelation ⟨.ofNames inside, .le, .constant limit⟩).toOption
  else none

/-- The cuts that a solution breaks. There are none if the chosen pairs join all
nodes. -/
def cuts (solution : Solution) : List Constraint :=
  let sets := tour.linked solution
  if sets.count ≤ 1 then [] else sets.groups.filterMap (tour.cut? solution)

/-- The node after a given one: the end of its first chosen arc. -/
def next? (solution : Solution) (node : tour.Node) : Option tour.Node :=
  (tour.arcs.find? fun arc => arc.tail = node && 0.5 < solution arc.name).map TourArc.head

/-- The nodes on a way from `current` of at most `steps` steps, up to one that was visited before
or has none after it. -/
def follow {n : Nat} (next? : Fin n → Option (Fin n)) :
    (steps : Nat) → (visited : List (Fin n)) → (current : Fin n) → List (Fin n)
  | 0, _, _ => []
  | steps + 1, visited, current =>
    match next? current with
    | none => []
    | some next =>
      if visited.contains next then [next]
      else next :: follow next? steps (next :: visited) next

/-- The nodes on the way from the start along chosen arcs. -/
def route (solution : Solution) : List tour.Node :=
  tour.start :: follow (tour.next? solution) tour.size [tour.start] tour.start

/-- The sum over all arcs, and the way from the start. -/
def decode (solution : Solution) : Decoded where
  name := tour.arcVariable
  value := tour.arcs.foldl (fun total arc => total + solution arc.name) 0.0
  paths := [⟨1, (tour.route solution).map tour.label⟩]

end Tour

end ModelWeaver
