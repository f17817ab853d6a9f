import ModelWeaver.Context
import ModelWeaver.Generator.ArcFlow
import ModelWeaver.Generator.Invocation
import ModelWeaver.Model.Program

/-!
# Bin packing

`VBP_FLOW` writes a bin packing problem as a flow in the graph of the ways to fill
a bin. One variable counts the bins; each item is packed as often as is demanded.
-/

namespace ModelWeaver.BinPacking

open Model

/-- How many copies of an item are wanted: a number, or the value of a variable. -/
inductive Demand where
  | fixed (count : Int64)
  | variable (name : String)
  deriving DecidableEq, Repr, Inhabited

/-- The variable of a demand. -/
def Demand.name? : Demand → Option String
  | fixed _ => none
  | .variable name => some name

/-- A problem: a bin, and items that are to be packed into copies of it. -/
structure Problem where
  /-- The variable that counts the bins. -/
  binVariable : String
  capacity : Load
  weights : List Load
  demands : List Demand
  bounds : Option (List Int64)
  labels : Option (List String)
  /-- Whether a bin takes at most one copy of each item. -/
  binary : Bool
  deriving Inhabited

/-! ## Reading -/

/-- Integers in a list or tuple, or a single one. -/
def integers (value : Value) (what : String) : Except Failure (List Int64) :=
  match value with
  | .list items | .tuple items => items.mapM Value.toInteger
  | value =>
    if value.isNumber then return [← value.toInteger]
    else value.mismatch s!"{what} as integers"

/-- Read a demand. -/
def Demand.ofValue (value : Value) : Except Failure Demand :=
  match value with
  | .str name => .ok (.variable name)
  | value => return fixed (← value.toInteger)

/-- Take the arguments of the command. -/
def takeProblem (binVariable : String) : Taking Problem := do
  let capacity ← integers (← Bound.required "W") "capacities"
  let weights ← (← (← Bound.required "w").elements).mapM fun weight =>
    liftM (integers weight "weights")
  let demands ← (← (← Bound.required "b").elements).mapM fun demand =>
    liftM (Demand.ofValue demand)
  let bounds ← match ← Bound.take "bounds" with
    | some bounds => pure (some (← integers bounds "bounds"))
    | none => pure none
  let labels ← match ← Bound.take "labels" with
    | some labels => pure (some ((← labels.elements).map Value.text))
    | none => pure none
  let binary ← Bound.flag "binary"
  return { binVariable, capacity, weights, demands, bounds, labels, binary }

namespace Problem

variable (problem : Problem)

/-- The number of items. -/
def size : Nat := problem.weights.length

/-- Refuse a problem whose lists do not match. -/
def check : Except Failure Unit := do
  if problem.demands.length ≠ problem.size ||
      (problem.bounds.any fun bounds => bounds.length ≠ problem.size) ||
      (problem.labels.any fun labels => labels.length ≠ problem.size) then
    throw (.badArgument .flowLengths)
  match problem.weights.zipIdx.find? fun (weight, _) =>
      weight.length ≠ problem.capacity.length with
  | some (weight, i) =>
    throw (.badArgument (.flowWeights (i + 1) weight.length problem.capacity.length))
  | none => return ()

/-! ## Copies in one bin -/

/-- How many copies of an item one bin holds at most, going by the dimensions in
which the item has a weight. -/
def fitting? (weight : Load) : Except Failure (Option Int64) := do
  let counts ← ((problem.capacity.zip weight).filter fun (_, w) => w ≠ 0).mapM fun (c, w) =>
    Failure.orPanic .division (Number.quotientInt64? c w)
  return counts.min?

/-- The limit on copies of the item at a position, before it is known to be
positive. -/
def copyLimit (i : Nat) (weight : Load) : Demand → Except Failure Int64
  | .fixed count => .ok (max count 0)
  | .variable _ => do
      match ← problem.fitting? weight with
      | none => throw (.badArgument (.flowWeightless (i + 1)))
      | some limit =>
        match problem.bounds.bind fun bounds => bounds[i]? with
        | some bound => return min limit bound
        | none => return limit

/-- The items, with the copies of each that one bin may take. -/
def items : Except Failure (List FlowGraph.Item) :=
  (problem.weights.zip problem.demands).zipIdx.mapM fun ((weight, demand), i) => do
    let limit ← problem.copyLimit i weight demand
    let limit := if problem.binary then min limit 1 else limit
    return { weight, copies := limit.toInt.toNat }

/-- The labels of the items: as given, or made from their demands. -/
def itemLabels : List String :=
  problem.labels.getD (problem.demands.zipIdx.map fun (demand, i) =>
    demand.name?.getD s!"i={i + 1}")

end Problem

/-! ## The program -/

/-- The name of the flow on an arc. -/
def flow (stem : String) (a : Nat) : String := s!"{stem}f{a}"

/-- The arcs of a graph with the names of their flows. -/
def flows (stem : String) (graph : FlowGraph) : List (String × FlowArc) :=
  graph.arcs.toList.zipIdx.map fun (arc, a) => (flow stem a, arc)

/-- The bound on the flow of an arc: that of the item it packs. -/
def flowBound (problem : Problem) (arc : FlowArc) : Option Float := do
  let packing ← arc.packing
  let bounds ← problem.bounds
  let bound ← bounds[packing.item]?
  return Float.ofInt bound.toInt

/-- The variables: the number of bins, the flows and the demands. -/
def vars (problem : Problem) (flows : List (String × FlowArc)) : List Variable :=
  { name := problem.binVariable, lower := some 0.0, type := .integer } ::
    (flows.map fun (name, arc) =>
      { name, lower := some 0.0, upper := flowBound problem arc, type := .integer }) ++
    (problem.demands.filterMap Demand.name?).map fun name =>
      { name, lower := some 0.0, type := .integer }

/-- As much flows into a node as out of it. The bins flow from the sink back to the
source. -/
def conservation (problem : Problem) (graph : FlowGraph) (flows : List (String × FlowArc))
    (node : Nat) : Relation Int :=
  let bins (sign : Int) (here : Bool) : List (Operand Int) :=
    if here then [.term problem.binVariable sign] else []
  let arcs := flows.flatMap fun (name, arc) =>
    (if arc.head = node then [.term name 1] else []) ++
      if arc.tail = node then [.term name (-1)] else []
  ⟨.sum (bins 1 (node = graph.source) ++ bins (-1) (node = graph.sink) ++ arcs), .eq,
    .constant 0⟩

/-- The packed copies of an item, as multiples of flows. -/
def packed (flows : List (String × FlowArc)) (item : Nat) : List (Operand Int) :=
  flows.filterMap fun (name, arc) =>
    match arc.packing with
    | some packing =>
      if packing.item = item then some (.term name packing.copies) else none
    | none => none

/-- An item is packed as often as is demanded; a number above one may be
exceeded. Nothing is said about an item that is neither wanted nor fits. -/
def satisfaction (flows : List (String × FlowArc)) (i : Nat) (demand : Demand) :
    Except Failure (Option (Relation Int)) :=
  match packed flows i, demand with
  | [], .fixed count =>
    if count = 0 then .ok none else .error (.badArgument (.flowTooLarge (i + 1)))
  | [], .variable _ => .error (.badArgument (.flowTooLarge (i + 1)))
  | packed, .variable name => .ok (some ⟨.sum packed, .eq, .single name⟩)
  | packed, .fixed count =>
    .ok (some ⟨.sum packed, if 1 < count then .ge else .eq, .constant count.toInt⟩)

/-- The program of a problem. -/
def program (stem : String) (problem : Problem) (graph : FlowGraph) :
    Except Failure Program := do
  let flows := flows stem graph
  let demands ← problem.demands.zipIdx.mapM fun (demand, i) => satisfaction flows i demand
  let relations := (List.range graph.nodes.size).map (conservation problem graph flows) ++
    demands.filterMap id
  Program.build (vars problem flows) (relations.map (Relation.map Float.ofInt))

/-! ## Runs -/

/-- A problem that was written, as far as its solutions need it. -/
structure Run where
  binVariable : String
  stem : String
  graph : FlowGraph
  labels : List String
  deriving Inhabited

/-- `VBP_FLOW[Z]{W, w, b, bounds=None, labels=None, binary=False}` -/
def run (invocation : Invocation) : Action Context Run := do
  let stem := invocation.stem
  let names ← parseVariableList (← invocation.requireIndex "VBP_FLOW")
  let [binVariable] := names | throw (.badArgument .flowVariable)
  let problem ← invocation.arguments.reading "VBP_FLOW"
    ["W", "w", "b", "bounds", "labels", "binary"] 3 (takeProblem binVariable)
  problem.check
  let graph ← FlowGraph.build problem.capacity (← problem.items)
  let program ← program stem problem graph
  modify (·.emit .model (program.renderFor stem (problem.demands.filterMap Demand.name?)))
  return { binVariable := stripMark binVariable, stem, graph, labels := problem.itemLabels }

/-- The count that a value stands for: the nearest whole number from zero up. -/
def nearestCount (value : Float) : Nat := Number.toCount (Number.roundHalfAway value)

/-- The labels of what a bin holds. -/
def Run.binLabels (run : Run) (pattern : List Packing) : List String :=
  pattern.flatMap fun packing =>
    List.replicate packing.copies (run.labels.getD packing.item "")

/-- The number of bins, and how they are filled. -/
def Run.decode (run : Run) (solution : Solution) : Decoded :=
  let value := solution run.binVariable
  let flows := (flows run.stem run.graph).map fun (name, _) => nearestCount (solution name)
  { name := run.binVariable
    value
    paths := (run.graph.decompose flows.toArray (nearestCount value)).map
      fun (count, pattern) => ⟨count, run.binLabels pattern⟩ }

end ModelWeaver.BinPacking
