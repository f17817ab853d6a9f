import ModelWeaver.Generator.BinPacking
import ModelWeaver.Generator.Declare
import ModelWeaver.Generator.Polyline
import ModelWeaver.Generator.Tour

/-!
# Commands

What can be called with `$NAME[index]{arguments};`. Declaring commands add one
symbol. Submodels write a group of statements under names of their own, and keep a
record of what they wrote to answer for its solutions. A program that uses this
library can add commands, with states of their own, and these can be submodels.
-/

namespace ModelWeaver

/-- What a submodel answers for solutions. -/
structure Answers where
  /-- What a solution says about each call. -/
  extract : Solution → List Decoded
  /-- The constraints that a solution breaks and that could be added. -/
  separate : Solution → List Model.Constraint

/-! ## Commands of the library -/

/-- The commands that write submodels. -/
inductive Submodel where
  | orderedSet (kind : OrderedSet.Kind)
  | polyline
  | tour (formulation : Tour.Formulation)
  | binPacking
  deriving DecidableEq, Repr, Inhabited

/-- What is kept of one call of a submodel. -/
inductive Record where
  | tour (graph : Tour)
  | run (packing : BinPacking.Run)

namespace Record

/-- What a solution says about a call. -/
def decode (solution : Solution) : Record → Decoded
  | tour graph => graph.decode solution
  | run packing => packing.decode solution

/-- The constraints that a solution breaks and that could be added. -/
def cuts (solution : Solution) : Record → List Model.Constraint
  | tour graph => graph.cuts solution
  | run _ => []

end Record

/-- What the records of the calls of a submodel answer. -/
def Record.answers (records : List Record) : Answers where
  extract solution := records.map (decode solution)
  separate solution := records.flatMap (cuts solution)

/-- Write the statements of a call of a submodel, and say what is kept of it. -/
def Submodel.run (submodel : Submodel) (invocation : Invocation) :
    Action Context (Option Record) := do
  match submodel with
  | orderedSet kind => OrderedSet.run kind invocation; return none
  | polyline => Polyline.run invocation; return none
  | tour formulation => return some (.tour (← Tour.run formulation invocation))
  | binPacking => return some (.run (← BinPacking.run invocation))

/-! ## Other commands -/

/-- A call of a command, and the context in which it was made. -/
structure Call where
  invocation : Invocation
  context : Context

/-- A command that is added to those of the library. What it does, and what it answers if it
is a submodel, depends on its earlier calls in the document, also on those that failed. -/
structure Custom where
  run (seen : List Call) (invocation : Invocation) : Action Context Unit
  answers? (seen : List Call) : Option Answers

namespace Custom

/-- The state that calls of a command leave behind. -/
def stateAfterCalls {σ : Type} (initial : σ) (run : Invocation → Action (σ × Context) Unit)
    (seen : List Call) : σ :=
  seen.foldl (fun state call =>
    match run call.invocation (state, call.context) with
    | .ok _ (state, _) | .error _ (state, _) => state) initial

/-- A command with a state of its own, which its calls can change. -/
def ofState {σ : Type} (initial : σ) (run : Invocation → Action (σ × Context) Unit)
    (answers? : σ → Option Answers) : Custom where
  run seen invocation context :=
    match run invocation (stateAfterCalls initial run seen, context) with
    | .ok _ (_, context) => .ok () context
    | .error failure (_, context) => .error failure context
  answers? seen := answers? (stateAfterCalls initial run seen)

end Custom

/-- A command. -/
inductive Generator where
  | declaring (command : Declaring)
  | submodel (command : Submodel)
  | custom (command : Custom)

namespace Generator

/-- What a command answers for solutions after some calls, if it is a submodel. -/
def answers? (generator : Generator) (records : List Record) (seen : List Call) :
    Option Answers :=
  match generator with
  | declaring _ => none
  | submodel _ => some (Record.answers records)
  | custom command => command.answers? seen

/-- Whether a command that was not called yet is a submodel. -/
def isSubmodel (generator : Generator) : Bool := (generator.answers? [] []).isSome

/-- Run a command. -/
def run (generator : Generator) (seen : List Call) (invocation : Invocation) :
    Action Context (Option Record) := do
  match generator with
  | declaring command => command.run invocation; return none
  | submodel command => command.run invocation
  | custom command => command.run seen invocation; return none

/-- The commands that are always there. -/
def defaults : List (String × Generator) :=
  [ ("SET", declaring .set),
    ("PARAM", declaring .param),
    ("VAR", declaring .var),
    ("CON", declaring .con),
    ("STMT", declaring .stmt),
    ("SOS1", submodel (.orderedSet .one)),
    ("SOS2", submodel (.orderedSet .two)),
    ("PWL", submodel .polyline),
    ("ATSP_MTZ", submodel (.tour .potentials)),
    ("ATSP_SCF", submodel (.tour .singleFlow)),
    ("ATSP_MCF", submodel (.tour .manyFlows)),
    ("VBP_FLOW", submodel .binPacking) ]

end Generator

end ModelWeaver
