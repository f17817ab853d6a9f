import ModelWeaver.Proofs.Guarantee
import ModelWeaver.Proofs.Registry.Calls
import ModelWeaver.Snippet.Evaluate

/-!
# What evaluation does to a session

Evaluation binds names, prints, calls commands, opens and closes scopes, and puts values together
from those that it finds in the session. `Evaluates` asks of each of these steps that it meets a
contract, and that good values give good ones. Then any expression and any statement meets the
contract, and returns something good. The induction over expressions is made here once.

`Evolves` is for properties that do not speak of values.
-/

namespace ModelWeaver

namespace Session

/-- Look at the context and at the registry. -/
def inspect {ε α : Type} (view : Context → Registry → α) : EStateM ε Session α := do
  let session ← get
  return view session.context session.registry

/-- The session in which a new scope was opened. -/
def opened (session : Session) : Session :=
  { session with context :=
      { session.context with environment := session.context.environment.push } }

/-- The session in which the innermost scope was closed. -/
def closed (session : Session) : Session :=
  { session with context :=
      { session.context with environment := session.context.environment.pop } }

end Session

namespace Snippet

/-! ## Scopes -/

theorem inScope_eq {α : Type} (action : Evaluating α) (session : Session) :
    inScope action session = overState Session.closed (action session.opened) := by
  have opens : (modifyEnvironment Environment.push *> action) session =
      action session.opened := rfl
  rw [inScope, opens]
  cases action session.opened with
  | ok value final => rfl
  | error failure final => rfl

theorem stateAfter_inScope {α : Type} (action : Evaluating α) (session : Session) :
    stateAfter (inScope action) session = (stateAfter action session.opened).closed :=
  stateAfter_of_overState (inScope_eq action session)

/-! ## Names that are bound -/

mutual

/-- The names that a target binds. -/
def Target.names : Target → List String
  | .name word => [word]
  | .tuple items => namesAll items
termination_by structural target => target

def Target.namesAll : List Target → List String
  | [] => []
  | item :: items => item.names ++ namesAll items
termination_by structural items => items

end

mutual

/-- The names that the loops of comprehensions bind anywhere in an expression. -/
def Expr.loopNames : Expr → List String
  | int _ | float _ | str _ | bool _ | none | var _ _ => []
  | list items | tuple items => loopNamesAll items
  | dict entries => loopNamesEntries entries
  | listComp element clauses => element.loopNames ++ loopNamesClauses clauses
  | dictComp key value clauses =>
    key.loopNames ++ (value.loopNames ++ loopNamesClauses clauses)
  | unary _ operand => operand.loopNames
  | binary _ left right => left.loopNames ++ right.loopNames
  | cond condition yes no => condition.loopNames ++ (yes.loopNames ++ no.loopNames)
  | call callee args _ => callee.loopNames ++ loopNamesArguments args
  | subscript value index _ => value.loopNames ++ index.loopNames
  | member value _ _ => value.loopNames
termination_by structural expr => expr

def Expr.loopNamesAll : List Expr → List String
  | [] => []
  | item :: items => item.loopNames ++ loopNamesAll items
termination_by structural items => items

def Expr.loopNamesEntries : List (Expr × Expr) → List String
  | [] => []
  | (key, value) :: entries => key.loopNames ++ (value.loopNames ++ loopNamesEntries entries)
termination_by structural entries => entries

def Expr.loopNamesClauses : List Clause → List String
  | [] => []
  | .mk target iterable condition :: clauses =>
    target.names ++
      (iterable.loopNames ++ (loopNamesFilter condition ++ loopNamesClauses clauses))
termination_by structural clauses => clauses

def Expr.loopNamesFilter : Option Expr → List String
  | .none => []
  | some condition => condition.loopNames
termination_by structural condition => condition

def Expr.loopNamesArguments : List Argument → List String
  | [] => []
  | .positional value :: args => value.loopNames ++ loopNamesArguments args
  | .keyword _ value :: args => value.loopNames ++ loopNamesArguments args
termination_by structural args => args

end

namespace Statement

/-- The names in the target of an assignment. -/
def targetNames : Statement → List String
  | assign target _ _ _ => target.names
  | expr _ _ => []

/-- The names that loops bind in a statement. -/
def loopNames : Statement → List String
  | assign _ _ value _ | expr value _ => value.loopNames

end Statement

/-! ## Values -/

/-- Good values are put together from good values. -/
structure Closed (Good : Value → Prop) : Prop where
  none : Good .none
  bool (value : Bool) : Good (.bool value)
  int (value : Int64) : Good (.int value)
  float (value : Float) : Good (.float value)
  str (text : String) : Good (.str text)
  list {items : List Value} : (∀ item ∈ items, Good item) → Good (.list items)
  tuple {items : List Value} : (∀ item ∈ items, Good item) → Good (.tuple items)
  /-- Dicts are made by storing one entry after the other. -/
  noEntries : Good (.dict [])
  insertEntry {entries : Entries} {key value : Value} :
    Good (.dict entries) → Good key → Good value →
      Good (.dict (Value.insertEntry entries key value))
  elements {value : Value} :
    Good value → Yields (fun items => ∀ item ∈ items, Good item) value.elements
  unary (op : UnaryOp) {operand : Value} : Good operand → Yields Good (applyUnary op operand)
  binary (op : BinaryOp) {left right : Value} :
    Good left → Good right → Yields Good (applyBinary op left right)
  subscript {value index : Value} :
    Good value → Good index → Yields Good (subscript value index)
  member {value : Value} (name : String) : Good value → Yields Good (memberOf value name)

theorem closed_true : Closed fun _ => True where
  none := trivial
  bool _ := trivial
  int _ := trivial
  float _ := trivial
  str _ := trivial
  list _ := trivial
  tuple _ := trivial
  noEntries := trivial
  insertEntry _ _ _ := trivial
  elements _ _ _ _ _ := trivial
  unary _ _ _ := Yields.anything _
  binary _ _ _ _ _ := Yields.anything _
  subscript _ _ := Yields.anything _
  member _ _ := Yields.anything _

variable {Good : Value → Prop}

theorem Closed.applyEvaluated (closed : Closed Good) (op : BinaryOp) {left right : Value}
    (goodLeft : Good left) (goodRight : Good right) :
    Yields Good (applyEvaluated op left right) := by
  rw [Snippet.applyEvaluated.eq_def]
  split
  · exact Yields.ok goodRight
  · exact Yields.ok goodRight
  · exact closed.binary op goodLeft goodRight

/-- What the rounds of a comprehension have given is good. -/
structure GoodCollected (Good : Value → Prop) (collected : Collected) : Prop where
  items : ∀ item ∈ collected.items, Good item
  entries : Good (.dict collected.entries)

/-! ## Binding -/

/-- A good value can be bound to a name. -/
abbrev Binds (Good : Value → Prop) (Meets : ActionContract Session) (name : String) : Prop :=
  ∀ ⦃value⦄, Good value → Meets (fun _ => True) (bindName name value)

section Binding

variable {Meets : ActionContract Session} (threads : Threads Meets)
include threads

mutual

theorem meets_bindTarget (closed : Closed Good) (target : Target)
    (binds : ∀ name ∈ target.names, Binds Good Meets name) {value : Value} (good : Good value) :
    Meets (fun _ => True) (bindTarget target value) := by
  cases target with
  | name name => exact binds name List.mem_cons_self good
  | tuple targets =>
    refine threads.bind (threads.lift (closed.elements good)) fun items within => ?_
    by_cases matching : items.length ≠ targets.length
    · rw [if_pos matching]
      exact threads.throw_bind _ _
    · rw [if_neg matching]
      exact meets_bindTargets closed targets binds within
termination_by structural target

theorem meets_bindTargets (closed : Closed Good) (targets : List Target)
    (binds : ∀ name ∈ Target.namesAll targets, Binds Good Meets name) {items : List Value}
    (good : ∀ item ∈ items, Good item) : Meets (fun _ => True) (bindTargets targets items) := by
  cases targets with
  | nil => exact threads.pure trivial
  | cons target targets =>
    obtain ⟨first, others⟩ := List.forall_mem_append.mp binds
    cases items with
    | nil => exact threads.pure trivial
    | cons item items =>
      obtain ⟨goodItem, goodItems⟩ := List.forall_mem_cons.mp good
      exact threads.bind (meets_bindTarget closed target first goodItem) fun _ _ =>
        meets_bindTargets closed targets others goodItems
termination_by structural targets

end

end Binding

/-! ## Evaluation -/

/-- What is asked of two contracts so that every expression meets the first. The second is for
what happens within a scope, where names are bound; `bound` says which names. -/
structure Evaluates (bound : String → Prop) (Good : Value → Prop)
    (Across Within : ActionContract Session) : Prop where
  closed : Closed Good
  across : Threads Across
  within : Threads Within
  widen {ε α : Type} {Fine : α → Prop} {action : EStateM ε Session α} :
    Across Fine action → Within Fine action
  inspect {ε α : Type} (view : Context → Registry → α) :
    Across (fun _ => True) (Session.inspect view : EStateM ε Session α)
  lookup (name : String) : Across Good (lookup name)
  call {callee : Value} {arguments : Arguments} :
    Good callee → arguments.All Good → Across Good (callValue callee arguments)
  invoke (name : String) (index : Option String) {arguments : Arguments} :
    arguments.All Good → Across (fun _ => True) (Session.invoke name index arguments)
  bindName {name : String} : bound name → Binds Good Within name
  /-- What happens in a scope of its own counts as an expression. -/
  inScope {α : Type} {Fine : α → Prop} {action : Evaluating α} :
    Within Fine action → Across Fine (inScope action)

namespace Evaluates

variable {bound : String → Prop} {Across Within : ActionContract Session}
  (evaluates : Evaluates bound Good Across Within)
include evaluates

/-! ### Expressions -/

mutual

theorem eval (depth : Nat) (expr : Expr) (loops : ∀ name ∈ expr.loopNames, bound name) :
    Across Good (eval depth expr) := by
  have across := evaluates.across
  have closed := evaluates.closed
  rw [Snippet.eval.eq_def]
  by_cases deep : maxDepth < depth
  · rw [if_pos deep]
    exact across.throw_bind _ _
  · rw [if_neg deep]
    have start : GoodCollected Good {} := ⟨List.forall_mem_nil _, closed.noEntries⟩
    cases expr with
    | int value => exact across.pure (closed.int value)
    | float value => exact across.pure (closed.float value)
    | str text => exact across.pure (closed.str text)
    | bool value => exact across.pure (closed.bool value)
    | none => exact across.pure closed.none
    | var name span => exact evaluates.lookup name
    | list items =>
      exact across.bind (evalAll (depth + 1) items loops) fun _ good =>
        across.pure (closed.list good)
    | tuple items =>
      exact across.bind (evalAll (depth + 1) items loops) fun _ good =>
        across.pure (closed.tuple good)
    | dict entries =>
      exact across.bind (evalEntries (depth + 1) closed.noEntries entries loops) fun _ good =>
        across.pure good
    | listComp element clauses =>
      obtain ⟨inElement, inClauses⟩ := List.forall_mem_append.mp loops
      refine across.bind (evaluates.inScope (collect (depth + 1) clauses inClauses ?_ start)) ?_
      · intro collected good
        refine evaluates.widen (across.bind (eval (depth + 1) element inElement) ?_)
        intro item goodItem
        exact across.pure ⟨List.forall_mem_cons.mpr ⟨goodItem, good.items⟩, good.entries⟩
      · intro collected good
        exact across.pure (closed.list fun item mem =>
          good.items item (List.mem_reverse.mp mem))
    | dictComp key value clauses =>
      obtain ⟨inKey, others⟩ := List.forall_mem_append.mp loops
      obtain ⟨inValue, inClauses⟩ := List.forall_mem_append.mp others
      refine across.bind (evaluates.inScope (collect (depth + 1) clauses inClauses ?_ start)) ?_
      · intro collected good
        refine evaluates.widen (across.bind (eval (depth + 1) key inKey) ?_)
        intro key goodKey
        refine across.bind (eval (depth + 1) value inValue) fun value goodValue => ?_
        exact across.pure ⟨good.items, closed.insertEntry good.entries goodKey goodValue⟩
      · exact fun collected good => across.pure good.entries
    | unary op operand =>
      exact across.bind (eval (depth + 1) operand loops) fun _ good =>
        across.lift (closed.unary op good)
    | binary op left right =>
      obtain ⟨inLeft, inRight⟩ := List.forall_mem_append.mp loops
      refine across.bind (eval (depth + 1) left inLeft) fun left goodLeft => ?_
      by_cases decided : decidedBy op left = true
      · rw [if_pos decided]
        exact across.pure goodLeft
      · rw [if_neg decided]
        exact across.bind (eval (depth + 1) right inRight) fun right goodRight =>
          across.lift (closed.applyEvaluated op goodLeft goodRight)
    | cond condition yes no =>
      obtain ⟨inCondition, others⟩ := List.forall_mem_append.mp loops
      obtain ⟨inYes, inNo⟩ := List.forall_mem_append.mp others
      refine across.bind (eval (depth + 1) condition inCondition) fun value _ => ?_
      by_cases truthy : value.isTruthy = true
      · rw [if_pos truthy]
        exact eval (depth + 1) yes inYes
      · rw [if_neg truthy]
        exact eval (depth + 1) no inNo
    | call callee args span =>
      obtain ⟨inCallee, inArguments⟩ := List.forall_mem_append.mp loops
      refine across.bind (eval (depth + 1) callee inCallee) fun callee goodCallee => ?_
      exact across.bind (evalArguments (depth + 1) args inArguments Arguments.all_nil)
        fun _ good => evaluates.call goodCallee good
    | subscript value index span =>
      obtain ⟨inValue, inIndex⟩ := List.forall_mem_append.mp loops
      refine across.bind (eval (depth + 1) value inValue) fun value goodValue => ?_
      exact across.bind (eval (depth + 1) index inIndex) fun _ goodIndex =>
        across.lift (closed.subscript goodValue goodIndex)
    | member value name span =>
      exact across.bind (eval (depth + 1) value loops) fun _ good =>
        across.lift (closed.member name good)
termination_by structural expr

theorem evalAll (depth : Nat) (items : List Expr)
    (loops : ∀ name ∈ Expr.loopNamesAll items, bound name) :
    Across (fun values => ∀ value ∈ values, Good value) (evalAll depth items) := by
  cases items with
  | nil => exact evaluates.across.pure (List.forall_mem_nil _)
  | cons item items =>
    obtain ⟨inItem, inOthers⟩ := List.forall_mem_append.mp loops
    exact evaluates.across.bind (eval depth item inItem) fun _ good =>
      evaluates.across.bind (evalAll depth items inOthers) fun _ others =>
        evaluates.across.pure (List.forall_mem_cons.mpr ⟨good, others⟩)
termination_by structural items

theorem evalEntries (depth : Nat) {entries : Entries} (good : Good (.dict entries))
    (rest : List (Expr × Expr)) (loops : ∀ name ∈ Expr.loopNamesEntries rest, bound name) :
    Across (fun entries => Good (.dict entries)) (evalEntries depth entries rest) := by
  cases rest with
  | nil => exact evaluates.across.pure good
  | cons entry rest =>
    rcases entry with ⟨key, value⟩
    obtain ⟨inKey, others⟩ := List.forall_mem_append.mp loops
    obtain ⟨inValue, inRest⟩ := List.forall_mem_append.mp others
    refine evaluates.across.bind (eval depth key inKey) fun key goodKey => ?_
    refine evaluates.across.bind (eval depth value inValue) fun value goodValue => ?_
    exact evalEntries depth (evaluates.closed.insertEntry good goodKey goodValue) rest inRest
termination_by structural rest

theorem evalArguments (depth : Nat) (rest : List Argument)
    (loops : ∀ name ∈ Expr.loopNamesArguments rest, bound name) {args : Arguments}
    (good : args.All Good) :
    Across (Arguments.All Good) (evalArguments depth args rest) := by
  cases rest with
  | nil => exact evaluates.across.pure good
  | cons argument rest =>
    cases argument with
    | positional value =>
      obtain ⟨inValue, inRest⟩ := List.forall_mem_append.mp loops
      refine evaluates.across.bind (evaluates.across.lift (Yields.anything _)) fun _ _ => ?_
      exact evaluates.across.bind (eval depth value inValue) fun _ goodValue =>
        evalArguments depth rest inRest (good.addPositional goodValue)
    | keyword name value =>
      obtain ⟨inValue, inRest⟩ := List.forall_mem_append.mp loops
      refine evaluates.across.bind (evaluates.across.lift (Yields.anything _)) fun _ _ => ?_
      exact evaluates.across.bind (eval depth value inValue) fun _ goodValue =>
        evalArguments depth rest inRest (good.addKeyword name goodValue)
termination_by structural rest

theorem collect (depth : Nat) (clauses : List Clause)
    (loops : ∀ name ∈ Expr.loopNamesClauses clauses, bound name)
    {step : Collected → Evaluating Collected}
    (steps : ∀ collected, GoodCollected Good collected →
      Within (GoodCollected Good) (step collected))
    {collected : Collected} (good : GoodCollected Good collected) :
    Within (GoodCollected Good) (collect depth clauses step collected) := by
  have within := evaluates.within
  cases clauses with
  | nil => exact steps collected good
  | cons clause rest =>
    rcases clause with ⟨target, iterable, condition⟩
    obtain ⟨inTarget, others⟩ := List.forall_mem_append.mp loops
    obtain ⟨inIterable, others⟩ := List.forall_mem_append.mp others
    obtain ⟨inCondition, inRest⟩ := List.forall_mem_append.mp others
    refine within.bind (evaluates.widen (eval depth iterable inIterable))
      fun value goodValue => ?_
    refine within.bind (within.lift (evaluates.closed.elements goodValue))
      fun items goodItems => ?_
    refine within.foldlM good fun collected good item mem => ?_
    refine within.bind (meets_bindTarget within evaluates.closed target
      (fun name mem => evaluates.bindName (inTarget name mem)) (goodItems item mem))
      fun _ _ => ?_
    refine within.bind (evaluates.widen (holds depth condition inCondition)) fun passes _ => ?_
    cases passes with
    | true => exact collect depth rest inRest steps good
    | false => exact within.pure good
termination_by structural clauses

theorem holds (depth : Nat) (condition : Option Expr)
    (loops : ∀ name ∈ Expr.loopNamesFilter condition, bound name) :
    Across (fun _ => True) (holds depth condition) := by
  cases condition with
  | none => exact evaluates.across.pure trivial
  | some condition =>
    exact evaluates.across.bind (eval depth condition loops) fun _ _ =>
      evaluates.across.pure trivial
termination_by structural condition

end

/-! ### Statements -/

section Statements

variable {Meets : ActionContract Session} (threads : Threads Meets)
  (widen : ∀ {α : Type} {Fine : α → Prop} {action : Evaluating α},
    Across Fine action → Meets Fine action)
include threads widen

theorem assign {target : Target} (binds : ∀ name ∈ target.names, Binds Good Meets name)
    (op : AssignOp) {value : Value} (good : Good value) :
    Meets (fun _ => True) (assign target op value) := by
  rw [Snippet.assign.eq_def]
  cases op.binary? with
  | none => exact meets_bindTarget threads evaluates.closed target binds good
  | some op =>
    cases target with
    | name name =>
      exact threads.bind (widen (evaluates.lookup name)) fun _ goodOld =>
        threads.bind (threads.lift (evaluates.closed.binary op goodOld good))
          fun _ goodNew => binds name List.mem_cons_self goodNew
    | tuple targets => exact threads.throw _

/-- Statements meet a third contract if expressions meet it, and the binding of each name in their
targets. -/
theorem execute {statements : List Statement}
    (loops : ∀ statement ∈ statements, ∀ name ∈ statement.loopNames, bound name)
    (binds : ∀ statement ∈ statements, ∀ name ∈ statement.targetNames, Binds Good Meets name) :
    Meets (fun _ => True) (execute statements) := by
  refine threads.forM fun statement mem => ?_
  have inLoops := loops statement mem
  have inTarget := binds statement mem
  cases statement with
  | assign target op value span =>
    exact threads.bind (widen (evaluates.eval 0 value inLoops)) fun value good =>
      evaluates.assign threads widen inTarget op good
  | expr value span =>
    exact threads.bind (widen (evaluates.eval 0 value inLoops)) fun _ _ => threads.pure trivial

end Statements

end Evaluates

/-! ## Properties without values -/

theorem lookup_eq (name : String) :
    lookup name = (do
      let value? ← Session.inspect fun context registry => lookup? ⟨context, registry, []⟩ name
      match value? with
      | some value => return value
      | none => throw (.undefinedVariable name)) := rfl

/-- What is asked of two properties so that every expression has the first, as in `Evaluates`. -/
structure Evolves (bound : String → Prop) (Across Within : ActionProperty Session) : Prop where
  across : Composes Across
  within : Composes Within
  widen {ε α : Type} {action : EStateM ε Session α} : Across action → Within action
  inspect {ε α : Type} (view : Context → Registry → α) :
    Across (Session.inspect view : EStateM ε Session α)
  bindName {name : String} (value : Value) : bound name → Within (bindName name value)
  print (line : String) :
    Across (modify fun session => { session with printed := line :: session.printed } :
      Evaluating Unit)
  invoke (name : String) (index : Option String) (arguments : Arguments) :
    Across (Session.invoke name index arguments)
  inScope {α : Type} {action : Evaluating α} : Within action → Across (inScope action)

namespace Evolves

variable {bound : String → Prop} {Across Within : ActionProperty Session}
  (evolves : Evolves bound Across Within)
include evolves

theorem lookup (name : String) : Across (lookup name) := by
  rw [lookup_eq]
  refine evolves.across.bind (evolves.inspect _) fun value? => ?_
  cases value? with
  | some value => exact evolves.across.pure value
  | none => exact evolves.across.throw _

theorem callValue (callee : Value) (args : Arguments) :
    Across (callValue callee args) := by
  cases callee with
  | command name index =>
    exact evolves.across.bind (evolves.invoke name index args) fun _ =>
      evolves.across.pure _
  | method receiver name => exact evolves.across.lift _
  | builtin function =>
    cases function with
    | print => exact evolves.across.bind (evolves.print _) fun _ => evolves.across.pure _
    | _ => exact evolves.across.lift _
  | _ => exact evolves.across.lift _

theorem evaluates : Evaluates bound (fun _ => True) (ActionProperty.returning Across)
    (ActionProperty.returning Within) where
  closed := closed_true
  across := evolves.across.threads
  within := evolves.within.threads
  widen meets := ⟨evolves.widen meets.1, meets.2⟩
  inspect view := ⟨evolves.inspect view, fun _ => Yields.anything _⟩
  lookup name := ⟨evolves.lookup name, fun _ => Yields.anything _⟩
  call _ _ := ⟨evolves.callValue _ _, fun _ => Yields.anything _⟩
  invoke name index _ _ := ⟨evolves.invoke name index _, fun _ => Yields.anything _⟩
  bindName isBound _ _ := ⟨evolves.bindName _ isBound, fun _ => Yields.anything _⟩
  inScope meets := by
    refine ⟨evolves.inScope meets.1, fun session => ?_⟩
    rw [outcome_of_overState (inScope_eq _ session)]
    exact meets.2 session.opened

theorem eval (depth : Nat) (expr : Expr) (loops : ∀ name ∈ expr.loopNames, bound name) :
    Across (eval depth expr) :=
  (evolves.evaluates.eval depth expr loops).1

theorem execute {Holds : ActionProperty Session} (composes : Composes Holds)
    (widen : ∀ {α : Type} {action : Evaluating α}, Across action → Holds action)
    {statements : List Statement}
    (loops : ∀ statement ∈ statements, ∀ name ∈ statement.loopNames, bound name)
    (binds : ∀ statement ∈ statements, ∀ name ∈ statement.targetNames, ∀ value,
      Holds (Snippet.bindName name value)) :
    Holds (execute statements) := by
  refine (evolves.evaluates.execute composes.threads ?_ loops ?_).1
  · exact fun meets => ⟨widen meets.1, meets.2⟩
  · exact fun statement mem name target value _ =>
      ⟨binds statement mem name target value, fun _ => Yields.anything _⟩

end Evolves

end Snippet

end ModelWeaver
