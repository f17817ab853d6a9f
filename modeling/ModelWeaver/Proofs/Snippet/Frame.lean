import ModelWeaver.Proofs.Generator.Declaring
import ModelWeaver.Proofs.Snippet.Evolution

/-!
# What evaluation leaves alone

Loops bind names in a scope of their own, and the commands of the library do not touch
variables, so an expression leaves all variables as they were, even if it fails in the middle
of a loop. If it calls no command either, it can only change the buffers, by a loop over their
names. Statements bind the names that they assign to, and no others.
-/

namespace ModelWeaver

/-! ## Scopes -/

namespace Environment

/-- All scopes, the innermost first. -/
def scopes (environment : Environment) : List (NameMap Value) :=
  environment.inner ++ [environment.document]

/-- The scope in which names are bound. -/
def innermost (environment : Environment) : NameMap Value :=
  environment.inner.headD environment.document

theorem scopes_eq (environment : Environment) :
    environment.scopes = environment.innermost :: environment.scopes.tail := by
  rcases environment with ⟨inner, document⟩
  cases inner with
  | nil => rfl
  | cons scope scopes => rfl

theorem scopes_pop {environment : Environment} (nested : environment.scopes.tail ≠ []) :
    environment.pop.scopes = environment.scopes.tail := by
  rcases environment with ⟨inner, document⟩
  cases inner with
  | nil => exact absurd rfl nested
  | cons scope scopes => rfl

theorem eq_of_scopes_eq {first second : Environment} (same : first.scopes = second.scopes) :
    first = second := by
  rcases first with ⟨inner, document⟩
  rcases second with ⟨inner', document'⟩
  obtain ⟨rfl, last⟩ := List.append_inj' same rfl
  cases last
  rfl

theorem tail_scopes_set (environment : Environment) (name : String) (value : Value) :
    (environment.set name value).scopes.tail = environment.scopes.tail := by
  rcases environment with ⟨inner, document⟩
  cases inner with
  | nil => rfl
  | cons scope scopes => rfl

theorem innermost_set (environment : Environment) (name : String) (value : Value) :
    (environment.set name value).innermost = environment.innermost.insert name value := by
  rcases environment with ⟨inner, document⟩
  cases inner with
  | nil => rfl
  | cons scope scopes => rfl

/-- Only some names were bound, all of them in the innermost scope. -/
structure BindsOnly (names : List String) (first second : Environment) : Prop where
  depth : second.scopes.length = first.scopes.length
  outer : second.scopes.tail = first.scopes.tail
  unbound {name : String} : name ∉ names →
    second.innermost.get? name = first.innermost.get? name

theorem BindsOnly.refl (names : List String) (environment : Environment) :
    BindsOnly names environment environment :=
  ⟨rfl, rfl, fun _ => rfl⟩

theorem BindsOnly.trans {names : List String} {first second third : Environment}
    (start : BindsOnly names first second) (rest : BindsOnly names second third) :
    BindsOnly names first third where
  depth := rest.depth.trans start.depth
  outer := rest.outer.trans start.outer
  unbound other := (rest.unbound other).trans (start.unbound other)

theorem bindsOnly_set {names : List String} {name : String} (mem : name ∈ names)
    (environment : Environment) (value : Value) :
    BindsOnly names environment (environment.set name value) where
  depth := by
    rw [scopes_eq, scopes_eq environment, tail_scopes_set]
    rfl
  outer := tail_scopes_set environment name value
  unbound {other} free := by
    rw [innermost_set, NameMap.get?_insert, if_neg]
    rintro rfl
    exact free mem

end Environment

/-! ## Commands of the library -/

namespace Context

def SameVariables (first second : Context) : Prop := second.environment = first.environment

theorem chains_sameVariables : Chains SameVariables where
  refl _ := rfl
  trans first second := Eq.trans second first

end Context

theorem Declare.stepsKeep_environment (environment : Environment) :
    StepsKeep (fun context => context.environment = environment) fun _ => True where
  elements _ := (Yields.anything _).mono fun _ _ _ _ => trivial
  key _ _ _ := trivial
  component _ _ _ := Yields.anything _
  paramValue _ _ _ _ := Yields.anything _
  emit same _ _ := same
  declareSet _ _ _ := (Keeps.anything _).onPart (fun _ _ => trivial) fun _ _ same _ => same
  declareParam _ _ _ _ := (Keeps.anything _).onPart (fun _ _ => trivial) fun _ _ same _ => same

namespace Generator

theorem sameVariables_run {generator : Generator} (library : generator.isCustom = false)
    (seen : List Call) (invocation : Invocation) :
    Moves Context.SameVariables (generator.run seen invocation) := by
  have composes := Context.chains_sameVariables.composes
  cases generator with
  | declaring command =>
    refine composes.bind (fun context => ?_) fun _ => composes.pure none
    have steps := Declare.stepsKeep_environment context.environment
    exact (steps.keeps_run command (Arguments.all_true _) context rfl).1
  | submodel command =>
    intro context
    have keeps : Keeps (fun after => after.environment = context.environment) (fun _ => True)
        (command.run invocation) :=
      (command.writesAtEnd_run invocation).keeps fun _ _ same => same
    exact (keeps context rfl).1
  | custom command => cases library

end Generator

/-! ## Variables -/

namespace Session

open Snippet

/-- If all commands are commands of the library, they stay so, and the variables before and
after are related. -/
def Standardly (relation : Environment → Environment → Prop) (first second : Session) : Prop :=
  first.registry.Standard →
    second.registry.Standard ∧ relation first.context.environment second.context.environment

variable {relation : Environment → Environment → Prop}

theorem chains_standardly (chains : Chains relation) : Chains (Standardly relation) where
  refl session standard := ⟨standard, chains.refl _⟩
  trans := by
    intro first second third start rest standard
    obtain ⟨standard, before⟩ := start standard
    obtain ⟨standard, after⟩ := rest standard
    exact ⟨standard, chains.trans before after⟩

theorem standardly_of_same (chains : Chains relation) {ε α : Type} {action : EStateM ε Session α}
    (moves : Moves (Standardly fun first second => second = first) action) :
    Moves (Standardly relation) action := by
  intro session standard
  obtain ⟨standard, same⟩ := moves session standard
  rw [same]
  exact ⟨standard, chains.refl _⟩

theorem chains_same : Chains fun first second : Environment => second = first where
  refl _ := rfl
  trans first second := Eq.trans second first

theorem chains_sameOuter :
    Chains fun first second : Environment => second.scopes.tail = first.scopes.tail where
  refl _ := rfl
  trans first second := Eq.trans second first

theorem chains_bindsOnly (names : List String) : Chains (Environment.BindsOnly names) where
  refl := Environment.BindsOnly.refl names
  trans := Environment.BindsOnly.trans

theorem standardly_bindName (chains : Chains relation) {name : String}
    (sets : ∀ environment value, relation environment (environment.set name value))
    (value : Value) : Moves (Standardly relation) (bindName name value) := by
  have composes := (chains_standardly chains).composes
  rw [bindName]
  split
  · exact composes.throw_bind _ _
  · cases Buffer.ofName? name with
    | some buffer =>
      refine composes.bind (composes.lift _) fun text session standard => ?_
      exact ⟨standard, chains.refl _⟩
    | none => exact fun session standard => ⟨standard, sets _ value⟩

theorem standardly_invoke (name : String) (index : Option String) (args : Arguments) :
    Moves (Standardly fun first second => second = first) (invoke name index args) := by
  intro session standard
  refine ⟨standard.invoke name index args, ?_⟩
  rcases stateAfter_invoke_cases session name index args with
    same | ⟨generator, command, context, noted, known, rfl, context_eq, -, taken⟩
  · rw [same]
  · have kept : context.environment = session.context.environment :=
      context_eq ▸ Generator.sameVariables_run (standard.liveCommand known) _ _ _
    rcases taken with taken | ⟨record, carried⟩
    · rwa [taken]
    · rwa [carried]

/-- What is bound in a scope of its own is gone when the scope is closed. -/
theorem standardly_inScope {α : Type} {action : Evaluating α}
    (moves : Moves (Standardly fun first second => second.scopes.tail = first.scopes.tail)
      action) :
    Moves (Standardly fun first second => second = first) (inScope action) := by
  intro session standard
  rw [stateAfter_inScope]
  obtain ⟨standard, outer⟩ := moves session.opened standard
  have tail_eq : (stateAfter action session.opened).context.environment.scopes.tail =
      session.context.environment.scopes := outer
  refine ⟨standard, Environment.eq_of_scopes_eq ?_⟩
  refine (Environment.scopes_pop ?_).trans tail_eq
  rw [tail_eq, Environment.scopes_eq]
  exact List.cons_ne_nil _ _

theorem evolves_variables : Evolves (fun _ => True)
    (Moves (Standardly fun first second => second = first))
    (Moves (Standardly fun first second => second.scopes.tail = first.scopes.tail)) where
  across := (chains_standardly chains_same).composes
  within := (chains_standardly chains_sameOuter).composes
  widen := standardly_of_same chains_sameOuter
  inspect _ _ standard := ⟨standard, rfl⟩
  bindName value _ := standardly_bindName chains_sameOuter
    (fun environment value => Environment.tail_scopes_set environment _ value) value
  print _ _ standard := ⟨standard, rfl⟩
  invoke := standardly_invoke
  inScope := standardly_inScope

/-! ## Buffers, symbols and calls -/

/-- Calls are counted, and if there was none, the buffers, the symbols and the registry are the
same. -/
structure Quiet (first second : Session) : Prop where
  counts : first.registry.calls ≤ second.registry.calls
  same : second.registry.calls = first.registry.calls →
    second.context.buffers = first.context.buffers ∧
      second.context.symbols = first.context.symbols ∧ second.registry = first.registry

theorem quiet_of_eq {first second : Session}
    (buffers : second.context.buffers = first.context.buffers)
    (symbols : second.context.symbols = first.context.symbols)
    (registry : second.registry = first.registry) : Quiet first second where
  counts := Nat.le_of_eq (congrArg Registry.calls registry).symm
  same _ := ⟨buffers, symbols, registry⟩

theorem chains_quiet : Chains Quiet where
  refl _ := quiet_of_eq rfl rfl rfl
  trans := by
    intro first second third start rest
    refine ⟨Nat.le_trans start.counts rest.counts, fun total => ?_⟩
    have none_later : third.registry.calls = second.registry.calls :=
      Nat.le_antisymm (total ▸ start.counts) rest.counts
    obtain ⟨buffers, symbols, registry⟩ := rest.same none_later
    rw [buffers, symbols, registry]
    exact start.same (none_later.symm.trans total)

theorem quiet_invoke (name : String) (index : Option String) (args : Arguments) :
    Moves Quiet (invoke name index args) := by
  intro session
  have counted : ∀ final : Session, final.registry.calls = session.registry.calls + 1 →
      Quiet session final := by
    intro final calls
    refine ⟨by omega, fun total => ?_⟩
    omega
  rcases stateAfter_invoke_cases session name index args with
    same | ⟨generator, command, context, noted, -, -, -, -, taken | ⟨record, carried⟩⟩
  · rw [same]
    exact chains_quiet.refl session
  · rw [taken]
    exact counted _ (Registry.takenUp_calls _ _ _)
  · rw [carried]
    exact counted _ (Registry.carriedOut_calls _ _ _)

theorem quiet_bindName {name : String} (plain : Buffer.ofName? name = none) (value : Value) :
    Moves Quiet (bindName name value) := by
  rw [bindName]
  split
  · exact chains_quiet.composes.throw_bind _ _
  · rw [plain]
    exact fun session => quiet_of_eq rfl rfl rfl

theorem quiet_inScope {α : Type} {action : Evaluating α} (moves : Moves Quiet action) :
    Moves Quiet (inScope action) := by
  intro session
  rw [stateAfter_inScope]
  obtain ⟨counts, same⟩ := moves session.opened
  exact ⟨counts, same⟩

/-- Expressions whose loops do not bind the names of buffers change nothing but by calls. -/
theorem evolves_quiet :
    Evolves (fun name => Buffer.ofName? name = none) (Moves Quiet) (Moves Quiet) where
  across := chains_quiet.composes
  within := chains_quiet.composes
  widen := id
  inspect _ := chains_quiet.refl
  bindName value plain := quiet_bindName plain value
  print _ _ := quiet_of_eq rfl rfl rfl
  invoke := quiet_invoke
  inScope := quiet_inScope

end Session

/-! ## Frames -/

theorem Buffer.ofName?_eq_none {name : String} (other : ∀ buffer : Buffer, buffer.name ≠ name) :
    ofName? name = none := by
  refine List.find?_eq_none.mpr fun buffer _ => ?_
  simpa using other buffer

namespace Snippet

/-- An expression calls no command: the number of calls is the same afterwards. A call counts
even if it fails; only one of a name that no command has does not count, and does nothing. -/
def CallsNothing (session : Session) (expr : Expr) : Prop :=
  (stateAfter (evaluate expr) session).registry.calls = session.registry.calls

/-- With the commands of the library, an expression leaves all scopes as they were, whether it
succeeds or fails. If its loops bind no buffer and it calls no command, it leaves the buffers,
the symbols and the registry alone too. Statements keep the depth of the scopes, and bind only
names that they assign to. -/
theorem evaluation_keeps_variables (session : Session) (standard : session.registry.Standard) :
    (∀ expr, (stateAfter (evaluate expr) session).context.environment =
      session.context.environment) ∧
    (∀ expr, (∀ buffer : Buffer, buffer.name ∉ expr.loopNames) → CallsNothing session expr →
      (stateAfter (evaluate expr) session).context.buffers = session.context.buffers ∧
        (stateAfter (evaluate expr) session).context.symbols = session.context.symbols ∧
        (stateAfter (evaluate expr) session).registry = session.registry) ∧
    ∀ statements, session.context.environment.BindsOnly
      (statements.flatMap Statement.targetNames)
      (stateAfter (execute statements) session).context.environment := by
  refine ⟨?_, ?_, ?_⟩
  · intro expr
    exact (Session.evolves_variables.eval 0 expr (fun _ _ => trivial) session standard).2
  · intro expr plain silent
    have quiet := Session.evolves_quiet.eval 0 expr
      (fun name mem => Buffer.ofName?_eq_none fun buffer same => plain buffer (same ▸ mem))
      session
    exact quiet.same silent
  · intro statements
    have chains := Session.chains_bindsOnly (statements.flatMap Statement.targetNames)
    have moves := Session.evolves_variables.execute (Session.chains_standardly chains).composes
      (Session.standardly_of_same chains)
      (fun _ _ _ _ => trivial)
      (fun statement mem name target => Session.standardly_bindName chains
        (Environment.bindsOnly_set (List.mem_flatMap.mpr ⟨statement, mem, target⟩)))
    exact (moves session standard).2

/-- A session with a variable. -/
def shadowedSession : Session where
  context := { environment := .ofBindings (.ofList [("x", .int 5)]) }

theorem standard_shadowedSession : shadowedSession.registry.Standard :=
  Registry.standard_defaults

/-- A loop over the name of a variable, which fails in its second round. -/
def failingLoop : Expr :=
  .listComp (.binary .floorDivision (.int 1) (.var "x" ⟨5, 6⟩))
    [.mk (.name "x") (.list [.int 1, .int 0]) none]

/-- An assignment, and then a loop that fails. -/
def failingStatements : List Statement :=
  [.assign (.name "y") .assign (.int 1) ⟨0, 5⟩, .expr failingLoop ⟨6, 30⟩]

theorem evaluation_keeps_variables_failingLoop :
    (outcome (evaluate failingLoop) shadowedSession).isOk = false ∧
      (stateAfter (evaluate failingLoop) shadowedSession).context.environment =
        shadowedSession.context.environment ∧
      (stateAfter (evaluate failingLoop) shadowedSession).registry = shadowedSession.registry ∧
      shadowedSession.context.environment.BindsOnly ["y"]
        (stateAfter (execute failingStatements) shadowedSession).context.environment := by
  obtain ⟨kept, quiet, binds⟩ := evaluation_keeps_variables shadowedSession
    standard_shadowedSession
  refine ⟨by rfl, kept failingLoop, (quiet failingLoop ?_ ?_).2.2, binds failingStatements⟩
  · intro buffer
    cases buffer with
    | defs | model | data => decide
  · rfl

end Snippet

end ModelWeaver
