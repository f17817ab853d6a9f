import ModelWeaver.Proofs.Engine.Submodels

/-!
# Documents are independent

An engine expands one document after the other. All that a document finds of the earlier
ones are the lines that were printed, and nothing can be read from them: a document does the
same in a session with other lines. So it is expanded as by a new engine that was given the
same variables and commands.
-/

namespace ModelWeaver

open Document
open Snippet

/-! ## Commands stay -/

theorem Session.commands_invoke (session : Session) (name : String) (index : Option String)
    (args : Arguments) :
    (stateAfter (invoke name index args) session).registry.commands =
      session.registry.commands := by
  rcases stateAfter_invoke_cases session name index args with
    same | ⟨generator, command, context, noted, -, -, -, -, taken | ⟨record, carried⟩⟩
  · rw [same]
  · rw [taken, Registry.takenUp_commands]
  · rw [carried, Registry.carriedOut_commands, Registry.takenUp_commands]

theorem Registry.Serves.commands_eq {first second : Registry} {calls : List FinishedCall}
    (serves : first.Serves calls second) : second.commands = first.commands := by
  induction serves with
  | nothing => rfl
  | @succeeds _ session final name index args _ result ih =>
    have kept := Session.commands_invoke session name index args
    rw [stateAfter, result] at kept
    exact kept.trans ih
  | @fails _ session final name index args _ _ result ih =>
    have kept := Session.commands_invoke session name index args
    rw [stateAfter, result] at kept
    exact kept.trans ih

theorem Session.Serving.commands_eq {first second : Session} (serving : Serving first second) :
    second.registry.commands = first.registry.commands := by
  rcases serving with ⟨calls, serves⟩
  exact serves.commands_eq

/-! ## Lines that were printed earlier -/

namespace Session

/-- The session with further lines printed before all others. -/
def withEarlier (lines : List String) (session : Session) : Session :=
  { session with printed := session.printed ++ lines }

variable (lines : List String)

theorem commutes_invoke (name : String) (index : Option String) (args : Arguments) :
    Commutes (withEarlier lines) (invoke name index args) := by
  intro session
  cases known : session.registry.commands.get? name with
  | none =>
    have changed : (session.withEarlier lines).registry.commands.get? name = none := known
    rw [invoke_of_none known, invoke_of_none changed]
    rfl
  | some generator =>
    have changed : (session.withEarlier lines).registry.commands.get? name =
        some generator := known
    have invoked := invoke_of_some known index args
    have invoked' := invoke_of_some changed index args
    dsimp only at invoked invoked'
    rw [invoked, invoked']
    have same : (session.withEarlier lines).callOf name index args =
        session.callOf name index args := rfl
    have live : (session.withEarlier lines).registry = session.registry := rfl
    rw [same, live]
    split <;> rfl

theorem commutes_bindName (name : String) (value : Value) :
    Commutes (withEarlier lines) (bindName name value) := by
  have composes := composes_commutes (withEarlier lines)
  rw [bindName]
  split
  · exact composes.throw_bind _ _
  · cases Buffer.ofName? name with
    | some buffer => exact composes.bind (composes.lift _) fun text session => rfl
    | none => exact fun session => rfl

theorem commutes_inScope {α : Type} {action : Evaluating α}
    (commutes : Commutes (withEarlier lines) action) :
    Commutes (withEarlier lines) (inScope action) := by
  intro session
  have opened : (session.withEarlier lines).opened = session.opened.withEarlier lines := rfl
  rw [inScope_eq, inScope_eq, opened, commutes]
  cases action session.opened with
  | ok value final => rfl
  | error failure final => rfl

theorem evolves_withEarlier : Evolves (fun _ => True) (Commutes (withEarlier lines))
    (Commutes (withEarlier lines)) where
  across := composes_commutes _
  within := composes_commutes _
  widen := id
  inspect _ _ := rfl
  bindName _ _ := commutes_bindName lines _ _
  print _ _ := rfl
  invoke := commutes_invoke lines
  inScope := commutes_inScope lines

theorem commutes_expandRegions (source : String) (layout : Layout) (regions : List Region) :
    Commutes (withEarlier lines) (expandRegions source layout regions) :=
  (evolves_withEarlier lines).expandRegions (fun _ => rfl) source layout regions

end Session

/-! ## Expanding on a new engine -/

namespace Engine

variable {first second : Engine}

/-- A new engine with the variables and the commands of another. -/
def renewed (engine : Engine) : Engine where
  registry := engine.registry.reset
  bindings := engine.bindings

/-- What is left of an engine when a new one has expanded a document for it. -/
def takingOver (engine expanded : Engine) : Engine :=
  { engine with
    registry := expanded.registry
    printed := expanded.printed ++ engine.printed }

/-- An engine expands a document as a new one does. -/
theorem expand_eq_renewed (engine : Engine) (layout : Layout) (source : String) :
    expand layout source engine =
      overState engine.takingOver (expand layout source engine.renewed) := by
  cases scanned : scan source with
  | error error =>
    rw [expand_of_error engine layout scanned, expand_of_error engine.renewed layout scanned]
    rfl
  | ok regions =>
    rw [expand_of_regions engine layout scanned,
      expand_of_regions engine.renewed layout scanned]
    have started : engine.opening = engine.renewed.opening.withEarlier engine.printed := rfl
    rw [started, Session.commutes_expandRegions engine.printed source layout regions]
    cases expandRegions source layout regions engine.renewed.opening with
    | ok output session => rfl
    | error fault session => rfl

/-! ## Histories -/

/-- What can be asked of an engine. -/
inductive Request where
  | bind (name : String) (value : Value)
  | register (name : String) (generator : Generator)
  | expand (layout : Layout) (source : String)
  | expandFile (input : Input) (destination : Destination)
  /-- Evaluate one region in some context. -/
  | dispatch (context : Context) (region : Region)
  | extract (name : String) (solution : Solution)
  | separate (name : String) (solution : Solution)

/-- Whether a request sets up the engine for all documents to come. -/
def Request.isSetup : Request → Bool
  | bind _ _ | register _ _ => true
  | _ => false

/-- The engine after a request, whether it could be met or not. -/
def serve (engine : Engine) : Request → Engine
  | .bind name value => engine.bind name value
  | .register name generator =>
    match engine.register name generator with
    | .ok engine => engine
    | .error _ => engine
  | .expand layout source => stateAfter (expand layout source) engine
  | .expandFile input destination => stateAfter (expandFile input destination) engine
  | .dispatch context region => stateAfter (inSession context (Session.dispatch region)) engine
  | .extract _ _ | .separate _ _ => engine

/-- A new engine after some requests. -/
def served (history : List Request) : Engine := history.foldl serve {}

def SameSetup (first second : Engine) : Prop :=
  first.bindings = second.bindings ∧ first.registry.commands = second.registry.commands

theorem SameSetup.renewed_eq (same : SameSetup first second) : first.renewed = second.renewed := by
  simp only [renewed, Registry.reset, same.1, same.2]

theorem chains_sameSetup : Chains SameSetup where
  refl _ := ⟨rfl, rfl⟩
  trans first second := ⟨first.1.trans second.1, first.2.trans second.2⟩

/-! ### Requests that keep the setup -/

theorem sameSetup_expand (layout : Layout) (source : String) :
    Moves SameSetup (expand layout source) := by
  intro engine
  rw [stateAfter]
  cases scanned : scan source with
  | error error =>
    rw [expand_of_error engine layout scanned]
    exact ⟨rfl, rfl⟩
  | ok regions =>
    have served := Session.serving_expandRegions source layout regions engine.opening
    rw [stateAfter] at served
    rw [expand_of_regions engine layout scanned]
    cases result : expandRegions source layout regions engine.opening with
    | ok output session | error fault session =>
      rw [result] at served
      exact ⟨rfl, served.commands_eq.symm⟩

theorem sameSetup_expandFile (input : Input) (destination : Destination) :
    Moves SameSetup (expandFile input destination) := by
  have composes := chains_sameSetup.composes
  have expandLast : Moves SameSetup (do
      let output ← expand fileLayout (← get).input
      modify fun engine => { engine with output }
      if destination = .file false then throw .fileAccess
      return output : EStateM Fault Engine String) := by
    refine composes.bind chains_sameSetup.get fun engine => ?_
    refine composes.bind (sameSetup_expand fileLayout engine.input) fun output => ?_
    refine composes.bind (fun engine => ⟨rfl, rfl⟩) fun _ => ?_
    split
    · exact composes.throw_bind _ _
    · exact composes.pure output
  cases input with
  | last => exact expandLast
  | file content =>
    cases content with
    | none => exact composes.throw_bind _ _
    | some text => exact composes.bind (fun engine => ⟨rfl, rfl⟩) fun _ => expandLast

theorem sameSetup_dispatch (context : Context) (region : Region) :
    Moves SameSetup (inSession context (Session.dispatch region)) := by
  intro engine
  have served := Session.evolves_serving.dispatch (Session.serving_modify fun _ => rfl) region
    ⟨context, engine.registry, engine.printed⟩
  rw [stateAfter] at served ⊢
  rw [inSession]
  cases result : Session.dispatch region ⟨context, engine.registry, engine.printed⟩ with
  | ok fragment session | error failure session =>
    rw [result] at served
    exact ⟨rfl, served.commands_eq.symm⟩

variable {request : Request}

theorem sameSetup_serve (other : request.isSetup = false) (engine : Engine) :
    SameSetup engine (engine.serve request) := by
  cases request with
  | bind name value | register name generator => cases other
  | expand layout source => exact sameSetup_expand layout source engine
  | expandFile input destination => exact sameSetup_expandFile input destination engine
  | dispatch context region => exact sameSetup_dispatch context region engine
  | extract name solution | separate name solution => exact chains_sameSetup.refl engine

/-! ### Requests that change the setup -/

/-- A registration is accepted or refused by its name alone. -/
theorem register_cases (name : String) (generator : Generator) :
    (∀ engine : Engine, ∃ failure, engine.register name generator = .error failure) ∨
    ∀ engine : Engine, engine.register name generator =
      .ok { engine with registry := engine.registry.register name generator } := by
  by_cases reserved : name = execName
  · left
    intro engine
    exact ⟨_, by rw [register, if_pos reserved]; rfl⟩
  · cases parsed : Model.SymbolName.parse name with
    | error failure =>
      left
      intro engine
      exact ⟨failure, by rw [register, if_neg reserved, parsed]; rfl⟩
    | ok symbol =>
      rcases symbol with ⟨word, hidden⟩
      cases hidden with
      | true =>
        left
        intro engine
        exact ⟨_, by rw [register, if_neg reserved, parsed]; rfl⟩
      | false =>
        right
        intro engine
        rw [register, if_neg reserved, parsed]
        rfl

/-- Whether a document was expanded by an engine or not, its setup changes in the same way. -/
theorem SameSetup.serve (same : SameSetup first second) (setup : request.isSetup = true) :
    SameSetup (first.serve request) (second.serve request) := by
  cases request with
  | bind name value =>
    exact ⟨congrArg (NameMap.insert · name value) same.1, same.2⟩
  | register name generator =>
    rcases register_cases name generator with refused | accepted
    · rcases refused first with ⟨failure, refusedFirst⟩
      rcases refused second with ⟨failure, refusedSecond⟩
      simp only [Engine.serve, refusedFirst, refusedSecond]
      exact same
    · simp only [Engine.serve, accepted]
      exact ⟨same.1, congrArg (NameMap.insert · name generator) same.2⟩
  | expand _ _ | expandFile _ _ | dispatch _ _ | extract _ _ | separate _ _ => cases setup

/-- No document was expanded by an engine. -/
def Untouched (engine : Engine) : Prop := engine.registry = engine.registry.reset

theorem Untouched.serve {engine : Engine} (untouched : engine.Untouched)
    (setup : request.isSetup = true) : (engine.serve request).Untouched := by
  cases request with
  | bind name value => exact untouched
  | register name generator =>
    rcases register_cases name generator with refused | accepted
    · rcases refused engine with ⟨failure, refused⟩
      simp only [Engine.serve, refused]
      exact untouched
    · simp only [Engine.serve, accepted]
      exact congrArg (Registry.register · name generator) untouched
  | expand _ _ | expandFile _ _ | dispatch _ _ | extract _ _ | separate _ _ => cases setup

/-! ### All requests -/

theorem sameSetup_foldl (same : SameSetup first second) (history : List Request) :
    SameSetup (history.foldl serve first)
      ((history.filter Request.isSetup).foldl serve second) := by
  induction history generalizing first second with
  | nil => exact same
  | cons request history ih =>
    cases setup : request.isSetup with
    | true =>
      rw [List.filter_cons_of_pos setup]
      exact ih (same.serve setup)
    | false =>
      rw [List.filter_cons_of_neg (by simp [setup])]
      refine ih ?_
      have kept := sameSetup_serve setup first
      exact ⟨kept.1.symm.trans same.1, kept.2.symm.trans same.2⟩

theorem untouched_foldl {engine : Engine} (untouched : engine.Untouched) {history : List Request}
    (setup : ∀ request ∈ history, request.isSetup = true) :
    (history.foldl serve engine).Untouched := by
  induction history generalizing engine with
  | nil => exact untouched
  | cons request history ih =>
    obtain ⟨first, others⟩ := List.forall_mem_cons.mp setup
    exact ih (untouched.serve first) others

/-- Documents do not influence each other. Whatever was asked of an engine, it expands a
document as a new engine does that was given the same variables and commands, prints the same
lines, and then answers the same questions in the same way. -/
theorem expand_forgets_history (history : List Request) (layout : Layout) (source : String) :
    let used := served history
    let fresh := served (history.filter Request.isSetup)
    let document := expand layout source
    (fresh.bindings = used.bindings ∧ fresh.registry = used.registry.reset) ∧
      outcome document used = outcome document fresh ∧
      (stateAfter document used).submodels = (stateAfter document fresh).submodels ∧
      (∀ name solution,
        (stateAfter document used).extract name solution =
            (stateAfter document fresh).extract name solution ∧
          (stateAfter document used).separate name solution =
            (stateAfter document fresh).separate name solution) ∧
      ∃ lines, (stateAfter document used).printed = lines ++ used.printed ∧
        (stateAfter document fresh).printed = lines ++ fresh.printed := by
  intro used fresh document
  have same : SameSetup used fresh := sameSetup_foldl (chains_sameSetup.refl {}) history
  have start : Untouched {} := rfl
  have untouched : fresh.Untouched :=
    untouched_foldl start fun request mem => (List.mem_filter.mp mem).2
  have renewed_eq : used.renewed = fresh.renewed := same.renewed_eq
  have usedRun := expand_eq_renewed used layout source
  have freshRun := expand_eq_renewed fresh layout source
  rw [← renewed_eq] at freshRun
  have usedState := stateAfter_of_overState usedRun
  have freshState := stateAfter_of_overState freshRun
  refine ⟨⟨same.1.symm, ?_⟩, ?_, ?_, ?_, ?_⟩
  · exact untouched.trans (congrArg Engine.registry renewed_eq).symm
  · exact (outcome_of_overState usedRun).trans (outcome_of_overState freshRun).symm
  · rw [usedState, freshState]
    rfl
  · intro name solution
    rw [usedState, freshState]
    exact ⟨rfl, rfl⟩
  · refine ⟨(stateAfter document used.renewed).printed, ?_, ?_⟩
    · rw [usedState]
      rfl
    · rw [freshState]
      rfl

end Engine

end ModelWeaver
