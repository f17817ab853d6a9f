import ModelWeaver.Proofs.Engine.Constructs
import ModelWeaver.Proofs.Registry.Queries

/-!
# The submodels of a document

Whatever a document does, its commands are called one after the other from an empty
registry, so all that is known of reachable registries is known of an engine after a
document.
-/

namespace ModelWeaver

open Document
open Snippet

namespace Session

/-! ## Constructs -/

/-- The registry has changed by calls only. -/
def Serving (first second : Session) : Prop :=
  ∃ calls, first.registry.Serves calls second.registry

theorem serving_of_eq {first second : Session} (same : second.registry = first.registry) :
    Serving first second := by
  refine ⟨[], ?_⟩
  rw [same]
  exact .nothing

theorem chains_serving : Chains Serving where
  refl _ := serving_of_eq rfl
  trans := by
    rintro first second third ⟨calls, serves⟩ ⟨later, further⟩
    exact ⟨calls ++ later, serves.trans further⟩

theorem serving_invoke (name : String) (index : Option String) (args : Arguments) :
    Moves Serving (invoke name index args) := by
  intro session
  rw [stateAfter]
  cases result : invoke name index args session with
  | ok value final => exact ⟨_, .succeeds .nothing result⟩
  | error failure final => exact ⟨_, .fails .nothing result⟩

theorem serving_modify {ε : Type} {change : Session → Session}
    (same : ∀ session, (change session).registry = session.registry) :
    Moves Serving (modify change : EStateM ε Session Unit) :=
  fun session => serving_of_eq (same session)

theorem serving_bindName (name : String) (value : Value) :
    Moves Serving (bindName name value) := by
  rw [bindName]
  split
  · exact chains_serving.composes.throw_bind _ _
  · cases Buffer.ofName? name with
    | some buffer =>
      exact chains_serving.composes.bind (chains_serving.composes.lift _) fun _ =>
        serving_modify fun _ => rfl
    | none => exact serving_modify fun _ => rfl

theorem serving_inScope {α : Type} {action : Evaluating α} (moves : Moves Serving action) :
    Moves Serving (inScope action) := by
  intro session
  rw [stateAfter_inScope]
  exact moves session.opened

theorem evolves_serving : Evolves (fun _ => True) (Moves Serving) (Moves Serving) where
  across := chains_serving.composes
  within := chains_serving.composes
  widen := id
  inspect _ := chains_serving.refl
  bindName _ _ := serving_bindName _ _
  print _ := serving_modify fun _ => rfl
  invoke := serving_invoke
  inScope := serving_inScope

theorem serving_expandRegions (source : String) (layout : Layout)
    (regions : List Region) : Moves Serving (expandRegions source layout regions) :=
  evolves_serving.expandRegions (serving_modify fun _ => rfl) source layout regions

end Session

/-! ## Engines -/

namespace Registry

/-- How the submodels of a registry go together with the calls that have succeeded since
all calls were last forgotten. -/
structure Accounts (calls : List FinishedCall) (registry : Registry) : Prop where
  nodup : registry.used.Nodup
  used_iff (name : String) : name ∈ registry.used ↔ registry.states.contains name = true
  /-- The submodels are listed in the order of their first calls. -/
  order : registry.used = (calledNames calls).eraseDups.filter registry.states.contains
  /-- They are the called commands whose live instance is a submodel. -/
  live (name : String) : name ∈ registry.used ↔
    name ∈ calledNames calls ∧
      ∃ command, registry.live.get? name = some command ∧ command.answers?.isSome = true
  /-- A submodel that is ready is never unknown. -/
  known (name : String) : registry.state name = .ok .queryable →
    ∃ answers, registry.answers name = .ok answers

theorem Consistent.accounts {calls : List FinishedCall} {registry : Registry}
    (consistent : Consistent calls registry) : Accounts calls registry where
  nodup := consistent.nodup_used
  used_iff _ := consistent.mem_used_iff
  order := consistent.used_eq
  live name := by
    rw [consistent.mem_used_iff_called]
    refine and_congr_right fun _ => exists_congr fun command => and_congr_right fun live => ?_
    exact (congrArg (· = true) (consistent.steady.live live _ _)).symm.to_iff
  known _ queryable := by
    rcases consistent.answers_of_queryable queryable with ⟨_, answers, -, -, answered⟩
    exact ⟨answers, answered⟩

end Registry

namespace Engine

/-- After a document that was expanded, an engine answers for the submodels in use, and
for each of their calls if they keep records. -/
structure Answering (commands : NameMap Generator) (calls : List FinishedCall)
    (engine : Engine) : Prop where
  submodels_iff (name : String) : name ∈ engine.submodels ↔
    name ∈ calledNames calls ∧ Registry.NamesSubmodel commands name
  extract_iff (name : String) (solution : Solution) :
    (∃ decoded, engine.extract name solution = .ok decoded) ↔ name ∈ engine.submodels
  separate_iff (name : String) (solution : Solution) :
    (∃ cuts, engine.separate name solution = .ok cuts) ↔ name ∈ engine.submodels
  decoded (name : String) (submodel : Submodel) (solution : Solution) :
    commands.get? name = some (.submodel submodel) → submodel.keepsRecords = true →
    name ∈ engine.submodels →
    ∃ decoded, engine.extract name solution = .ok decoded ∧
      List.Forall₂ (fun call => submodel.Answers solution call.toCall) (callsOf name calls)
        decoded

/-- After a document that could not be expanded, an engine answers for nothing. -/
structure Refusing (commands : NameMap Generator) (engine : Engine) : Prop where
  notReady (name : String) (solution : Solution) : Registry.NamesSubmodel commands name →
    let failure := Failure.submodelNotReady name
      (if name ∈ engine.submodels then .constructed else .unconstructed)
    engine.extract name solution = .error failure ∧ engine.separate name solution = .error failure
  unknown (name : String) (solution : Solution) : ¬ Registry.NamesSubmodel commands name →
    engine.extract name solution = .error (.unknownSubmodel name) ∧
      engine.separate name solution = .error (.unknownSubmodel name)

variable {commands : NameMap Generator} {calls : List FinishedCall} {registry : Registry}

theorem exists_map_ok_iff {α β : Type} (change : α → β) (result : Except Failure α) :
    (∃ value, result.map change = .ok value) ↔ ∃ value, result = .ok value := by
  cases result with
  | ok value => exact ⟨fun _ => ⟨value, rfl⟩, fun _ => ⟨change value, rfl⟩⟩
  | error failure => exact ⟨nofun, nofun⟩

theorem answering_of_complete {engine : Engine} (complete : engine.registry = registry.complete)
    (consistent : registry.Consistent calls) (inDocument : registry.InDocument commands) :
    engine.Answering commands calls := by
  have used_eq : engine.submodels = registry.used := by
    rw [submodels, complete]
    rfl
  constructor
  · intro name
    rw [used_eq]
    exact inDocument.mem_used_iff consistent
  · intro name solution
    rw [extract, complete, Registry.extract_eq, exists_map_ok_iff, used_eq]
    exact consistent.answers_complete_iff
  · intro name solution
    rw [separate, complete, Registry.separate_eq, exists_map_ok_iff, used_eq]
    exact consistent.answers_complete_iff
  · intro name submodel solution known keeps used
    rw [used_eq] at used
    rcases consistent.complete.answers_of_queryable (consistent.state_complete used) with
      ⟨command, answers, live, answers_eq, answered⟩
    have generator_eq : command.generator = .submodel submodel := by
      have registered := inDocument.generator_eq live
      rw [known] at registered
      exact (Option.some.inj registered).symm
    rw [LiveCommand.answers?, generator_eq] at answers_eq
    cases answers_eq
    refine ⟨command.records.map (Record.decode solution), ?_, ?_⟩
    · rw [extract, complete, Registry.extract_eq, answered]
      rfl
    · exact consistent.decoded live generator_eq keeps solution

theorem refusing_of_open {engine : Engine} (consistent : engine.registry.Consistent calls)
    (inDocument : engine.registry.InDocument commands) : engine.Refusing commands := by
  constructor
  · intro name solution submodel
    have fails := inDocument.answers_of_submodel consistent submodel
    rw [extract, separate, Registry.extract_eq, Registry.separate_eq, fails]
    exact ⟨rfl, rfl⟩
  · intro name solution other
    have fails := inDocument.answers_of_other consistent other
    rw [extract, separate, Registry.extract_eq, Registry.separate_eq, fails]
    exact ⟨rfl, rfl⟩

/-- A document is a series of calls from an empty registry, which is completed if all goes
well. -/
theorem expand_serves (engine : Engine) (layout : Layout) (source : String) :
    ∃ calls registry, engine.registry.reset.Serves calls registry ∧
      match expand layout source engine with
      | .ok _ after => after.registry = registry.complete
      | .error _ after => after.registry = registry := by
  cases scanned : scan source with
  | error error =>
    refine ⟨[], _, .nothing, ?_⟩
    rw [expand_of_error engine layout scanned]
  | ok regions =>
    rcases Session.serving_expandRegions source layout regions engine.opening with
      ⟨calls, serves⟩
    refine ⟨calls, _, serves, ?_⟩
    rw [expand_of_regions engine layout scanned, stateAfter]
    cases expandRegions source layout regions engine.opening with
    | ok output session => rfl
    | error fault session => rfl

/-- The life of submodels. In every registry that can be reached with steady commands the
submodels in use are those with a state, each of them once and in the order of its first call,
and all of them are live. So after a document an engine answers exactly for the submodels in
use, call by call, and for none if the document failed. -/
theorem submodels_follow_calls :
    (∀ calls registry, Registry.Reached Generator.Steady calls registry →
      registry.Accounts calls) ∧
    ∀ engine : Engine, (∀ name generator,
        engine.registry.commands.get? name = some generator → generator.Steady) →
      ∀ (layout : Layout) (source : String),
        ∃ registry, (∃ calls, engine.registry.reset.Serves calls registry) ∧
          match expand layout source engine with
          | .ok _ after =>
            after.registry = registry.complete ∧
              ∀ calls, engine.registry.reset.Serves calls registry →
                after.Answering engine.registry.commands calls
          | .error _ after =>
            after.registry = registry ∧ after.Refusing engine.registry.commands := by
  constructor
  · intro calls registry reached
    exact reached.consistent.accounts
  · intro engine steady layout source
    rcases expand_serves engine layout source with ⟨calls, registry, serves, result⟩
    have consistent : ∀ {calls}, engine.registry.reset.Serves calls registry →
        registry.Consistent calls := (Registry.consistent_start steady).serves
    have inDocument := (Registry.inDocument_reset engine.registry).serves serves
    refine ⟨registry, ⟨calls, serves⟩, ?_⟩
    cases expanded : expand layout source engine with
    | ok output after =>
      rw [expanded] at result
      exact ⟨result, fun calls served =>
        answering_of_complete result (consistent served) inDocument⟩
    | error fault after =>
      rw [expanded] at result
      subst result
      exact ⟨rfl, refusing_of_open (consistent serves) inDocument⟩

/-- A submodel that counts its calls, and answers with the count. -/
def tally : Generator :=
  .custom (.ofState 0 (fun _ => modify fun (count, context) => (count + 1, context))
    fun count => some ⟨fun _ => [⟨"tally", 0, [⟨count, []⟩]⟩], fun _ => []⟩)

/-- An engine with a command that was added. -/
def withTally : Engine := { registry := Registry.defaults.register "TALLY" tally }

/-- Two tours, each before a call of the command that was added. -/
def twoTours : String :=
  "$ATSP_MTZ[x]\x7b[1,2],[(1,2),(2,1)]\x7d; $TALLY\x7b\x7d; " ++
    "$ATSP_MTZ[u]\x7b[1,2],[(1,2),(2,1)]\x7d; $TALLY\x7b\x7d;"

theorem steady_withTally (name : String) (generator : Generator)
    (known : withTally.registry.commands.get? name = some generator) : generator.Steady := by
  rw [withTally, Registry.register, NameMap.get?_insert] at known
  split at known
  · cases known
    exact fun _ _ => rfl
  · exact Generator.steady_of_isCustom (Registry.standard_defaults.commands known)

theorem submodels_follow_calls_twoTours :
    ∃ output after calls, expand {} twoTours withTally = .ok output after ∧
      Registry.Reached Generator.Steady calls after.registry ∧ after.registry.Accounts calls ∧
      after.Answering withTally.registry.commands calls ∧
      after.submodels = ["ATSP_MTZ", "TALLY"] ∧ (callsOf "ATSP_MTZ" calls).length = 2 ∧
      (after.extract "TALLY" fun _ => 0).toOption.map (·.map Decoded.paths) =
        some [[⟨2, []⟩]] := by
  have run : (match expand {} twoTours withTally with
      | .ok _ after => decide (after.submodels = ["ATSP_MTZ", "TALLY"] ∧
          (after.extract "ATSP_MTZ" fun _ => 0).toOption.map List.length = some 2 ∧
          (after.extract "TALLY" fun _ => 0).toOption.map (·.map Decoded.paths) =
            some [[⟨2, []⟩]])
      | .error _ _ => false) = true := by decide +kernel
  rcases submodels_follow_calls.2 withTally steady_withTally {} twoTours with
    ⟨registry, ⟨calls, serves⟩, result⟩
  cases expanded : expand {} twoTours withTally with
  | error fault after =>
    rw [expanded] at run
    cases run
  | ok output after =>
    rw [expanded] at run result
    obtain ⟨used, count, tallied⟩ := of_decide_eq_true run
    have reached : Registry.Reached Generator.Steady calls after.registry := by
      rw [result.1]
      exact ((Registry.Reached.start steady_withTally).serve serves).complete
    have answering := result.2 calls serves
    refine ⟨output, after, calls, rfl, reached, submodels_follow_calls.1 calls _ reached,
      answering, used, ?_, tallied⟩
    have tours : withTally.registry.commands.get? "ATSP_MTZ" =
        some (.submodel (.tour .potentials)) := rfl
    rcases answering.decoded "ATSP_MTZ" (.tour .potentials) (fun _ => 0) tours rfl
      (by simp [used]) with ⟨decoded, extracted, related⟩
    rw [extracted] at count
    rw [related.length_eq]
    exact Option.some.inj count

end Engine

end ModelWeaver
