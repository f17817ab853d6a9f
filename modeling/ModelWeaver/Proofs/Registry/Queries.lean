import ModelWeaver.Proofs.Registry.Lifecycle

/-!
# Asking submodels about solutions

When a registry answers for a submodel, and with what. Before the document is complete it
never does. After that it answers exactly for the submodels in use, from what their calls
have left behind.
-/

namespace ModelWeaver

/-! ## Calls with records -/

namespace Submodel

/-- Whether a submodel keeps a record of each call: the tours and bin packings do. -/
def keepsRecords : Submodel → Bool
  | tour _ | binPacking => true
  | orderedSet _ | polyline => false

/-- What a call of a submodel, once it has succeeded, answers for a solution. -/
def Answers (submodel : Submodel) (solution : Solution) (call : Call) (decoded : Decoded) : Prop :=
  ∃ record after, submodel.run call.invocation call.context = .ok (some record) after ∧
    record.decode solution = decoded

theorem exists_record {submodel : Submodel} (keeps : submodel.keepsRecords = true)
    {invocation : Invocation} {context after : Context} {record : Option Record}
    (ran : submodel.run invocation context = .ok record after) :
    ∃ kept, record = some kept := by
  cases submodel with
  | orderedSet kind | polyline => cases keeps
  | tour formulation | binPacking =>
    obtain ⟨result, _, _, ⟨⟩⟩ := exists_of_bind_eq_ok ran
    exact ⟨_, rfl⟩

end Submodel

theorem forall₂_map_filterMap {α β γ : Type} {related : α → γ → Prop} {keep : α → Option β}
    {read : β → γ} {items : List α}
    (kept : ∀ item ∈ items, ∃ value, keep item = some value ∧ related item (read value)) :
    List.Forall₂ related items ((items.filterMap keep).map read) := by
  induction items with
  | nil => exact .nil
  | cons item items ih =>
    rcases kept item List.mem_cons_self with ⟨value, keep_eq, holds⟩
    rw [List.filterMap_cons_some keep_eq]
    exact .cons holds (ih fun other mem =>
      kept other (List.mem_cons_of_mem _ mem))

namespace Registry

variable {calls : List FinishedCall} {registry : Registry} {name : String}

/-! ## States and answers -/

theorem state_of_some {state : SubmodelState} (found : registry.states.get? name = some state) :
    registry.state name = .ok state := by
  rw [Registry.state, found]

theorem state_of_none (missing : registry.states.get? name = none) :
    registry.state name =
      if (registry.commands.get? name).any Generator.isSubmodel then .ok .unconstructed
      else .error (.unknownSubmodel name) := by
  rw [Registry.state, missing]

theorem get?_states_of_queryable (queryable : registry.state name = .ok .queryable) :
    registry.states.get? name = some .queryable := by
  cases found : registry.states.get? name with
  | some state =>
    rw [state_of_some found] at queryable
    cases queryable
    rfl
  | none =>
    rw [state_of_none found] at queryable
    split at queryable <;> cases queryable

theorem answers_of_error {failure : Failure} (failed : registry.state name = .error failure) :
    registry.answers name = .error failure := by
  rw [answers, failed]
  rfl

theorem answers_of_notReady {state : SubmodelState} (known : registry.state name = .ok state)
    (notReady : state ≠ .queryable) :
    registry.answers name = .error (.submodelNotReady name state) := by
  simp only [answers, known, bind, Except.bind, if_pos notReady]
  rfl

theorem answers_of_live {command : LiveCommand} {answers : Answers}
    (queryable : registry.state name = .ok .queryable)
    (live : registry.live.get? name = some command) (submodel : command.answers? = some answers) :
    registry.answers name = .ok answers := by
  simp only [Registry.answers, queryable, bind, Except.bind, live, Option.bind_some, submodel]
  rfl

theorem Consistent.answers_of_queryable (consistent : Consistent calls registry)
    (queryable : registry.state name = .ok .queryable) :
    ∃ command answers, registry.live.get? name = some command ∧
      command.answers? = some answers ∧ registry.answers name = .ok answers := by
  have used : name ∈ registry.used := by
    rw [consistent.mem_used_iff, NameMap.contains, get?_states_of_queryable queryable]
    rfl
  rcases consistent.mem_used_iff_called.mp used with ⟨-, command, live, submodel⟩
  have isSome : command.answers?.isSome = true := by
    rw [← submodel]
    exact consistent.steady.live live _ _
  rcases Option.isSome_iff_exists.mp isSome with ⟨answers, answers_eq⟩
  exact ⟨command, answers, live, answers_eq, answers_of_live queryable live answers_eq⟩

/-! ## While the document is expanded -/

/-- A submodel is registered under a name. -/
def NamesSubmodel (commands : NameMap Generator) (name : String) : Prop :=
  (commands.get? name).any Generator.isSubmodel = true

theorem Consistent.get?_states_eq_none (consistent : Consistent calls registry)
    (unused : name ∉ registry.used) : registry.states.get? name = none := by
  rw [consistent.mem_used_iff, NameMap.contains] at unused
  simpa using unused

theorem Consistent.exists_state (consistent : Consistent calls registry)
    (used : name ∈ registry.used) : ∃ state, registry.states.get? name = some state := by
  rw [consistent.mem_used_iff, NameMap.contains] at used
  exact Option.isSome_iff_exists.mp used

section Document

variable {commands : NameMap Generator} (inDocument : InDocument commands registry)
  (consistent : Consistent calls registry)
include inDocument consistent

theorem InDocument.answers_of_submodel (submodel : NamesSubmodel commands name) :
    registry.answers name =
      .error (.submodelNotReady name
        (if name ∈ registry.used then .constructed else .unconstructed)) := by
  by_cases used : name ∈ registry.used
  · rcases consistent.exists_state used with ⟨state, found⟩
    cases inDocument.constructed found
    rw [if_pos used]
    exact answers_of_notReady (state_of_some found) nofun
  · rw [if_neg used]
    refine answers_of_notReady ?_ nofun
    rw [state_of_none (consistent.get?_states_eq_none used), inDocument.commands_eq]
    exact if_pos submodel

theorem InDocument.mem_used_iff :
    name ∈ registry.used ↔ name ∈ calledNames calls ∧ NamesSubmodel commands name := by
  rw [consistent.mem_used_iff_called, NamesSubmodel]
  refine and_congr_right ?_
  intro called
  rcases consistent.live called with ⟨command, live, -⟩
  rw [inDocument.generator_eq live, live]
  constructor
  · rintro ⟨held, same, submodel⟩
    cases same
    exact submodel
  · exact fun submodel => ⟨command, rfl, submodel⟩

theorem InDocument.answers_of_other (other : ¬ NamesSubmodel commands name) :
    registry.answers name = .error (.unknownSubmodel name) := by
  have unused : name ∉ registry.used := fun used =>
    other ((inDocument.mem_used_iff consistent).mp used).2
  apply answers_of_error
  rw [state_of_none (consistent.get?_states_eq_none unused), inDocument.commands_eq]
  exact if_neg other

end Document

/-! ## Once the document is complete -/

theorem get?_complete_states (registry : Registry) (name : String) :
    registry.complete.states.get? name =
      (registry.states.get? name).map fun _ => SubmodelState.queryable :=
  NameMap.get?_mapValues ..

theorem Consistent.state_complete (consistent : Consistent calls registry)
    (used : name ∈ registry.used) : registry.complete.state name = .ok .queryable := by
  rcases consistent.exists_state used with ⟨state, found⟩
  apply state_of_some
  rw [get?_complete_states, found]
  rfl

/-- Exactly the submodels in use can be asked. -/
theorem Consistent.answers_complete_iff (consistent : Consistent calls registry) :
    (∃ answers, registry.complete.answers name = .ok answers) ↔ name ∈ registry.used := by
  constructor
  · rintro ⟨answers, answered⟩
    by_contra unused
    have missing : registry.complete.states.get? name = none := by
      rw [get?_complete_states, consistent.get?_states_eq_none unused]
      rfl
    have state := state_of_none missing
    split at state
    · rw [answers_of_notReady state nofun] at answered
      cases answered
    · rw [answers_of_error state] at answered
      cases answered
  · intro used
    have queryable := consistent.state_complete used
    rcases consistent.complete.answers_of_queryable queryable with ⟨_, answers, -, -, answered⟩
    exact ⟨answers, answered⟩

theorem extract_eq (registry : Registry) (name : String) (solution : Solution) :
    registry.extract name solution = (registry.answers name).map (·.extract solution) := by
  rw [extract]
  cases registry.answers name <;> rfl

theorem separate_eq (registry : Registry) (name : String) (solution : Solution) :
    registry.separate name solution = (registry.answers name).map (·.separate solution) := by
  rw [separate]
  cases registry.answers name <;> rfl

/-- A submodel that keeps records answers for each of its calls that have succeeded, in
their order. -/
theorem Consistent.decoded (consistent : Consistent calls registry) {command : LiveCommand}
    {submodel : Submodel} (live : registry.live.get? name = some command)
    (generator_eq : command.generator = .submodel submodel)
    (keeps : submodel.keepsRecords = true) (solution : Solution) :
    List.Forall₂ (fun call => submodel.Answers solution call.toCall) (callsOf name calls)
      (command.records.map (Record.decode solution)) := by
  rw [consistent.records_eq live]
  apply forall₂_map_filterMap
  intro call mem
  obtain ⟨called, name_eq⟩ := List.mem_filter.mp mem
  rw [← of_decide_eq_true name_eq] at live
  rcases consistent.runs called live generator_eq with ⟨after, ran⟩
  rcases Submodel.exists_record keeps ran with ⟨record, kept⟩
  refine ⟨record, kept, record, after, ?_, rfl⟩
  rw [ran, kept]

end Registry

end ModelWeaver
