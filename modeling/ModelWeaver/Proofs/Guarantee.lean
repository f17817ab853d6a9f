import ModelWeaver.Call.Arguments
import ModelWeaver.Proofs.Action
import ModelWeaver.Proofs.NameMap

/-!
# What computations guarantee

A guarantee says that a property of what goes into a computation is a property of what comes out.
`Yields` speaks of results, `Takes` of results that are computed from arguments, and `Keeps` of an
action that also keeps its states sound, whether it succeeds or fails. The lemmas carry each
guarantee over from the steps of a computation to the whole.
-/

namespace ModelWeaver

variable {σ ε α β : Type}

/-! ## Results -/

theorem bind_eq_ok_iff {result : Except ε α} {next : α → Except ε β} {value : β} :
    (result >>= next) = .ok value ↔ ∃ middle, result = .ok middle ∧ next middle = .ok value := by
  cases result with
  | error failure => exact iff_of_false nofun nofun
  | ok middle =>
    refine ⟨fun returned => ⟨middle, rfl, returned⟩, ?_⟩
    rintro ⟨_, ⟨⟩, returned⟩
    exact returned

theorem bind_eq_error_iff {result : Except ε α} {next : α → Except ε β} {failure : ε} :
    (result >>= next) = .error failure ↔
      result = .error failure ∨ ∃ middle, result = .ok middle ∧ next middle = .error failure := by
  cases result <;> simp [bind, Except.bind]

theorem orPanic_eq_ok_iff {operation : Failure.Panic} {result : Option α} {value : α} :
    Failure.orPanic operation result = .ok value ↔ result = some value := by
  cases result <;> simp [Failure.orPanic]

section MapM

variable {compute : α → Except ε β} {items : List α}

/-- All results are returned if each of them is. -/
theorem mapM_eq_ok_iff {results : List β} :
    items.mapM compute = .ok results ↔ items.map compute = results.map .ok := by
  induction items generalizing results with
  | nil => cases results <;> simp [pure, Except.pure]
  | cons item items ih =>
    rw [List.mapM_cons, bind_eq_ok_iff]
    cases results with
    | nil =>
      refine iff_of_false ?_ nofun
      rintro ⟨first, -, rest⟩
      obtain ⟨others, -, ⟨⟩⟩ := bind_eq_ok_iff.mp rest
    | cons result results =>
      rw [List.map_cons, List.map_cons, List.cons.injEq, ← ih]
      constructor
      · rintro ⟨first, computed, rest⟩
        obtain ⟨others, returned, ⟨⟩⟩ := bind_eq_ok_iff.mp rest
        exact ⟨computed, returned⟩
      · rintro ⟨computed, returned⟩
        exact ⟨result, computed, by rw [returned]; rfl⟩

theorem exists_of_mapM_eq_ok [Inhabited β] {results : List β}
    (computed : items.mapM compute = .ok results) :
    ∃ value : α → β, results = items.map value ∧
      ∀ item ∈ items, compute item = .ok (value item) := by
  rw [mapM_eq_ok_iff] at computed
  refine ⟨fun item => (compute item).toOption.getD default, ?_, fun item mem => ?_⟩
  · have same := congrArg (List.map fun result => result.toOption.getD default) computed
    simpa [Function.comp_def, Except.toOption] using same.symm
  · have found := List.mem_map_of_mem (f := compute) mem
    rw [computed] at found
    obtain ⟨result, -, result_eq⟩ := List.mem_map.mp found
    simp only [← result_eq, Except.toOption, Option.getD_some]

theorem exists_mapM_eq_ok_iff :
    (∃ results, items.mapM compute = .ok results) ↔
      ∀ item ∈ items, ∃ result, compute item = .ok result := by
  induction items with
  | nil => exact iff_of_true ⟨[], rfl⟩ (List.forall_mem_nil _)
  | cons item items ih =>
    rw [List.forall_mem_cons, ← ih]
    simp only [mapM_eq_ok_iff]
    constructor
    · rintro ⟨_ | ⟨result, results⟩, computed⟩
      · cases computed
      · obtain ⟨first, others⟩ := List.cons.inj computed
        exact ⟨⟨result, first⟩, results, others⟩
    · rintro ⟨⟨result, first⟩, results, others⟩
      exact ⟨result :: results, by rw [List.map_cons, first, others, List.map_cons]⟩

/-- A failure is that of an item. -/
theorem exists_of_mapM_eq_error {failure : ε} (failed : items.mapM compute = .error failure) :
    ∃ item ∈ items, compute item = .error failure := by
  induction items with
  | nil => cases failed
  | cons item items ih =>
    rw [List.mapM_cons] at failed
    cases computed : compute item with
    | error cause =>
      rw [computed] at failed
      cases failed
      exact ⟨item, List.mem_cons_self, computed⟩
    | ok result =>
      rw [computed] at failed
      cases returned : items.mapM compute with
      | ok results =>
        simp only [returned, bind, Except.bind] at failed
        cases failed
      | error cause =>
        simp only [returned, bind, Except.bind] at failed
        cases failed
        obtain ⟨other, mem, fails⟩ := ih returned
        exact ⟨other, List.mem_cons_of_mem item mem, fails⟩

end MapM

/-- What is returned is good. -/
def Yields (Good : α → Prop) (result : Except ε α) : Prop :=
  ∀ ⦃value⦄, result = .ok value → Good value

namespace Yields

variable {Good Better : α → Prop} {Fine : β → Prop} {result : Except ε α} {items : List α}

@[simp]
theorem ok_iff {value : α} : Yields Good (.ok value : Except ε α) ↔ Good value :=
  ⟨fun yields => yields rfl, by rintro good _ ⟨⟩; exact good⟩

@[simp]
theorem pure_iff {value : α} : Yields Good (pure value : Except ε α) ↔ Good value :=
  ok_iff

theorem ok {value : α} (good : Good value) : Yields Good (.ok value : Except ε α) :=
  ok_iff.mpr good

@[simp]
theorem error (failure : ε) : Yields Good (.error failure : Except ε α) :=
  nofun

@[simp]
theorem throw (failure : ε) : Yields Good (MonadExcept.throw failure : Except ε α) :=
  nofun

@[simp]
theorem anything (result : Except ε α) : Yields (fun _ => True) result :=
  fun _ _ => trivial

theorem itself (result : Except ε α) : Yields (fun value => result = .ok value) result :=
  fun _ returned => returned

theorem mono (yields : Yields Better result) (implies : ∀ value, Better value → Good value) :
    Yields Good result :=
  fun value returned => implies value (yields returned)

@[simp]
theorem bind_iff {next : α → Except ε β} :
    Yields Fine (result >>= next) ↔ Yields (fun value => Yields Fine (next value)) result := by
  cases result with
  | ok value => exact Iff.symm (ok_iff (ε := ε))
  | error failure => exact iff_of_true (error failure) (error failure)

@[simp]
theorem map_iff {change : α → β} :
    Yields Fine (change <$> result) ↔ Yields (fun value => Fine (change value)) result := by
  rw [map_eq_pure_bind, bind_iff]
  simp only [pure_iff]

theorem bind {next : α → Except ε β} (first : Yields Good result)
    (second : ∀ value, Good value → Yields Fine (next value)) : Yields Fine (result >>= next) :=
  bind_iff.mpr (first.mono second)

theorem after {next : α → Except ε β} (second : ∀ value, Yields Fine (next value)) :
    Yields Fine (result >>= next) :=
  (anything result).bind fun value _ => second value

theorem ite {condition : Prop} [Decidable condition] {yes no : Except ε α}
    (ifTrue : condition → Yields Good yes) (ifFalse : ¬condition → Yields Good no) :
    Yields Good (if condition then yes else no) := by
  split
  · next holds => exact ifTrue holds
  · next fails => exact ifFalse fails

theorem foldlM {step : β → α → Except ε β} {state : β} (start : Fine state)
    (steps : ∀ state, Fine state → ∀ item ∈ items, Yields Fine (step state item)) :
    Yields Fine (items.foldlM step state) := by
  induction items generalizing state with
  | nil => exact ok start
  | cons item items ih =>
    rw [List.foldlM_cons]
    refine bind (steps state start item List.mem_cons_self) fun next fine => ?_
    exact ih fine fun state fine other mem =>
      steps state fine other (List.mem_cons_of_mem item mem)

theorem mapM {compute : α → Except ε β} (each : ∀ item ∈ items, Yields Fine (compute item)) :
    Yields (fun results => ∀ result ∈ results, Fine result) (items.mapM compute) := by
  induction items with
  | nil => exact ok (List.forall_mem_nil _)
  | cons item items ih =>
    obtain ⟨first, others⟩ := List.forall_mem_cons.mp each
    rw [List.mapM_cons]
    exact bind first fun result fine => bind (ih others) fun results allFine =>
      ok (List.forall_mem_cons.mpr ⟨fine, allFine⟩)

theorem mapM_items {compute : α → Except ε β}
    (each : ∀ item ∈ items, Yields (fun _ => Good item) (compute item)) :
    Yields (fun _ => ∀ item ∈ items, Good item) (items.mapM compute) := by
  induction items with
  | nil => exact ok (List.forall_mem_nil _)
  | cons item items ih =>
    obtain ⟨first, others⟩ := List.forall_mem_cons.mp each
    rw [List.mapM_cons]
    exact bind first fun _ good => bind (ih others) fun _ allGood =>
      ok (List.forall_mem_cons.mpr ⟨good, allGood⟩)

end Yields

/-! ## Arguments -/

/-- All arguments of a call are good. -/
structure Arguments.All (Good : Value → Prop) (arguments : Arguments) : Prop where
  positional : ∀ value ∈ arguments.positional, Good value
  keyword : ∀ entry ∈ arguments.keyword, Good entry.2

theorem Arguments.all_true (args : Arguments) : args.All fun _ => True :=
  ⟨fun _ _ => trivial, fun _ _ => trivial⟩

section All

variable {Good : Value → Prop} {args : Arguments} {value : Value}

theorem Arguments.all_nil : Arguments.All Good {} :=
  ⟨List.forall_mem_nil _, List.forall_mem_nil _⟩

theorem Arguments.All.addPositional (all : args.All Good) (good : Good value) :
    Arguments.All Good { args with positional := args.positional ++ [value] } :=
  ⟨List.forall_mem_append.mpr ⟨all.positional, List.forall_mem_singleton.mpr good⟩, all.keyword⟩

theorem Arguments.All.addKeyword (all : args.All Good) (name : String) (good : Good value) :
    Arguments.All Good { args with keyword := args.keyword ++ [(name, value)] } :=
  ⟨all.positional, List.forall_mem_append.mpr ⟨all.keyword, List.forall_mem_singleton.mpr good⟩⟩

end All

/-- All arguments that parameters have got are good. -/
def AllSlots (Good : Value → Prop) (slots : List (String × Option Value)) : Prop :=
  ∀ slot ∈ slots, ∀ value ∈ slot.2, Good value

/-- All matched arguments are good. -/
def Bound.All (Good : Value → Prop) (bound : Bound) : Prop :=
  AllSlots Good bound.slots

/-- From good arguments, what is returned is fine. -/
def Takes (Good : Value → Prop) (Fine : α → Prop) (taking : Taking α) : Prop :=
  ∀ bound, bound.All Good → Yields (fun result => Fine result.1 ∧ result.2.All Good) (taking bound)

namespace Takes

variable {Good : Value → Prop} {Fine : α → Prop} {Finer : β → Prop}

theorem pure {value : α} (fine : Fine value) : Takes Good Fine (Pure.pure value) :=
  fun _ all => Yields.ok ⟨fine, all⟩

theorem throw (failure : Failure) : Takes Good Fine (MonadExcept.throw failure) :=
  fun _ _ => Yields.error failure

theorem get : Takes Good (Bound.All Good) (get : Taking Bound) :=
  fun _ all => Yields.ok ⟨all, all⟩

theorem lift {result : Except Failure α} (yields : Yields Fine result) :
    Takes Good Fine (liftM result) :=
  fun _ all => yields.bind fun _ fine => Yields.ok ⟨fine, all⟩

theorem bind {taking : Taking α} {next : α → Taking β} (first : Takes Good Fine taking)
    (second : ∀ value, Fine value → Takes Good Finer (next value)) :
    Takes Good Finer (taking >>= next) :=
  fun bound all => (first bound all).bind fun result fine => second result.1 fine.1 result.2 fine.2

theorem after {result : Except Failure α} {next : α → Taking β}
    (second : ∀ value, Takes Good Finer (next value)) : Takes Good Finer (liftM result >>= next) :=
  bind (lift (Yields.anything result)) fun value _ => second value

end Takes

namespace Bound

variable {Good : Value → Prop}

/-- The matched arguments without that of one parameter. -/
def without (bound : Bound) (name : String) : Bound :=
  { bound with
    slots := bound.slots.map fun slot => if slot.1 == name then (slot.1, none) else slot }

theorem All.without {bound : Bound} (all : bound.All Good) (name : String) :
    (bound.without name).All Good := by
  refine List.forall_mem_map.mpr fun slot mem => ?_
  split
  · exact nofun
  · exact all slot mem

theorem take_eq (name : String) (bound : Bound) :
    take name bound =
      (match bound.slots.lookup name with
        | some (some .none) | some none | none => pure none
        | some (some value) => pure (some value) : Taking (Option Value)) (bound.without name) :=
  rfl

theorem exists_take (name : String) (bound : Bound) :
    ∃ value?, take name bound = .ok (value?, bound.without name) ∧
      ∀ value ∈ value?, bound.slots.lookup name = some (some value) := by
  rw [take_eq]
  cases bound.slots.lookup name with
  | none => exact ⟨none, rfl, nofun⟩
  | some slot =>
    cases slot with
    | none => exact ⟨none, rfl, nofun⟩
    | some value =>
      cases value with
      | none => exact ⟨none, rfl, nofun⟩
      | _ => exact ⟨_, rfl, fun _ same => congrArg (some <| some ·) (Option.some.inj same)⟩

theorem takes_take (name : String) :
    Takes Good (fun value? => ∀ value ∈ value?, Good value) (take name) := by
  intro bound all
  obtain ⟨value?, taken, argument⟩ := exists_take name bound
  rw [taken]
  refine Yields.ok ⟨fun value mem => ?_, all.without name⟩
  exact all _ (NameMap.mem_of_lookup_eq_some (argument value mem)) value rfl

theorem takes_required (name : String) : Takes Good Good (required name) := by
  refine Takes.bind Takes.get fun _ _ => Takes.bind (takes_take name) fun value? good => ?_
  cases value? with
  | none => exact Takes.throw _
  | some value => exact Takes.pure (good value rfl)

theorem takes_flag (name : String) : Takes Good (fun _ => True) (flag name) :=
  Takes.bind (takes_take name) fun _ _ => Takes.pure trivial

end Bound

namespace Arguments

variable {Good : Value → Prop} {args : Arguments}

theorem yields_fill {slots : List (String × Option Value)} {value : Value}
    (all : AllSlots Good slots) (good : Good value) (callee name : String) :
    Yields (AllSlots Good) (fill callee slots name value) := by
  rw [fill]
  split
  · exact Yields.error _
  · exact Yields.error _
  · refine Yields.ok (List.forall_mem_map.mpr fun slot mem => ?_)
    split
    · rintro _ ⟨⟩
      exact good
    · exact all slot mem

theorem All.zip (all : args.All Good) (params : List String) (missing : Nat) :
    AllSlots Good
      (params.zip (args.positional.map some ++ List.replicate missing none)) := by
  intro slot mem value isValue
  obtain ⟨-, inValues⟩ := List.of_mem_zip mem
  rcases List.mem_append.mp inValues with given | missing
  · obtain ⟨argument, inPositional, same⟩ := List.mem_map.mp given
    rw [← same] at isValue
    cases isValue
    exact all.positional _ inPositional
  · rw [List.eq_of_mem_replicate missing] at isValue
    cases isValue

theorem All.bind (all : args.All Good) (callee : String) (params : List String)
    (required : Nat) : Yields (Bound.All Good) (args.bind callee params required) := by
  rw [Arguments.bind]
  split
  · exact Yields.error _
  · have start := all.zip params (params.length - args.positional.length)
    have filled := Yields.foldlM start fun slots allSlots entry mem =>
      yields_fill allSlots (all.keyword entry mem) callee entry.1
    refine filled.bind fun slots allSlots => ?_
    split
    · exact Yields.error _
    · exact Yields.ok allSlots

theorem All.reading {Fine : α → Prop} (all : args.All Good) {callee : String}
    {params : List String} {required : Nat} {taking : Taking α}
    (takes : Takes Good Fine taking) :
    Yields Fine (args.reading callee params required taking) :=
  (all.bind callee params required).bind fun bound allBound =>
    (takes bound allBound).bind fun _ fine => Yields.ok fine.1

end Arguments

/-! ## Contracts -/

/-- What an action does to its states, together with what is known about what it returns. -/
abbrev ActionContract (σ : Type) := ∀ ⦃ε α : Type⦄, (α → Prop) → EStateM ε σ α → Prop

/-- A contract that an action meets if its steps meet it. -/
structure Threads (Meets : ActionContract σ) : Prop where
  pure {ε α : Type} {Good : α → Prop} {value : α} :
    Good value → Meets Good (Pure.pure value : EStateM ε σ α)
  throw {ε α : Type} {Good : α → Prop} (failure : ε) :
    Meets Good (MonadExcept.throw failure : EStateM ε σ α)
  bind {ε α β : Type} {Good : α → Prop} {Fine : β → Prop} {action : EStateM ε σ α}
    {next : α → EStateM ε σ β} :
    Meets Good action → (∀ value, Good value → Meets Fine (next value)) →
      Meets Fine (action >>= next)
  adaptExcept {ε ε' α : Type} {Good : α → Prop} (change : ε → ε') {action : EStateM ε σ α} :
    Meets Good action → Meets Good (action.adaptExcept change)

namespace Threads

variable {Meets : ActionContract σ} (threads : Threads Meets) {Good : α → Prop} {Fine : β → Prop}
include threads

theorem throw_bind (failure : ε) (next : α → EStateM ε σ β) :
    Meets Fine (MonadExcept.throw failure >>= next) :=
  threads.throw failure

theorem lift {result : Except Failure α} (yields : Yields Good result) :
    Meets Good (liftM result : Action σ α) := by
  cases result with
  | ok value => exact threads.pure (yields rfl)
  | error failure => exact threads.throw failure

theorem foldlM {step : β → α → EStateM ε σ β} {items : List α} {start : β} (fine : Fine start)
    (steps : ∀ value, Fine value → ∀ item ∈ items, Meets Fine (step value item)) :
    Meets Fine (items.foldlM step start) := by
  induction items generalizing start with
  | nil => exact threads.pure fine
  | cons item items ih =>
    rw [List.foldlM_cons]
    refine threads.bind (steps start fine item List.mem_cons_self) fun next fine => ?_
    exact ih fine fun value fine other mem =>
      steps value fine other (List.mem_cons_of_mem item mem)

theorem forM {step : α → EStateM ε σ PUnit} {items : List α}
    (steps : ∀ item ∈ items, Meets (fun _ => True) (step item)) :
    Meets (fun _ => True) (items.forM step) := by
  induction items with
  | nil => exact threads.pure trivial
  | cons item items ih =>
    refine threads.bind (steps item List.mem_cons_self) fun _ _ => ?_
    exact ih fun other mem => steps other (List.mem_cons_of_mem item mem)

end Threads

/-- A property of actions as a contract. -/
def ActionProperty.returning (Holds : ActionProperty σ) : ActionContract σ :=
  fun _ _ Good action => Holds action ∧ ∀ state, Yields Good (outcome action state)

theorem Composes.threads {Holds : ActionProperty σ} (composes : Composes Holds) :
    Threads (ActionProperty.returning Holds) where
  pure good := ⟨composes.pure _, fun _ => Yields.ok good⟩
  throw failure := ⟨composes.throw failure, fun _ => Yields.error failure⟩
  bind := by
    rintro ε α β Good Fine action next ⟨first, yields⟩ second
    have good : ∀ {value state middle}, action state = .ok value middle → Good value :=
      fun {_ state _} ran => yields state (by rw [outcome, ran])
    refine ⟨composes.bind_returned first fun value _ _ ran => (second value (good ran)).1, ?_⟩
    intro state value returned
    obtain ⟨middle, after, ran, returned⟩ := exists_of_outcome_bind returned
    exact (second middle (good ran)).2 after returned
  adaptExcept := by
    rintro ε ε' α Good change action ⟨holds, yields⟩
    refine ⟨composes.adaptExcept change holds, fun state value returned => yields state ?_⟩
    simp only [outcome, EStateM.adaptExcept] at returned ⊢
    cases ran : action state with
    | ok found final =>
      rw [ran] at returned
      cases returned
      rfl
    | error failure final =>
      rw [ran] at returned
      cases returned

/-! ## Actions -/

/-- From a sound state, an action leads to a sound state, whether it succeeds or fails, and what
it returns is good. -/
def Keeps (Sound : σ → Prop) (Good : α → Prop) (action : EStateM ε σ α) : Prop :=
  ∀ state, Sound state → Sound (stateAfter action state) ∧ Yields Good (outcome action state)

namespace Keeps

variable {Sound : σ → Prop} {Good : α → Prop} {Fine : β → Prop}

theorem pure {value : α} (good : Good value) :
    Keeps Sound Good (Pure.pure value : EStateM ε σ α) :=
  fun _ sound => ⟨sound, Yields.ok good⟩

theorem throw (failure : ε) : Keeps Sound Good (MonadExcept.throw failure : EStateM ε σ α) :=
  fun _ sound => ⟨sound, Yields.error failure⟩

theorem modify {change : σ → σ} (sound : ∀ state, Sound state → Sound (change state)) :
    Keeps Sound (fun _ => True) (modify change : EStateM ε σ PUnit) :=
  fun state isSound => ⟨sound state isSound, Yields.ok trivial⟩

theorem get : Keeps Sound Sound (get : EStateM ε σ σ) :=
  fun _ sound => ⟨sound, Yields.ok sound⟩

theorem bind {action : EStateM ε σ α} {next : α → EStateM ε σ β} (first : Keeps Sound Good action)
    (second : ∀ value, Good value → Keeps Sound Fine (next value)) :
    Keeps Sound Fine (action >>= next) := by
  intro state sound
  have start := first state sound
  simp only [stateAfter, outcome, Bind.bind, EStateM.bind] at start ⊢
  cases result : action state with
  | ok value middle =>
    rw [result] at start
    exact second value (start.2 rfl) middle start.1
  | error failure final =>
    rw [result] at start
    exact ⟨start.1, Yields.error failure⟩

theorem anything (action : EStateM ε σ α) :
    Keeps (fun _ => True) (fun _ => True) action :=
  fun _ _ => ⟨trivial, Yields.anything _⟩

theorem onPart {τ : Type} {part : σ → τ} {replace : σ → τ → σ} {Fit : τ → Prop}
    {action : Action τ α} (keeps : Keeps Fit Good action)
    (fits : ∀ state, Sound state → Fit (part state))
    (sound : ∀ state changed, Sound state → Fit changed → Sound (replace state changed)) :
    Keeps Sound Good (onPart part replace action) := by
  intro state isSound
  obtain ⟨fit, yields⟩ := keeps _ (fits state isSound)
  rw [stateAfter_onPart]
  refine ⟨sound state _ isSound fit, fun value returned => ?_⟩
  obtain ⟨after, ran, -⟩ := exists_of_onPart_eq_ok (eq_ok_of_outcome returned)
  exact yields (by rw [outcome, ran])

theorem adaptExcept {ε' : Type} (change : ε → ε') {action : EStateM ε σ α}
    (keeps : Keeps Sound Good action) : Keeps Sound Good (action.adaptExcept change) := by
  intro state sound
  have kept := keeps state sound
  simp only [stateAfter, outcome, EStateM.adaptExcept] at kept ⊢
  cases result : action state with
  | ok value final =>
    rw [result] at kept
    exact ⟨kept.1, Yields.ok (kept.2 rfl)⟩
  | error failure final =>
    rw [result] at kept
    exact ⟨kept.1, Yields.error _⟩

theorem threads (Sound : σ → Prop) : Threads fun _ _ => Keeps Sound where
  pure := pure
  throw := throw
  bind := bind
  adaptExcept := adaptExcept

theorem lift {result : Except Failure α} (yields : Yields Good result) :
    Keeps Sound Good (liftM result : Action σ α) :=
  (threads Sound).lift yields

theorem after {result : Except Failure α} {next : α → Action σ β}
    (second : ∀ value, Keeps Sound Fine (next value)) :
    Keeps Sound Fine ((liftM result : Action σ α) >>= next) :=
  (lift (Yields.anything result)).bind fun value _ => second value

end Keeps

end ModelWeaver
