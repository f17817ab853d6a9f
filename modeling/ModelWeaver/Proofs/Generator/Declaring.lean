import ModelWeaver.Proofs.Generator.Writing

/-!
# What declarations keep

The commands that declare something take parts of the values that they are given, add them to
the symbol table and write to the buffers. What each of these steps keeps, the commands keep.
-/

namespace ModelWeaver.Declare

/-- The steps of declarations keep contexts sound, and what they make of good values is good. -/
structure StepsKeep (Sound : Context → Prop) (Good : Value → Prop) : Prop where
  elements {value : Value} (good : Good value) :
    Yields (fun items => ∀ item ∈ items, Good item) value.elements
  key {entries : Entries} (good : Good (.dict entries)) :
    ∀ entry ∈ entries, Good entry.1
  component {key : Value} (good : Good key) (position arity : Nat) :
    Yields Good (keyColumn.component? position arity key)
  paramValue {value : Value} (good : Good value) (symbol : Model.SymbolName)
    (index : Option (List Model.SymbolName)) (start : Option Value) :
    Yields Good (paramValue symbol index value start)
  emit {context : Context} (sound : Sound context) (buffer : Buffer) (text : String) :
    Sound (context.emit buffer text)
  declareSet (symbol : Model.SymbolName) {members : List Value}
    (good : ∀ member ∈ members, Good member) :
    Keeps Sound (fun _ => True) (Context.onSymbols (Model.declareSet symbol members))
  declareParam (symbol : Model.SymbolName) (index : Option String) {value : Value}
    (good : Good value) :
    Keeps Sound (fun _ => True) (Context.onSymbols (Model.declareParam symbol index value))

namespace StepsKeep

variable {Sound : Context → Prop} {Good : Value → Prop} (steps : StepsKeep Sound Good)
  {invocation : Invocation}
include steps

theorem keeps_emit (buffer : Buffer) (text : String) :
    Keeps Sound (fun _ => True) (modify (·.emit buffer text) : Action Context Unit) :=
  Keeps.modify fun _ sound => steps.emit sound buffer text

theorem keeps_addSet (symbol : Model.SymbolName) {members : List Value}
    (good : ∀ member ∈ members, Good member) :
    Keeps Sound (fun _ => True) (addSet symbol members) :=
  (steps.declareSet symbol good).bind fun text _ => steps.keeps_emit .defs text

theorem keeps_runSet (good : invocation.arguments.All Good) :
    Keeps Sound (fun _ => True) (runSet invocation) := by
  refine Keeps.after fun index => ?_
  refine Keeps.after fun symbol => ?_
  refine (Keeps.lift (good.reading ?_)).bind fun members good => steps.keeps_addSet symbol good
  exact (Bound.takes_required _).bind fun _ good => Takes.lift (steps.elements good)

theorem yields_keyColumn {entries : Entries} (good : ∀ entry ∈ entries, Good entry.1)
    (position arity : Nat) :
    Yields (fun column => ∀ component ∈ column, Good component)
      (keyColumn position arity entries) := by
  refine Yields.foldlM (List.forall_mem_nil _) fun column goodColumn entry mem => ?_
  refine (steps.component (good entry mem) position arity).bind fun component goodPart => ?_
  refine Yields.ok ?_
  split
  · exact goodColumn
  · exact List.forall_mem_append.mpr ⟨goodColumn, List.forall_mem_singleton.mpr goodPart⟩

theorem keeps_addIndexSets (index : List Model.SymbolName) {entries : Entries}
    (good : ∀ entry ∈ entries, Good entry.1) :
    Keeps Sound (fun _ => True) (addIndexSets index entries) := by
  rw [addIndexSets.eq_def]
  split
  · exact steps.keeps_addSet _ (List.forall_mem_map.mpr good)
  · refine (Keeps.threads _).forM fun entry _ => ?_
    exact (Keeps.lift (steps.yields_keyColumn good entry.2 _)).bind fun column good =>
      steps.keeps_addSet entry.1 good

theorem keeps_runParam (good : invocation.arguments.All Good) :
    Keeps Sound (fun _ => True) (runParam invocation) := by
  refine Keeps.after fun index => ?_
  refine Keeps.after fun (symbol, index) => ?_
  have reads : Takes Good (fun given : Value × Option Value => Good given.1) (do
      let given ← Bound.required "values"
      return (given, ← Bound.take "i0")) :=
    (Bound.takes_required _).bind fun _ good => (Bound.takes_take _).bind fun _ _ =>
      Takes.pure good
  refine (Keeps.lift (good.reading reads)).bind fun (given, start) good => ?_
  refine (Keeps.lift (steps.paramValue good symbol index start)).bind fun value good => ?_
  have declares (indexText : Option String) :=
    (steps.declareParam symbol indexText good).bind fun text _ =>
      (steps.keeps_emit .defs text.defs).bind fun _ _ => steps.keeps_emit .data text.data
  cases value with
  | dict entries =>
    exact Keeps.bind (steps.keeps_addIndexSets _ (steps.key good)) fun _ _ => declares _
  | _ => exact declares none

omit steps in
theorem yields_varArguments {args : Arguments} (good : args.All Good) :
    Yields (fun given => ∀ members ∈ given.indexSet, Good members) (varArguments args) := by
  refine good.reading ((Bound.takes_take _).bind fun type? _ => ?_)
  have takesOthers (type : String) :
      Takes Good (fun given => ∀ members ∈ given.indexSet, Good members) (do
        let lower ← Bound.take "lb"
        let upper ← Bound.take "ub"
        let indexSet ← Bound.take "index_set"
        return { type, lower, upper, indexSet : VarArguments }) :=
    (Bound.takes_take _).bind fun _ _ => (Bound.takes_take _).bind fun _ _ =>
      (Bound.takes_take _).bind fun _ good => Takes.pure good
  cases type? with
  | none => exact takesOthers ""
  | some type => exact Takes.after fun type => takesOthers type

theorem keeps_runVar (good : invocation.arguments.All Good) :
    Keeps Sound (fun _ => True) (runVar invocation) := by
  refine Keeps.after fun index => ?_
  refine Keeps.after fun (symbol, index) => ?_
  refine (Keeps.lift (yields_varArguments good)).bind fun given good => ?_
  refine Keeps.after fun index => ?_
  have writes (index : Option Model.SymbolName) : Keeps Sound (fun _ => True) (do
      let text ← Model.declareVariable symbol (index.map Model.SymbolName.name) given.type
        given.lower given.upper
      modify (·.emit .model text) : Action Context Unit) :=
    Keeps.after fun text => steps.keeps_emit .model text
  cases set_eq : given.indexSet with
  | some members =>
    have adds := (Keeps.lift (steps.elements (good members set_eq))).bind fun members good =>
      (steps.keeps_addSet (index.getD (defaultIndex symbol)) good).bind fun _ _ =>
        writes (some (index.getD (defaultIndex symbol)))
    cases index with
    | some _ | none => exact adds
  | none =>
    cases index with
    | some set =>
      change Keeps _ _ (if (!set.hidden) = true then _ else _)
      split
      · exact Keeps.bind (Keeps.throw _ : Keeps _ (fun _ => True) _) fun _ _ =>
          writes (some set)
      · exact writes (some set)
    | none => exact writes none

theorem keeps_run (command : Declaring) (good : invocation.arguments.All Good) :
    Keeps Sound (fun _ => True) (command.run invocation) := by
  cases command with
  | set => exact steps.keeps_runSet good
  | param => exact steps.keeps_runParam good
  | var => exact steps.keeps_runVar good
  | con => exact (writesAtEnd_runCon invocation).keeps fun _ text sound => steps.emit sound _ text
  | stmt => exact (writesAtEnd_runStmt invocation).keeps fun _ text sound => steps.emit sound _ text

end StepsKeep

end ModelWeaver.Declare
