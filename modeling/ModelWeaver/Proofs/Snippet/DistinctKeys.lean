import ModelWeaver.Proofs.Generator.DistinctKeys
import ModelWeaver.Proofs.Engine.Constructs

/-!
# No dict holds a key twice

Equality goes across types, so that `1`, `True` and `1.0` are one key of a dict. In a session where
all variables and the symbol table hold no key twice, that is so of every value that an expression
returns, and again after any expression, any program and any document, whether they succeed or
fail.
-/

namespace ModelWeaver

open Value

/-! ## Variables -/

namespace Environment

variable {environment : Environment}

section Kept

variable (unambiguous : environment.Unambiguous)
include unambiguous

theorem Unambiguous.of_get? {name : String} {value : Value}
    (found : environment.get? name = some value) : value.Unambiguous := by
  obtain ⟨scope, mem, held⟩ := List.exists_of_findSome?_eq_some found
  exact unambiguous scope mem _ (NameMap.mem_of_lookup_eq_some held)

theorem Unambiguous.set (name : String) {value : Value} (good : value.Unambiguous) :
    (environment.set name value).Unambiguous := by
  rw [Unambiguous, scopes_eq, List.forall_mem_cons] at unambiguous ⊢
  rw [innermost_set, tail_scopes_set]
  exact ⟨NameMap.forall_mem_insert unambiguous.1 good name, unambiguous.2⟩

theorem Unambiguous.push : environment.push.Unambiguous :=
  List.forall_mem_cons.mpr ⟨List.forall_mem_nil _, unambiguous⟩

theorem Unambiguous.pop : environment.pop.Unambiguous := by
  intro scope mem
  refine unambiguous scope ?_
  rcases List.mem_append.mp mem with inner | document
  · exact List.mem_append_left _ (List.mem_of_mem_tail inner)
  · exact List.mem_append_right _ document

end Kept

end Environment

/-! ## Sessions -/

/-- All commands keep contexts unambiguous, those of the library among them. -/
abbrev Registry.Tidy (registry : Registry) : Prop :=
  registry.AllCommands Generator.Tidy

theorem Registry.Standard.tidy {registry : Registry} (standard : registry.Standard) :
    registry.Tidy where
  commands found := .of_isCustom (standard.commands found)
  live found := .of_isCustom (standard.live found)

namespace Session

/-- No dict in a variable or in the symbol table holds a key twice, and calls keep it so. -/
structure Unambiguous (session : Session) : Prop where
  context : session.context.Unambiguous
  registry : session.registry.Tidy

theorem keeps_invoke (name : String) (index : Option String) {args : Arguments}
    (good : args.All Value.Unambiguous) :
    Keeps Unambiguous (fun _ => True) (invoke name index args) := by
  intro session unambiguous
  refine ⟨⟨?_, unambiguous.registry.invoke name index args⟩, Yields.anything _⟩
  rcases stateAfter_invoke_cases session name index args with
    same | ⟨generator, command, context, noted, known, rfl, context_eq, -, taken⟩
  · rw [same]
    exact unambiguous.context
  · have given : (session.callOf name index args).invocation.arguments.All
        Value.Unambiguous := good
    have kept : context.Unambiguous := context_eq ▸
      ((unambiguous.registry.liveCommand known).run given _ _ unambiguous.context).1
    rcases taken with taken | ⟨record, carried⟩
    · rwa [taken]
    · rwa [carried]

theorem keeps_clearBuffers : Keeps Unambiguous (fun _ => True) clearBuffers :=
  Keeps.modify fun _ unambiguous =>
    ⟨⟨unambiguous.context.environment, unambiguous.context.symbols⟩, unambiguous.registry⟩

end Session

/-! ## Evaluation -/

theorem Context.Unambiguous.view? {context : Context} (unambiguous : context.Unambiguous)
    {name : String} {value : Value} (found : context.view? name = some value) :
    value.Unambiguous := by
  rw [Context.view?] at found
  split at found
  · cases found
    exact unambiguous_of_isAtom rfl
  · split at found
    · cases found
      exact unambiguous.symbols.setsView
    · split at found
      · cases found
        exact unambiguous.symbols.paramsView
      · cases found

namespace Snippet

theorem unambiguous_of_lookup? {session : Session} (unambiguous : session.Unambiguous)
    {name : String} {value : Value} (found : lookup? session name = some value) :
    value.Unambiguous := by
  simp only [lookup?, Option.orElse_eq_orElse, Option.orElse_eq_or, Option.or_eq_some_iff]
    at found
  rcases found with view | ⟨-, bound | ⟨-, command | ⟨-, function⟩⟩⟩
  · exact unambiguous.context.view? view
  · exact unambiguous.context.environment.of_get? bound
  · split at command
    · cases command
      exact unambiguous_of_isAtom rfl
    · cases command
  · obtain ⟨function, -, rfl⟩ := Option.map_eq_some_iff.mp function
    exact unambiguous_of_isAtom rfl

theorem keeps_lookup (name : String) :
    Keeps Session.Unambiguous Value.Unambiguous (lookup name) := by
  refine Keeps.get.bind fun session unambiguous => ?_
  cases found : lookup? session name with
  | some value => exact Keeps.pure (unambiguous_of_lookup? unambiguous found)
  | none => exact Keeps.throw _

theorem keeps_bindName (name : String) {value : Value} (good : value.Unambiguous) :
    Keeps Session.Unambiguous (fun _ => True) (bindName name value) := by
  rw [bindName]
  split
  · exact Keeps.throw _
  · cases Buffer.ofName? name with
    | some buffer =>
      refine Keeps.after fun text => ?_
      exact Keeps.modify fun _ unambiguous =>
        ⟨⟨unambiguous.context.environment, unambiguous.context.symbols⟩, unambiguous.registry⟩
    | none =>
      exact Keeps.modify fun _ unambiguous =>
        ⟨⟨unambiguous.context.environment.set name good, unambiguous.context.symbols⟩,
          unambiguous.registry⟩

theorem keeps_inScope {α : Type} {Fine : α → Prop} {action : Evaluating α}
    (keeps : Keeps Session.Unambiguous Fine action) :
    Keeps Session.Unambiguous Fine (inScope action) := by
  intro session unambiguous
  have opened : session.opened.Unambiguous :=
    ⟨⟨unambiguous.context.environment.push, unambiguous.context.symbols⟩, unambiguous.registry⟩
  obtain ⟨after, returned⟩ := keeps session.opened opened
  rw [stateAfter_inScope, outcome_of_overState (inScope_eq action session)]
  exact ⟨⟨⟨after.context.environment.pop, after.context.symbols⟩, after.registry⟩, returned⟩

theorem keeps_callValue {callee : Value} {args : Arguments} (goodCallee : callee.Unambiguous)
    (good : args.All Value.Unambiguous) :
    Keeps Session.Unambiguous Value.Unambiguous (callValue callee args) := by
  cases callee with
  | command name index =>
    exact (Session.keeps_invoke name index good).bind fun _ _ =>
      Keeps.pure (unambiguous_of_isAtom rfl)
  | method receiver name =>
    exact Keeps.lift (Method.yields_call name (unambiguous_method.mp goodCallee) good)
  | builtin function =>
    cases function with
    | print =>
      refine Keeps.bind (Keeps.modify fun _ unambiguous => ?_) fun _ _ =>
        Keeps.pure (unambiguous_of_isAtom rfl)
      exact ⟨unambiguous.context, unambiguous.registry⟩
    | _ => exact Keeps.lift (Function.yields_call _ good)
  | _ => exact Keeps.throw _

theorem yields_subscript {value : Value} (good : value.Unambiguous) (index : Value) :
    Yields Unambiguous (subscript value index) := by
  have element {items : List Value} (within : ∀ item ∈ items, item.Unambiguous) (i : Nat) :
      (items.getD i .none).Unambiguous := by
    rw [List.getD_eq_getElem?_getD]
    exact Function.unambiguous_getD (fun item found => within item (List.mem_of_getElem? found))
      (unambiguous_of_isAtom rfl)
  cases value with
  | list items =>
    exact Yields.after fun i =>
      Yields.ok (element (unambiguous_list.mp good) i)
  | tuple items =>
    exact Yields.after fun i =>
      Yields.ok (element (unambiguous_tuple.mp good) i)
  | str text => exact Yields.after fun _ => Yields.ok (unambiguous_of_isAtom rfl)
  | dict entries =>
    rw [subscript]
    cases found : Value.lookup? entries index with
    | some value => exact Yields.ok (Value.unambiguous_of_lookup? good found)
    | none => exact Yields.error _
  | command name index? =>
    cases index? with
    | some _ => exact Yields.error _
    | none =>
      cases index with
      | str text => exact Yields.ok (unambiguous_of_isAtom rfl)
      | _ => exact Yields.error _
  | _ => exact Yields.error _

theorem closed_unambiguous : Closed Value.Unambiguous where
  none := unambiguous_of_isAtom rfl
  bool _ := unambiguous_of_isAtom rfl
  int _ := unambiguous_of_isAtom rfl
  float _ := unambiguous_of_isAtom rfl
  str _ := unambiguous_of_isAtom rfl
  list := unambiguous_list.mpr
  tuple := unambiguous_tuple.mpr
  noEntries := Function.unambiguous_dict_nil
  insertEntry := unambiguous_insertEntry
  elements := Unambiguous.elements
  unary op _ _ := yields_applyUnary op _
  binary op := yields_applyBinary op
  subscript good _ := yields_subscript good _
  member _ good :=
    Yields.ite (fun _ => Yields.ok (unambiguous_method.mpr good)) fun _ => Yields.error _

theorem evaluates_unambiguous : Evaluates (fun _ => True) Value.Unambiguous
    (fun _ _ => Keeps Session.Unambiguous) (fun _ _ => Keeps Session.Unambiguous) where
  closed := closed_unambiguous
  across := Keeps.threads _
  within := Keeps.threads _
  widen := id
  inspect _ _ sound := ⟨sound, Yields.anything _⟩
  lookup := keeps_lookup
  call := keeps_callValue
  invoke name index _ := Session.keeps_invoke name index
  bindName _ _ := keeps_bindName _
  inScope := keeps_inScope

/-! ## Runs -/

/-- No dict holds a key twice: in the variables, in what was declared, and among the two dicts
that stand for the symbol table. -/
structure DistinctKeys (session : Session) : Prop extends Session.Unambiguous session where
  setsView : session.context.symbols.setsView.Unambiguous
  paramsView : session.context.symbols.paramsView.Unambiguous

theorem distinctKeys_of_unambiguous {session : Session} (unambiguous : session.Unambiguous) :
    DistinctKeys session where
  toUnambiguous := unambiguous
  setsView := unambiguous.context.symbols.setsView
  paramsView := unambiguous.context.symbols.paramsView

/-- If no dict in the variables and in the symbol table holds a key twice, and commands that were
added to the library keep it so, then an expression returns no dict that does, and there is none
after an expression, a program or a document, whether it succeeds or fails. -/
theorem keys_stay_distinct (session : Session) (unambiguous : session.Unambiguous) :
    (∀ expr, DistinctKeys (stateAfter (evaluate expr) session) ∧
      ∀ value, outcome (evaluate expr) session = .ok value → value.Unambiguous) ∧
    (∀ statements, DistinctKeys (stateAfter (execute statements) session)) ∧
    ∀ source layout regions,
      DistinctKeys (stateAfter (expandRegions source layout regions) session) := by
  refine ⟨fun expr => ?_, fun statements => ?_, fun source layout regions => ?_⟩
  · obtain ⟨after, returned⟩ :=
      evaluates_unambiguous.eval 0 expr (fun _ _ => trivial) session unambiguous
    exact ⟨distinctKeys_of_unambiguous after, fun value result => returned result⟩
  · have runs : Keeps Session.Unambiguous (fun _ => True) (execute statements) :=
      evaluates_unambiguous.execute (Keeps.threads _) id (fun _ _ _ _ => trivial)
        fun _ _ _ _ => evaluates_unambiguous.bindName trivial
    exact distinctKeys_of_unambiguous (runs session unambiguous).1
  · have expands := evaluates_unambiguous.expandRegions Session.keeps_clearBuffers
      source layout regions
    exact distinctKeys_of_unambiguous (expands session unambiguous).1

/-- A session with a variable and with a parameter that are dicts. -/
def dictSession : Session where
  context :=
    { environment := .ofBindings (.ofList [("d", .dict [(.tuple [.int 1, .bool true], .dict []),
        (.tuple [.int 1, .int 2], .dict [(.str "a", .none)])])])
      symbols := { params := .ofList [("p", ⟨.dict [(.int 0, .int 3), (.int 1, .int 4)], true⟩)] } }

theorem unambiguous_dictSession : dictSession.Unambiguous where
  context :=
    { environment := by unfold Environment.Unambiguous; decide +kernel
      symbols :=
        { sets := ⟨List.Pairwise.nil, List.forall_mem_nil _⟩
          params := ⟨List.pairwise_singleton _ _, by decide +kernel⟩ } }
  registry := Registry.standard_defaults.tidy

/-- A dict with two keys that are equal. -/
def equalKeys : Expr :=
  .dict [(.int 1, .int 5), (.str "k", .int 6), (.bool true, .int 7)]

/-- The assignment of such a dict to a variable, and its declaration as a parameter. -/
def equalKeysParam : List Statement :=
  [ .assign (.name "e") .assign equalKeys ⟨0, 5⟩,
    .expr (.call (.subscript (.var "PARAM" ⟨6, 11⟩) (.str "q") ⟨6, 16⟩)
      [.positional (.var "e" ⟨17, 18⟩)] ⟨6, 19⟩) ⟨6, 19⟩ ]

theorem keys_stay_distinct_equalKeysParam :
    dictSession.Unambiguous ∧
      (outcome (evaluate equalKeys) dictSession).toOption.map Value.repr =
        some "\x7b1: 7, 'k': 6\x7d" ∧
      (∀ value, outcome (evaluate equalKeys) dictSession = .ok value → value.Unambiguous) ∧
      ((stateAfter (execute equalKeysParam) dictSession).context.symbols.param? "q").map
        Value.repr = some "\x7b1: 7, 'k': 6\x7d" ∧
      DistinctKeys (stateAfter (execute equalKeysParam) dictSession) := by
  obtain ⟨expressions, programs, -⟩ := keys_stay_distinct dictSession unambiguous_dictSession
  refine ⟨unambiguous_dictSession, by decide +kernel, (expressions equalKeys).2, ?_,
    programs equalKeysParam⟩
  decide +kernel

end Snippet

end ModelWeaver
