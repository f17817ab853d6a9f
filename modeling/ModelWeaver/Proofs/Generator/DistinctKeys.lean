import ModelWeaver.Proofs.Snippet.Frame
import ModelWeaver.Proofs.Value.Unambiguous

/-!
# Commands declare no key twice

The commands of the library keep the values in a context unambiguous. `PARAM` makes a dict of
nested lists: the key of a leaf is the path of indices to it, and the paths of two leaves differ
where they part. Otherwise, a command declares what it was given, or a part of that. The names in a
symbol table increase, so the dicts that stand for the table in snippets hold no key twice either.
-/

namespace ModelWeaver

open Value

/-! ## Leaves -/

namespace Declare

/-- The key of the leaf at a path of indices. -/
def indexKey (path : List Int64) : Value :=
  pathKey (path.map .int)

theorem eq_of_allEqual_ints {first second : List Int64}
    (equal : allEqual (first.map .int) (second.map .int) = true) : first = second := by
  induction first generalizing second with
  | nil =>
    cases second with
    | nil => rfl
    | cons n second => cases equal
  | cons m first ih =>
    cases second with
    | nil => cases equal
    | cons n second =>
      obtain ⟨same, others⟩ := Bool.and_eq_true_iff.mp equal
      obtain rfl : m = n := eq_of_beq same
      rw [ih others]

/-- Different paths make different keys: one index is a number, and a longer path is a tuple. -/
theorem eq_of_indexKey_equals {first second : List Int64}
    (equal : (indexKey first == indexKey second) = true) : first = second := by
  match first, second with
  | [m], [n] => exact congrArg (fun n => [n]) (eq_of_beq (α := Int64) equal)
  | [], [n] | _ :: _ :: _, [n] => cases equal
  | [m], [] | [m], _ :: _ :: _ => cases equal
  | [], [] => rfl
  | [], n :: n' :: second => exact eq_of_allEqual_ints equal
  | m :: m' :: first, [] => exact eq_of_allEqual_ints equal
  | m :: m' :: first, n :: n' :: second => exact eq_of_allEqual_ints equal

theorem unambiguous_indexKey (path : List Int64) : (indexKey path).Unambiguous := by
  have ints : ∀ index ∈ path.map Value.int, index.Unambiguous :=
    List.forall_mem_map.mpr fun _ _ => unambiguous_of_isAtom rfl
  match path with
  | [n] => exact unambiguous_of_isAtom rfl
  | [] | _ :: _ :: _ => exact unambiguous_tuple.mpr ints

theorem yields_index (n : Int) :
    Yields (fun value => ∃ m : Int64, value = .int m ∧ m.toInt = n) (Snippet.exactly n) := by
  rw [Snippet.exactly, Number.int64?]
  by_cases fits : Number.FitsInt64 n
  · rw [if_pos fits]
    exact Yields.ok ⟨_, rfl, Int64.toInt_ofInt_of_le fits.1 fits.2⟩
  · rw [if_neg fits]
    exact Yields.error _

/-- What the entry of a leaf is like, if the leaf is in a list at `path`, and its index in that
list, or that of the item which it is in, is at least `low`. -/
def LeafEntry (path : List Int64) (low : Int) (entry : Value × Value) : Prop :=
  entry.2.Unambiguous ∧ ∃ (n : Int64) (rest : List Int64),
    low ≤ n.toInt ∧ entry.1 = indexKey (path ++ n :: rest)

/-- The paths of leaves in one item of a list part from the paths of leaves in later items at
the index of the item. -/
theorem keys_differ_of_later {path : List Int64} {n : Int64} {rest : List Int64}
    {entry : Value × Value} (later : LeafEntry path (n.toInt + 1) entry) :
    (indexKey (path ++ n :: rest) == entry.1) = false := by
  obtain ⟨-, m, rest', above, key_eq⟩ := later
  rw [key_eq]
  refine Bool.eq_false_iff.mpr fun equal => ?_
  have tails := List.append_cancel_left (eq_of_indexKey_equals equal)
  obtain rfl : n = m := (List.cons.inj tails).1
  omega

/-- Entries of leaves with different keys. -/
structure LeafEntries (path : List Int64) (low : Int) (entries : Entries) : Prop where
  differ : KeysDiffer entries
  entry {entry : Value × Value} : entry ∈ entries → LeafEntry path low entry

/-- The leaves in an item come before those in later items. -/
theorem LeafEntries.append {path : List Int64} {n : Int64} {here later : Entries}
    (differ : KeysDiffer here)
    (within : ∀ entry ∈ here, entry.2.Unambiguous ∧ ∃ rest, entry.1 = indexKey (path ++ n :: rest))
    (after : LeafEntries path (n.toInt + 1) later) :
    LeafEntries path n.toInt (here ++ later) where
  differ := by
    refine List.pairwise_append.mpr ⟨differ, after.differ, fun entry mem other inLater => ?_⟩
    obtain ⟨-, rest, key_eq⟩ := within entry mem
    rw [key_eq]
    exact keys_differ_of_later (after.entry inLater)
  entry mem := by
    rcases List.mem_append.mp mem with inHere | inLater
    · obtain ⟨good, rest, key_eq⟩ := within _ inHere
      exact ⟨good, n, rest, Int.le_refl _, key_eq⟩
    · obtain ⟨good, m, rest, above, key_eq⟩ := after.entry inLater
      exact ⟨good, m, rest, by omega, key_eq⟩

/-- The leaves of nested lists have different keys. -/
theorem yields_leaves (start : Int) (path : List Int64) (index : Nat) (items : List Value)
    (good : ∀ item ∈ items, item.Unambiguous) :
    Yields (LeafEntries path (start + index)) (leaves start (path.map .int) index items) := by
  cases items with
  | nil =>
    rw [leaves]
    exact Yields.ok ⟨List.Pairwise.nil, fun mem => absurd mem List.not_mem_nil⟩
  | cons item items =>
    obtain ⟨goodItem, goodItems⟩ := List.forall_mem_cons.mp good
    have after := yields_leaves start path (index + 1) items goodItems
    rw [leaves]
    refine (yields_index _).bind ?_
    rintro _ ⟨n, rfl, n_eq⟩
    have next_eq : start + ((index + 1 : Nat) : Int) = n.toInt + 1 := by omega
    have path_eq : path.map Value.int ++ [.int n] = (path ++ [n]).map Value.int := by simp
    rw [next_eq] at after
    rw [← n_eq]
    dsimp only
    rw [path_eq]
    split
    · next inner =>
        -- The paths into the inner list go on from the index of the item.
        have inside :=
          yields_leaves start (path ++ [n]) 0 inner (unambiguous_list.mp goodItem)
        refine inside.bind fun here entries => after.bind fun later after => ?_
        refine Yields.ok (after.append entries.differ fun entry mem => ?_)
        obtain ⟨goodValue, m, rest, -, key_eq⟩ := entries.entry mem
        exact ⟨goodValue, m :: rest, by rw [key_eq, List.append_assoc]; rfl⟩
    · refine after.bind fun later after => ?_
      refine Yields.ok (after.append (List.pairwise_singleton _ _) ?_)
      exact List.forall_mem_singleton.mpr ⟨goodItem, [], rfl⟩
termination_by sizeOf items

example : leaves 1 [] 0 [.list [.int 5, .int 6], .int 7] =
    .ok [(.tuple [.int 1, .int 1], .int 5), (.tuple [.int 1, .int 2], .int 6),
      (.int 2, .int 7)] := by
  cbv

theorem yields_indexed {value : Value} (good : value.Unambiguous) (start : Int64) :
    Yields Unambiguous (indexed value start) := by
  cases value with
  | list items =>
    refine (yields_leaves start.toInt [] 0 items (unambiguous_list.mp good)).bind ?_
    intro entries leaves
    refine Yields.ok (unambiguous_dict.mpr ⟨leaves.differ, fun entry mem => ?_⟩)
    obtain ⟨goodValue, n, rest, -, key_eq⟩ := leaves.entry mem
    rw [key_eq]
    exact ⟨unambiguous_indexKey _, goodValue⟩
  | _ => exact Yields.error _

theorem yields_paramValue (symbol : Model.SymbolName) (index : Option (List Model.SymbolName))
    {value : Value} (good : value.Unambiguous) (start : Option Value) :
    Yields Unambiguous (paramValue symbol index value start) := by
  rw [paramValue.eq_def]
  split
  · refine Yields.ite (fun _ => Yields.error _) fun _ => ?_
    cases start with
    | none => exact yields_indexed good 0
    | some start => exact Yields.after fun start => yields_indexed good start
  · exact Yields.ite (fun _ => Yields.error _) fun _ => Yields.ok good
  · exact Yields.ite (fun _ => Yields.error _) fun _ => Yields.ok good

theorem yields_component {key : Value} (good : key.Unambiguous) (position arity : Nat) :
    Yields Unambiguous (keyColumn.component? position arity key) := by
  cases key with
  | tuple parts =>
    refine Yields.ite (fun _ => Yields.error _) fun _ => ?_
    cases found : parts[position]? with
    | none => exact Yields.error _
    | some component =>
      exact Yields.ok (unambiguous_tuple.mp good component (List.mem_of_getElem? found))
  | _ => exact Yields.error _

end Declare

/-! ## Symbol tables -/

namespace Model

/-- The names increase, and what was declared under each is good. -/
structure Declares {α : Type} (Good : α → Prop) (table : NameMap (Declared α)) : Prop where
  ordered : table.Ordered
  good : ∀ entry ∈ table.entries, Good entry.2.value

theorem Declares.insert {α : Type} {Good : α → Prop} {table : NameMap (Declared α)}
    (declares : Declares Good table) (name : String) {declared : Declared α}
    (good : Good declared.value) : Declares Good (table.insert name declared) where
  ordered := declares.ordered.insert name declared
  good := by
    have held : ∀ entry ∈ table.entries, (Good ∘ Declared.value) entry.2 := declares.good
    exact NameMap.forall_mem_insert held good name

/-- What is declared again is what was declared before. -/
theorem keeps_register {α : Type} {Good : α → Prop} (symbol : SymbolName) {value : α}
    (good : Good value) (same : α → α → Bool) (describe : α → String) :
    Keeps (Declares Good) (fun _ => True) (register symbol value same describe) := by
  have inserts (declared : Declared α) (good : Good declared.value) (registration : Registration) :
      Keeps (Declares Good) (fun _ => True) (do
        modify (·.insert symbol.name declared)
        return registration : Action _ Registration) :=
    (Keeps.modify fun _ declares => declares.insert symbol.name good).bind fun _ _ =>
      Keeps.pure trivial
  refine Keeps.get.bind fun table declares => ?_
  cases found : table.get? symbol.name with
  | none => exact inserts _ good _
  | some existing =>
    have held : Good existing.value := declares.good _ (NameMap.mem_of_lookup_eq_some found)
    dsimp only
    split
    · exact Keeps.throw _
    · split
      · exact inserts { existing with emitted := true } held _
      · exact Keeps.pure trivial

theorem Declares.unambiguous_view {α : Type} {Good : α → Prop} {table : NameMap (Declared α)}
    (declares : Declares Good table) {view : α → Value}
    (views : ∀ value, Good value → (view value).Unambiguous) :
    (dict (table.entries.map fun (name, declared) =>
      (.str name, view declared.value))).Unambiguous := by
  refine unambiguous_dict.mpr ⟨List.pairwise_map.mpr ?_, List.forall_mem_map.mpr ?_⟩
  · refine List.Pairwise.imp (fun {first second} increases => ?_) declares.ordered
    exact beq_eq_false_iff_ne (α := String).mpr (String.ne_of_lt increases)
  · exact fun entry mem =>
      ⟨unambiguous_of_isAtom rfl, views _ (declares.good entry mem)⟩

namespace SymbolTable

/-- No dict in a declared set or parameter holds a key twice, and no name is there twice. -/
structure Unambiguous (table : SymbolTable) : Prop where
  sets : Declares (fun members => ∀ member ∈ members, member.Unambiguous) table.sets
  params : Declares Value.Unambiguous table.params

variable {table : SymbolTable}

theorem Unambiguous.setsView (unambiguous : table.Unambiguous) : table.setsView.Unambiguous :=
  unambiguous.sets.unambiguous_view fun _ good => unambiguous_list.mpr good

theorem Unambiguous.paramsView (unambiguous : table.Unambiguous) :
    table.paramsView.Unambiguous :=
  unambiguous.params.unambiguous_view fun _ good => good

end SymbolTable

theorem keeps_declareSet (symbol : SymbolName) {members : List Value}
    (good : ∀ member ∈ members, member.Unambiguous) :
    Keeps SymbolTable.Unambiguous (fun _ => True) (declareSet symbol members) := by
  have registers : Keeps SymbolTable.Unambiguous (fun _ => True)
      (SymbolTable.registerSet symbol members) :=
    (keeps_register symbol good _ _).onPart (fun _ unambiguous => unambiguous.sets)
      fun _ _ unambiguous sets => ⟨sets, unambiguous.params⟩
  exact Keeps.after fun _ => registers.bind fun _ _ =>
    Keeps.pure trivial

theorem keeps_declareParam (symbol : SymbolName) (index : Option String) {value : Value}
    (good : value.Unambiguous) :
    Keeps SymbolTable.Unambiguous (fun _ => True) (declareParam symbol index value) := by
  have registers : Keeps SymbolTable.Unambiguous (fun _ => True)
      (SymbolTable.registerParam symbol value) :=
    (keeps_register symbol good _ _).onPart (fun _ unambiguous => unambiguous.params)
      fun _ _ unambiguous params => ⟨unambiguous.sets, params⟩
  exact Keeps.after fun _ => registers.bind fun _ _ =>
    Keeps.pure trivial

end Model

/-! ## Commands -/

/-- No dict in a variable holds a key twice. -/
def Environment.Unambiguous (environment : Environment) : Prop :=
  ∀ scope ∈ environment.scopes, ∀ entry ∈ scope.entries, entry.2.Unambiguous

/-- No dict in a variable or in the symbol table holds a key twice. -/
structure Context.Unambiguous (context : Context) : Prop where
  environment : context.environment.Unambiguous
  symbols : context.symbols.Unambiguous

theorem Declare.stepsKeep_unambiguous : StepsKeep Context.Unambiguous Unambiguous where
  elements good := good.elements
  key good entry mem := ((unambiguous_dict.mp good).2 entry mem).1
  component := yields_component
  paramValue good symbol index start := yields_paramValue symbol index good start
  emit unambiguous _ _ := ⟨unambiguous.environment, unambiguous.symbols⟩
  declareSet symbol _ good :=
    (Model.keeps_declareSet symbol good).onPart (fun _ unambiguous => unambiguous.symbols)
      fun _ _ unambiguous symbols => ⟨unambiguous.environment, symbols⟩
  declareParam symbol index _ good :=
    (Model.keeps_declareParam symbol index good).onPart (fun _ unambiguous => unambiguous.symbols)
      fun _ _ unambiguous symbols => ⟨unambiguous.environment, symbols⟩

theorem Declaring.keeps_run (command : Declaring) {invocation : Invocation}
    (good : invocation.arguments.All Unambiguous) :
    Keeps Context.Unambiguous (fun _ => True) (command.run invocation) :=
  Declare.stepsKeep_unambiguous.keeps_run command good

namespace Generator

/-- A command that was added to those of the library keeps contexts unambiguous when it is
called with unambiguous arguments. Nothing is asked of the library. -/
def Tidy : Generator → Prop
  | custom added => ∀ seen (invocation : Invocation), invocation.arguments.All Unambiguous →
      Keeps Context.Unambiguous (fun _ => True) (added.run seen invocation)
  | declaring _ | submodel _ => True

theorem Tidy.of_isCustom {generator : Generator} (library : generator.isCustom = false) :
    generator.Tidy := by
  cases generator with
  | declaring _ | submodel _ => trivial
  | custom _ => cases library

theorem Tidy.run {generator : Generator} (tidy : generator.Tidy) {invocation : Invocation}
    (good : invocation.arguments.All Unambiguous) (seen : List Call) :
    Keeps Context.Unambiguous (fun _ => True) (generator.run seen invocation) := by
  cases generator with
  | declaring command => exact (command.keeps_run good).bind fun _ _ => Keeps.pure trivial
  | submodel command =>
    exact (command.writesAtEnd_run invocation).keeps fun _ text unambiguous =>
      Declare.stepsKeep_unambiguous.emit unambiguous .model text
  | custom command => exact (tidy seen invocation good).bind fun _ _ => Keeps.pure trivial

end Generator

end ModelWeaver
