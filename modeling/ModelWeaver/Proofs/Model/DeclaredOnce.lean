import ModelWeaver.Model.Declaration
import ModelWeaver.Proofs.Guarantee

/-!
# Declarations are written once and never change

Sets and parameters are declared one after the other on one table, under names that may be hidden
or not. The first declaration of a symbol that is accepted fixes its value for good, and the first
accepted one that is not hidden is the only one with a text. One law for a step ties the table to
the declarations so far (`held?_tableAfter_of_accepted`); all else follows from it by induction.
-/

namespace ModelWeaver.Model

/-! ## Entries of one table -/

section Entries

variable {α : Type} {table : NameMap (Declared α)} {symbol : SymbolName} {value : α}
  {same : α → α → Bool} (describe : α → String)

theorem register_eq :
    register symbol value same describe table =
      match table.get? symbol.name with
      | none =>
        .ok (if symbol.hidden then .silent else .emit)
          (table.insert symbol.name ⟨value, !symbol.hidden⟩)
      | some existing =>
        if !same existing.value value then
          .error (.declarationConflict symbol.name (describe existing.value) (describe value))
            table
        else if !symbol.hidden && !existing.emitted then
          .ok .emit (table.insert symbol.name { existing with emitted := true })
        else .ok .silent table := by
  rw [register, get_bind]
  cases table.get? symbol.name with
  | none => rfl
  | some existing =>
    dsimp only
    cases !same existing.value value with
    | true => rfl
    | false => cases !symbol.hidden && !existing.emitted <;> rfl

/-- What a table holds for a symbol after a declaration that agrees with `old`, which it
held before. -/
def Declared.redeclared (old : Option (Declared α)) (symbol : SymbolName) (value : α) :
    Declared α :=
  ⟨(old.map Declared.value).getD value, old.any Declared.emitted || !symbol.hidden⟩

/-- A declaration that agrees with an earlier one is accepted. It is written unless it is
hidden or was written before. -/
theorem register_of_agrees
    (agrees : ∀ existing, table.get? symbol.name = some existing →
      same existing.value value = true) :
    ∃ after, register symbol value same describe table =
        .ok (if !symbol.hidden && !(table.get? symbol.name).any Declared.emitted
          then .emit else .silent) after ∧
      ∀ name, after.get? name =
        if name = symbol.name then
          some (.redeclared (table.get? symbol.name) symbol value)
        else table.get? name := by
  cases found : table.get? symbol.name with
  | none =>
    refine ⟨table.insert symbol.name ⟨value, !symbol.hidden⟩, ?_, ?_⟩
    · rw [register_eq, found]
      cases symbol.hidden <;> rfl
    · intro name
      rw [NameMap.get?_insert]
      rfl
  | some existing =>
    have equal := agrees existing found
    by_cases written : (!symbol.hidden && !existing.emitted) = true
    · refine ⟨table.insert symbol.name { existing with emitted := true }, ?_, ?_⟩
      · simp [register_eq, found, equal, written]
      · intro name
        rw [NameMap.get?_insert]
        have visible : (existing.emitted || !symbol.hidden) = true := by
          cases hidden : symbol.hidden <;> simp_all
        simp [Declared.redeclared, visible]
    · refine ⟨table, ?_, ?_⟩
      · simp [register_eq, found, equal, written]
      · intro name
        have kept : (existing.emitted || !symbol.hidden) = existing.emitted := by
          cases hidden : symbol.hidden <;> simp_all
        split
        · next name_eq =>
            rw [name_eq, found]
            simp [Declared.redeclared, kept]
        · rfl

theorem register_of_differs {existing : Declared α}
    (found : table.get? symbol.name = some existing)
    (differs : same existing.value value = false) :
    register symbol value same describe table =
      .error (.declarationConflict symbol.name (describe existing.value) (describe value))
        table := by
  simp [register_eq, found, differs]

end Entries

section Texts

variable {τ : Type} [Inhabited τ] {table after : SymbolTable} {registration : Registration}
  {failure : Failure} {register : Action SymbolTable Registration}

theorem declare_error : declare (.error failure : Except Failure τ) register table =
    .error failure table :=
  rfl

theorem declare_of_ok (text : τ) (registered : register table = .ok registration after) :
    declare (.ok text) register table =
      .ok (if registration = .emit then text else default) after := by
  rw [declare, lift_ok_bind, bind_of_eq_ok registered]
  rfl

theorem declare_of_error (text : τ) (refused : register table = .error failure after) :
    declare (.ok text) register table = .error failure after := by
  rw [declare, lift_ok_bind, bind_of_eq_error refused]

end Texts

/-! ## Literals of equal values -/

theorem literals_cons_eq_ok_iff {item : Value} {items : List Value} {texts : List String} :
    literals (item :: items) = .ok texts ↔
      ∃ first rest, literal item = .ok first ∧ literals items = .ok rest ∧
        texts = first :: rest := by
  constructor
  · intro rendered
    obtain ⟨first, first_eq, rendered⟩ := bind_eq_ok_iff.mp rendered
    obtain ⟨rest, rest_eq, ⟨⟩⟩ := bind_eq_ok_iff.mp rendered
    exact ⟨first, rest, first_eq, rest_eq, rfl⟩
  · rintro ⟨first, rest, first_eq, rest_eq, rfl⟩
    rw [literals, first_eq, rest_eq]
    rfl

theorem literal_tuple_eq_ok_iff {items : List Value} {text : String} :
    literal (.tuple items) = .ok text ↔
      ∃ texts, literals items = .ok texts ∧ text = "(" ++ ",".intercalate texts ++ ")" := by
  rw [literal]
  cases literals items with
  | error failure => simp [bind, Except.bind]
  | ok texts => simp [bind, Except.bind, pure, Except.pure, eq_comm]

mutual

theorem exists_literal_of_equals (a b : Value) (written : ∃ text, literal a = .ok text)
    (equal : a.equals b = true) : ∃ text, literal b = .ok text := by
  rcases written with ⟨text, written⟩
  cases a with
  | int _ | float _ | bool _ | str _ =>
    cases b with
    | int _ | float _ | bool _ | str _ => exact ⟨_, rfl⟩
    | _ => cases equal
  | tuple items =>
    rcases literal_tuple_eq_ok_iff.mp written with ⟨texts, written, -⟩
    cases b with
    | tuple others =>
      rcases exists_literals_of_allEqual items others ⟨texts, written⟩ equal with
        ⟨others_texts, others_written⟩
      exact ⟨_, literal_tuple_eq_ok_iff.mpr ⟨others_texts, others_written, rfl⟩⟩
    | _ => cases equal
  | _ => cases written
termination_by structural a

theorem exists_literals_of_allEqual (as bs : List Value)
    (written : ∃ texts, literals as = .ok texts) (equal : Value.allEqual as bs = true) :
    ∃ texts, literals bs = .ok texts := by
  match as, bs with
  | [], [] => exact ⟨[], rfl⟩
  | a :: as, b :: bs =>
    rcases written with ⟨texts, written⟩
    rcases literals_cons_eq_ok_iff.mp written with ⟨first, rest, first_eq, rest_eq, -⟩
    have both : a.equals b = true ∧ Value.allEqual as bs = true := Bool.and_eq_true_iff.mp equal
    rcases exists_literal_of_equals a b ⟨first, first_eq⟩ both.1 with ⟨head, head_eq⟩
    rcases exists_literals_of_allEqual as bs ⟨rest, rest_eq⟩ both.2 with ⟨tail, tail_eq⟩
    exact ⟨_, literals_cons_eq_ok_iff.mpr ⟨head, tail, head_eq, tail_eq, rfl⟩⟩
  | [], _ :: _ | _ :: _, [] => cases equal
termination_by structural as

end

/-! ## Single declarations -/

/-- Sets and parameters have names apart from each other. -/
inductive Symbol where
  | set (name : String)
  | param (name : String)
  deriving DecidableEq

def Symbol.name : Symbol → String
  | set name | param name => name

namespace SymbolTable

/-- What a table holds for a symbol. The members of a set count as a list. -/
def held? (table : SymbolTable) : Symbol → Option (Declared Value)
  | .set name => (table.sets.get? name).map fun set => ⟨.list set.value, set.emitted⟩
  | .param name => table.params.get? name

/-- The value of a symbol. That of a set is the list of its members. -/
def value? (table : SymbolTable) : Symbol → Option Value
  | .set name => (table.set? name).map .list
  | .param name => table.param? name

theorem value?_eq (table : SymbolTable) (symbol : Symbol) :
    table.value? symbol = (table.held? symbol).map Declared.value := by
  cases symbol with
  | set name => simp [value?, set?, held?, Function.comp_def]
  | param name => rfl

end SymbolTable

/-- A declaration of a set or of a parameter. -/
inductive Declaration where
  | set (name : SymbolName) (members : List Value)
  | param (name : SymbolName) (index : Option String) (value : Value)

namespace Declaration

/-- The name that a declaration gives, hidden or not. -/
def name : Declaration → SymbolName
  | set name _ => name
  | param name _ _ => name

/-- What is declared. -/
def symbol : Declaration → Symbol
  | set name _ => .set name.name
  | param name _ _ => .param name.name

def value : Declaration → Value
  | set _ members => .list members
  | param _ _ value => value

/-- The texts of a declaration, to be written or not. -/
def text : Declaration → Except Failure ParamText
  | set name members => return { defs := ← setText name.name members }
  | param name index value => paramText name.name index value

/-- Make a declaration. The result are the texts to write. -/
def run : Declaration → Action SymbolTable ParamText
  | set name members => return { defs := ← declareSet name members }
  | param name index value => declareParam name index value

/-- What a declaration registers. -/
def register : Declaration → Action SymbolTable Registration
  | set name members => SymbolTable.registerSet name members
  | param name _ value => SymbolTable.registerParam name value

/-- Whether a table holds nothing for the symbol that differs from its declaration. -/
def Agrees (declaration : Declaration) (table : SymbolTable) : Prop :=
  ∀ stored, table.value? declaration.symbol = some stored →
    stored.equals declaration.value = true

/-- Whether the texts of a declaration are written if it is accepted. -/
def writes (declaration : Declaration) (table : SymbolTable) : Bool :=
  !declaration.name.hidden && !(table.held? declaration.symbol).any Declared.emitted

variable {declaration : Declaration} {table : SymbolTable} {texts : ParamText} {symbol : Symbol}

theorem exists_of_set_text {name : SymbolName} {members : List Value}
    (writable : (set name members).text = .ok texts) :
    ∃ words, setText name.name members = .ok words ∧ texts = { defs := words } := by
  obtain ⟨words, rendered, ⟨⟩⟩ := bind_eq_ok_iff.mp writable
  exact ⟨words, rendered, rfl⟩

/-- Sets and parameters are declared alike. -/
theorem run_eq (declaration : Declaration) :
    declaration.run = declare declaration.text declaration.register := by
  cases declaration with
  | param name index value => rfl
  | set name members =>
    funext table
    rw [run, declareSet, text]
    cases setText name.name members with
    | error failure => rfl
    | ok words =>
      cases registered : SymbolTable.registerSet name members table with
      | error failure after =>
        rw [bind_of_eq_error (declare_of_error words registered)]
        exact (declare_of_error _ registered).symm
      | ok registration after =>
        rw [bind_of_eq_ok (declare_of_ok words registered)]
        refine Eq.trans ?_ (declare_of_ok _ registered).symm
        cases registration <;> rfl

/-- A declaration that agrees with the table is registered. Only the entry of its symbol
changes. -/
theorem register_of_agrees (agrees : declaration.Agrees table) :
    ∃ after, declaration.register table =
        .ok (if declaration.writes table then .emit else .silent) after ∧
      ∀ symbol, after.held? symbol =
        if symbol = declaration.symbol then
          some (.redeclared (table.held? symbol) declaration.name declaration.value)
        else table.held? symbol := by
  cases declaration with
  | set name members =>
    have same : ∀ existing, table.sets.get? name.name = some existing →
        Value.allEqual existing.value members = true := by
      intro existing found
      exact agrees (.list existing.value) (by
        simp [SymbolTable.value?, SymbolTable.set?, Declaration.symbol, found])
    rcases Model.register_of_agrees (fun members => (Value.list members).text) same with
      ⟨sets, registered, entries⟩
    refine ⟨{ table with sets }, ?_, ?_⟩
    · rw [register, SymbolTable.registerSet, onPart_of_eq_ok registered, writes]
      simp only [SymbolTable.held?, Declaration.symbol, Declaration.name, Option.any_map]
    · rintro (other | other)
      · simp only [SymbolTable.held?, entries, Declaration.symbol, Symbol.set.injEq]
        split
        · next same =>
            rw [same]
            cases table.sets.get? name.name <;> rfl
        · rfl
      · rfl
  | param name index value =>
    have same : ∀ existing, table.params.get? name.name = some existing →
        Value.equals existing.value value = true := by
      intro existing found
      exact agrees existing.value (by
        simp [SymbolTable.value?, SymbolTable.param?, Declaration.symbol, found])
    rcases Model.register_of_agrees Value.text same with ⟨params, registered, entries⟩
    refine ⟨{ table with params }, ?_, ?_⟩
    · rw [register, SymbolTable.registerParam, onPart_of_eq_ok registered]
      rfl
    · rintro (other | other)
      · rfl
      · simp only [SymbolTable.held?, entries, Declaration.symbol, Symbol.param.injEq]
        split
        · next same =>
            rw [same]
            rfl
        · rfl

/-- A declaration that differs from the table is a conflict if its texts can be written. -/
theorem run_of_differs {stored : Value} (writable : declaration.text = .ok texts)
    (found : table.value? declaration.symbol = some stored)
    (differs : stored.equals declaration.value = false) :
    declaration.run table =
      .error (.declarationConflict declaration.symbol.name stored.text declaration.value.text)
        table := by
  rw [run_eq, writable]
  refine declare_of_error texts ?_
  cases declaration with
  | set name members =>
    simp only [SymbolTable.value?, SymbolTable.set?, Declaration.symbol, Option.map_map,
      Option.map_eq_some_iff] at found
    rcases found with ⟨existing, found, rfl⟩
    rw [register, SymbolTable.registerSet,
      onPart_of_eq_error (register_of_differs _ found differs)]
    rfl
  | param name index value =>
    simp only [SymbolTable.value?, SymbolTable.param?, Declaration.symbol,
      Option.map_eq_some_iff] at found
    rcases found with ⟨existing, found, rfl⟩
    change existing.value.equals value = false at differs
    rw [register, SymbolTable.registerParam,
      onPart_of_eq_error (register_of_differs _ found differs)]
    rfl

theorem setText_ne_empty {name : String} {members : List Value} {words : String}
    (rendered : setText name members = .ok words) : words ≠ "" := by
  obtain ⟨texts, -, ⟨⟩⟩ := bind_eq_ok_iff.mp rendered
  intro empty
  have parts := congrArg String.toList empty
  simp only [String.toList_append, String.toList_empty, List.append_eq_nil_iff] at parts
  exact absurd parts.1.1.1.1 (by decide)

theorem paramText_eq_ok_iff_of_notDict {name : String} {index : Option String} {value : Value}
    (notDict : ∀ entries, value ≠ .dict entries) :
    paramText name index value = .ok texts ↔
      ∃ scalar, literal value = .ok scalar ∧ texts = { defs := s!"param {name} := {scalar};" } := by
  unfold paramText
  split
  · next entries _ => exact absurd rfl (notDict entries)
  · next entries => exact absurd rfl (notDict entries)
  · cases literal value with
    | error failure => simp [bind, Except.bind]
    | ok scalar => simp [bind, Except.bind, pure, Except.pure, eq_comm]

theorem paramText_defs_ne_empty {name : String} {index : Option String} {value : Value}
    (rendered : paramText name index value = .ok texts) : texts.defs ≠ "" := by
  intro empty
  have begins : ∃ rest, texts.defs = toString "param " ++ rest := by
    unfold paramText at rendered
    split at rendered
    · obtain ⟨values, -, ⟨⟩⟩ := bind_eq_ok_iff.mp rendered
      exact ⟨_, by simp only [String.append_assoc]; rfl⟩
    · cases rendered
    · obtain ⟨scalar, -, ⟨⟩⟩ := bind_eq_ok_iff.mp rendered
      exact ⟨_, by simp only [String.append_assoc]; rfl⟩
  rcases begins with ⟨rest, defs_eq⟩
  have parts := congrArg String.toList (defs_eq.symm.trans empty)
  simp only [String.toList_append, String.toList_empty, List.append_eq_nil_iff] at parts
  exact absurd parts.1 (by decide)

theorem text_ne_empty (writable : declaration.text = .ok texts) : texts ≠ {} := by
  rintro rfl
  cases declaration with
  | set name members =>
    rcases exists_of_set_text writable with ⟨words, rendered, texts_eq⟩
    exact setText_ne_empty rendered (congrArg ParamText.defs texts_eq).symm
  | param name index value => exact paramText_defs_ne_empty writable rfl

/-! ## Declarations one after the other -/

/-- The table after a declaration, whether it was accepted or refused. -/
def apply (table : SymbolTable) (declaration : Declaration) : SymbolTable :=
  stateAfter declaration.run table

/-- The table after some declarations. -/
def tableAfter (declarations : List Declaration) : SymbolTable := declarations.foldl apply {}

/-- The answer to a declaration that is made after others: the texts to write, or why it
is refused. -/
def answer (earlier : List Declaration) (declaration : Declaration) : Except Failure ParamText :=
  outcome declaration.run (tableAfter earlier)

/-- Whether a declaration that is made after others is accepted. -/
def Accepted (earlier : List Declaration) (declaration : Declaration) : Prop :=
  ∃ texts, answer earlier declaration = .ok texts

/-- Whether one of some declarations is such and was accepted. -/
def SomeAccepted (such : Declaration → Prop) (declarations : List Declaration) : Prop :=
  ∃ before declaration later, declarations = before ++ declaration :: later ∧
    such declaration ∧ Accepted before declaration

/-- Whether a declaration that is made after others is the first accepted one that is
such. -/
def IsFirst (such : Declaration → Prop) (earlier : List Declaration)
    (declaration : Declaration) : Prop :=
  such declaration ∧ Accepted earlier declaration ∧ ¬ SomeAccepted such earlier

/-- Whether a declaration is of a given symbol. -/
def Declares (symbol : Symbol) (declaration : Declaration) : Prop :=
  declaration.symbol = symbol

/-- Whether a declaration is of a given symbol and not hidden. -/
def Shows (symbol : Symbol) (declaration : Declaration) : Prop :=
  declaration.Declares symbol ∧ declaration.name.hidden = false

variable {earlier : List Declaration} {again : Declaration}

theorem tableAfter_append_singleton (earlier : List Declaration) (declaration : Declaration) :
    tableAfter (earlier ++ [declaration]) = apply (tableAfter earlier) declaration := by
  rw [tableAfter, List.foldl_append]
  rfl

theorem answer_of_agrees (writable : declaration.text = .ok texts)
    (agrees : declaration.Agrees (tableAfter earlier)) :
    answer earlier declaration =
      .ok (if declaration.writes (tableAfter earlier) then texts else {}) := by
  rcases register_of_agrees agrees with ⟨after, registered, -⟩
  rw [answer, outcome, run_eq, writable, declare_of_ok texts registered]
  cases declaration.writes (tableAfter earlier) <;> rfl

theorem answer_of_text_error {failure : Failure} (unwritable : declaration.text = .error failure) :
    answer earlier declaration = .error failure := by
  rw [answer, outcome, run_eq, unwritable, declare_error]

theorem text_param_none (name : SymbolName) (entries : Entries) :
    (param name none (.dict entries)).text = .error (.badArgument (.paramIndexMissing name.name)) :=
  rfl

theorem accepted_iff :
    Accepted earlier declaration ↔
      (∃ texts, declaration.text = .ok texts) ∧ declaration.Agrees (tableAfter earlier) := by
  constructor
  · rintro ⟨answered, answer_eq⟩
    cases writable : declaration.text with
    | error failure =>
      rw [answer_of_text_error writable] at answer_eq
      cases answer_eq
    | ok texts =>
      refine ⟨⟨texts, rfl⟩, ?_⟩
      intro stored found
      by_contra differs
      rw [answer, outcome,
        run_of_differs writable found (Bool.not_eq_true _ ▸ differs)] at answer_eq
      cases answer_eq
  · rintro ⟨⟨texts, writable⟩, agrees⟩
    exact ⟨_, answer_of_agrees writable agrees⟩

theorem tableAfter_of_not_accepted (refused : ¬ Accepted earlier declaration) :
    tableAfter (earlier ++ [declaration]) = tableAfter earlier := by
  rw [tableAfter_append_singleton, apply, stateAfter]
  cases writable : declaration.text with
  | error failure => rw [run_eq, writable, declare_error]
  | ok texts =>
    have differs : ¬ declaration.Agrees (tableAfter earlier) := fun agrees =>
      refused (accepted_iff.mpr ⟨⟨texts, writable⟩, agrees⟩)
    simp only [Agrees, not_forall, Bool.not_eq_true] at differs
    rcases differs with ⟨stored, found, differs⟩
    rw [run_of_differs writable found differs]

/-- What a table holds changes for the symbol of an accepted declaration only. -/
theorem held?_tableAfter_of_accepted (accepted : Accepted earlier declaration)
    (symbol : Symbol) :
    (tableAfter (earlier ++ [declaration])).held? symbol =
      if symbol = declaration.symbol then
        some (.redeclared ((tableAfter earlier).held? symbol) declaration.name declaration.value)
      else (tableAfter earlier).held? symbol := by
  rcases accepted_iff.mp accepted with ⟨⟨texts, writable⟩, agrees⟩
  rcases register_of_agrees agrees with ⟨after, registered, entries⟩
  rw [tableAfter_append_singleton, apply, stateAfter, run_eq, writable,
    declare_of_ok texts registered]
  exact entries symbol

theorem someAccepted_append_singleton {such : Declaration → Prop} :
    SomeAccepted such (earlier ++ [declaration]) ↔
      SomeAccepted such earlier ∨ such declaration ∧ Accepted earlier declaration := by
  constructor
  · rintro ⟨before, other, later, split_eq, isSuch, accepted⟩
    rcases List.eq_nil_or_concat later with rfl | ⟨later, last, rfl⟩
    · rcases List.append_inj' split_eq rfl with ⟨rfl, last_eq⟩
      cases last_eq
      exact .inr ⟨isSuch, accepted⟩
    · rw [List.concat_eq_append, ← List.cons_append, ← List.append_assoc] at split_eq
      rcases List.append_inj' split_eq rfl with ⟨earlier_eq, -⟩
      exact .inl ⟨before, other, later, earlier_eq, isSuch, accepted⟩
  · rintro (⟨before, other, later, rfl, isSuch, accepted⟩ | ⟨isSuch, accepted⟩)
    · exact ⟨before, other, later ++ [declaration], by simp, isSuch, accepted⟩
    · exact ⟨earlier, declaration, [], rfl, isSuch, accepted⟩

theorem not_someAccepted_nil {such : Declaration → Prop} : ¬ SomeAccepted such [] := by
  rintro ⟨before, other, later, split_eq, -, -⟩
  simp at split_eq

/-- A table marks a symbol if a declaration that sets the mark was accepted, and no declaration
takes it away. -/
theorem held?_marked_iff {such : Declaration → Prop} {marked : Option (Declared Value) → Bool}
    (absent : marked none = false)
    (ofSymbol : ∀ declaration, such declaration → declaration.Declares symbol)
    (sets : ∀ held declaration, declaration.Declares symbol →
      (marked (some (.redeclared held declaration.name declaration.value)) = true ↔
        marked held = true ∨ such declaration))
    (declarations : List Declaration) :
    marked ((tableAfter declarations).held? symbol) = true ↔ SomeAccepted such declarations := by
  induction declarations using List.reverseRecOn with
  | nil =>
    refine iff_of_false ?_ not_someAccepted_nil
    cases symbol <;> simp [tableAfter, SymbolTable.held?, absent]
  | append_singleton earlier declaration ih =>
    rw [someAccepted_append_singleton, ← ih]
    by_cases accepted : Accepted earlier declaration
    · rw [held?_tableAfter_of_accepted accepted]
      split
      · next same => rw [sets _ _ same.symm, and_iff_left accepted]
      · next different =>
          have other : ¬ such declaration := fun isSuch => different (ofSymbol _ isSuch).symm
          simp [other]
    · simp [tableAfter_of_not_accepted accepted, accepted]

theorem held?_isSome_iff (declarations : List Declaration) (symbol : Symbol) :
    ((tableAfter declarations).held? symbol).isSome = true ↔
      SomeAccepted (Declares symbol) declarations :=
  held?_marked_iff rfl (fun _ declares => declares)
    (fun _ _ declares => iff_of_true rfl (.inr declares)) declarations

theorem held?_emitted_iff (declarations : List Declaration) (symbol : Symbol) :
    ((tableAfter declarations).held? symbol).any Declared.emitted = true ↔
      SomeAccepted (Shows symbol) declarations := by
  refine held?_marked_iff rfl (fun _ shows_ => shows_.1) (fun held declaration declares => ?_)
    declarations
  simp [Shows, declares, Declared.redeclared]

theorem value?_tableAfter_append {stored : Value}
    (found : (tableAfter earlier).value? symbol = some stored) (later : List Declaration) :
    (tableAfter (earlier ++ later)).value? symbol = some stored := by
  induction later using List.reverseRecOn with
  | nil => rwa [List.append_nil]
  | append_singleton later declaration ih =>
    rw [← List.append_assoc]
    by_cases accepted : Accepted (earlier ++ later) declaration
    · rw [SymbolTable.value?_eq, Option.map_eq_some_iff] at ih
      rcases ih with ⟨entry, held, rfl⟩
      rw [SymbolTable.value?_eq, held?_tableAfter_of_accepted accepted, held]
      split <;> rfl
    · rwa [tableAfter_of_not_accepted accepted]

/-- The first accepted declaration of a symbol gives it its value, for good. -/
theorem IsFirst.value?_eq
    (first : IsFirst (Declares declaration.symbol) earlier declaration)
    (later : List Declaration) :
    (tableAfter (earlier ++ declaration :: later)).value? declaration.symbol =
      some declaration.value := by
  rcases first with ⟨-, accepted, none_before⟩
  have absent : (tableAfter earlier).held? declaration.symbol = none := by
    rw [← held?_isSome_iff, Bool.not_eq_true, Option.isSome_eq_false_iff,
      Option.isNone_iff_eq_none] at none_before
    exact none_before
  have stored : (tableAfter (earlier ++ [declaration])).value? declaration.symbol =
      some declaration.value := by
    rw [SymbolTable.value?_eq, held?_tableAfter_of_accepted accepted, if_pos rfl, absent]
    rfl
  have kept := value?_tableAfter_append stored later
  rwa [List.append_assoc] at kept

/-- A declaration can be written if an accepted one of the same symbol has an equal value
that is not a dict. -/
theorem exists_text_of_equals (accepted : Accepted earlier declaration)
    (declares : again.Declares declaration.symbol)
    (equal : declaration.value.equals again.value = true)
    (notDict : ∀ entries, declaration.value ≠ .dict entries) : ∃ texts, again.text = .ok texts := by
  rcases (accepted_iff.mp accepted).1 with ⟨texts, writable⟩
  cases declaration with
  | set name members =>
    cases again with
    | param _ _ _ => cases declares
    | set name' members' =>
      rcases exists_of_set_text writable with ⟨words, rendered, -⟩
      obtain ⟨texts, written, -⟩ := bind_eq_ok_iff.mp rendered
      rcases exists_literals_of_allEqual members members' ⟨texts, written⟩ equal with
        ⟨texts', written'⟩
      exact ⟨_, by rw [text, setText, written']; rfl⟩
  | param name index value =>
    cases again with
    | set _ _ => cases declares
    | param name' index' value' =>
      rcases (paramText_eq_ok_iff_of_notDict notDict).mp writable with ⟨scalar, written, -⟩
      rcases exists_literal_of_equals value value' ⟨scalar, written⟩ equal with
        ⟨scalar', written'⟩
      have notDict' : ∀ entries, value' ≠ .dict entries := by
        rintro entries rfl
        cases written'
      exact ⟨_, (paramText_eq_ok_iff_of_notDict notDict').mpr ⟨scalar', written', rfl⟩⟩

/-- After the first accepted declaration of a symbol, one with another value is refused and
changes nothing. -/
theorem IsFirst.refuses
    (first : IsFirst (Declares declaration.symbol) earlier declaration)
    (between : List Declaration)
    (declares : again.Declares declaration.symbol)
    (differs : declaration.value.equals again.value = false) :
    ¬ Accepted (earlier ++ declaration :: between) again ∧
      ∀ texts, again.text = .ok texts →
        answer (earlier ++ declaration :: between) again =
          .error (.declarationConflict declaration.symbol.name declaration.value.text
            again.value.text) := by
  have stored := first.value?_eq between
  rw [← declares] at stored
  constructor
  · intro accepted
    have equal := (accepted_iff.mp accepted).2 _ stored
    rw [differs] at equal
    cases equal
  · intro texts writable
    rw [answer, outcome, run_of_differs writable stored differs, declares]

/-- After the first accepted declaration of a symbol, one with an equal value is accepted if
its texts can be written. -/
theorem IsFirst.accepts_iff
    (first : IsFirst (Declares declaration.symbol) earlier declaration)
    (between : List Declaration)
    (declares : again.Declares declaration.symbol)
    (equal : declaration.value.equals again.value = true) :
    Accepted (earlier ++ declaration :: between) again ↔ ∃ texts, again.text = .ok texts := by
  have stored := first.value?_eq between
  rw [← declares] at stored
  have agrees : again.Agrees (tableAfter (earlier ++ declaration :: between)) := by
    intro value found
    rw [stored] at found
    cases found
    exact equal
  rw [accepted_iff]
  exact and_iff_left agrees

/-- An accepted declaration has a text if it is the first of its symbol that is not
hidden. -/
theorem answer_ne_empty_iff (answered : answer earlier declaration = .ok texts) :
    (texts ≠ {} ↔ IsFirst (Shows declaration.symbol) earlier declaration) ∧
      (texts ≠ {} → declaration.text = .ok texts) := by
  have accepted : Accepted earlier declaration := ⟨texts, answered⟩
  rcases accepted_iff.mp accepted with ⟨⟨rendered, writable⟩, agrees⟩
  rw [answer_of_agrees writable agrees] at answered
  cases answered
  have first_iff : declaration.writes (tableAfter earlier) = true ↔
      IsFirst (Shows declaration.symbol) earlier declaration := by
    rw [writes, Bool.and_eq_true_iff, IsFirst, ← held?_emitted_iff]
    simp [Shows, Declares, accepted]
  rw [← first_iff]
  by_cases written : declaration.writes (tableAfter earlier) = true
  · rw [if_pos written]
    exact ⟨iff_of_true (text_ne_empty writable) written, fun _ => writable⟩
  · rw [if_neg written]
    exact ⟨iff_of_false (fun nonempty => nonempty rfl) written, fun nonempty => absurd rfl nonempty⟩

/-- The first accepted declaration of a symbol fixes its value. Later ones are refused as a
conflict and change nothing if their value differs, and are accepted if it is equal and
their texts can be written, which is certain for sets and for values other than dicts. A dict
without an index is refused, also if it is equal, and changes nothing. There are texts for the
first accepted declaration of a symbol that is not hidden, and for no other. -/
theorem declarations_are_final :
    (∀ earlier declaration,
      IsFirst (Declares declaration.symbol) earlier declaration → ∀ between,
        (tableAfter (earlier ++ declaration :: between)).value? declaration.symbol =
          some declaration.value ∧
        ∀ again : Declaration, again.Declares declaration.symbol →
          (declaration.value.equals again.value = false →
            tableAfter (earlier ++ declaration :: between ++ [again]) =
              tableAfter (earlier ++ declaration :: between) ∧
            ¬ Accepted (earlier ++ declaration :: between) again ∧
            ∀ texts, again.text = .ok texts →
              answer (earlier ++ declaration :: between) again =
                .error (.declarationConflict declaration.symbol.name declaration.value.text
                  again.value.text)) ∧
          (declaration.value.equals again.value = true →
            (Accepted (earlier ++ declaration :: between) again ↔
              ∃ texts, again.text = .ok texts) ∧
            ((∀ entries, declaration.value ≠ .dict entries) →
              Accepted (earlier ++ declaration :: between) again) ∧
            ∀ name entries, again = .param name none (.dict entries) →
              answer (earlier ++ declaration :: between) again =
                .error (.badArgument (.paramIndexMissing name.name)) ∧
              tableAfter (earlier ++ declaration :: between ++ [again]) =
                tableAfter (earlier ++ declaration :: between))) ∧
    (∀ earlier declaration texts, answer earlier declaration = .ok texts →
      (texts ≠ {} ↔ IsFirst (Shows declaration.symbol) earlier declaration) ∧
      (texts ≠ {} → declaration.text = .ok texts ∧
        ∀ between again texts', again.Declares declaration.symbol →
          answer (earlier ++ declaration :: between) again = .ok texts' → texts' = {}) ∧
      (declaration.name.hidden = true → texts = {})) := by
  constructor
  · intro earlier declaration first between
    refine ⟨first.value?_eq between, ?_⟩
    intro again declares
    constructor
    · intro differs
      rcases first.refuses between declares differs with ⟨refused, conflict⟩
      exact ⟨tableAfter_of_not_accepted refused, refused, conflict⟩
    · intro equal
      have accepts := first.accepts_iff between declares equal
      refine ⟨accepts, fun notDict =>
        accepts.mpr (exists_text_of_equals first.2.1 declares equal notDict), ?_⟩
      rintro name entries rfl
      have answered : answer (earlier ++ declaration :: between)
          (param name none (.dict entries)) =
            .error (.badArgument (.paramIndexMissing name.name)) :=
        answer_of_text_error (text_param_none name entries)
      refine ⟨answered, tableAfter_of_not_accepted ?_⟩
      rintro ⟨texts, accepted⟩
      rw [answered] at accepted
      cases accepted
  · intro earlier declaration texts answered
    rcases answer_ne_empty_iff answered with ⟨nonempty_iff, writable⟩
    refine ⟨nonempty_iff, ?_, ?_⟩
    · intro nonempty
      refine ⟨writable nonempty, ?_⟩
      intro between again texts' declares answered'
      by_contra nonempty'
      rcases (answer_ne_empty_iff answered').1.mp nonempty' with ⟨-, -, none_before⟩
      rw [declares] at none_before
      rcases nonempty_iff.mp nonempty with ⟨visible, accepted, -⟩
      exact none_before ⟨earlier, declaration, between, rfl, visible, accepted⟩
    · intro hidden
      by_contra nonempty
      have visible := (nonempty_iff.mp nonempty).1.2
      rw [hidden] at visible
      cases visible

/-- A set that is declared under a hidden name first. -/
def hiddenRange : Declaration := .set ⟨"I", true⟩ [.int 0, .int 1]

/-- The same set under its name. -/
def shownRange : Declaration := .set ⟨"I", false⟩ [.int 0, .int 1]

/-- Another set under the same name. -/
def otherRange : Declaration := .set ⟨"I", true⟩ [.int 2]

theorem declarations_are_final_hiddenRange :
    IsFirst (Declares (.set "I")) [] hiddenRange ∧
      answer [hiddenRange] shownRange = .ok { defs := "set I := \x7b0,1\x7d;" } ∧
      (tableAfter [hiddenRange, shownRange]).value? (.set "I") = some hiddenRange.value ∧
      answer [hiddenRange, shownRange] otherRange =
        .error (.declarationConflict "I" "[0, 1]" "[2]") ∧
      ∀ between again texts, again.Declares (.set "I") →
        answer ([hiddenRange] ++ shownRange :: between) again = .ok texts → texts = {} := by
  have first : IsFirst (Declares (.set "I")) [] hiddenRange :=
    ⟨rfl, ⟨_, rfl⟩, not_someAccepted_nil⟩
  have answered : answer [hiddenRange] shownRange = .ok { defs := "set I := \x7b0,1\x7d;" } := by
    rfl
  rcases declarations_are_final.1 [] hiddenRange first [shownRange] with ⟨stored, later⟩
  rcases declarations_are_final.2 [hiddenRange] shownRange _ answered with ⟨-, only, -⟩
  have conflict := ((later otherRange rfl).1 (by decide)).2.2 _ rfl
  exact ⟨first, answered, stored, conflict, (only (by decide)).2⟩

/-- A parameter over an index. -/
def demand : Declaration := .param ⟨"D", false⟩ (some "I") (.dict [(.int 1, .int 2)])

/-- The same parameter without its index. -/
def demandAgain : Declaration := .param ⟨"D", false⟩ none (.dict [(.int 1, .int 2)])

/-- A parameter with an equal dict is refused if its index is missing. -/
theorem demandAgain_refused :
    IsFirst (Declares demand.symbol) [] demand ∧ demandAgain.Declares demand.symbol ∧
      demand.value.equals demandAgain.value = true ∧
      answer [demand] demandAgain = .error (.badArgument (.paramIndexMissing "D")) :=
  ⟨⟨rfl, ⟨_, rfl⟩, not_someAccepted_nil⟩, rfl, by decide, by rfl⟩

end Declaration

end ModelWeaver.Model
