import ModelWeaver.Proofs.Generator.Leaves

/-!
# Parameters range over their index sets

`PARAM` declares the index sets of a parameter and then the parameter. Each of them may have been
declared before, and then the table keeps what it holds, which has to equal what is declared now.
So members and keys in the table may come from different declarations. Component by component they
still are the same, because each equals what this call declares, and between values that have
literals and no floats equality is an equivalence.
-/

namespace ModelWeaver

open Model

/-! ## Plain values -/

/-- Two lists hold the same values up to equality, in any order and number. -/
def Alike (items others : List Value) : Prop :=
  (∀ item ∈ items, ∃ other ∈ others, (item == other) = true) ∧
    ∀ other ∈ others, ∃ item ∈ items, (item == other) = true

variable {items : List Value}

theorem alike_of_forall₂ {others : List Value}
    (equal : List.Forall₂ (fun a b => (a == b) = true) items others) : Alike items others := by
  induction equal with
  | nil => exact ⟨List.forall_mem_nil _, List.forall_mem_nil _⟩
  | @cons item other items others here _ ih =>
    refine ⟨List.forall_mem_cons.mpr ⟨⟨other, List.mem_cons_self, here⟩, ?_⟩,
      List.forall_mem_cons.mpr ⟨⟨item, List.mem_cons_self, here⟩, ?_⟩⟩
    · intro item mem
      obtain ⟨other, mem, same⟩ := ih.1 item mem
      exact ⟨other, List.mem_cons_of_mem _ mem, same⟩
    · intro other mem
      obtain ⟨item, mem, same⟩ := ih.2 other mem
      exact ⟨item, List.mem_cons_of_mem _ mem, same⟩

theorem alike_self (plain : ∀ item ∈ items, item.Plain) : Alike items items :=
  ⟨fun item mem => ⟨item, mem, Value.equals_self (plain item mem).discrete⟩,
    fun item mem => ⟨item, mem, Value.equals_self (plain item mem).discrete⟩⟩

theorem exists_literal_of_mem {texts : List String} (written : literals items = .ok texts) :
    ∀ item ∈ items, ∃ text, literal item = .ok text := by
  induction items generalizing texts with
  | nil => exact List.forall_mem_nil _
  | cons item items ih =>
    obtain ⟨first, rest, here, later, -⟩ := literals_cons_eq_ok_iff.mp written
    exact List.forall_mem_cons.mpr ⟨⟨first, here⟩, ih later⟩

theorem plain_of_literal {value : Value} (free : value.FloatFree) {text : String}
    (written : literal value = .ok text) : value.Plain := by
  induction free generalizing text with
  | @mk value here _ ih =>
    cases value with
    | bool _ | int _ | str _ => exact Value.everywhere_of_parts_eq_nil trivial rfl
    | tuple items =>
      obtain ⟨texts, items_written, -⟩ := literal_tuple_eq_ok_iff.mp written
      refine Value.everywhere_tuple.mpr ⟨trivial, fun item mem => ?_⟩
      obtain ⟨text, item_written⟩ := exists_literal_of_mem items_written item mem
      exact ih item mem item_written
    | float _ => exact here.elim
    | _ => cases written

/-- Only plain values and floats equal plain values. -/
theorem plain_of_equals {a b : Value} (free : a.FloatFree) (plain : b.Plain)
    (equal : (a == b) = true) : a.Plain := by
  induction plain generalizing a with
  | @mk b here _ ih =>
    cases b with
    | bool _ | int _ | str _ =>
      cases a with
      | bool _ | int _ | str _ => exact Value.everywhere_of_parts_eq_nil trivial rfl
      | float _ => exact (Value.everywhere_iff.mp free).1.elim
      | _ => cases equal
    | tuple others =>
      cases a with
      | tuple items =>
        refine Value.everywhere_tuple.mpr ⟨trivial, fun item mem => ?_⟩
        obtain ⟨other, inOthers, same⟩ :=
          (alike_of_forall₂ (Value.allEqual_iff.mp equal)).1 item mem
        exact ih other inOthers
          ((Value.everywhere_tuple.mp free).2 item mem) same
      | _ => cases equal
    | _ => exact here.elim

/-! ## What a declaration leaves in the table -/

namespace Model

variable {after : SymbolTable} {symbol : SymbolName}

theorem of_register_eq_ok {α : Type} {table after : NameMap (Declared α)} {value : α}
    {same : α → α → Bool} {describe : α → String} {registration : Registration}
    (registered : register symbol value same describe table = .ok registration after) :
    (∀ stored, (table.get? symbol.name).map Declared.value = some stored →
      same stored value = true) ∧
    ∀ name, (after.get? name).map Declared.value =
      if name = symbol.name then some (((table.get? name).map Declared.value).getD value)
      else (table.get? name).map Declared.value := by
  by_cases agrees : ∀ existing, table.get? symbol.name = some existing →
      same existing.value value = true
  · obtain ⟨made, registered', get?_made⟩ := register_of_agrees describe agrees
    obtain ⟨-, rfl⟩ := EStateM.Result.ok.inj (registered'.symm.trans registered)
    constructor
    · intro stored found
      obtain ⟨existing, held, rfl⟩ := Option.map_eq_some_iff.mp found
      exact agrees existing held
    · intro name
      rw [get?_made]
      split
      · next name_eq =>
          subst name_eq
          rfl
      · rfl
  · push Not at agrees
    obtain ⟨existing, found, differs⟩ := agrees
    rw [register_of_differs describe found (Bool.eq_false_iff.mpr differs)] at registered
    cases registered

/-- The table keeps the members that it holds, which have to equal those that are declared. -/
theorem of_declareSet_eq_ok {table : SymbolTable} {members : List Value} {text : String}
    (declared : declareSet symbol members table = .ok text after) :
    (∀ stored, table.set? symbol.name = some stored → Value.allEqual stored members = true) ∧
      after.params = table.params ∧
      ∀ name, after.set? name =
        if name = symbol.name then some ((table.set? name).getD members) else table.set? name := by
  obtain ⟨words, -, ran⟩ := exists_of_lift_bind_eq_ok declared
  obtain ⟨registration, middle, registered, returned⟩ := exists_of_bind_eq_ok ran
  cases returned
  obtain ⟨sets, changed, rfl⟩ := exists_of_onPart_eq_ok registered
  exact ⟨(of_register_eq_ok changed).1, rfl, (of_register_eq_ok changed).2⟩

theorem of_declareParam_eq_ok {table : SymbolTable} {index : Option String} {value : Value}
    {texts : ParamText} (declared : declareParam symbol index value table = .ok texts after) :
    (∃ texts, paramText symbol.name index value = .ok texts) ∧
      (∀ stored, table.param? symbol.name = some stored → stored.equals value = true) ∧
      after.sets = table.sets ∧
      after.param? symbol.name = some ((table.param? symbol.name).getD value) := by
  obtain ⟨texts, written, ran⟩ := exists_of_lift_bind_eq_ok declared
  obtain ⟨registration, middle, registered, returned⟩ := exists_of_bind_eq_ok ran
  cases returned
  obtain ⟨params, changed, rfl⟩ := exists_of_onPart_eq_ok registered
  obtain ⟨agrees, get?_after⟩ := of_register_eq_ok changed
  exact ⟨⟨texts, written⟩, agrees, rfl, (get?_after symbol.name).trans (if_pos rfl)⟩

/-- From one table to another, these sets were declared, and no others. -/
structure SetsAdded (declared : List (SymbolName × List Value)) (before after : SymbolTable) :
    Prop where
  kept {name : String} {members : List Value} :
    before.set? name = some members → after.set? name = some members
  /-- The members of a new set are those of one of the declarations. -/
  new {name : String} {members : List Value} :
    after.set? name = some members → before.set? name = none →
      ∃ set ∈ declared, set.1.name = name ∧ set.2 = members
  holds : ∀ set ∈ declared, ∃ members, after.set? set.1.name = some members ∧
    (members = set.2 ∨ Value.allEqual members set.2 = true)

theorem SetsAdded.nil (table : SymbolTable) : SetsAdded [] table table where
  kept found := found
  new found absent := absurd found (absent ▸ nofun)
  holds := List.forall_mem_nil _

theorem SetsAdded.congr {declared : List (SymbolName × List Value)} {before middle : SymbolTable}
    (added : SetsAdded declared before middle) (sets_eq : after.sets = middle.sets) :
    SetsAdded declared before after := by
  have set?_eq (name : String) : after.set? name = middle.set? name := by
    rw [SymbolTable.set?, sets_eq]
    rfl
  refine ⟨?_, ?_, ?_⟩ <;> simp only [set?_eq]
  · exact added.kept
  · exact added.new
  · exact added.holds

theorem SetsAdded.cons {set : SymbolName} {members : List Value}
    {declared : List (SymbolName × List Value)} {before middle : SymbolTable} {text : String}
    (first : declareSet set members before = .ok text middle)
    (later : SetsAdded declared middle after) :
    SetsAdded ((set, members) :: declared) before after := by
  obtain ⟨agrees, -, set?_eq⟩ := of_declareSet_eq_ok first
  refine ⟨?_, ?_, List.forall_mem_cons.mpr ⟨?_, later.holds⟩⟩
  · intro name held found
    refine later.kept ?_
    rw [set?_eq, found]
    split <;> rfl
  · intro name held found absent
    by_cases name_eq : name = set.name
    · have added : middle.set? name = some members := by
        rw [set?_eq, if_pos name_eq, absent]
        rfl
      exact ⟨_, List.mem_cons_self, name_eq.symm,
        Option.some.inj ((later.kept added).symm.trans found)⟩
    · obtain ⟨other, mem, isOther⟩ :=
        later.new found (by rw [set?_eq, if_neg name_eq, absent])
      exact ⟨other, List.mem_cons_of_mem _ mem, isOther⟩
  · cases found : before.set? set.name with
    | none =>
      refine ⟨members, later.kept ?_, .inl rfl⟩
      rw [set?_eq, if_pos rfl, found]
      rfl
    | some stored =>
      refine ⟨stored, later.kept ?_, .inr (agrees stored found)⟩
      rw [set?_eq, if_pos rfl, found]
      rfl

end Model

/-! ## Columns of keys -/

namespace Declare

/-- The component of a key at a position, if keys are to have `arity` components: a single one is
the key itself, and several make a tuple. -/
inductive Component (arity : Nat) : Nat → Value → Value → Prop
  | whole (key : Value) : arity = 1 → Component arity 0 key key
  | part {parts : List Value} {position : Nat} {component : Value} :
      arity ≠ 1 → parts.length = arity → parts[position]? = some component →
      Component arity position (.tuple parts) component

/-- The components of keys at one position, as they are listed for a set. -/
structure Column (arity position : Nat) (keys column : List Value) : Prop where
  covers : ∀ key ∈ keys, ∃ component, Component arity position key component ∧
    ∃ member ∈ column, member = component ∨ (component == member) = true
  comes : ∀ member ∈ column, ∃ key ∈ keys, Component arity position key member
  differ : arity ≠ 1 → column.Pairwise fun first second => (second == first) = false

section Column

variable {arity position : Nat} {keys column : List Value}

theorem column_whole (keys : List Value) : Column 1 0 keys keys where
  covers key mem := ⟨key, .whole key rfl, key, mem, .inl rfl⟩
  comes key mem := ⟨key, mem, .whole key rfl⟩
  differ several := absurd rfl several

/-- One more key is looked at. -/
theorem Column.push (seen : Column arity position keys column) {key component : Value}
    (isComponent : Component arity position key component) :
    Column arity position (keys ++ [key])
      (if column.contains component then column else column ++ [component]) := by
  have comes : ∀ member ∈ column, ∃ other ∈ keys ++ [key],
      Component arity position other member := by
    intro member inColumn
    obtain ⟨other, inKeys, comes⟩ := seen.comes member inColumn
    exact ⟨other, List.mem_append_left _ inKeys, comes⟩
  split
  · next present =>
      obtain ⟨member, inColumn, same⟩ := List.contains_iff_exists_mem_beq.mp present
      refine ⟨List.forall_mem_append.mpr ⟨seen.covers, ?_⟩, comes, seen.differ⟩
      exact List.forall_mem_singleton.mpr ⟨component, isComponent, member, inColumn, .inr same⟩
  · next absent =>
      refine ⟨List.forall_mem_append.mpr ⟨?_, ?_⟩, List.forall_mem_append.mpr ⟨comes, ?_⟩, ?_⟩
      · intro key inKeys
        obtain ⟨component, isComponent, member, inColumn, same⟩ := seen.covers key inKeys
        exact ⟨component, isComponent, member, List.mem_append_left _ inColumn, same⟩
      · refine List.forall_mem_singleton.mpr ⟨component, isComponent, component, ?_, .inl rfl⟩
        exact List.mem_append_right _ List.mem_cons_self
      · exact List.forall_mem_singleton.mpr
          ⟨key, List.mem_append_right _ List.mem_cons_self, isComponent⟩
      · intro several
        refine List.pairwise_append.mpr ⟨seen.differ several, List.pairwise_singleton _ _, ?_⟩
        intro member inColumn
        refine List.forall_mem_singleton.mpr (Bool.eq_false_iff.mpr fun same => absent ?_)
        exact List.contains_iff_exists_mem_beq.mpr ⟨member, inColumn, same⟩

theorem yields_isComponent (several : arity ≠ 1) (position : Nat) (key : Value) :
    Yields (Component arity position key) (keyColumn.component? position arity key) := by
  cases key with
  | tuple parts =>
    refine Yields.ite (fun _ => Yields.error _) fun sameLength => ?_
    cases found : parts[position]? with
    | none => exact Yields.error _
    | some component => exact Yields.ok (.part several (not_not.mp sameLength) found)
  | _ => exact Yields.error _

/-- The invariant of the loop is that the components of the keys so far are listed. -/
theorem yields_column (several : arity ≠ 1) (position : Nat) (entries : Entries) :
    Yields (Column arity position (entries.map Prod.fst)) (keyColumn position arity entries) := by
  have run (entries : Entries) {keys column : List Value}
      (seen : Column arity position keys column) :
      Yields (Column arity position (keys ++ entries.map Prod.fst))
        (entries.foldlM (fun column entry => do
          let component ← keyColumn.component? position arity entry.1
          return if column.contains component then column else column ++ [component]) column) := by
    induction entries generalizing keys column with
    | nil =>
      rw [List.map_nil, List.append_nil]
      exact Yields.ok seen
    | cons entry entries ih =>
      rw [List.foldlM_cons, List.map_cons, List.append_cons]
      refine Yields.bind ?_ fun column seen => ih seen
      exact (yields_isComponent several position entry.1).bind fun component isComponent =>
        Yields.ok (seen.push isComponent)
  exact run entries ⟨List.forall_mem_nil _, List.forall_mem_nil _, fun _ => .nil⟩

end Column

/-! ## Declaring index sets -/

section AddSets

variable {context after : Context}

theorem exists_of_addSet {set : SymbolName} {members : List Value}
    (ran : addSet set members context = .ok () after) :
    ∃ text, declareSet set members context.symbols = .ok text after.symbols := by
  obtain ⟨text, middle, declares, written⟩ := exists_of_bind_eq_ok ran
  cases written
  obtain ⟨symbols, declared, rfl⟩ := exists_of_onPart_eq_ok declares
  exact ⟨text, declared⟩

theorem exists_of_addColumns {arity : Nat} (several : arity ≠ 1) {entries : Entries}
    {sets : List SymbolName} {first : Nat}
    (ran : ((sets.zipIdx first).forM fun entry => do
      addSet entry.1 (← keyColumn entry.2 arity entries) : Action Context Unit) context =
        .ok () after) :
    after.symbols.params = context.symbols.params ∧
    ∃ declared, declared.map Prod.fst = sets ∧
      (∀ i set, declared[i]? = some set →
        Column arity (first + i) (entries.map Prod.fst) set.2) ∧
      SetsAdded declared context.symbols after.symbols := by
  induction sets generalizing first context with
  | nil =>
    cases ran
    exact ⟨rfl, [], rfl, nofun, .nil _⟩
  | cons set sets ih =>
    obtain ⟨_, middle, ran_here, ran_later⟩ := exists_of_bind_eq_ok ran
    obtain ⟨column, read, added⟩ := exists_of_lift_bind_eq_ok ran_here
    obtain ⟨text, here⟩ := exists_of_addSet added
    obtain ⟨params_eq, declared, rfl, columns, later⟩ := ih ran_later
    refine ⟨params_eq.trans (of_declareSet_eq_ok here).2.1, (set, column) :: declared, rfl, ?_,
      .cons here later⟩
    rintro (_ | i) other found
    · cases found
      exact yields_column several first entries read
    · rw [← Nat.add_assoc, Nat.add_right_comm]
      exact columns i other found

/-- Each index set is declared with the components of the keys at its position. -/
theorem exists_of_addIndexSets {sets : List SymbolName} {entries : Entries}
    (ran : addIndexSets sets entries context = .ok () after) :
    after.symbols.params = context.symbols.params ∧
    ∃ declared, declared.map Prod.fst = sets ∧
      (∀ i set, declared[i]? = some set →
        Column sets.length i (entries.map Prod.fst) set.2) ∧
      SetsAdded declared context.symbols after.symbols := by
  rw [addIndexSets.eq_def] at ran
  split at ran
  · next set =>
      obtain ⟨text, added⟩ := exists_of_addSet ran
      refine ⟨(of_declareSet_eq_ok added).2.1, [(set, entries.map Prod.fst)], rfl, ?_,
        .cons added (.nil _)⟩
      rintro (_ | i) other found
      · cases found
        exact column_whole _
      · cases found
  · next several =>
      have several : sets.length ≠ 1 := fun single => by
        obtain ⟨set, rfl⟩ := List.length_eq_one_iff.mp single
        exact several set rfl
      obtain ⟨params_eq, declared, declares, columns, added⟩ := exists_of_addColumns several ran
      refine ⟨params_eq, declared, declares, fun i set found => ?_, added⟩
      rw [← Nat.zero_add i]
      exact columns i set found

end AddSets

/-! ## From what is declared to what the table holds -/

/-- Keys range over members at a position: the components there and the members are the same, up
to equality. -/
structure RangesOver (arity position : Nat) (keys members : List Value) : Prop where
  exists_member : ∀ key ∈ keys, ∃ component, Component arity position key component ∧
    ∃ member ∈ members, (component == member) = true
  exists_key : ∀ member ∈ members, ∃ key ∈ keys, ∃ component,
    Component arity position key component ∧ (component == member) = true

section Holding

variable {arity position : Nat}

theorem equivalenceOn_plain : Value.EquivalenceOn Value.Plain :=
  Value.equivalenceOn_discrete.mono fun _ plain => plain.discrete

theorem Component.plain {key component : Value}
    (isComponent : Component arity position key component) (plain : key.Plain) :
    component.Plain := by
  cases isComponent with
  | whole _ _ => exact plain
  | part _ _ found =>
    exact (Value.everywhere_tuple.mp plain).2 component (List.mem_of_getElem? found)

/-- Equal keys have equal components. -/
theorem Component.exists_of_equals {key other component : Value}
    (isComponent : Component arity position key component) (plain : key.Plain)
    (plain' : other.Plain) (equal : (other == key) = true) :
    ∃ component', Component arity position other component' ∧
      (component' == component) = true := by
  cases isComponent with
  | whole _ single => exact ⟨other, .whole other single, equal⟩
  | @part parts position component several length_eq found =>
    cases Value.corresponds_of_equals plain'.discrete plain.discrete equal with
    | number _ second => cases second
    | @tuple items _ all_equal =>
      obtain ⟨inRange, rfl⟩ := List.getElem?_eq_some_iff.mp found
      have inRange' : position < items.length := all_equal.length_eq ▸ inRange
      exact ⟨items[position], .part several (all_equal.length_eq.trans length_eq)
        (List.getElem?_eq_getElem inRange'), all_equal.get inRange' inRange⟩

theorem Column.plain {keys column : List Value} (isColumn : Column arity position keys column)
    (plainKeys : ∀ key ∈ keys, key.Plain) : ∀ member ∈ column, member.Plain := by
  intro member inColumn
  obtain ⟨key, inKeys, isComponent⟩ := isColumn.comes member inColumn
  exact isComponent.plain (plainKeys key inKeys)

/-- The keys and the members in the table may be others than those that are declared. -/
theorem Column.rangesOver {keys column stored members : List Value}
    (isColumn : Column arity position keys column) (sameKeys : Alike stored keys)
    (sameMembers : Alike members column) (plainKeys : ∀ key ∈ keys, key.Plain)
    (plainStored : ∀ key ∈ stored, key.Plain) (plainMembers : ∀ member ∈ members, member.Plain) :
    RangesOver arity position stored members := by
  have plainColumn := isColumn.plain plainKeys
  constructor
  · intro key inStored
    obtain ⟨declared, inKeys, sameKey⟩ := sameKeys.1 key inStored
    obtain ⟨component, isComponent, member, inColumn, same⟩ := isColumn.covers declared inKeys
    obtain ⟨component', isComponent', sameComponent⟩ :=
      isComponent.exists_of_equals (plainKeys declared inKeys) (plainStored key inStored) sameKey
    obtain ⟨held, inMembers, sameMember⟩ := sameMembers.2 member inColumn
    have plain := isComponent.plain (plainKeys declared inKeys)
    have plain' := isComponent'.plain (plainStored key inStored)
    have plainMember := plainColumn member inColumn
    have plainHeld := plainMembers held inMembers
    have equalMember : (component == member) = true := by
      rcases same with rfl | equal
      · exact equivalenceOn_plain.refl plain
      · exact equal
    refine ⟨component', isComponent', held, inMembers, ?_⟩
    refine equivalenceOn_plain.trans plain' plain plainHeld sameComponent ?_
    exact equivalenceOn_plain.trans plain plainMember plainHeld equalMember
      (equivalenceOn_plain.symm plainHeld plainMember sameMember)
  · intro held inMembers
    obtain ⟨member, inColumn, sameMember⟩ := sameMembers.1 held inMembers
    obtain ⟨declared, inKeys, isComponent⟩ := isColumn.comes member inColumn
    obtain ⟨key, inStored, sameKey⟩ := sameKeys.2 declared inKeys
    obtain ⟨component, isComponent', sameComponent⟩ :=
      isComponent.exists_of_equals (plainKeys declared inKeys) (plainStored key inStored) sameKey
    refine ⟨key, inStored, component, isComponent', ?_⟩
    have plainMember := plainColumn member inColumn
    have plainHeld := plainMembers held inMembers
    exact equivalenceOn_plain.trans (isComponent'.plain (plainStored key inStored)) plainMember
      plainHeld sameComponent (equivalenceOn_plain.symm plainHeld plainMember sameMember)

theorem exists_of_equals_dict {stored : Value} {entries : Entries}
    (equal : stored.equals (.dict entries) = true) :
    ∃ others, stored = .dict others ∧ others.length = entries.length ∧
      ∀ other ∈ others, ∃ entry ∈ entries, (entry.1 == other.1) = true := by
  cases stored with
  | dict others =>
    rw [Value.equals_dict, Bool.and_eq_true, List.all_eq_true] at equal
    refine ⟨others, rfl, eq_of_beq equal.1, fun other mem => ?_⟩
    obtain ⟨entry, inEntries, same, -⟩ := Value.exists_of_foundIn (equal.2 other mem)
    exact ⟨entry, inEntries, same⟩
  | _ => cases equal

/-- If no two keys of one dict are equal then it leaves none out of those of the other, which
holds as many. -/
theorem alike_keys {others entries : Entries}
    (plain : ∀ other ∈ others, other.1.Plain) (plain' : ∀ entry ∈ entries, entry.1.Plain)
    (differ : Value.KeysDiffer others) (length_eq : others.length = entries.length)
    (found : ∀ other ∈ others, ∃ entry ∈ entries, (entry.1 == other.1) = true) :
    Alike (others.map Prod.fst) (entries.map Prod.fst) := by
  have matched : ∀ other ∈ others, ∃ entry ∈ entries, (other.1 == entry.1) = true := by
    intro other inOthers
    obtain ⟨entry, inEntries, same⟩ := found other inOthers
    exact ⟨entry, inEntries,
      equivalenceOn_plain.symm (plain' entry inEntries) (plain other inOthers) same⟩
  have matched' : ∀ entry ∈ entries, ∃ other ∈ others, (other.1 == entry.1) = true := by
    refine Value.exists_matched (Nat.le_of_eq length_eq.symm) matched (differ.imp_of_mem ?_)
    intro first second inFirst inSecond differs entry inEntries same same'
    have goodFirst := plain first inFirst
    have goodSecond := plain second inSecond
    have good := plain' entry inEntries
    rw [equivalenceOn_plain.trans goodFirst good goodSecond same
      (equivalenceOn_plain.symm goodSecond good same')] at differs
    cases differs
  constructor
  · refine List.forall_mem_map.mpr fun other inOthers => ?_
    obtain ⟨entry, inEntries, same⟩ := matched other inOthers
    exact ⟨entry.1, List.mem_map_of_mem inEntries, same⟩
  · refine List.forall_mem_map.mpr fun entry inEntries => ?_
    obtain ⟨other, inOthers, same⟩ := matched' entry inEntries
    exact ⟨other.1, List.mem_map_of_mem inOthers, same⟩

end Holding

end Declare

/-! ## Keys without floats -/

/-- If this is a dict then its keys hold no floats. -/
def Value.KeysFloatFree (value : Value) : Prop :=
  ∀ entries, value = .dict entries → ∀ entry ∈ entries, entry.1.FloatFree

theorem Value.keysFloatFree_dict_iff {entries : Entries} :
    (Value.dict entries).KeysFloatFree ↔ ∀ entry ∈ entries, entry.1.FloatFree := by
  constructor
  · exact fun free => free entries rfl
  · rintro free _ ⟨⟩
    exact free

/-- Members of sets and keys of parameters hold no floats. -/
structure Model.SymbolTable.FloatFree (table : SymbolTable) : Prop where
  sets : ∀ entry ∈ table.sets.entries, ∀ member ∈ entry.2.value, member.FloatFree
  params : ∀ entry ∈ table.params.entries, entry.2.value.KeysFloatFree

namespace Model

/-- What the table holds for a set that was declared, now or before. -/
theorem SetsAdded.exists_alike {declared : List (SymbolName × List Value)}
    {before after : SymbolTable} (added : SetsAdded declared before after)
    (free : before.FloatFree) (plain : ∀ set ∈ declared, ∀ member ∈ set.2, member.Plain)
    {set : SymbolName × List Value} (inDeclared : set ∈ declared) :
    ∃ members, after.set? set.1.name = some members ∧ (∀ member ∈ members, member.Plain) ∧
      Alike members set.2 := by
  obtain ⟨members, found, same⟩ := added.holds set inDeclared
  have membersFree : ∀ member ∈ members, member.FloatFree := by
    cases earlier : before.set? set.1.name with
    | none =>
      obtain ⟨other, inDeclared', -, rfl⟩ := added.new found earlier
      exact fun member inMembers => (plain other inDeclared' member inMembers).floatFree
    | some held =>
      cases (added.kept earlier).symm.trans found
      obtain ⟨entry, lookedUp, rfl⟩ := Option.map_eq_some_iff.mp earlier
      exact free.sets _ (NameMap.mem_of_lookup_eq_some lookedUp)
  rcases same with rfl | equal
  · exact ⟨_, found, plain set inDeclared, alike_self (plain set inDeclared)⟩
  · have alike := alike_of_forall₂ (Value.allEqual_iff.mp equal)
    refine ⟨members, found, fun member inMembers => ?_, alike⟩
    obtain ⟨other, inSet, same⟩ := alike.1 member inMembers
    exact plain_of_equals (membersFree member inMembers) (plain set inDeclared other inSet) same

end Model

namespace Declare

/-- What the table holds for a parameter that was declared, now or before. -/
theorem exists_stored {table : SymbolTable} {name : String} {entries : Entries}
    (unambiguous : table.Unambiguous) (free : table.FloatFree)
    (plain : ∀ entry ∈ entries, entry.1.Plain)
    (agrees : ∀ stored, table.param? name = some stored → stored.equals (.dict entries) = true) :
    ∃ stored, (table.param? name).getD (.dict entries) = .dict stored ∧
      (∀ key ∈ stored.map Prod.fst, key.Plain) ∧
      Alike (stored.map Prod.fst) (entries.map Prod.fst) := by
  cases earlier : table.param? name with
  | none =>
    have plainKeys := List.forall_mem_map.mpr plain
    exact ⟨entries, rfl, plainKeys, alike_self plainKeys⟩
  | some stored =>
    obtain ⟨others, rfl, length_eq, found⟩ := exists_of_equals_dict (agrees stored earlier)
    obtain ⟨held, lookedUp, value_eq⟩ := Option.map_eq_some_iff.mp earlier
    have mem := NameMap.mem_of_lookup_eq_some lookedUp
    have good := unambiguous.params.good _ mem
    rw [value_eq] at good
    have plainOthers : ∀ other ∈ others, other.1.Plain := by
      intro other inOthers
      obtain ⟨entry, inEntries, same⟩ := found other inOthers
      obtain ⟨text, written⟩ := exists_literal_of_equals entry.1 other.1
        (exists_literal (plain entry inEntries)) same
      exact plain_of_literal (free.params _ mem others value_eq other inOthers) written
    exact ⟨others, rfl, List.forall_mem_map.mpr plainOthers,
      alike_keys plainOthers plain (Value.unambiguous_dict.mp good).1 length_eq found⟩

theorem yields_keyLiteral (key : Value) :
    Yields (fun _ => ∃ text, literal key = .ok text) (keyLiteral key) := by
  cases key with
  | tuple items =>
    exact (Yields.itself (literals items)).bind fun texts written =>
      Yields.ok ⟨_, literal_tuple_eq_ok_iff.mpr ⟨texts, written, rfl⟩⟩
  | _ => exact (Yields.itself _).bind fun text written => Yields.ok ⟨text, written⟩

theorem yields_keyLiterals (name : String) (index : Option String) (entries : Entries) :
    Yields (fun _ => ∀ entry ∈ entries, ∃ text, literal entry.1 = .ok text)
      (paramText name index (.dict entries)) := by
  cases index with
  | none => exact Yields.error _
  | some index =>
    have each : Yields (fun _ => ∀ entry ∈ entries, ∃ text, literal entry.1 = .ok text)
        (entries.mapM entryText) :=
      Yields.mapM_items fun entry _ => (yields_keyLiteral entry.1).bind fun _ written =>
        Yields.after fun _ => Yields.ok written
    exact each.bind fun _ written => Yields.ok written

theorem yields_indexed_keysFree (items : List Value) (start : Int64) :
    Yields (fun value => ∃ entries, value = .dict entries ∧
      ∀ entry ∈ entries, entry.1.FloatFree) (indexed (.list items) start) := by
  have indexes := indexes start.le_toInt [] 0 items
  have listed : Yields (fun entries => ∀ entry ∈ entries, entry.1.FloatFree)
      (leaves start.toInt ([].map .int) 0 items) := by
    by_cases overflows : OverflowsFrom start.toInt 0 items
    · rw [indexes.fails overflows]
      exact Yields.error _
    · obtain ⟨listed, -, returned⟩ := indexes.lists overflows
      rw [returned]
      exact Yields.ok (List.forall_mem_map.mpr fun _ _ => (plain_indexKey _).floatFree)
  exact listed.bind fun entries free => Yields.ok ⟨entries, rfl, free⟩

/-- The value of a parameter that is given as a list or a dict is a dict. -/
theorem yields_paramValue_keysFree (symbol : SymbolName) (index : Option (List SymbolName))
    {given : Value} (start : Option Value)
    (isIndexed : (∃ items, given = .list items) ∨ ∃ entries, given = .dict entries)
    (free : given.KeysFloatFree) :
    Yields (fun value => ∃ entries, value = .dict entries ∧
      ∀ entry ∈ entries, entry.1.FloatFree) (paramValue symbol index given start) := by
  rcases isIndexed with ⟨items, rfl⟩ | ⟨entries, rfl⟩
  · refine Yields.ite (fun _ => Yields.error _) fun _ => ?_
    cases start with
    | none => exact yields_indexed_keysFree items 0
    | some start =>
      exact Yields.after fun start => yields_indexed_keysFree items start
  · exact Yields.ite (fun _ => Yields.error _) fun _ =>
      Yields.ok ⟨entries, rfl, Value.keysFloatFree_dict_iff.mp free⟩

/-! ## Parameters -/

/-- A call of `PARAM`: the parameter and its index sets, the value that is given, and where the
indices of a list start. -/
structure ParamCall (invocation : Invocation) (symbol : SymbolName)
    (index : Option (List SymbolName)) (given : Value) (start : Option Value) : Prop where
  names : (do SymbolName.parseIndexed '{' '}' (← invocation.requireIndex "PARAM")) =
    .ok (symbol, index)
  arguments : (invocation.arguments.reading "PARAM" ["values", "i0"] 1 do
    let given ← Bound.required "values"
    return (given, ← Bound.take "i0")) = .ok (given, start)

/-- From one table to another, a parameter was declared, and before it the sets of the components
of its keys. -/
structure ParamAdded (symbol : SymbolName) (sets : List SymbolName)
    (entries : Entries) (before after : SymbolTable) : Prop where
  plain : ∀ entry ∈ entries, entry.1.Plain
  columns : ∃ declared, declared.map Prod.fst = sets ∧
    (∀ i set, declared[i]? = some set → Column sets.length i (entries.map Prod.fst) set.2) ∧
    SetsAdded declared before after
  agrees : ∀ stored, before.param? symbol.name = some stored →
    stored.equals (.dict entries) = true
  holds : after.param? symbol.name = some ((before.param? symbol.name).getD (.dict entries))

/-- Contexts that declarations lead to, made with values in which no dict holds a key twice.
Between the declarations, all but the symbols may change. -/
inductive Reached : Context → Prop
  | start : Reached {}
  | elsewhere {context after : Context} : Reached context → after.environment.Unambiguous →
      after.symbols = context.symbols → Reached after
  | declare {context : Context} (command : Declaring) {invocation : Invocation} :
      Reached context → invocation.arguments.All Value.Unambiguous →
      Reached (stateAfter (command.run invocation) context)

theorem Reached.unambiguous {context : Context} (reached : Reached context) :
    context.Unambiguous := by
  induction reached with
  | start =>
    refine ⟨?_, ⟨List.Pairwise.nil, List.forall_mem_nil _⟩, ⟨List.Pairwise.nil,
      List.forall_mem_nil _⟩⟩
    exact List.forall_mem_singleton.mpr (List.forall_mem_nil _)
  | elsewhere _ environment same ih =>
    exact ⟨environment, same ▸ ih.symbols⟩
  | declare command _ good ih =>
    exact (command.keeps_run good _ ih).1

section Param

variable {context after : Context} {invocation : Invocation} {symbol : SymbolName}
  {index : Option (List SymbolName)} {given : Value} {start : Option Value}

/-- The index sets are declared first, and then the parameter. -/
theorem exists_of_runParam (call : ParamCall invocation symbol index given start)
    (ran : runParam invocation context = .ok () after) :
    ∃ value, paramValue symbol index given start = .ok value ∧
      ∀ entries, value = .dict entries → ∃ middle indexText text,
        addIndexSets (index.getD [defaultIndex symbol]) entries context = .ok () middle ∧
        declareParam symbol indexText (.dict entries) middle.symbols =
          .ok text after.symbols := by
  obtain ⟨header, header_eq, ran⟩ := exists_of_lift_bind_eq_ok ran
  obtain ⟨names, names_eq, ran⟩ := exists_of_lift_bind_eq_ok ran
  have parsed := call.names
  rw [header_eq] at parsed
  cases names_eq.symm.trans parsed
  obtain ⟨args, arguments_eq, ran⟩ := exists_of_lift_bind_eq_ok ran
  cases arguments_eq.symm.trans call.arguments
  obtain ⟨value, value_eq, ran⟩ := exists_of_lift_bind_eq_ok ran
  refine ⟨value, value_eq, ?_⟩
  rintro entries rfl
  obtain ⟨_, middle, added, ran⟩ := exists_of_bind_eq_ok ran
  obtain ⟨indexText, _, returned, ran⟩ := exists_of_bind_eq_ok ran
  cases returned
  obtain ⟨text, _, declares, ran⟩ := exists_of_bind_eq_ok ran
  cases ran
  obtain ⟨symbols, declared, rfl⟩ := exists_of_onPart_eq_ok declares
  exact ⟨middle, _, text, added, declared⟩

theorem exists_paramAdded (call : ParamCall invocation symbol index given start)
    (isIndexed : (∃ items, given = .list items) ∨ ∃ entries, given = .dict entries)
    (free : given.KeysFloatFree) (ran : runParam invocation context = .ok () after) :
    ∃ entries, ParamAdded symbol (index.getD [defaultIndex symbol]) entries context.symbols
      after.symbols := by
  obtain ⟨value, value_eq, declares⟩ := exists_of_runParam call ran
  obtain ⟨entries, rfl, entriesFree⟩ :=
    yields_paramValue_keysFree symbol index start isIndexed free value_eq
  obtain ⟨middle, indexText, text, added, declared⟩ := declares entries rfl
  obtain ⟨params_eq, columns, columns_eq, isColumn, setsAdded⟩ := exists_of_addIndexSets added
  obtain ⟨⟨texts, written⟩, agrees, sets_eq, holds⟩ := of_declareParam_eq_ok declared
  have param?_eq : middle.symbols.param? symbol.name = context.symbols.param? symbol.name := by
    rw [SymbolTable.param?, params_eq]
    rfl
  rw [param?_eq] at agrees holds
  refine ⟨entries, ⟨?_, ⟨columns, columns_eq, isColumn, ?_⟩, agrees, holds⟩⟩
  · intro entry mem
    obtain ⟨text, key_written⟩ := yields_keyLiterals _ _ _ written entry mem
    exact plain_of_literal (entriesFree entry mem) key_written
  · exact setsAdded.congr sets_eq

/-- After a call of `PARAM` with a list or a dict, the table holds the index sets and the parameter,
and the keys of the parameter range over the sets. If there are several sets then no two members of
a set that is new are equal. -/
theorem param_ranges_over_index_sets (reached : Reached context)
    (free : context.symbols.FloatFree) (call : ParamCall invocation symbol index given start)
    (isIndexed : (∃ items, given = .list items) ∨ ∃ entries, given = .dict entries)
    (keysFree : given.KeysFloatFree)
    (succeeds : outcome (runParam invocation) context = .ok ()) :
    let sets := index.getD [defaultIndex symbol]
    let after := stateAfter (runParam invocation) context
    ∃ stored, after.symbols.param? symbol.name = some (.dict stored) ∧
      ∀ j set, sets[j]? = some set → ∃ members, after.symbols.set? set.name = some members ∧
        RangesOver sets.length j (stored.map Prod.fst) members ∧
        (1 < sets.length → context.symbols.set? set.name = none →
          members.Pairwise fun first second => (first == second) = false) := by
  intro sets after
  obtain ⟨entries, added⟩ := exists_paramAdded call isIndexed keysFree (eq_ok_of_outcome succeeds)
  obtain ⟨declared, declared_eq, isColumn, setsAdded⟩ := added.columns
  have plainKeys : ∀ key ∈ entries.map Prod.fst, key.Plain := List.forall_mem_map.mpr added.plain
  have plainColumns : ∀ set ∈ declared, ∀ member ∈ set.2, member.Plain := by
    intro set inDeclared
    obtain ⟨i, at_i⟩ := List.mem_iff_getElem?.mp inDeclared
    exact (isColumn i set at_i).plain plainKeys
  obtain ⟨stored, stored_eq, plainStored, sameKeys⟩ :=
    exists_stored reached.unambiguous.symbols free added.plain added.agrees
  refine ⟨stored, added.holds.trans (congrArg some stored_eq), fun j set found => ?_⟩
  change (index.getD [defaultIndex symbol])[j]? = some set at found
  rw [← declared_eq, List.getElem?_map] at found
  obtain ⟨column, at_j, rfl⟩ := Option.map_eq_some_iff.mp found
  obtain ⟨members, held, plainMembers, sameMembers⟩ :=
    setsAdded.exists_alike free plainColumns (List.mem_of_getElem? at_j)
  refine ⟨members, held, (isColumn j column at_j).rangesOver sameKeys sameMembers plainKeys
    plainStored plainMembers, fun several absent => ?_⟩
  -- A new set has the members of a column, perhaps of an earlier one of the same name.
  obtain ⟨first, inDeclared, -, rfl⟩ := setsAdded.new held absent
  obtain ⟨i, at_i⟩ := List.mem_iff_getElem?.mp inDeclared
  refine ((isColumn i first at_i).differ (Nat.ne_of_gt several)).imp_of_mem ?_
  intro member later inMembers inMembers' differs
  rwa [Value.equals_comm (plainMembers member inMembers).discrete
    (plainMembers later inMembers').discrete]

/-- The first set was declared before, hidden and with a truth value in the place of a number. The
second one is new. -/
theorem param_ranges_over_index_sets_hiddenSet :
    let context := stateAfter (Declaring.set.run
      { index := some "^A", arguments := { positional := [.list [.bool true, .int 2]] } }) {}
    let given : Value := .dict [(.tuple [.int 1, .str "x"], .int 5),
      (.tuple [.int 2, .str "x"], .int 6)]
    let invocation : Invocation :=
      { index := some "p\x7bA,B\x7d", arguments := { positional := [given] } }
    let after := stateAfter (runParam invocation) context
    outcome (runParam invocation) context = .ok () ∧
    ∃ stored, after.symbols.param? "p" = some (.dict stored) ∧
      ∀ j set, [SymbolName.mk "A" false, ⟨"B", false⟩][j]? = some set →
        ∃ members, after.symbols.set? set.name = some members ∧
          RangesOver 2 j (stored.map Prod.fst) members ∧
          (1 < 2 → context.symbols.set? set.name = none →
            members.Pairwise fun first second => (first == second) = false) := by
  intro context given invocation after
  have succeeds : outcome (runParam invocation) context = .ok () := by decide +kernel
  have reached : Reached context := .declare .set .start ⟨by decide, by decide⟩
  have noParams : context.symbols.params.entries = [] := by rfl
  have free : context.symbols.FloatFree :=
    ⟨by decide +kernel, noParams ▸ List.forall_mem_nil _⟩
  have call : ParamCall invocation ⟨"p", false⟩ (some [⟨"A", false⟩, ⟨"B", false⟩]) given none :=
    ⟨by decide +kernel, rfl⟩
  have keysFree : given.KeysFloatFree := Value.keysFloatFree_dict_iff.mpr (by decide)
  have ranges := param_ranges_over_index_sets reached free call (.inr ⟨_, rfl⟩) keysFree succeeds
  exact ⟨succeeds, ranges⟩

end Param

end Declare

end ModelWeaver
