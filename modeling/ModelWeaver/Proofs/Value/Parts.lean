import ModelWeaver.Value.Order

/-!
# Values within values

Lists, tuples, dicts and methods hold other values. `Everywhere` carries a property from a value to
all values within it, and an induction over it reaches every part before the whole. How deep
containers are nested is counted by `nesting`. `KeysDiffer` says that no key of a dict equals a
later one, and storing an entry keeps that.
-/

namespace ModelWeaver.Value

/-! ## Parts -/

/-- The values directly within a value. -/
def parts : Value → List Value
  | list items | tuple items => items
  | dict entries => entries.flatMap fun entry => [entry.1, entry.2]
  | method receiver _ => [receiver]
  | _ => []

/-- A property holds of a value and of all values within it. -/
inductive Everywhere (Good : Value → Prop) : Value → Prop
  | mk {value : Value} :
      Good value → (∀ part ∈ value.parts, part.Everywhere Good) → Everywhere Good value

section Everywhere

variable {Good : Value → Prop} {value : Value}

theorem everywhere_iff :
    value.Everywhere Good ↔ Good value ∧ ∀ part ∈ value.parts, part.Everywhere Good := by
  constructor
  · rintro ⟨here, within⟩
    exact ⟨here, within⟩
  · rintro ⟨here, within⟩
    exact ⟨here, within⟩

theorem everywhere_list {items : List Value} :
    (list items).Everywhere Good ↔ Good (list items) ∧ ∀ item ∈ items, item.Everywhere Good :=
  everywhere_iff

theorem everywhere_tuple {items : List Value} :
    (tuple items).Everywhere Good ↔ Good (tuple items) ∧ ∀ item ∈ items, item.Everywhere Good :=
  everywhere_iff

theorem forall_mem_parts_dict {entries : Entries} :
    (∀ part ∈ (dict entries).parts, Good part) ↔
      ∀ entry ∈ entries, Good entry.1 ∧ Good entry.2 := by
  refine List.forall_mem_flatMap.trans (forall_congr' fun entry => imp_congr_right fun _ => ?_)
  simp

theorem everywhere_dict {entries : Entries} :
    (dict entries).Everywhere Good ↔ Good (dict entries) ∧
      ∀ entry ∈ entries, entry.1.Everywhere Good ∧ entry.2.Everywhere Good :=
  everywhere_iff.trans (and_congr_right' forall_mem_parts_dict)

theorem everywhere_of_parts_eq_nil (here : Good value) (leaf : value.parts = []) :
    value.Everywhere Good :=
  ⟨here, by simp [leaf]⟩

theorem Everywhere.mono {Better : Value → Prop} (better : value.Everywhere Better)
    (implies : ∀ value, Better value → Good value) : value.Everywhere Good := by
  induction better with
  | mk here _ ih => exact ⟨implies _ here, ih⟩

mutual

/-- What holds of all values holds everywhere, so that every value can be reached by an
induction over its parts. -/
theorem everywhere_of_forall (good : ∀ value, Good value) (value : Value) :
    value.Everywhere Good := by
  cases value with
  | list items => exact ⟨good _, forall_mem_everywhere good items⟩
  | tuple items => exact ⟨good _, forall_mem_everywhere good items⟩
  | dict entries =>
    exact ⟨good _, forall_mem_parts_dict.mpr (forall_mem_entries_everywhere good entries)⟩
  | method receiver name =>
    exact ⟨good _, List.forall_mem_singleton.mpr (everywhere_of_forall good receiver)⟩
  | _ => exact everywhere_of_parts_eq_nil (good _) rfl
termination_by structural value

theorem forall_mem_everywhere (good : ∀ value, Good value) (items : List Value) :
    ∀ item ∈ items, item.Everywhere Good := by
  cases items with
  | nil => exact List.forall_mem_nil _
  | cons item items =>
    exact List.forall_mem_cons.mpr
      ⟨everywhere_of_forall good item, forall_mem_everywhere good items⟩
termination_by structural items

theorem forall_mem_entries_everywhere (good : ∀ value, Good value) (entries : Entries) :
    ∀ entry ∈ entries, entry.1.Everywhere Good ∧ entry.2.Everywhere Good := by
  cases entries with
  | nil => exact List.forall_mem_nil _
  | cons entry entries =>
    rcases entry with ⟨key, value⟩
    exact List.forall_mem_cons.mpr
      ⟨⟨everywhere_of_forall good key, everywhere_of_forall good value⟩,
        forall_mem_entries_everywhere good entries⟩
termination_by structural entries

end

theorem everywhere_leaf (leaf : value.parts = []) : value.Everywhere Good ↔ Good value :=
  ⟨fun good => (everywhere_iff.mp good).1, fun here => everywhere_of_parts_eq_nil here leaf⟩

section Decide

variable [DecidablePred Good]

mutual

def decideEverywhere : (value : Value) → Decidable (value.Everywhere Good)
  | list items =>
    let _ := decideAll items
    decidable_of_iff _ everywhere_list.symm
  | tuple items =>
    let _ := decideAll items
    decidable_of_iff _ everywhere_tuple.symm
  | dict entries =>
    let _ := decideEntries entries
    decidable_of_iff _ everywhere_dict.symm
  | method receiver name =>
    let _ := decideEverywhere receiver
    decidable_of_iff (Good (method receiver name) ∧ receiver.Everywhere Good)
      (everywhere_iff.trans (and_congr_right' List.forall_mem_singleton)).symm
  | none | bool _ | int _ | float _ | str _ | builtin _ | command _ _ =>
    decidable_of_iff _ (everywhere_leaf rfl).symm
termination_by structural value => value

def decideAll : (items : List Value) → Decidable (∀ item ∈ items, item.Everywhere Good)
  | [] => .isTrue (List.forall_mem_nil _)
  | item :: items =>
    let _ := decideEverywhere item
    let _ := decideAll items
    decidable_of_iff _ List.forall_mem_cons.symm
termination_by structural items => items

def decideEntries : (entries : Entries) →
    Decidable (∀ entry ∈ entries, entry.1.Everywhere Good ∧ entry.2.Everywhere Good)
  | [] => .isTrue (List.forall_mem_nil _)
  | (key, value) :: entries =>
    let _ := decideEverywhere key
    let _ := decideEverywhere value
    let _ := decideEntries entries
    decidable_of_iff _ List.forall_mem_cons.symm
termination_by structural entries => entries

end

instance (value : Value) : Decidable (value.Everywhere Good) :=
  decideEverywhere value

end Decide

end Everywhere

/-! ## Values without floats -/

/-- A value is not a float. -/
def NotFloat : Value → Prop
  | float _ => False
  | _ => True

instance : DecidablePred NotFloat
  | float _ => .isFalse id
  | none | bool _ | int _ | str _ | list _ | tuple _ | dict _ | builtin _ | method _ _
  | command _ _ => .isTrue trivial

/-- Values without floats. -/
def FloatFree (value : Value) : Prop :=
  value.Everywhere NotFloat

instance (value : Value) : Decidable value.FloatFree :=
  inferInstanceAs (Decidable (value.Everywhere NotFloat))

theorem not_floatFree_float {x : Float} : ¬(float x).FloatFree :=
  fun free => (everywhere_iff.mp free).1

/-! ## Nesting -/

mutual

/-- The number of containers that lie within each other in a value, itself included. -/
def nesting : Value → Nat
  | list items | tuple items => nestingAll items + 1
  | dict entries => nestingEntries entries + 1
  | _ => 0
termination_by structural value => value

/-- The largest nesting of some values. -/
def nestingAll : List Value → Nat
  | [] => 0
  | item :: items => max (nesting item) (nestingAll items)
termination_by structural items => items

/-- The largest nesting of keys and values. -/
def nestingEntries : Entries → Nat
  | [] => 0
  | (key, value) :: entries => max (max (nesting key) (nesting value)) (nestingEntries entries)
termination_by structural entries => entries

end

theorem nestingAll_le_iff {items : List Value} {levels : Nat} :
    nestingAll items ≤ levels ↔ ∀ item ∈ items, item.nesting ≤ levels := by
  induction items with
  | nil => exact iff_of_true (Nat.zero_le levels) (List.forall_mem_nil _)
  | cons item items ih =>
    change max item.nesting (nestingAll items) ≤ levels ↔ _
    rw [Nat.max_le, ih, List.forall_mem_cons]

variable {entries : Entries}

theorem nestingEntries_le_iff {levels : Nat} :
    nestingEntries entries ≤ levels ↔
      ∀ entry ∈ entries, entry.1.nesting ≤ levels ∧ entry.2.nesting ≤ levels := by
  induction entries with
  | nil => exact iff_of_true (Nat.zero_le levels) (List.forall_mem_nil _)
  | cons entry entries ih =>
    change max (max entry.1.nesting entry.2.nesting) (nestingEntries entries) ≤ levels ↔ _
    rw [Nat.max_le, Nat.max_le, ih, List.forall_mem_cons]

/-- What is within a container is less deep. A method counts as no container. -/
theorem nesting_lt_of_mem_parts {value part : Value} (mem : part ∈ value.parts)
    (noMethod : ∀ receiver name, value ≠ method receiver name) : part.nesting < value.nesting := by
  cases value with
  | list items | tuple items =>
    exact Nat.lt_succ_of_le (nestingAll_le_iff.mp (Nat.le_refl _) part mem)
  | dict entries =>
    have within : ∀ part ∈ (dict entries).parts, part.nesting ≤ nestingEntries entries :=
      forall_mem_parts_dict.mpr (nestingEntries_le_iff.mp (Nat.le_refl _))
    exact Nat.lt_succ_of_le (within part mem)
  | method receiver name => exact absurd rfl (noMethod receiver name)
  | _ => cases mem

/-! ## Keys -/

/-- No key equals a later one. -/
def KeysDiffer (entries : Entries) : Prop :=
  entries.Pairwise fun first second => (first.1 == second.1) = false

instance (entries : Entries) : Decidable (KeysDiffer entries) :=
  inferInstanceAs (Decidable (entries.Pairwise _))

theorem lookup?_of_mem (differ : KeysDiffer entries) {entry : Value × Value}
    (mem : entry ∈ entries) (self : (entry.1 == entry.1) = true) :
    lookup? entries entry.1 = some entry.2 := by
  induction entries with
  | nil => cases mem
  | cons first entries ih =>
    obtain ⟨apart, differ⟩ := List.pairwise_cons.mp differ
    rw [lookup?, List.find?_cons]
    rcases List.mem_cons.mp mem with rfl | later
    · rw [self]
      rfl
    · rw [apart entry later]
      exact ih differ later

theorem insertEntry_cons (held : Value × Value) (entries : Entries) (key value : Value) :
    insertEntry (held :: entries) key value =
      if held.1 == key then (held.1, value) :: entries
      else held :: insertEntry entries key value := by
  rw [insertEntry, insertEntry, List.findIdx?_cons]
  cases held.1 == key with
  | true => rfl
  | false =>
    cases entries.findIdx? fun entry => entry.1 == key with
    | none => rfl
    | some i => rfl

/-- An entry is put behind all others if its key is new, and otherwise in the place of one with
an equal key, which stays. -/
theorem insertEntry_cases (entries : Entries) (key value : Value) :
    ((∀ entry ∈ entries, (entry.1 == key) = false) ∧
      insertEntry entries key value = entries ++ [(key, value)]) ∨
    ∃ before held after, entries = before ++ held :: after ∧
      insertEntry entries key value = before ++ (held.1, value) :: after := by
  induction entries with
  | nil => exact .inl ⟨List.forall_mem_nil _, rfl⟩
  | cons held entries ih =>
    rw [insertEntry_cons]
    cases same : held.1 == key with
    | true => exact .inr ⟨[], held, entries, rfl, rfl⟩
    | false =>
      rcases ih with ⟨absent, inserted⟩ | ⟨before, other, after, split, inserted⟩
      · exact .inl ⟨List.forall_mem_cons.mpr ⟨same, absent⟩, congrArg (held :: ·) inserted⟩
      · exact .inr ⟨held :: before, other, after, congrArg (held :: ·) split,
          congrArg (held :: ·) inserted⟩

theorem insertEntry_of_absent {key : Value} (value : Value)
    (absent : ∀ entry ∈ entries, (entry.1 == key) = false) :
    insertEntry entries key value = entries ++ [(key, value)] := by
  rw [insertEntry, List.findIdx?_eq_none_iff.mpr absent]

theorem keysDiffer_insertEntry (differ : KeysDiffer entries) (key value : Value) :
    KeysDiffer (insertEntry entries key value) := by
  rcases insertEntry_cases entries key value with
    ⟨absent, inserted⟩ | ⟨before, held, after, rfl, inserted⟩
  · rw [inserted]
    exact List.pairwise_append.mpr ⟨differ, List.pairwise_singleton _ _, by simpa using absent⟩
  · rw [inserted]
    simpa [KeysDiffer, List.pairwise_append] using differ

end ModelWeaver.Value
