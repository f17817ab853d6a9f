import Mathlib.Data.List.Induction
import Mathlib.Data.List.Nodup
import ModelWeaver.NameMap

/-!
# Looking up names

What a map holds under a name after it was changed. If the new value takes the place of the old
one, this does not depend on the order of the entries. Values that are combined are found only in
an ordered map, which is known by what it holds under each name.

The last section is about lists of which only the first occurrences are kept.
-/

namespace ModelWeaver.NameMap

variable {α β : Type} {name : String} {value : α} {entries : List (String × α)}
  {combine : α → α → α} {map : NameMap α}

@[simp]
theorem get?_empty (name : String) : (⟨[]⟩ : NameMap α).get? name = none := rfl

theorem lookup_cons_eq (held : String) (value : α) (entries : List (String × α))
    (name : String) :
    ((held, value) :: entries).lookup name =
      if name = held then some value else entries.lookup name := by
  rw [List.lookup_cons]
  by_cases same : name = held
  · simp [same]
  · have test : (name == held) = false := beq_eq_false_iff_ne.mpr same
    rw [test, if_neg same]

theorem lookup_insertEntryWith (name : String) (value : α) (entries : List (String × α))
    (other : String) :
    (insertEntryWith (fun _ new => new) name value entries).lookup other =
      if other = name then some value else entries.lookup other := by
  induction entries with
  | nil => exact lookup_cons_eq name value [] other
  | cons entry entries ih =>
    rcases entry with ⟨held, old⟩
    rw [insertEntryWith]
    split
    · exact lookup_cons_eq name value _ other
    · split
      · next equal =>
          subst equal
          by_cases same : other = name <;> simp only [lookup_cons_eq, same, if_true, if_false]
      · next different =>
          rw [lookup_cons_eq, lookup_cons_eq, ih]
          by_cases found : other = held
          · rw [if_pos found, if_pos found, if_neg (found ▸ Ne.symm different)]
          · rw [if_neg found, if_neg found]

theorem get?_insert (map : NameMap α) (name : String) (value : α) (other : String) :
    (map.insert name value).get? other = if other = name then some value else map.get? other :=
  lookup_insertEntryWith name value map.entries other

theorem contains_insert (map : NameMap α) (name : String) (value : α) (other : String) :
    (map.insert name value).contains other = (decide (other = name) || map.contains other) := by
  rw [contains, get?_insert]
  by_cases same : other = name <;> simp [same, contains]

theorem get?_mapValues (change : α → β) (map : NameMap α) (name : String) :
    (map.mapValues change).get? name = (map.get? name).map change := by
  rcases map with ⟨entries⟩
  induction entries with
  | nil => rfl
  | cons entry entries ih =>
    rcases entry with ⟨held, value⟩
    simp only [get?, mapValues, List.map_cons, lookup_cons_eq] at ih ⊢
    split
    · rfl
    · exact ih

@[simp]
theorem contains_mapValues (change : α → β) (map : NameMap α) (name : String) :
    (map.mapValues change).contains name = map.contains name := by
  rw [contains, get?_mapValues, Option.isSome_map, contains]

theorem mem_of_lookup_eq_some (found : entries.lookup name = some value) :
    (name, value) ∈ entries := by
  obtain ⟨before, after, split, -⟩ := List.lookup_eq_some_iff.mp found
  rw [split]
  exact List.mem_append_right before List.mem_cons_self

theorem forall_mem_insert {Good : α → Prop} (all : ∀ entry ∈ map.entries, Good entry.2)
    (good : Good value) (name : String) :
    ∀ entry ∈ (map.insert name value).entries, Good entry.2 := by
  rcases map with ⟨entries⟩
  change ∀ entry ∈ insertEntryWith (fun _ new => new) name value entries, Good entry.2
  induction entries with
  | nil => exact List.forall_mem_singleton.mpr good
  | cons head entries ih =>
    obtain ⟨here, others⟩ := List.forall_mem_cons.mp all
    rw [insertEntryWith]
    split
    · exact List.forall_mem_cons.mpr ⟨good, all⟩
    · split
      · exact List.forall_mem_cons.mpr ⟨good, others⟩
      · exact List.forall_mem_cons.mpr ⟨here, ih others⟩

/-- Only the names of a list are found in its map. -/
theorem mem_of_get?_ofList (found : (ofList entries).get? name = some value) :
    name ∈ entries.map Prod.fst := by
  have folded : ∀ (entries : List (String × α)) (map : NameMap α),
      ((entries.foldl (fun map entry => map.insert entry.1 entry.2) map).get? name).isSome →
        name ∈ entries.map Prod.fst ∨ (map.get? name).isSome := by
    intro entries
    induction entries with
    | nil => exact fun map held => .inr held
    | cons entry entries ih =>
      intro map held
      rcases ih _ held with later | stored
      · exact .inl (List.mem_cons_of_mem _ later)
      · rw [get?_insert] at stored
        by_cases same : name = entry.1
        · exact .inl (by simp [same])
        · exact .inr (by simpa [same] using stored)
  rcases folded entries empty (Option.isSome_of_eq_some found) with mem | held
  · exact mem
  · simp [empty] at held

/-! ## Ordered maps -/

/-- The names increase from entry to entry. -/
def Ordered (map : NameMap α) : Prop := map.entries.Pairwise fun first second => first.1 < second.1

theorem mem_insertEntryWith {entry : String × α}
    (mem : entry ∈ insertEntryWith combine name value entries) :
    entry.1 = name ∨ entry ∈ entries := by
  induction entries with
  | nil => exact .inl (congrArg Prod.fst (List.mem_singleton.mp mem))
  | cons head entries ih =>
    rw [insertEntryWith] at mem
    split at mem
    · rcases List.mem_cons.mp mem with rfl | later
      · exact .inl rfl
      · exact .inr later
    · split at mem
      · next same =>
          rcases List.mem_cons.mp mem with rfl | later
          · exact .inl same.symm
          · exact .inr (List.mem_cons_of_mem _ later)
      · rcases List.mem_cons.mp mem with rfl | later
        · exact .inr List.mem_cons_self
        · exact (ih later).imp id (List.mem_cons_of_mem _)

theorem mem_map_fst_insertEntryWith {other : String} :
    other ∈ (insertEntryWith combine name value entries).map Prod.fst ↔
      other = name ∨ other ∈ entries.map Prod.fst := by
  induction entries with
  | nil => simp [insertEntryWith]
  | cons head entries ih =>
    rcases head with ⟨held, old⟩
    rw [insertEntryWith]
    split
    · exact List.mem_cons
    · split
      · next same =>
          subst same
          simp
      · simp only [List.map_cons, List.mem_cons, ih]
        exact or_left_comm

theorem pairwise_insertEntryWith (combine : α → α → α) (name : String) (value : α)
    (ordered : entries.Pairwise fun first second => first.1 < second.1) :
    (insertEntryWith combine name value entries).Pairwise
      fun first second => first.1 < second.1 := by
  induction entries with
  | nil => exact List.pairwise_singleton _ _
  | cons head entries ih =>
    rcases head with ⟨held, old⟩
    obtain ⟨above, rest⟩ := List.pairwise_cons.mp ordered
    rw [insertEntryWith]
    split
    · next before =>
        refine List.pairwise_cons.mpr ⟨?_, ordered⟩
        intro entry mem
        rcases List.mem_cons.mp mem with rfl | later
        · exact before
        · exact String.lt_trans before (above entry later)
    · next notBefore =>
        split
        · exact List.pairwise_cons.mpr ⟨above, rest⟩
        · next different =>
            refine List.pairwise_cons.mpr ⟨?_, ih rest⟩
            intro entry mem
            rcases mem_insertEntryWith mem with same | later
            · rw [same]
              exact Std.lt_of_le_of_ne (String.not_lt.mp notBefore) (Ne.symm different)
            · exact above entry later

theorem Ordered.insert (ordered : map.Ordered) (name : String) (value : α) :
    (map.insert name value).Ordered :=
  pairwise_insertEntryWith _ name value ordered

theorem ordered_ofList (entries : List (String × α)) : (ofList entries).Ordered := by
  have folded : ∀ (entries : List (String × α)) (map : NameMap α), map.Ordered →
      (entries.foldl (fun map entry => map.insert entry.1 entry.2) map).Ordered := by
    intro entries
    induction entries with
    | nil => exact fun map ordered => ordered
    | cons entry entries ih =>
      exact fun map ordered => ih _ (ordered.insert entry.1 entry.2)
  exact folded entries empty List.Pairwise.nil

theorem lookup_eq_none_of_lt (above : ∀ entry ∈ entries, name < entry.1) :
    entries.lookup name = none := by
  refine List.lookup_eq_none_iff.mpr fun entry mem => ?_
  exact bne_iff_ne.mpr (Std.ne_of_lt (above entry mem))

/-- In an ordered map the value under a name is combined with the new one, and all others
stay. -/
theorem get?_insertWith (ordered : map.Ordered) (name : String) (value : α) (other : String) :
    (map.insertWith combine name value).get? other =
      if other = name then some ((map.get? name).elim value (combine · value))
      else map.get? other := by
  rcases map with ⟨entries⟩
  simp only [get?, insertWith]
  induction entries with
  | nil => exact lookup_cons_eq name value [] other
  | cons head entries ih =>
    rcases head with ⟨held, old⟩
    obtain ⟨above, rest⟩ := List.pairwise_cons.mp ordered
    rw [insertEntryWith]
    split
    · next before =>
        have absent : ((held, old) :: entries).lookup name = none := by
          refine lookup_eq_none_of_lt (List.forall_mem_cons.mpr ⟨before, ?_⟩)
          exact fun entry mem => String.lt_trans before (above entry mem)
        rw [absent, lookup_cons_eq name]
        rfl
    · split
      · next same =>
          subst same
          simp only [lookup_cons_eq]
          by_cases found : other = name <;> simp only [found, if_true, if_false, Option.elim]
      · next different =>
          simp only [lookup_cons_eq, ih rest, if_neg different]
          by_cases found : other = held
          · rw [if_pos found, if_pos found, if_neg (found ▸ Ne.symm different)]
          · rw [if_neg found, if_neg found]

theorem le_of_lookup_eq_some {held : String} {old : α} (above : ∀ entry ∈ entries, held < entry.1)
    (found : ((held, old) :: entries).lookup name = some value) : held ≤ name := by
  rw [lookup_cons_eq] at found
  split at found
  · next same => exact Std.le_of_eq same.symm
  · next different =>
      exact Std.le_of_lt (above _ (mem_of_lookup_eq_some found))

/-- An ordered map is known by the values under all names. -/
theorem Ordered.eq_of_get?_eq {first second : NameMap α} (ordered : first.Ordered)
    (ordered' : second.Ordered) (same : ∀ name, first.get? name = second.get? name) :
    first = second := by
  rcases first with ⟨entries⟩
  rcases second with ⟨entries'⟩
  congr 1
  simp only [get?] at same
  induction entries generalizing entries' with
  | nil =>
    cases entries' with
    | nil => rfl
    | cons head' entries' =>
      have found := same head'.1
      rw [List.lookup_nil, lookup_cons_eq, if_pos rfl] at found
      cases found
  | cons head entries ih =>
    cases entries' with
    | nil =>
      have found := same head.1
      rw [List.lookup_nil, lookup_cons_eq, if_pos rfl] at found
      cases found
    | cons head' entries' =>
      rcases head with ⟨held, value⟩
      rcases head' with ⟨held', value'⟩
      obtain ⟨above, rest⟩ := List.pairwise_cons.mp ordered
      obtain ⟨above', rest'⟩ := List.pairwise_cons.mp ordered'
      have here : ((held, value) :: entries).lookup held = some value := by
        rw [lookup_cons_eq, if_pos rfl]
      have here' : ((held', value') :: entries').lookup held' = some value' := by
        rw [lookup_cons_eq, if_pos rfl]
      obtain rfl : held = held' := Std.le_antisymm
        (le_of_lookup_eq_some above ((same held').trans here'))
        (le_of_lookup_eq_some above' ((same held).symm.trans here))
      obtain rfl : value = value' :=
        Option.some.inj (here.symm.trans ((same held).trans here'))
      refine congrArg _ (ih rest entries' rest' fun name => ?_)
      by_cases found : name = held
      · rw [found, lookup_eq_none_of_lt above, lookup_eq_none_of_lt above']
      · have later := same name
        rwa [lookup_cons_eq, lookup_cons_eq, if_neg found, if_neg found] at later

/-! ## Lists in order -/

theorem insertEntryWith_of_forall_lt (combine : α → α → α) (value : α)
    (below : ∀ entry ∈ entries, entry.1 < name) :
    insertEntryWith combine name value entries = entries ++ [(name, value)] := by
  induction entries with
  | nil => rfl
  | cons head entries ih =>
    rcases head with ⟨held, old⟩
    obtain ⟨here, others⟩ := List.forall_mem_cons.mp below
    rw [insertEntryWith, if_neg (Std.not_gt_of_lt here), if_neg (Std.ne_of_lt here).symm,
      ih others]
    rfl

/-- Storing entries in the order of their names lines them up. -/
theorem foldl_insert_of_pairwise (before : List (String × α)) {after : List (String × α)}
    (ordered : (before ++ after).Pairwise fun first second => first.1 < second.1) :
    after.foldl (fun map entry => insert map entry.1 entry.2) (mk before) =
      mk (before ++ after) := by
  induction after generalizing before with
  | nil => rw [List.append_nil]; rfl
  | cons entry after ih =>
    have below : ∀ other ∈ before, other.1 < entry.1 := fun other mem =>
      (List.pairwise_append.mp ordered).2.2 other mem entry List.mem_cons_self
    have stored : insert (mk before) entry.1 entry.2 = mk (before ++ [entry]) :=
      congrArg mk (insertEntryWith_of_forall_lt _ entry.2 below)
    rw [List.append_cons] at ordered ⊢
    rw [List.foldl_cons, stored]
    exact ih (before ++ [entry]) ordered

theorem ofList_of_pairwise (ordered : entries.Pairwise fun first second => first.1 < second.1) :
    ofList entries = ⟨entries⟩ :=
  foldl_insert_of_pairwise [] ordered

end ModelWeaver.NameMap

namespace ModelWeaver

/-! ## First occurrences -/

section FirstOccurrences

variable {α : Type} [BEq α] [LawfulBEq α]

theorem eraseDups_append_singleton (items : List α) (item : α) :
    (items ++ [item]).eraseDups =
      if item ∈ items then items.eraseDups else items.eraseDups ++ [item] := by
  rw [List.eraseDups_append, List.cons_removeAll, List.nil_removeAll]
  by_cases mem : item ∈ items <;> simp [mem, List.eraseDups_cons]

theorem nodup_eraseDups (items : List α) : items.eraseDups.Nodup := by
  induction items using List.reverseRecOn with
  | nil => simp
  | append_singleton items item ih =>
    rw [eraseDups_append_singleton]
    split
    · exact ih
    · next new =>
        rw [← List.concat_eq_append]
        exact ih.concat fun mem => new (List.mem_eraseDups.mp mem)

end FirstOccurrences

end ModelWeaver
