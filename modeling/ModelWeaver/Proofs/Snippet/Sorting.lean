import Mathlib.Data.List.Pairwise
import ModelWeaver.Proofs.Guarantee
import ModelWeaver.Proofs.Value.Comparison
import ModelWeaver.Snippet.Function

/-!
# Sorting and extremes

Among values without floats that can be compared with each other, the order is a total preorder.
Short sequences are sorted by insertion and long ones by merging, and both ways are stable. An
extreme is found in one pass that keeps the first candidate, so the least item is the first one
of the sorted sequence, and the greatest ranks like the last one.

No item is compared with itself, which is not always possible, as with `None`. Items that rank
alike need not be the same, as `True` and `1`, so results are not stated up to rank.
-/

namespace ModelWeaver

namespace Value

/-! ## Values that can be compared -/

/-- Two values can be compared. -/
def Comparable (a b : Value) : Prop := ∃ ordering, order a b = .ok ordering

instance (a b : Value) : Decidable (a.Comparable b) :=
  decidable_of_iff ((order a b).isOk = true) (by
    rw [Comparable]
    cases order a b with
    | error failure => exact iff_of_false nofun nofun
    | ok ordering => exact iff_of_true rfl ⟨ordering, rfl⟩)

/-- A value may stand before another in ascending order. -/
def NotAbove (a b : Value) : Prop := order a b = .ok .lt ∨ order a b = .ok .eq

theorem notAbove_of_ne {a b : Value} (comparable : a.Comparable b)
    (notGreater : order a b ≠ .ok .gt) : a.NotAbove b := by
  obtain ⟨ordering, ordered⟩ := comparable
  cases ordering with
  | lt => exact .inl ordered
  | eq => exact .inr ordered
  | gt => exact absurd ordered notGreater

namespace FloatFree

variable {a b c : Value}

theorem order_self_ne {wanted : Ordering} (free : a.FloatFree) (strict : wanted ≠ .eq) :
    order a a ≠ .ok wanted := by
  intro ordered
  have turned := ordered.symm.trans (free.order_swap free ordered)
  cases wanted with
  | eq => exact strict rfl
  | lt | gt => cases turned

theorem order_self (free : a.FloatFree) (comparable : a.Comparable a) :
    order a a = .ok .eq := by
  obtain ⟨ordering, ordered⟩ := comparable
  by_cases alike : ordering = .eq
  · exact alike ▸ ordered
  · exact absurd ordered (free.order_self_ne alike)

theorem notAbove_trans (free : a.FloatFree) (free' : b.FloatFree) (free'' : c.FloatFree)
    (first : a.NotAbove b) (second : b.NotAbove c) : a.NotAbove c := by
  rcases first with first | first <;> rcases second with second | second
  · exact .inl (free.order_trans free' free'' first second nofun nofun :)
  · exact .inl (free.order_trans free' free'' first second nofun nofun :)
  · exact .inl (free.order_trans free' free'' first second nofun nofun :)
  · exact .inr (free.order_trans free' free'' first second nofun nofun :)

end FloatFree

/-- Values without floats, any two of which can be compared, in both directions. -/
structure Rankable (items : List Value) : Prop where
  floatFree : ∀ item ∈ items, item.FloatFree
  comparable : items.Pairwise fun a b => a.Comparable b ∧ b.Comparable a

namespace Rankable

variable {items : List Value}

theorem of_pairwise (floatFree : ∀ item ∈ items, item.FloatFree)
    (comparable : items.Pairwise Comparable) : Rankable items := by
  refine ⟨floatFree, comparable.imp_of_mem fun {a b} inA inB ordered => ⟨ordered, ?_⟩⟩
  obtain ⟨ordering, ordered⟩ := ordered
  exact ⟨_, (floatFree a inA).order_swap (floatFree b inB) ordered⟩

theorem perm {others : List Value} (rankable : Rankable items) (perm : others.Perm items) :
    Rankable others where
  floatFree item mem := rankable.floatFree item (perm.mem_iff.mp mem)
  comparable := (perm.pairwise_iff fun both => both.symm).mpr rankable.comparable

theorem comparable_of_ne (rankable : Rankable items) {a b : Value} (inA : a ∈ items)
    (inB : b ∈ items) (different : a ≠ b) : a.Comparable b := by
  have : Std.Symm fun a b : Value => a.Comparable b ∧ b.Comparable a := ⟨fun _ _ => And.symm⟩
  exact (rankable.comparable.forall inA inB different).1

section Snoc

variable {item : Value} (rankable : Rankable (items ++ [item]))
include rankable

theorem init : Rankable items where
  floatFree other mem := rankable.floatFree other (List.mem_append_left _ mem)
  comparable := (List.pairwise_append.mp rankable.comparable).1

theorem floatFree_last : item.FloatFree :=
  rankable.floatFree item (List.mem_append_right _ List.mem_cons_self)

theorem comparable_last {other : Value} (mem : other ∈ items) :
    other.Comparable item ∧ item.Comparable other :=
  (List.pairwise_append.mp rankable.comparable).2.2 other mem item List.mem_cons_self

end Snoc

end Rankable

/-- The items in ascending order, where those that rank alike keep their order. -/
structure StablySorted (items sorted : List Value) : Prop where
  perm : sorted.Perm items
  ascending : sorted.Pairwise NotAbove
  stable : ∀ pivot : Value, pivot.FloatFree →
    sorted.filter (·.order pivot = .ok .eq) = items.filter (·.order pivot = .ok .eq)

end Value

namespace Snippet.Function

open Value

/-! ## Insertion -/

/-- An item is inserted behind those that it precedes. -/
theorem exists_insertDown {item : Value} {down : List Value}
    (comparable : ∀ other ∈ down, item.Comparable other) :
    ∃ above below, down = above ++ below ∧ insertDown item down = .ok (above ++ item :: below) ∧
      (∀ other ∈ above, item.order other = .ok .lt) ∧
      ∀ other ∈ below.head?, item.order other ≠ .ok .lt := by
  induction down with
  | nil => exact ⟨[], [], rfl, rfl, List.forall_mem_nil _, nofun⟩
  | cons first down ih =>
    obtain ⟨⟨ordering, ordered⟩, others⟩ := List.forall_mem_cons.mp comparable
    by_cases before : ordering = .lt
    · subst before
      obtain ⟨above, below, rfl, inserted, under, halts⟩ := ih others
      refine ⟨first :: above, below, rfl, ?_, List.forall_mem_cons.mpr ⟨ordered, under⟩, halts⟩
      exact bind_eq_ok_iff.mpr ⟨.lt, ordered, bind_eq_ok_iff.mpr ⟨_, inserted, rfl⟩⟩
    · refine ⟨[], first :: down, rfl, ?_, List.forall_mem_nil _, ?_⟩
      · rw [insertDown, ordered]
        cases ordering with
        | lt => exact absurd rfl before
        | eq | gt => rfl
      · rintro _ ⟨⟩
        rw [ordered]
        exact fun same => before (Except.ok.inj same)

section Insert

variable {items above below : List Value} {item : Value}
  (rankable : Rankable (items ++ [item])) (sorted : StablySorted items (above ++ below).reverse)
  (under : ∀ other ∈ above, item.order other = .ok .lt)
  (halts : ∀ other ∈ below.head?, item.order other ≠ .ok .lt)
include rankable sorted

omit rankable in
theorem mem_of_mem_down {other : Value} (mem : other ∈ above ++ below) : other ∈ items :=
  sorted.perm.mem_iff.mp (List.mem_reverse.mpr mem)

include halts in
/-- All items behind the new one may stand before it in ascending order. -/
theorem notAbove_of_mem_below : ∀ other ∈ below, other.NotAbove item := by
  have ascending := List.pairwise_reverse.mp sorted.ascending
  have within : ∀ other ∈ below, other ∈ items := fun other mem =>
    mem_of_mem_down sorted (List.mem_append_right above mem)
  have free := rankable.floatFree_last
  cases below with
  | nil => exact List.forall_mem_nil _
  | cons first below =>
    obtain ⟨inFirst, inOthers⟩ := List.forall_mem_cons.mp within
    have freeFirst := rankable.init.floatFree first inFirst
    have here : first.NotAbove item := by
      refine notAbove_of_ne (rankable.comparable_last inFirst).1 fun greater => ?_
      exact halts first rfl (freeFirst.order_swap free greater)
    refine List.forall_mem_cons.mpr ⟨here, fun other mem => ?_⟩
    have beforeFirst : other.NotAbove first :=
      (List.pairwise_cons.mp (List.pairwise_append.mp ascending).2.1).1 other mem
    exact (rankable.init.floatFree other (inOthers other mem)).notAbove_trans freeFirst free
      beforeFirst here

include under in
/-- No item that the new one precedes ranks like a value that the new one ranks like. -/
theorem filter_above_eq_nil {pivot : Value} (freePivot : pivot.FloatFree)
    (alike : item.order pivot = .ok .eq) :
    above.reverse.filter (·.order pivot = .ok .eq) = [] := by
  refine List.filter_eq_nil_iff.mpr fun other mem ranks => ?_
  have inAbove := List.mem_reverse.mp mem
  have freeOther := rankable.init.floatFree other
    (mem_of_mem_down sorted (List.mem_append_left below inAbove))
  have less : item.order pivot = .ok .lt := rankable.floatFree_last.order_trans freeOther
    freePivot (under other inAbove) (of_decide_eq_true ranks) nofun nofun
  exact absurd (alike.symm.trans less) nofun

include under halts in
theorem stablySorted_insert :
    StablySorted (items ++ [item]) (above ++ item :: below).reverse where
  perm := calc
    List.Perm (above ++ item :: below).reverse (above ++ item :: below) := List.reverse_perm _
    List.Perm _ (item :: (above ++ below)) := List.perm_middle
    List.Perm _ (item :: items) := ((List.reverse_perm _).symm.trans sorted.perm).cons item
    List.Perm _ (items ++ [item]) := (List.perm_append_singleton item items).symm
  ascending := by
    obtain ⟨inAbove, inBelow, across⟩ :=
      List.pairwise_append.mp (List.pairwise_reverse.mp sorted.ascending)
    have behind := notAbove_of_mem_below rankable sorted halts
    refine List.pairwise_reverse.mpr (List.pairwise_append.mpr
      ⟨inAbove, List.pairwise_cons.mpr ⟨behind, inBelow⟩, fun other mem => ?_⟩)
    exact List.forall_mem_cons.mpr ⟨.inl (under other mem), across other mem⟩
  stable pivot freePivot := by
    have before := sorted.stable pivot freePivot
    rw [List.reverse_append, List.filter_append] at before
    rw [List.reverse_append, List.reverse_cons, List.append_assoc, List.filter_append,
      List.filter_append, List.filter_append, ← before]
    by_cases alike : item.order pivot = .ok .eq
    · rw [filter_above_eq_nil rankable sorted under freePivot alike]
      simp [alike]
    · simp [alike]

end Insert

variable {items : List Value}

theorem exists_insertionSort (rankable : Rankable items) :
    ∃ sorted, insertionSort items = .ok sorted ∧ StablySorted items sorted := by
  have inserted : ∃ down, items.foldlM (fun sorted item => insertDown item sorted) [] = .ok down ∧
      StablySorted items down.reverse := by
    induction items using List.reverseRecOn with
    | nil => exact ⟨[], rfl, .nil, .nil, fun _ _ => rfl⟩
    | append_singleton items item ih =>
      obtain ⟨down, ran, sorted⟩ := ih rankable.init
      have comparable : ∀ other ∈ down, item.Comparable other := fun other mem =>
        (rankable.comparable_last (sorted.perm.mem_iff.mp (List.mem_reverse.mpr mem))).2
      obtain ⟨above, below, rfl, inserted, under, halts⟩ := exists_insertDown comparable
      refine ⟨above ++ item :: below, ?_, stablySorted_insert rankable sorted under halts⟩
      rw [List.foldlM_append]
      exact bind_eq_ok_iff.mpr ⟨_, ran, bind_eq_ok_iff.mpr ⟨_, inserted, rfl⟩⟩
  obtain ⟨down, ran, sorted⟩ := inserted
  exact ⟨down.reverse, bind_eq_ok_iff.mpr ⟨_, ran, rfl⟩, sorted⟩

/-! ## Merging -/

theorem neighboursCompare_eq_ok (rankable : Rankable items) : neighboursCompare items = .ok () := by
  obtain ⟨-, comparable⟩ := rankable
  induction items with
  | nil => rfl
  | cons before items ih =>
    obtain ⟨here, later⟩ := List.pairwise_cons.mp comparable
    cases items with
    | nil => rfl
    | cons item items =>
      obtain ⟨ordering, ordered⟩ := (here item List.mem_cons_self).2
      rw [neighboursCompare, ordered]
      exact ih later

theorem mayPrecede_iff {a b : Value} : mayPrecede a b = true ↔ a.order b ≠ .ok .gt := by
  rw [mayPrecede]
  split <;> simp_all

/-- The comparison of the sort on the members of a sequence. There, and only there, it is a total
preorder. -/
def memberPrecedes (items : List Value) (a b : { item // item ∈ items }) : Bool :=
  mayPrecede a.1 b.1

theorem map_mergeSort_attach (items : List Value) :
    (items.attach.mergeSort (memberPrecedes items)).map Subtype.val =
      items.mergeSort mayPrecede := by
  have mapped := List.map_mergeSort (r := memberPrecedes items) (s := mayPrecede)
    (f := Subtype.val) (l := items.attach) fun _ _ _ _ => rfl
  rwa [List.attach_map_subtype_val] at mapped

section Merge

variable {items : List Value} (rankable : Rankable items)
include rankable

theorem memberPrecedes_trans (a b c : { item // item ∈ items })
    (first : memberPrecedes items a b = true) (second : memberPrecedes items b c = true) :
    memberPrecedes items a c = true := by
  rcases eq_or_ne a b with rfl | differ
  · exact second
  rcases eq_or_ne b c with rfl | differ'
  · exact first
  have notAbove := notAbove_of_ne
    (rankable.comparable_of_ne a.2 b.2 (Subtype.coe_ne_coe.mpr differ)) (mayPrecede_iff.mp first)
  have notAbove' := notAbove_of_ne
    (rankable.comparable_of_ne b.2 c.2 (Subtype.coe_ne_coe.mpr differ')) (mayPrecede_iff.mp second)
  refine mayPrecede_iff.mpr fun greater => ?_
  rcases (rankable.floatFree a.1 a.2).notAbove_trans (rankable.floatFree b.1 b.2)
    (rankable.floatFree c.1 c.2) notAbove notAbove' with ordered | ordered
  · cases greater.symm.trans ordered
  · cases greater.symm.trans ordered

theorem memberPrecedes_total (a b : { item // item ∈ items }) :
    (memberPrecedes items a b || memberPrecedes items b a) = true := by
  rw [Bool.or_eq_true, memberPrecedes, memberPrecedes, mayPrecede_iff, mayPrecede_iff]
  by_contra! both
  have turned := (rankable.floatFree a.1 a.2).order_swap (rankable.floatFree b.1 b.2) both.1
  cases both.2.symm.trans turned

/-- Items that rank alike are found in the merged sequence in their order. -/
theorem filter_sublist_mergeSort {pivot : Value} (freePivot : pivot.FloatFree) :
    (items.filter (·.order pivot = .ok .eq)).Sublist (items.mergeSort mayPrecede) := by
  let alike (item : Value) : Bool := item.order pivot = .ok .eq
  have inOrder : (items.attach.filter (alike ∘ Subtype.val)).Pairwise
      fun a b => memberPrecedes items a b = true := by
    refine List.pairwise_of_forall_mem_list fun a inA b inB => ?_
    have ranksA : a.1.order pivot = .ok .eq := of_decide_eq_true (List.mem_filter.mp inA).2
    have ranksB : b.1.order pivot = .ok .eq := of_decide_eq_true (List.mem_filter.mp inB).2
    have freeB := rankable.floatFree b.1 b.2
    have alike : a.1.order b.1 = .ok .eq := (rankable.floatFree a.1 a.2).order_trans freePivot
      freeB ranksA (freeB.order_swap freePivot ranksB) nofun nofun
    exact mayPrecede_iff.mpr fun greater => absurd (alike.symm.trans greater) nofun
  have kept := (List.sublist_mergeSort (memberPrecedes_trans rankable)
    (memberPrecedes_total rankable) inOrder List.filter_sublist).map Subtype.val
  rwa [map_mergeSort_attach, ← List.filter_map, List.attach_map_subtype_val] at kept

theorem stablySorted_mergeSort : StablySorted items (items.mergeSort mayPrecede) where
  perm := List.mergeSort_perm items mayPrecede
  ascending := by
    have merged := List.pairwise_mergeSort (memberPrecedes_trans rankable)
      (memberPrecedes_total rankable) items.attach
    have within := (rankable.perm (List.mergeSort_perm items mayPrecede)).comparable
    rw [← map_mergeSort_attach, List.pairwise_map] at within ⊢
    exact (merged.and within).imp fun {a b} both =>
      notAbove_of_ne both.2.1 (mayPrecede_iff.mp both.1)
  stable pivot freePivot := by
    have kept := (filter_sublist_mergeSort rankable freePivot).filter (·.order pivot = .ok .eq)
    rw [List.filter_filter] at kept
    simp only [Bool.and_self] at kept
    have sizes := (List.mergeSort_perm items mayPrecede).filter (·.order pivot = .ok .eq)
    exact (kept.eq_of_length sizes.length_eq.symm).symm

theorem exists_sort : ∃ sorted, sort items = .ok sorted ∧ StablySorted items sorted := by
  rw [sort]
  split
  · exact exists_insertionSort rankable
  · have sorted := stablySorted_mergeSort rankable
    refine ⟨_, ?_, sorted⟩
    exact bind_eq_ok_iff.mpr ⟨(), neighboursCompare_eq_ok rankable,
      bind_eq_ok_iff.mpr ⟨(), neighboursCompare_eq_ok (rankable.perm sorted.perm), rfl⟩⟩

end Merge

/-! ## Extremes -/

/-- An item beats all items before it in the wanted direction, and no later one beats it. -/
def IsFirstBest (wanted : Ordering) (items : List Value) (best : Value) : Prop :=
  ∃ before later, items = before ++ best :: later ∧
    (∀ other ∈ before, best.order other = .ok wanted) ∧
    ∀ other ∈ later, other.order best ≠ .ok wanted

section Extreme

variable {wanted : Ordering} {items : List Value} {best : Value}

theorem IsFirstBest.mem (first : IsFirstBest wanted items best) : best ∈ items := by
  obtain ⟨before, later, rfl, -, -⟩ := first
  exact List.mem_append_right _ List.mem_cons_self

theorem IsFirstBest.not_beaten (first : IsFirstBest wanted items best) (strict : wanted ≠ .eq)
    (rankable : Rankable items) : ∀ other ∈ items, other.order best ≠ .ok wanted := by
  have free := rankable.floatFree best first.mem
  obtain ⟨before, later, rfl, beats, rest⟩ := first
  refine List.forall_mem_append.mpr ⟨fun other mem beaten => ?_,
    List.forall_mem_cons.mpr ⟨free.order_self_ne strict, rest⟩⟩
  have freeOther := rankable.floatFree other (List.mem_append_left _ mem)
  have turned := (beats other mem).symm.trans (freeOther.order_swap free beaten)
  cases wanted with
  | eq => exact strict rfl
  | lt | gt => cases turned

/-- What beats the best item beats all others. -/
theorem beats_of_beats_best (strict : wanted ≠ .eq) {item other : Value} (free : item.FloatFree)
    (freeBest : best.FloatFree) (freeOther : other.FloatFree) (comparable : other.Comparable best)
    (beats : item.order best = .ok wanted) (notBeaten : other.order best ≠ .ok wanted) :
    item.order other = .ok wanted := by
  obtain ⟨ordering, ordered⟩ := comparable
  rw [ordered] at notBeaten
  cases wanted with
  | eq => exact absurd rfl strict
  | lt =>
    refine free.order_trans freeBest freeOther beats (freeOther.order_swap freeBest ordered)
      nofun ?_
    cases ordering with
    | lt => exact absurd rfl notBeaten
    | eq | gt => nofun
  | gt =>
    have less : other.order item = .ok (ordering.then .lt) :=
      freeOther.order_trans freeBest free ordered (free.order_swap freeBest beats)
        (fun same => notBeaten (congrArg Except.ok same)) nofun
    have below : ordering.then .lt = .lt := by
      cases ordering with
      | gt => exact absurd rfl notBeaten
      | lt | eq => rfl
    rw [below] at less
    exact freeOther.order_swap free less

/-- A further item either becomes the best one or stays behind it. -/
theorem IsFirstBest.snoc (first : IsFirstBest wanted items best) (strict : wanted ≠ .eq)
    {item : Value} (rankable : Rankable (items ++ [item])) :
    IsFirstBest wanted (items ++ [item])
      (if item.order best = .ok wanted then item else best) := by
  split
  · next beats =>
      refine ⟨items, [], rfl, fun other mem => ?_, List.forall_mem_nil _⟩
      rcases eq_or_ne other best with rfl | differ
      · exact beats
      · have within := rankable.init
        exact beats_of_beats_best strict rankable.floatFree_last
          (within.floatFree best first.mem) (within.floatFree other mem)
          (within.comparable_of_ne mem first.mem differ) beats
          (first.not_beaten strict within other mem)
  · next stays =>
      obtain ⟨before, later, rfl, beats, rest⟩ := first
      refine ⟨before, later ++ [item], by simp, beats, ?_⟩
      exact List.forall_mem_append.mpr ⟨rest, List.forall_mem_singleton.mpr stays⟩

/-- One pass over a sequence finds the first best item. -/
theorem exists_isFirstBest (strict : wanted ≠ .eq) {first : Value} {rest : List Value}
    (rankable : Rankable (first :: rest)) :
    ∃ best, rest.foldlM (fun best item =>
        return if (← item.order best) == wanted then item else best) first =
          (.ok best : Except Failure Value) ∧
      IsFirstBest wanted (first :: rest) best := by
  induction rest using List.reverseRecOn with
  | nil => exact ⟨first, rfl, [], [], rfl, List.forall_mem_nil _, List.forall_mem_nil _⟩
  | append_singleton rest item ih =>
    rw [← List.cons_append] at rankable ⊢
    obtain ⟨best, ran, isFirst⟩ := ih rankable.init
    refine ⟨_, ?_, isFirst.snoc strict rankable⟩
    obtain ⟨ordering, ordered⟩ := (rankable.comparable_last isFirst.mem).2
    rw [List.foldlM_append]
    refine bind_eq_ok_iff.mpr ⟨_, ran, bind_eq_ok_iff.mpr ⟨_, bind_eq_ok_iff.mpr
      ⟨ordering, ordered, rfl⟩, ?_⟩⟩
    refine congrArg Except.ok (if_congr ?_ rfl rfl)
    rw [ordered, beq_iff_eq]
    exact ⟨congrArg Except.ok, Except.ok.inj⟩

end Extreme

/-! ## Agreement -/

section Agree

variable {items sorted : List Value} {best : Value} (rankable : Rankable items)
  (isSorted : StablySorted items sorted)
include rankable

theorem IsFirstBest.find?_eq (first : IsFirstBest .gt items best) :
    (items.find? fun item => items.all fun other => other.order item ≠ .ok .gt) = some best := by
  have unbeaten := first.not_beaten nofun rankable
  obtain ⟨before, later, split, beats, -⟩ := first
  refine List.find?_eq_some_iff_append.mpr ⟨?_, before, later, split, fun other mem => ?_⟩
  · exact List.all_eq_true.mpr fun other mem => decide_eq_true (unbeaten other mem)
  · rw [Bool.not_eq_true', List.all_eq_false]
    refine ⟨best, split ▸ List.mem_append_right _ List.mem_cons_self, ?_⟩
    simp [beats other mem]

include isSorted

/-- The least item is the first one of the sorted sequence. -/
theorem head?_eq_of_isFirstBest (first : IsFirstBest .lt items best) :
    sorted.head? = some best := by
  have inItems := first.mem
  have free := rankable.floatFree best inItems
  cases sorted with
  | nil => exact absurd (isSorted.perm.mem_iff.mpr inItems) List.not_mem_nil
  | cons head tail =>
    rcases List.mem_cons.mp (isSorted.perm.mem_iff.mpr inItems) with rfl | later
    · rfl
    have inItems' : head ∈ items := isSorted.perm.mem_iff.mp List.mem_cons_self
    have free' := rankable.floatFree head inItems'
    have alike : head.order best = .ok .eq :=
      ((List.pairwise_cons.mp isSorted.ascending).1 best later).resolve_left
        (first.not_beaten nofun rankable head inItems')
    have self : best.order best = .ok .eq :=
      free.order_trans free' free (free'.order_swap free alike) alike nofun nofun
    -- Both are the first of the items that rank like the least one.
    have same := isSorted.stable best free
    obtain ⟨before, later, rfl, beats, -⟩ := first
    have none : before.filter (·.order best = .ok .eq) = [] := by
      refine List.filter_eq_nil_iff.mpr fun other mem ranks => ?_
      have turned := (rankable.floatFree other (List.mem_append_left _ mem)).order_swap free
        (of_decide_eq_true ranks)
      exact absurd ((beats other mem).symm.trans turned) nofun
    rw [List.filter_append, none, List.nil_append, List.filter_cons, List.filter_cons,
      if_pos (decide_eq_true alike), if_pos (decide_eq_true self)] at same
    exact congrArg some (List.cons.inj same).1

/-- The greatest item is the last one of the sorted sequence or ranks like it. -/
theorem order_getLast?_of_isFirstBest (first : IsFirstBest .gt items best) {last : Value}
    (isLast : sorted.getLast? = some last) : best = last ∨ best.order last = .ok .eq := by
  have inItems := first.mem
  have free := rankable.floatFree best inItems
  obtain ⟨front, rfl⟩ := List.getLast?_eq_some_iff.mp isLast
  have inItems' : last ∈ items :=
    isSorted.perm.mem_iff.mp (List.mem_append_right _ List.mem_cons_self)
  rcases List.mem_append.mp (isSorted.perm.mem_iff.mpr inItems) with inFront | isLast
  · have notAbove :=
      (List.pairwise_append.mp isSorted.ascending).2.2 best inFront last List.mem_cons_self
    refine .inr (notAbove.resolve_left fun less => ?_)
    exact first.not_beaten nofun rankable last inItems'
      (free.order_swap (rankable.floatFree last inItems') less)
  · exact .inl (List.mem_singleton.mp isLast)

end Agree

theorem call_sorted {sorted : List Value} (ran : sort items = .ok sorted) :
    call .sorted ⟨[.list items], []⟩ = .ok (.list sorted) := by
  change Prod.fst <$> ((sort items >>= fun sorted => pure (sorted, _)) >>= fun result =>
    pure (Value.list result.1, result.2)) = _
  rw [ran]
  rfl

theorem call_sorted_reverse {sorted : List Value} (ran : sort items = .ok sorted) :
    call .sorted ⟨[.list items], [("reverse", .bool true)]⟩ = .ok (.list sorted.reverse) := by
  change Prod.fst <$> ((sort items >>= fun sorted => pure (sorted, _)) >>= fun result =>
    pure (Value.list result.1.reverse, result.2)) = _
  rw [ran]
  rfl

/-- Of items without floats that can be compared with each other, `sorted` gives the stable
ascending order, which `reverse` turns around. `min` gives its first item, and `max` the first
item that no other one exceeds, which ranks like the last of the sorted ones. The two can be
compared unless they are the same item. -/
theorem sorting_agrees_with_extremes {items : List Value}
    (floatFree : ∀ item ∈ items, item.FloatFree)
    (comparable : items.Pairwise Comparable) :
    ∃ sorted, call .sorted ⟨[.list items], []⟩ = .ok (.list sorted) ∧
      StablySorted items sorted ∧
      call .sorted ⟨[.list items], [("reverse", .bool true)]⟩ = .ok (.list sorted.reverse) ∧
      (items ≠ [] → ∃ least greatest last,
        call .min ⟨[.list items], []⟩ = .ok least ∧ sorted.head? = some least ∧
        call .max ⟨[.list items], []⟩ = .ok greatest ∧
        (items.find? fun item => items.all fun other => other.order item ≠ .ok .gt) =
          some greatest ∧
        sorted.getLast? = some last ∧ (greatest = last ∨ greatest.Comparable last) ∧
        (greatest.Comparable last → greatest.order last = .ok .eq)) := by
  have rankable : Rankable items := .of_pairwise floatFree comparable
  obtain ⟨sorted, ran, isSorted⟩ := exists_sort rankable
  refine ⟨sorted, call_sorted ran, isSorted, call_sorted_reverse ran, fun nonempty => ?_⟩
  cases items with
  | nil => exact absurd rfl nonempty
  | cons first rest =>
    obtain ⟨least, ranMin, isLeast⟩ := exists_isFirstBest (by decide : Ordering.lt ≠ .eq) rankable
    obtain ⟨greatest, ranMax, isGreatest⟩ :=
      exists_isFirstBest (by decide : Ordering.gt ≠ .eq) rankable
    have filled : sorted ≠ [] := by
      rintro rfl
      exact absurd (isSorted.perm.mem_iff.mpr isLeast.mem) List.not_mem_nil
    have isLast := List.getLast?_eq_some_getLast filled
    have alike := order_getLast?_of_isFirstBest rankable isSorted isGreatest isLast
    refine ⟨least, greatest, _, ranMin, head?_eq_of_isFirstBest rankable isSorted isLeast, ranMax,
      isGreatest.find?_eq rankable, isLast, alike.imp_right fun alike => ⟨_, alike⟩,
      fun comparable => alike.elim (fun same => ?_) id⟩
    rw [← same] at comparable ⊢
    exact (rankable.floatFree greatest isGreatest.mem).order_self comparable

/-- Of two lists that rank alike, the greatest item is the first one and the last of the sorted
items is the other. -/
theorem sorting_agrees_with_extremes_at_sample :
    let items := [list [bool true, str "b"], list [int 0], list [int 1, str "b"]]
    (∀ item ∈ items, item.FloatFree) ∧ items.Pairwise Comparable ∧
      ∃ sorted greatest last, call .sorted ⟨[list items], []⟩ = .ok (list sorted) ∧
        StablySorted items sorted ∧ call .min ⟨[list items], []⟩ = .ok (list [int 0]) ∧
        sorted.head? = some (list [int 0]) ∧ call .max ⟨[list items], []⟩ = .ok greatest ∧
        greatest = list [bool true, str "b"] ∧ sorted.getLast? = some last ∧
        greatest.order last = .ok .eq := by
  intro items
  have floatFree : ∀ item ∈ items, item.FloatFree := by decide
  have comparable : items.Pairwise Comparable := by decide
  obtain ⟨sorted, ran, isSorted, -, extremes⟩ := sorting_agrees_with_extremes floatFree comparable
  obtain ⟨least, greatest, last, ranMin, isFirst, ranMax, -, isLast, differ, alike⟩ :=
    extremes nofun
  obtain rfl : list [int 0] = least := Except.ok.inj ranMin
  have isGreatest : list [bool true, str "b"] = greatest := Except.ok.inj ranMax
  subst isGreatest
  refine ⟨floatFree, comparable, sorted, _, last, ran, isSorted, ranMin, isFirst, ranMax, rfl,
    isLast, alike (differ.elim (fun same => same ▸ ⟨.eq, by decide⟩) id)⟩

end Snippet.Function

end ModelWeaver
