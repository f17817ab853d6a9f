import ModelWeaver.Generator.DisjointSets
import Mathlib.Data.Finset.Card
import Mathlib.Data.Finset.Range
import Mathlib.Logic.Relation

/-!
# Disjoint sets are connected components

A forest of parents stands for a partition: a function `leader` that gives each number the
representative of its group. Ranks grow on the way up, so every way up ends, and it ends at the
leader. Shortening a way keeps all leaders; hanging one representative under another changes those
of one group. So the groups are the connected components of the linked pairs.
-/

namespace ModelWeaver.DisjointSets

variable {a b x y : Nat}

/-! ## Forests -/

def rankOf (rank : Array Nat) (x : Nat) : Nat := rank.getD x 0

/-- Parents and ranks form a forest in which each number has the given leader. -/
structure Leads (parent rank : Array Nat) (leader : Nat → Nat) : Prop where
  rank_size : rank.size = parent.size
  parent_lt : ∀ ⦃x⦄, x < parent.size → parentOf parent x < parent.size
  leader_parent : ∀ x, leader (parentOf parent x) = leader x
  fixed_iff : ∀ x, parentOf parent x = x ↔ leader x = x
  rank_lt : ∀ ⦃x⦄, parentOf parent x ≠ x →
    rankOf rank x < rankOf rank (parentOf parent x)

theorem lt_size_of_parentOf_ne {parent : Array Nat} (moves : parentOf parent x ≠ x) :
    x < parent.size := by
  by_contra beyond
  apply moves
  rw [parentOf, Array.getD_eq_getD_getElem?,
    Array.getElem?_eq_none (Nat.le_of_not_lt beyond), Option.getD_none]

theorem getD_setIfInBounds {xs : Array Nat} {value default : Nat} (bound : x < xs.size) :
    (xs.setIfInBounds x value).getD y default = if x = y then value else xs.getD y default := by
  rw [Array.getD_eq_getD_getElem?, Array.getD_eq_getD_getElem?, Array.getElem?_setIfInBounds]
  split
  · rw [Option.getD_some]
  · rfl

section Leads

variable {parent rank : Array Nat} {leader : Nat → Nat} {x : Nat}

/-- The numbers of greater rank than a given one. -/
def above (rank : Array Nat) (n x : Nat) : Finset Nat :=
  (Finset.range n).filter fun y => rankOf rank x < rankOf rank y

variable (leads : Leads parent rank leader)
include leads

theorem Leads.card_above_lt (moves : parentOf parent x ≠ x) :
    (above rank parent.size (parentOf parent x)).card < (above rank parent.size x).card := by
  have higher := leads.rank_lt moves
  have bound := leads.parent_lt (lt_size_of_parentOf_ne moves)
  apply Finset.card_lt_card
  rw [Finset.ssubset_iff_of_subset]
  · refine ⟨parentOf parent x, ?_, ?_⟩
    · rw [above, Finset.mem_filter, Finset.mem_range]
      exact ⟨bound, higher⟩
    · rw [above, Finset.mem_filter]
      exact fun contained => Nat.lt_irrefl _ contained.2
  · intro y contained
    rw [above, Finset.mem_filter] at contained ⊢
    exact ⟨contained.1, Nat.lt_trans higher contained.2⟩

/-- Every way up ends, so what holds at representatives and is passed down from parents
holds everywhere. -/
theorem Leads.climbing {motive : Nat → Prop} (fixed : ∀ x, parentOf parent x = x → motive x)
    (step : ∀ x, parentOf parent x ≠ x → motive (parentOf parent x) → motive x) (x : Nat) :
    motive x := by
  generalize height_eq : (above rank parent.size x).card = height
  induction height using Nat.strongRecOn generalizing x with
  | ind height ih =>
    by_cases moves : parentOf parent x = x
    · exact fixed x moves
    · apply step x moves
      exact ih _ (height_eq ▸ leads.card_above_lt moves) _ rfl

theorem Leads.leader_leader (x : Nat) : leader (leader x) = leader x := by
  induction x using leads.climbing with
  | fixed x fixed => rw [(leads.fixed_iff x).mp fixed, (leads.fixed_iff x).mp fixed]
  | step x _ ih =>
    rw [leads.leader_parent] at ih
    exact ih

theorem Leads.leader_lt (bound : x < parent.size) : leader x < parent.size := by
  induction x using leads.climbing with
  | fixed x fixed =>
    rw [(leads.fixed_iff x).mp fixed]
    exact bound
  | step x _ ih =>
    rw [← leads.leader_parent]
    exact ih (leads.parent_lt bound)

theorem Leads.rank_le_leader (x : Nat) : rankOf rank x ≤ rankOf rank (leader x) := by
  induction x using leads.climbing with
  | fixed x fixed => rw [(leads.fixed_iff x).mp fixed]
  | step x moves ih =>
    rw [leads.leader_parent] at ih
    exact Nat.le_trans (Nat.le_of_lt (leads.rank_lt moves)) ih

theorem Leads.rank_lt_leader (below : leader x ≠ x) : rankOf rank x < rankOf rank (leader x) := by
  have moves : parentOf parent x ≠ x := fun fixed => below ((leads.fixed_iff x).mp fixed)
  calc rankOf rank x < rankOf rank (parentOf parent x) := leads.rank_lt moves
    _ ≤ rankOf rank (leader (parentOf parent x)) := leads.rank_le_leader _
    _ = rankOf rank (leader x) := by rw [leads.leader_parent]

/-! ## Looking for a leader -/

theorem Leads.climb_eq {steps : Nat} (enough : (above rank parent.size x).card ≤ steps) :
    climb parent steps x = leader x := by
  induction steps generalizing x with
  | zero =>
    have fixed : parentOf parent x = x := by
      by_contra moves
      have := leads.card_above_lt moves
      omega
    exact ((leads.fixed_iff x).mp fixed).symm
  | succ steps ih =>
    rw [climb]
    split
    · next fixed => exact ((leads.fixed_iff x).mp fixed).symm
    · next moves =>
        have lower := leads.card_above_lt moves
        rw [ih (by omega), leads.leader_parent]

omit leads in
theorem Leads.root_eq {sets : DisjointSets} (leads : Leads sets.parent sets.rank leader)
    (x : Nat) : sets.root x = leader x := by
  apply leads.climb_eq
  calc (above sets.rank sets.parent.size x).card
      ≤ (Finset.range sets.parent.size).card := Finset.card_filter_le _ _
    _ = sets.parent.size := Finset.card_range _

/-- A number may hang directly under its leader. -/
theorem Leads.hang (below : leader x ≠ x) :
    Leads (parent.setIfInBounds x (leader x)) rank leader := by
  have bound : x < parent.size :=
    lt_size_of_parentOf_ne fun fixed => below ((leads.fixed_iff x).mp fixed)
  have parentOf_eq : ∀ y, parentOf (parent.setIfInBounds x (leader x)) y =
      if x = y then leader x else parentOf parent y := fun y => getD_setIfInBounds bound
  constructor
  · rw [Array.size_setIfInBounds]
    exact leads.rank_size
  · intro y inside
    rw [Array.size_setIfInBounds] at inside ⊢
    rw [parentOf_eq]
    split
    · exact leads.leader_lt bound
    · exact leads.parent_lt inside
  · intro y
    rw [parentOf_eq]
    split
    · next here => rw [leads.leader_leader, here]
    · exact leads.leader_parent y
  · intro y
    rw [parentOf_eq]
    split
    · next here => rw [here]
    · exact leads.fixed_iff y
  · intro y
    rw [parentOf_eq]
    split
    · next here =>
        subst here
        exact fun _ => leads.rank_lt_leader below
    · exact fun moves => leads.rank_lt moves

theorem Leads.compress (steps x : Nat) :
    Leads (compress (leader x) steps x parent) rank leader := by
  induction steps generalizing x parent with
  | zero => exact leads
  | succ steps ih =>
    rw [DisjointSets.compress]
    split
    · exact leads
    · next far =>
        have below : leader x ≠ x := by
          intro fixed
          apply far
          rw [(leads.fixed_iff x).mpr fixed, fixed]
        have shorter := ih (leads.hang below) (parentOf parent x)
        rwa [leads.leader_parent] at shorter

omit leads in
theorem size_compress (root steps x : Nat) (parent : Array Nat) :
    (compress root steps x parent).size = parent.size := by
  induction steps generalizing x parent with
  | zero => rfl
  | succ steps ih =>
    rw [compress]
    split
    · rfl
    · rw [ih, Array.size_setIfInBounds]

/-! ## Joining groups -/

/-- The leaders after the group of `loser` has joined that of `winner`. -/
def joined (leader : Nat → Nat) (winner loser x : Nat) : Nat :=
  if leader x = loser then winner else leader x

/-- A representative may hang under another one of greater rank. -/
theorem Leads.attach {winner loser : Nat} (winner_lt : winner < parent.size)
    (loser_lt : loser < parent.size) (winner_leads : leader winner = winner)
    (loser_leads : leader loser = loser) (lower : rankOf rank loser < rankOf rank winner) :
    Leads (parent.setIfInBounds loser winner) rank (joined leader winner loser) := by
  have differ : winner ≠ loser := by
    rintro rfl
    exact Nat.lt_irrefl _ lower
  have parentOf_eq : ∀ y, parentOf (parent.setIfInBounds loser winner) y =
      if loser = y then winner else parentOf parent y := fun y => getD_setIfInBounds loser_lt
  constructor
  · rw [Array.size_setIfInBounds]
    exact leads.rank_size
  · intro y inside
    rw [Array.size_setIfInBounds] at inside ⊢
    rw [parentOf_eq]
    split
    · exact winner_lt
    · exact leads.parent_lt inside
  · intro y
    rw [parentOf_eq]
    split
    · next here => simp [joined, ← here, winner_leads, loser_leads, differ]
    · simp only [joined, leads.leader_parent]
  · intro y
    rw [parentOf_eq]
    split
    · next here => simp [joined, ← here, loser_leads]
    · next elsewhere =>
        rw [leads.fixed_iff, joined]
        split
        · next moved =>
            constructor
            · intro fixed
              exact absurd (moved.symm.trans fixed) elsewhere
            · intro at_winner
              rw [← at_winner, winner_leads] at moved
              exact absurd moved differ
        · rfl
  · intro y
    rw [parentOf_eq]
    split
    · next here =>
        subst here
        exact fun _ => lower
    · exact fun moves => leads.rank_lt moves

theorem Leads.raise (bound : x < parent.size) (top : leader x = x) :
    Leads parent (rank.setIfInBounds x (rankOf rank x + 1)) leader := by
  have rankOf_eq : ∀ y, rankOf (rank.setIfInBounds x (rankOf rank x + 1)) y =
      if x = y then rankOf rank x + 1 else rankOf rank y :=
    fun y => getD_setIfInBounds (leads.rank_size ▸ bound)
  refine ⟨?_, leads.parent_lt, leads.leader_parent, leads.fixed_iff, ?_⟩
  · rw [Array.size_setIfInBounds]
    exact leads.rank_size
  · intro y moves
    have elsewhere : x ≠ y := by
      rintro rfl
      exact moves ((leads.fixed_iff x).mpr top)
    have higher := leads.rank_lt moves
    rw [rankOf_eq, rankOf_eq, if_neg elsewhere]
    split
    · next here =>
        rw [← here] at higher
        omega
    · exact higher

end Leads

/-! ## Partitions -/

/-- The numbers below `n` are split into groups with the given leaders, and the groups
are counted. -/
structure Splits (sets : DisjointSets) (n : Nat) (leader : Nat → Nat) : Prop where
  size_eq : sets.parent.size = n
  leads : Leads sets.parent sets.rank leader
  count_eq : sets.count = ((Finset.range n).filter fun x => leader x = x).card

variable {sets : DisjointSets} {n : Nat} {leader : Nat → Nat} {pairs : List (Nat × Nat)}

theorem splits_singletons (n : Nat) : Splits (singletons n) n id := by
  have parentOf_eq : ∀ x, parentOf (Array.range n) x = x := by
    intro x
    rw [parentOf, Array.getD_eq_getD_getElem?, Array.getElem?_range]
    split <;> rfl
  constructor
  · exact Array.size_range
  · constructor
    · simp [singletons]
    · intro x bound
      rwa [singletons, parentOf_eq]
    · intro x
      rw [singletons, parentOf_eq]
    · intro x
      rw [singletons, parentOf_eq]
      rfl
    · intro x moves
      exact absurd (parentOf_eq x) moves
  · simp [singletons]

theorem Splits.root_eq (splits : Splits sets n leader) (x : Nat) : sets.root x = leader x :=
  splits.leads.root_eq x

theorem Splits.leader_lt (splits : Splits sets n leader) (bound : x < n) : leader x < n := by
  have inside := splits.leads.leader_lt (splits.size_eq.symm ▸ bound)
  rwa [splits.size_eq] at inside

theorem Splits.find (splits : Splits sets n leader) (x : Nat) :
    (sets.find x).1 = leader x ∧ Splits (sets.find x).2 n leader := by
  have found := splits.root_eq x
  refine ⟨found, ?_, ?_, splits.count_eq⟩
  · exact (size_compress _ _ _ _).trans splits.size_eq
  · change Leads (DisjointSets.compress (sets.root x) _ x sets.parent) sets.rank leader
    rw [found]
    exact splits.leads.compress _ x

/-- One representative less is left after two groups are joined. -/
theorem card_joined {winner loser : Nat} (winner_leads : leader winner = winner)
    (loser_leads : leader loser = loser) (differ : winner ≠ loser) (loser_lt : loser < n) :
    ((Finset.range n).filter fun x => joined leader winner loser x = x).card =
      ((Finset.range n).filter fun x => leader x = x).card - 1 := by
  have mem : loser ∈ (Finset.range n).filter fun x => leader x = x := by
    rw [Finset.mem_filter, Finset.mem_range]
    exact ⟨loser_lt, loser_leads⟩
  rw [← Finset.card_erase_of_mem mem]
  congr 1
  ext x
  rw [Finset.mem_filter, Finset.mem_erase, Finset.mem_filter, joined]
  split
  · next moved =>
      constructor
      · rintro ⟨_, rfl⟩
        exact absurd (winner_leads.symm.trans moved) differ
      · rintro ⟨elsewhere, _, fixed⟩
        exact absurd (fixed.symm.trans moved) elsewhere
  · next stays =>
      constructor
      · rintro ⟨inside, fixed⟩
        refine ⟨?_, inside, fixed⟩
        rintro rfl
        exact stays loser_leads
      · rintro ⟨_, inside, fixed⟩
        exact ⟨inside, fixed⟩

/-- Linking two numbers of the same group changes no group; otherwise the group of one of
them joins that of the other. -/
theorem Splits.link (splits : Splits sets n leader) (a_lt : a < n) (b_lt : b < n) :
    (leader a = leader b ∧ Splits (sets.link a b) n leader) ∨
      leader a ≠ leader b ∧ (Splits (sets.link a b) n (joined leader (leader a) (leader b)) ∨
        Splits (sets.link a b) n (joined leader (leader b) (leader a))) := by
  obtain ⟨root_a, splits_a⟩ := splits.find a
  obtain ⟨root_b, splits_b⟩ := splits_a.find b
  rw [DisjointSets.link]
  generalize sets.find a = found_a at *
  rcases found_a with ⟨_, sets_a⟩
  subst root_a
  simp only at splits_a splits_b root_b ⊢
  generalize sets_a.find b = found_b at *
  rcases found_b with ⟨_, sets_b⟩
  subst root_b
  simp only at splits_b ⊢
  have leads := splits_b.leads
  have a_leader_lt : leader a < sets_b.parent.size :=
    leads.leader_lt (splits_b.size_eq.symm ▸ a_lt)
  have b_leader_lt : leader b < sets_b.parent.size :=
    leads.leader_lt (splits_b.size_eq.symm ▸ b_lt)
  have a_leads := leads.leader_leader a
  have b_leads := leads.leader_leader b
  by_cases same : leader a = leader b
  · rw [if_pos same]
    exact Or.inl ⟨same, splits_b⟩
  · right
    rw [if_neg same]
    refine ⟨same, ?_⟩
    -- The leader of lower rank follows the other one, which grows first if ranks are equal.
    by_cases less : sets_b.rank.getD (leader a) 0 < sets_b.rank.getD (leader b) 0
    · right
      rw [if_pos less]
      refine ⟨?_, leads.attach b_leader_lt a_leader_lt b_leads a_leads less, ?_⟩
      · exact (Array.size_setIfInBounds).trans splits_b.size_eq
      · rw [card_joined b_leads a_leads (Ne.symm same) (splits_b.size_eq ▸ a_leader_lt),
          ← splits_b.count_eq]
    · left
      rw [if_neg less]
      have count_eq := card_joined a_leads b_leads same (splits_b.size_eq ▸ b_leader_lt)
      rw [← splits_b.count_eq] at count_eq
      by_cases greater : sets_b.rank.getD (leader b) 0 < sets_b.rank.getD (leader a) 0
      · rw [if_pos greater]
        refine ⟨?_, leads.attach a_leader_lt b_leader_lt a_leads b_leads greater, count_eq.symm⟩
        exact (Array.size_setIfInBounds).trans splits_b.size_eq
      · rw [if_neg greater]
        have raised := leads.raise a_leader_lt a_leads
        have lower : rankOf (sets_b.rank.setIfInBounds (leader a)
              (rankOf sets_b.rank (leader a) + 1)) (leader b) <
            rankOf (sets_b.rank.setIfInBounds (leader a)
              (rankOf sets_b.rank (leader a) + 1)) (leader a) := by
          have rank_bound : leader a < sets_b.rank.size := leads.rank_size ▸ a_leader_lt
          simp only [rankOf, getD_setIfInBounds rank_bound, if_neg same, if_pos]
          omega
        refine ⟨?_, raised.attach a_leader_lt b_leader_lt a_leads b_leads lower, count_eq.symm⟩
        exact (Array.size_setIfInBounds).trans splits_b.size_eq

/-! ## Connected components -/

/-- Pairs connect two numbers, possibly by way of others. -/
def Connected (pairs : List (Nat × Nat)) : Nat → Nat → Prop :=
  Relation.EqvGen fun a b => (a, b) ∈ pairs

theorem Connected.append (connected : Connected pairs x y) (more : List (Nat × Nat)) :
    Connected (pairs ++ more) x y :=
  Relation.EqvGen.mono (fun _ _ mem => List.mem_append_left more mem) x y connected

theorem Connected.congr {α : Type} (value : Nat → α)
    (agrees : ∀ a b, (a, b) ∈ pairs → value a = value b) (connected : Connected pairs x y) :
    value x = value y := by
  induction connected with
  | rel x y mem => exact agrees x y mem
  | refl x => rfl
  | symm x y _ ih => exact ih.symm
  | trans x y z _ _ first second => exact first.trans second

/-- The numbers with the same leader are those that pairs connect. -/
def Joins (leader : Nat → Nat) (pairs : List (Nat × Nat)) : Prop :=
  ∀ x y, leader x = leader y ↔ Connected pairs x y

theorem joins_nil : Joins id [] := by
  intro x y
  constructor
  · rintro rfl
    exact Relation.EqvGen.refl x
  · exact Connected.congr id fun _ _ mem => absurd mem List.not_mem_nil

/-- Joining the groups of the two ends of a new pair keeps up with the pairs. -/
theorem Joins.append {winner loser : Nat} (joins : Joins leader pairs)
    (idempotent : ∀ x, leader (leader x) = leader x)
    (bridge : Connected (pairs ++ [(a, b)]) loser winner)
    (meet : joined leader winner loser a = joined leader winner loser b) :
    Joins (joined leader winner loser) (pairs ++ [(a, b)]) := by
  have to_leader : ∀ x, Connected (pairs ++ [(a, b)]) x (joined leader winner loser x) := by
    intro x
    have connected := ((joins x (leader x)).mp (idempotent x).symm).append [(a, b)]
    rw [joined]
    split
    · next moved =>
        rw [moved] at connected
        exact connected.trans _ _ _ bridge
    · exact connected
  intro x y
  constructor
  · intro same
    have back := (to_leader y).symm
    rw [← same] at back
    exact (to_leader x).trans _ _ _ back
  · apply Connected.congr (joined leader winner loser)
    intro x y mem
    rcases List.mem_append.mp mem with old | new
    · have same := (joins x y).mpr (Relation.EqvGen.rel x y old)
      rw [joined, joined, same]
    · cases List.mem_singleton.mp new
      exact meet

theorem joined_self (leader : Nat → Nat) (winner : Nat) : joined leader winner winner = leader := by
  funext x
  rw [joined]
  split
  · next same => exact same.symm
  · rfl

theorem Splits.link_joins (splits : Splits sets n leader) (joins : Joins leader pairs)
    (a_lt : a < n) (b_lt : b < n) :
    ∃ leader', Splits (sets.link a b) n leader' ∧ Joins leader' (pairs ++ [(a, b)]) := by
  have idempotent := splits.leads.leader_leader
  have bridge : Connected (pairs ++ [(a, b)]) (leader a) (leader b) := by
    have from_a := ((joins (leader a) a).mp (idempotent a)).append [(a, b)]
    have to_b := ((joins b (leader b)).mp (idempotent b).symm).append [(a, b)]
    have across : Connected (pairs ++ [(a, b)]) a b :=
      Relation.EqvGen.rel a b (List.mem_append_right pairs (List.mem_singleton.mpr rfl))
    exact (from_a.trans _ _ _ across).trans _ _ _ to_b
  rcases splits.link a_lt b_lt with ⟨same, splits'⟩ | ⟨differ, splits' | splits'⟩
  · refine ⟨leader, splits', ?_⟩
    have joins' := joins.append idempotent (Relation.EqvGen.refl (leader a))
      (by rwa [joined_self]) (a := a) (b := b)
    rwa [joined_self] at joins'
  · refine ⟨_, splits', joins.append idempotent bridge.symm ?_⟩
    rw [joined, joined, if_neg differ, if_pos rfl]
  · refine ⟨_, splits', joins.append idempotent bridge ?_⟩
    rw [joined, joined, if_pos rfl, if_neg (Ne.symm differ)]

theorem exists_splits_links (bounds : ∀ pair ∈ pairs, pair.1 < n ∧ pair.2 < n) :
    ∃ leader, Splits (pairs.foldl (fun sets pair => sets.link pair.1 pair.2) (singletons n)) n
      leader ∧ Joins leader pairs := by
  induction pairs using List.reverseRecOn with
  | nil => exact ⟨id, splits_singletons n, joins_nil⟩
  | append_singleton pairs pair ih =>
    have early : ∀ pair ∈ pairs, pair.1 < n ∧ pair.2 < n :=
      fun pair mem => bounds pair (List.mem_append_left _ mem)
    have last := bounds pair (List.mem_append_right _ (List.mem_singleton.mpr rfl))
    rcases ih early with ⟨leader, splits, joins⟩
    rw [List.foldl_append]
    exact splits.link_joins joins last.1 last.2

theorem Splits.count_le_one_iff (splits : Splits sets n leader) :
    sets.count ≤ 1 ↔ ∀ x < n, ∀ y < n, leader x = leader y := by
  rw [splits.count_eq, Finset.card_le_one]
  simp only [Finset.mem_filter, Finset.mem_range]
  have idempotent := splits.leads.leader_leader
  constructor
  · intro alone x x_lt y y_lt
    exact alone _ ⟨splits.leader_lt x_lt, idempotent x⟩ _ ⟨splits.leader_lt y_lt, idempotent y⟩
  · rintro same x ⟨x_lt, x_leads⟩ y ⟨y_lt, y_leads⟩
    rw [← x_leads, ← y_leads]
    exact same x x_lt y y_lt

/-! ## Groups -/

section Firsts

variable {α β : Type} [BEq β] [LawfulBEq β] (key : α → β)

theorem mem_foldl_firsts (xs : List α) (found : List β) {y : β} :
    y ∈ xs.foldl (fun found x =>
        if found.contains (key x) then found else found ++ [key x]) found ↔
      y ∈ found ∨ ∃ x ∈ xs, key x = y := by
  induction xs generalizing found with
  | nil => simp
  | cons x xs ih =>
    rw [List.foldl_cons, ih]
    by_cases seen : found.contains (key x)
    · have present : key x ∈ found := List.contains_iff_mem.mp seen
      rw [if_pos seen]
      grind
    · rw [if_neg seen]
      grind

theorem nodup_foldl_firsts {xs : List α} {found : List β} (nodup : found.Nodup) :
    (xs.foldl (fun found x =>
      if found.contains (key x) then found else found ++ [key x]) found).Nodup := by
  induction xs generalizing found with
  | nil => exact nodup
  | cons x xs ih =>
    rw [List.foldl_cons]
    apply ih
    by_cases seen : found.contains (key x)
    · rwa [if_pos seen]
    · rw [if_neg seen]
      have absent : key x ∉ found := fun present => seen (List.contains_iff_mem.mpr present)
      exact List.nodup_append.mpr ⟨nodup, List.nodup_singleton _, by grind⟩

end Firsts

section Groups

variable {root x : Nat}

/-- The leaders of numbers in the order in which they first occur. -/
def leadersOf (leader : Nat → Nat) (xs : List Nat) : List Nat :=
  xs.foldl (fun found x =>
    if found.contains (leader x) then found else found ++ [leader x]) []

/-- Numbers under their leaders. -/
def grouped (leader : Nat → Nat) (xs : List Nat) : List (Nat × List Nat) :=
  (leadersOf leader xs).map fun root => (root, xs.filter fun x => leader x = root)

variable {xs : List Nat}

theorem mem_leadersOf : root ∈ leadersOf leader xs ↔ ∃ x ∈ xs, leader x = root := by
  rw [leadersOf, mem_foldl_firsts leader]
  exact or_iff_right List.not_mem_nil

theorem nodup_leadersOf (leader : Nat → Nat) (xs : List Nat) : (leadersOf leader xs).Nodup :=
  nodup_foldl_firsts leader List.nodup_nil

theorem leadersOf_append_of_mem (seen : leader x ∈ leadersOf leader xs) :
    leadersOf leader (xs ++ [x]) = leadersOf leader xs := by
  rw [leadersOf, List.foldl_append]
  exact if_pos (List.contains_iff_mem.mpr seen)

theorem leadersOf_append_of_not_mem (new : leader x ∉ leadersOf leader xs) :
    leadersOf leader (xs ++ [x]) = leadersOf leader xs ++ [leader x] := by
  rw [leadersOf, List.foldl_append]
  exact if_neg (mt List.contains_iff_mem.mp new)

theorem place_of_mem {roots : List Nat} {members : Nat → List Nat} (nodup : roots.Nodup)
    (seen : root ∈ roots) :
    place root x (roots.map fun other => (other, members other)) =
      roots.map fun other =>
        (other, if other = root then members other ++ [x] else members other) := by
  induction roots with
  | nil => cases seen
  | cons other roots ih =>
    rcases List.nodup_cons.mp nodup with ⟨alone, rest⟩
    rw [List.map_cons, List.map_cons, place]
    by_cases here : other = root
    · subst here
      rw [if_pos rfl, if_pos rfl]
      congr 1
      apply List.map_congr_left
      intro later mem
      rw [if_neg (ne_of_mem_of_not_mem mem alone)]
    · rw [if_neg here, if_neg here,
        ih rest (List.mem_of_ne_of_mem (Ne.symm here) seen)]

theorem place_of_not_mem {roots : List Nat} {members : Nat → List Nat} (new : root ∉ roots) :
    place root x (roots.map fun other => (other, members other)) =
      (roots.map fun other => (other, members other)) ++ [(root, [x])] := by
  induction roots with
  | nil => rfl
  | cons other roots ih =>
    rcases not_or.mp (mt List.mem_cons.mpr new) with ⟨differ, later⟩
    rw [List.map_cons, place, if_neg (Ne.symm differ), ih later]
    rfl

theorem filter_append_singleton (leader : Nat → Nat) (xs : List Nat) (x root : Nat) :
    (xs ++ [x]).filter (fun y => leader y = root) =
      (xs.filter fun y => leader y = root) ++ if leader x = root then [x] else [] := by
  rw [List.filter_append]
  congr 1
  by_cases same : leader x = root <;> simp [same]

/-- A number is put where it belongs. -/
theorem place_grouped (leader : Nat → Nat) (xs : List Nat) (x : Nat) :
    place (leader x) x (grouped leader xs) = grouped leader (xs ++ [x]) := by
  by_cases seen : leader x ∈ leadersOf leader xs
  · rw [grouped, grouped, place_of_mem (nodup_leadersOf leader xs) seen,
      leadersOf_append_of_mem seen]
    apply List.map_congr_left
    intro root _
    rw [filter_append_singleton]
    by_cases same : root = leader x
    · rw [if_pos same, if_pos same.symm]
    · rw [if_neg same, if_neg (Ne.symm same), List.append_nil]
  · rw [grouped, grouped, place_of_not_mem seen, leadersOf_append_of_not_mem seen,
      List.map_append]
    congr 1
    · apply List.map_congr_left
      intro root mem
      rw [filter_append_singleton, if_neg (ne_of_mem_of_not_mem mem seen).symm, List.append_nil]
    · have others : (xs.filter fun y => leader y = leader x) = [] := by
        rw [List.filter_eq_nil_iff]
        intro y mem same
        exact seen (mem_leadersOf.mpr ⟨y, mem, of_decide_eq_true same⟩)
      rw [List.map_singleton, filter_append_singleton, others, if_pos rfl]
      rfl

variable (splits : Splits sets n leader)
include splits

theorem Splits.foldl_gather (xs : List Nat) :
    (xs.foldl gather ([], sets)).1 = grouped leader xs ∧
      Splits (xs.foldl gather ([], sets)).2 n leader := by
  induction xs using List.reverseRecOn with
  | nil => exact ⟨rfl, splits⟩
  | append_singleton xs x ih =>
    rcases ih with ⟨groups_eq, splits'⟩
    rcases splits'.find x with ⟨found, splits''⟩
    rw [List.foldl_append, List.foldl_cons, List.foldl_nil]
    refine ⟨?_, splits''⟩
    change place ((xs.foldl gather ([], sets)).2.find x).1 x (xs.foldl gather ([], sets)).1 = _
    rw [found, groups_eq, place_grouped]

theorem Splits.listGroups :
    sets.groups = (grouped leader (List.range n)).map Prod.snd ∧
      Splits sets.listGroups.2 n leader := by
  rcases splits.foldl_gather (List.range sets.parent.size) with ⟨groups_eq, splits'⟩
  refine ⟨?_, splits'⟩
  rw [← splits.size_eq, ← groups_eq]
  rfl

theorem Splits.groups_eq :
    sets.groups = (leadersOf leader (List.range n)).map fun root =>
      (List.range n).filter fun x => leader x = root := by
  rw [splits.listGroups.1, grouped, List.map_map]
  rfl

theorem Splits.mem_groups_iff {group : List Nat} :
    group ∈ sets.groups ↔
      ∃ x < n, group = (List.range n).filter fun y => leader y = leader x := by
  rw [splits.groups_eq, List.mem_map]
  constructor
  · rintro ⟨root, mem, rfl⟩
    rcases mem_leadersOf.mp mem with ⟨x, bound, rfl⟩
    exact ⟨x, List.mem_range.mp bound, rfl⟩
  · rintro ⟨x, bound, rfl⟩
    exact ⟨leader x, mem_leadersOf.mpr ⟨x, List.mem_range.mpr bound, rfl⟩, rfl⟩

theorem Splits.pairwise_disjoint_groups : sets.groups.Pairwise List.Disjoint := by
  rw [splits.groups_eq, List.pairwise_map]
  apply (nodup_leadersOf leader (List.range n)).imp
  intro first second differ x mem mem'
  have first_leads : leader x = first := by simpa using (List.mem_filter.mp mem).2
  have second_leads : leader x = second := by simpa using (List.mem_filter.mp mem').2
  exact differ (first_leads.symm.trans second_leads)

end Groups

end ModelWeaver.DisjointSets
