import Mathlib.Data.Set.Card
import ModelWeaver.Proofs.Generator.Components

/-!
# Calls of disjoint sets

Whatever numbers are linked, looked for and listed, and in whatever order, disjoint sets stand for
the connected components of the pairs linked so far. Looking for a number and listing the groups
shortens paths, but changes no representative and no group. The two loops that look for a number
end without a bound on their steps.
-/

namespace ModelWeaver.DisjointSets

/-! ## The loops of a search -/

/-- The loop that goes from a number to its parent, as long as that is another number, ends
at `root`. -/
inductive Climbs (parent : Array Nat) : (x root : Nat) → Prop
  | stop {x : Nat} (bound : x < parent.size) (fixed : parentOf parent x = x) :
      Climbs parent x x
  | step {x root : Nat} (bound : x < parent.size) (moves : parentOf parent x ≠ x)
      (climbs : Climbs parent (parentOf parent x) root) : Climbs parent x root

/-- The loop that hangs numbers under `root` on the way up from `x`, until one hangs there
already, ends with the parents `result`. -/
inductive Compresses (root : Nat) : (x : Nat) → (parent result : Array Nat) → Prop
  | stop {x : Nat} {parent : Array Nat} (bound : x < parent.size)
      (hangs : parentOf parent x = root) : Compresses root x parent parent
  | step {x : Nat} {parent result : Array Nat} (bound : x < parent.size)
      (far : parentOf parent x ≠ root)
      (compresses : Compresses root (parentOf parent x) (parent.setIfInBounds x root) result) :
      Compresses root x parent result

section Loops

variable {parent rank : Array Nat} {leader : Nat → Nat}

theorem Leads.climbs (leads : Leads parent rank leader) {x : Nat} (bound : x < parent.size) :
    Climbs parent x (leader x) := by
  induction x using leads.climbing with
  | fixed x fixed =>
    rw [(leads.fixed_iff x).mp fixed]
    exact Climbs.stop bound fixed
  | step x moves ih =>
    apply Climbs.step bound moves
    rw [← leads.leader_parent]
    exact ih (leads.parent_lt bound)

/-- As many steps as there are numbers of greater rank are enough. -/
theorem Leads.compresses (leads : Leads parent rank leader) {steps x : Nat}
    (bound : x < parent.size) (enough : (above rank parent.size x).card ≤ steps) :
    Compresses (leader x) x parent (DisjointSets.compress (leader x) steps x parent) := by
  induction steps generalizing x parent with
  | zero =>
    have fixed : parentOf parent x = x := by
      by_contra moves
      exact Nat.not_lt_zero _ ((leads.card_above_lt moves).trans_le enough)
    apply Compresses.stop bound
    rw [fixed, (leads.fixed_iff x).mp fixed]
  | succ steps ih =>
    rw [DisjointSets.compress]
    split
    · next hangs => exact Compresses.stop bound hangs
    · next far =>
        have below : leader x ≠ x := by
          intro fixed
          apply far
          rw [(leads.fixed_iff x).mpr fixed, fixed]
        have moves : parentOf parent x ≠ x := mt (leads.fixed_iff x).mp below
        have lower := leads.card_above_lt moves
        apply Compresses.step bound far
        have shorter := ih (leads.hang below)
          (x := parentOf parent x)
          (by rw [Array.size_setIfInBounds]; exact leads.parent_lt bound)
          (by rw [Array.size_setIfInBounds]; omega)
        rwa [leads.leader_parent] at shorter

end Loops

/-! ## Connected components -/

/-- The connected component of a number among those below `n`. -/
def component (n : Nat) (pairs : List (Nat × Nat)) (x : Nat) : Set Nat :=
  {y | y < n ∧ Connected pairs x y}

def components (n : Nat) (pairs : List (Nat × Nat)) : Set (Set Nat) :=
  {members | ∃ x < n, members = component n pairs x}

/-- Groups are the connected components: each is listed once, by increasing members, and
the groups are ordered by their smallest members. -/
structure ListsComponents (groups : List (List Nat)) (n : Nat) (pairs : List (Nat × Nat)) :
    Prop where
  mem_iff : ∀ members, members ∈ (groups.map fun group => {x | x ∈ group}) ↔
    members ∈ components n pairs
  once : (groups.map fun group => {x | x ∈ group}).Nodup
  increasing : ∀ group ∈ groups, group.Pairwise (· < ·)
  ordered : groups.Pairwise fun first second => ∃ least ∈ first, ∀ x ∈ second, least < x

/-- Disjoint sets stand for the connected components of pairs. -/
structure Represents (sets : DisjointSets) (n : Nat) (pairs : List (Nat × Nat)) : Prop where
  find_eq_iff : ∀ a < n, ∀ b < n, (sets.find a).1 = (sets.find b).1 ↔ Connected pairs a b
  count_eq : sets.count = (components n pairs).ncard
  groups : ListsComponents sets.groups n pairs

section Components

variable {sets : DisjointSets} {n : Nat} {leader : Nat → Nat} {pairs : List (Nat × Nat)}

theorem setOf_mem_group (joins : Joins leader pairs) (x : Nat) :
    {y | y ∈ (List.range n).filter fun y => leader y = leader x} = component n pairs x := by
  ext y
  rw [Set.mem_ofPred_eq, List.mem_filter, List.mem_range, decide_eq_true_iff, eq_comm, joins]
  rfl

/-- Leaders stand in the order of the smallest numbers that they lead. -/
theorem pairwise_leadersOf {xs : List Nat} (increasing : xs.Pairwise (· < ·)) :
    (leadersOf leader xs).Pairwise fun first second =>
      ∃ least ∈ xs, leader least = first ∧ ∀ x ∈ xs, leader x = second → least < x := by
  induction xs using List.reverseRecOn with
  | nil => exact List.Pairwise.nil
  | append_singleton xs x ih =>
    rcases List.pairwise_append.mp increasing with ⟨early, _, before⟩
    have before_last : ∀ y ∈ xs, y < x :=
      fun y mem => before y mem x (List.mem_singleton_self x)
    have earlier : (leadersOf leader xs).Pairwise fun first second =>
        ∃ least ∈ xs ++ [x], leader least = first ∧
          ∀ y ∈ xs ++ [x], leader y = second → least < y := by
      apply (ih early).imp
      rintro first second ⟨least, mem, leads, smallest⟩
      refine ⟨least, List.mem_append_left _ mem, leads, ?_⟩
      rw [List.forall_mem_append, List.forall_mem_singleton]
      exact ⟨smallest, fun _ => before_last least mem⟩
    by_cases seen : leader x ∈ leadersOf leader xs
    · rwa [leadersOf_append_of_mem seen]
    · rw [leadersOf_append_of_not_mem seen, List.pairwise_append]
      refine ⟨earlier, List.pairwise_singleton _ _, ?_⟩
      intro first mem second last
      cases List.mem_singleton.mp last
      rcases mem_leadersOf.mp mem with ⟨least, inside, leads⟩
      refine ⟨least, List.mem_append_left _ inside, leads, ?_⟩
      rw [List.forall_mem_append, List.forall_mem_singleton]
      constructor
      · intro y y_mem same
        exact absurd (mem_leadersOf.mpr ⟨y, y_mem, same⟩) seen
      · exact fun _ => before_last least inside

theorem Splits.listsComponents (splits : Splits sets n leader) (joins : Joins leader pairs) :
    ListsComponents sets.groups n pairs := by
  have increasing : ∀ group ∈ sets.groups, group.Pairwise (· < ·) := by
    intro group mem
    rcases splits.mem_groups_iff.mp mem with ⟨x, _, rfl⟩
    exact List.pairwise_lt_range.filter _
  have ordered : sets.groups.Pairwise
      fun first second => ∃ least ∈ first, ∀ x ∈ second, least < x := by
    rw [splits.groups_eq, List.pairwise_map]
    apply (pairwise_leadersOf List.pairwise_lt_range).imp
    rintro first second ⟨least, mem, leads, smallest⟩
    refine ⟨least, List.mem_filter.mpr ⟨mem, decide_eq_true leads⟩, ?_⟩
    intro x inside
    rcases List.mem_filter.mp inside with ⟨x_mem, x_leads⟩
    exact smallest x x_mem (of_decide_eq_true x_leads)
  refine ⟨?_, ?_, increasing, ordered⟩
  · intro members
    rw [List.mem_map]
    constructor
    · rintro ⟨group, mem, rfl⟩
      rcases splits.mem_groups_iff.mp mem with ⟨x, bound, rfl⟩
      exact ⟨x, bound, setOf_mem_group joins x⟩
    · rintro ⟨x, bound, rfl⟩
      exact ⟨_, splits.mem_groups_iff.mpr ⟨x, bound, rfl⟩, setOf_mem_group joins x⟩
  · rw [List.Nodup, List.pairwise_map]
    apply ordered.imp
    rintro first second ⟨least, mem, smallest⟩ same
    have inside : least ∈ {x | x ∈ second} := same ▸ mem
    exact Nat.lt_irrefl least (smallest least inside)

theorem length_leadersOf_range (splits : Splits sets n leader) :
    (leadersOf leader (List.range n)).length = sets.count := by
  rw [splits.count_eq, ← List.toFinset_card_of_nodup (nodup_leadersOf leader _)]
  congr 1
  ext root
  rw [List.mem_toFinset, mem_leadersOf, Finset.mem_filter, Finset.mem_range]
  constructor
  · rintro ⟨x, mem, rfl⟩
    exact ⟨splits.leader_lt (List.mem_range.mp mem), splits.leads.leader_leader x⟩
  · rintro ⟨bound, leads⟩
    exact ⟨root, List.mem_range.mpr bound, leads⟩

theorem ListsComponents.ncard_components {groups : List (List Nat)}
    (lists : ListsComponents groups n pairs) : (components n pairs).ncard = groups.length := by
  classical
  have components_eq : components n pairs =
      ((groups.map fun group => {x | x ∈ group}).toFinset : Set (Set Nat)) := by
    ext members
    rw [List.coe_toFinset]
    exact (lists.mem_iff members).symm
  rw [components_eq, Set.ncard_coe_finset, List.toFinset_card_of_nodup lists.once, List.length_map]

theorem Splits.represents (splits : Splits sets n leader) (joins : Joins leader pairs) :
    sets.Represents n pairs where
  find_eq_iff a _ b _ := by
    rw [(splits.find a).1, (splits.find b).1]
    exact joins a b
  count_eq := by
    rw [(splits.listsComponents joins).ncard_components, splits.groups_eq, List.length_map,
      length_leadersOf_range splits]
  groups := splits.listsComponents joins

end Components

/-! ## Calls -/

/-- What disjoint sets can be asked to do. -/
inductive Call where
  | link (a b : Nat)
  | find (x : Nat)
  | groups
  deriving DecidableEq, Repr

namespace Call

/-- The arguments of a call are numbers below `n`. -/
def Within (n : Nat) : Call → Prop
  | link a b => a < n ∧ b < n
  | find x => x < n
  | groups => True

instance (n : Nat) : DecidablePred (Within n)
  | link a b => inferInstanceAs (Decidable (a < n ∧ b < n))
  | find x => inferInstanceAs (Decidable (x < n))
  | groups => inferInstanceAs (Decidable True)

def run (sets : DisjointSets) : Call → DisjointSets
  | link a b => sets.link a b
  | find x => (sets.find x).2
  | groups => sets.listGroups.2

def pair? : Call → Option (Nat × Nat)
  | link a b => some (a, b)
  | find _ | groups => none

end Call

def after (n : Nat) (calls : List Call) : DisjointSets := calls.foldl Call.run (singletons n)

/-- The pairs that calls link, in order. -/
def linkedPairs (calls : List Call) : List (Nat × Nat) := calls.filterMap Call.pair?

/-- Two forests have the same representatives and groups. -/
structure SamePartition (sets other : DisjointSets) : Prop where
  find_eq : ∀ x, (sets.find x).1 = (other.find x).1
  count_eq : sets.count = other.count
  groups_eq : sets.groups = other.groups

section Calls

variable {sets other : DisjointSets} {n : Nat} {leader : Nat → Nat} {pairs : List (Nat × Nat)}

theorem Splits.samePartition (splits : Splits sets n leader) (splits' : Splits other n leader) :
    SamePartition sets other where
  find_eq x := (splits.find x).1.trans (splits'.find x).1.symm
  count_eq := splits.count_eq.trans splits'.count_eq.symm
  groups_eq := splits.groups_eq.trans splits'.groups_eq.symm

theorem Splits.run (splits : Splits sets n leader) (joins : Joins leader pairs) {call : Call}
    (within : call.Within n) :
    ∃ leader', Splits (call.run sets) n leader' ∧ Joins leader' (pairs ++ call.pair?.toList) := by
  cases call with
  | link a b => exact splits.link_joins joins within.1 within.2
  | find x =>
    rw [Call.pair?, Option.toList_none, List.append_nil]
    exact ⟨leader, (splits.find x).2, joins⟩
  | groups =>
    rw [Call.pair?, Option.toList_none, List.append_nil]
    exact ⟨leader, splits.listGroups.2, joins⟩

theorem exists_splits_after {calls : List Call} (within : ∀ call ∈ calls, call.Within n) :
    ∃ leader, Splits (after n calls) n leader ∧ Joins leader (linkedPairs calls) := by
  induction calls using List.reverseRecOn with
  | nil => exact ⟨id, splits_singletons n, joins_nil⟩
  | append_singleton calls call ih =>
    rcases List.forall_mem_append.mp within with ⟨early, last⟩
    rcases ih early with ⟨leader, splits, joins⟩
    rw [after, List.foldl_append, linkedPairs, List.filterMap_append]
    exact splits.run joins (List.forall_mem_singleton.mp last)

/-- Joining two groups leaves one less, and there was one to take away. -/
theorem Splits.count_link (splits : Splits sets n leader) {a b : Nat} (a_lt : a < n) (b_lt : b < n)
    (differ : leader a ≠ leader b) : (sets.link a b).count + 1 = sets.count := by
  have a_leads := splits.leads.leader_leader a
  have b_leads := splits.leads.leader_leader b
  have positive : 0 < sets.count := by
    rw [splits.count_eq, Finset.card_pos]
    refine ⟨leader a, ?_⟩
    rw [Finset.mem_filter, Finset.mem_range]
    exact ⟨splits.leader_lt a_lt, a_leads⟩
  rcases splits.link a_lt b_lt with ⟨same, _⟩ | ⟨_, splits' | splits'⟩
  · exact absurd same differ
  · rw [splits'.count_eq, card_joined a_leads b_leads differ (splits.leader_lt b_lt),
      ← splits.count_eq]
    exact Nat.sub_add_cancel positive
  · rw [splits'.count_eq, card_joined b_leads a_leads differ.symm (splits.leader_lt a_lt),
      ← splits.count_eq]
    exact Nat.sub_add_cancel positive

/-- After any calls, disjoint sets stand for the connected components of the linked pairs.
Both loops of a search end within the numbers, with what the search gives; a link of two
groups takes one off a positive count; and neither a search nor a list of the groups changes
a representative or a group. -/
theorem calls_keep_components (n : Nat) (calls : List Call)
    (within : ∀ call ∈ calls, call.Within n) :
    (after n calls).Represents n (linkedPairs calls) ∧
    (∀ x < n, Climbs (after n calls).parent x ((after n calls).find x).1 ∧
      Compresses ((after n calls).find x).1 x (after n calls).parent
        ((after n calls).find x).2.parent) ∧
    (∀ a < n, ∀ b < n, ((after n calls).find a).1 ≠ ((after n calls).find b).1 →
      ((after n calls).link a b).count + 1 = (after n calls).count) ∧
    (∀ x < n, SamePartition ((after n calls).find x).2 (after n calls)) ∧
    SamePartition (after n calls).listGroups.2 (after n calls) := by
  rcases exists_splits_after within with ⟨leader, splits, joins⟩
  generalize after n calls = sets at *
  refine ⟨splits.represents joins, ?_, ?_, ?_, ?_⟩
  · intro x bound
    have inside : x < sets.parent.size := splits.size_eq.symm ▸ bound
    have enough : (above sets.rank sets.parent.size x).card ≤ sets.parent.size :=
      (Finset.card_filter_le _ _).trans_eq (Finset.card_range _)
    have climbs := splits.leads.climbs inside
    have compresses := splits.leads.compresses inside enough
    rw [← (splits.find x).1] at climbs compresses
    exact ⟨climbs, compresses⟩
  · intro a a_lt b b_lt differ
    rw [(splits.find a).1, (splits.find b).1] at differ
    exact splits.count_link a_lt b_lt differ
  · exact fun x _ => (splits.find x).2.samePartition splits
  · exact splits.listGroups.2.samePartition splits

end Calls

/-- Five numbers, of which some are linked and looked for. -/
def sampleCalls : List Call := [.link 0 1, .link 3 4, .find 4, .groups, .link 1 0, .find 1]

theorem calls_keep_components_sampleCalls :
    (after 5 sampleCalls).groups = [[0, 1], [2], [3, 4]] ∧
      (after 5 sampleCalls).Represents 5 [(0, 1), (3, 4), (1, 0)] ∧
      SamePartition ((after 5 sampleCalls).find 4).2 (after 5 sampleCalls) := by
  have within : ∀ call ∈ sampleCalls, call.Within 5 := by decide
  rcases calls_keep_components 5 sampleCalls within with ⟨represents, _, _, keeps, _⟩
  exact ⟨by decide +kernel, represents, keeps 4 (by decide)⟩

end ModelWeaver.DisjointSets
