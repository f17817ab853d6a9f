/-!
# Disjoint sets

A partition of the numbers below a bound into groups that can be joined. Each
group is a tree of parents with a representative at its root. Trees are joined by
rank, and looking for a representative shortens the path to it.
-/

namespace ModelWeaver

/-- A partition of the numbers below `parent.size`. -/
structure DisjointSets where
  /-- The parent of each number; a representative is its own. -/
  parent : Array Nat
  /-- A bound on the height of the tree under each number. -/
  rank : Array Nat
  count : Nat
  deriving Repr, Inhabited

namespace DisjointSets

/-- Every number below `n` in a group of its own. -/
def singletons (n : Nat) : DisjointSets where
  parent := Array.range n
  rank := Array.replicate n 0
  count := n

/-- The parent of a number. -/
def parentOf (parent : Array Nat) (x : Nat) : Nat := parent.getD x x

/-- Follow parents up to a representative, for at most `steps` steps. -/
def climb (parent : Array Nat) : (steps x : Nat) → Nat
  | 0, x => x
  | steps + 1, x =>
    let next := parentOf parent x
    if next = x then x else climb parent steps next

/-- The representative of a number. A path has fewer steps than there are
numbers. -/
def root (sets : DisjointSets) (x : Nat) : Nat := climb sets.parent sets.parent.size x

/-- Hang all numbers on the path from `x` directly under the representative, for
at most `steps` steps. -/
def compress (root : Nat) : (steps x : Nat) → (parent : Array Nat) → Array Nat
  | 0, _, parent => parent
  | steps + 1, x, parent =>
    let next := parentOf parent x
    if next = root then parent
    else compress root steps next (parent.setIfInBounds x root)

/-- The representative of a number, with the path to it made shorter. -/
def find (sets : DisjointSets) (x : Nat) : Nat × DisjointSets :=
  let root := sets.root x
  (root, { sets with parent := compress root sets.parent.size x sets.parent })

/-- Join the groups of two numbers. The representative of greater rank stays one;
if the ranks are equal, the first. -/
def link (sets : DisjointSets) (a b : Nat) : DisjointSets :=
  let (rootA, sets) := sets.find a
  let (rootB, sets) := sets.find b
  if rootA = rootB then sets
  else
    let rankA := sets.rank.getD rootA 0
    let rankB := sets.rank.getD rootB 0
    let count := sets.count - 1
    if rankA < rankB then
      { sets with parent := sets.parent.setIfInBounds rootA rootB, count }
    else if rankB < rankA then
      { sets with parent := sets.parent.setIfInBounds rootB rootA, count }
    else
      { parent := sets.parent.setIfInBounds rootB rootA
        rank := sets.rank.setIfInBounds rootA (rankA + 1)
        count }

/-- Put a number into the group under its representative, which is opened if there is
none yet. -/
def place (root x : Nat) : List (Nat × List Nat) → List (Nat × List Nat)
  | [] => [(root, [x])]
  | (other, members) :: groups =>
    if other = root then (other, members ++ [x]) :: groups
    else (other, members) :: place root x groups

/-- Look for the representative of a number and put the number into its group. -/
def gather (state : List (Nat × List Nat) × DisjointSets) (x : Nat) :
    List (Nat × List Nat) × DisjointSets :=
  let (root, sets) := state.2.find x
  (place root x state.1, sets)

/-- The groups in the order of their smallest members, each in increasing order. All paths are
made shorter on the way. -/
def listGroups (sets : DisjointSets) : List (List Nat) × DisjointSets :=
  let (groups, sets) := (List.range sets.parent.size).foldl gather ([], sets)
  (groups.map Prod.snd, sets)

/-- The groups, without the sets that are left. -/
def groups (sets : DisjointSets) : List (List Nat) := sets.listGroups.1

end DisjointSets

end ModelWeaver
