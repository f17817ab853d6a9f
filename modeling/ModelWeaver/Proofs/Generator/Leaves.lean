import ModelWeaver.Proofs.Generator.DistinctKeys
import ModelWeaver.Proofs.Model.Literals

/-!
# Every leaf of nested lists is a parameter value

`PARAM` makes a dict of nested lists. The leaves are listed from left to right (`Listing`), and the
key of a leaf is the path of indices that leads to it, counted from the start that is asked for.
Paths increase lexicographically along the listing, so no two are the same, and each leaf is found
under its key. The only obstacle is an index that does not fit in 64 bits.
-/

namespace ModelWeaver.Declare

open Value

/-! ## Leaves and their paths -/

/-- A value that is not a list. -/
def IsLeaf (value : Value) : Prop := ∀ inner, value ≠ .list inner

/-- A leaf of nested lists, and the path of indices that leads to it. -/
inductive LeafAt : List Value → List Nat → Value → Prop
  | here {items : List Value} {i : Nat} {leaf : Value} :
      items[i]? = some leaf → IsLeaf leaf → LeafAt items [i] leaf
  | within {items inner : List Value} {i : Nat} {path : List Nat} {leaf : Value} :
      items[i]? = some (.list inner) → LeafAt inner path leaf → LeafAt items (i :: path) leaf

/-- A list among nested lists, the outermost one included. -/
inductive ListIn : List Value → List Value → Prop
  | self (items : List Value) : ListIn items items
  | within {items inner deeper : List Value} :
      .list inner ∈ items → ListIn inner deeper → ListIn items deeper

/-- The leaves of nested lists from left to right with their paths, if the first item of the
outermost list has the given index. -/
inductive Listing : Nat → List Value → List (List Nat × Value) → Prop
  | nil (index : Nat) : Listing index [] []
  | leaf {index : Nat} {leaf : Value} {items : List Value} {later : List (List Nat × Value)} :
      IsLeaf leaf → Listing (index + 1) items later →
      Listing index (leaf :: items) (([index], leaf) :: later)
  | list {index : Nat} {inner items : List Value} {here later : List (List Nat × Value)} :
      Listing 0 inner here → Listing (index + 1) items later →
      Listing index (.list inner :: items)
        (here.map (fun listed => (index :: listed.1, listed.2)) ++ later)

section Listing

variable {index : Nat} {items : List Value} {listed : List (List Nat × Value)} {leaf : Value}

theorem leafAt_cons_zero_iff {item : Value} {rest : List Nat} :
    LeafAt (item :: items) (0 :: rest) leaf ↔
      (rest = [] ∧ item = leaf ∧ IsLeaf leaf) ∨
        ∃ inner, item = .list inner ∧ LeafAt inner rest leaf := by
  constructor
  · rintro (⟨found, isLeaf⟩ | ⟨found, deeper⟩)
    · cases found
      exact .inl ⟨rfl, rfl, isLeaf⟩
    · cases found
      exact .inr ⟨_, rfl, deeper⟩
  · rintro (⟨rfl, rfl, isLeaf⟩ | ⟨inner, rfl, deeper⟩)
    · exact .here rfl isLeaf
    · exact .within rfl deeper

theorem leafAt_cons_succ_iff {item : Value} {i : Nat} {rest : List Nat} :
    LeafAt (item :: items) ((i + 1) :: rest) leaf ↔ LeafAt items (i :: rest) leaf := by
  constructor
  · rintro (⟨found, isLeaf⟩ | ⟨found, deeper⟩)
    · exact .here found isLeaf
    · exact .within found deeper
  · rintro (⟨found, isLeaf⟩ | ⟨found, deeper⟩)
    · exact .here found isLeaf
    · exact .within found deeper

/-- What is listed are the leaves with their paths. -/
theorem Listing.mem_iff (listing : Listing index items listed) {path : List Nat} :
    (path, leaf) ∈ listed ↔
      ∃ i rest, path = (index + i) :: rest ∧ LeafAt items (i :: rest) leaf := by
  induction listing generalizing path with
  | nil index =>
    refine iff_of_false List.not_mem_nil ?_
    rintro ⟨i, rest, -, ⟨found, -⟩ | ⟨found, -⟩⟩ <;> cases found
  | @leaf index first items later isLeaf _ ih =>
    rw [List.mem_cons, ih]
    constructor
    · rintro (same | ⟨i, rest, rfl, inLater⟩)
      · cases same
        exact ⟨0, [], rfl, .here rfl isLeaf⟩
      · exact ⟨i + 1, rest, by rw [Nat.add_right_comm]; rfl, leafAt_cons_succ_iff.mpr inLater⟩
    · rintro ⟨_ | i, rest, rfl, found⟩
      · rcases leafAt_cons_zero_iff.mp found with ⟨rfl, rfl, -⟩ | ⟨inner, rfl, -⟩
        · exact .inl rfl
        · exact absurd rfl (isLeaf inner)
      · exact .inr ⟨i, rest, by rw [Nat.add_right_comm]; rfl, leafAt_cons_succ_iff.mp found⟩
  | @list index inner items here later _ _ inHere inLater =>
    rw [List.mem_append, inLater, List.mem_map]
    constructor
    · rintro (⟨⟨path, leaf⟩, mem, same⟩ | ⟨i, rest, rfl, found⟩)
      · cases same
        obtain ⟨i, rest, rfl, found⟩ := inHere.mp mem
        rw [Nat.zero_add]
        exact ⟨0, _, rfl, leafAt_cons_zero_iff.mpr (.inr ⟨inner, rfl, found⟩)⟩
      · exact ⟨i + 1, rest, by rw [Nat.add_right_comm]; rfl, leafAt_cons_succ_iff.mpr found⟩
    · rintro ⟨_ | i, rest, rfl, found⟩
      · rcases leafAt_cons_zero_iff.mp found with ⟨-, rfl, isLeaf⟩ | ⟨_, same, deeper⟩
        · exact absurd rfl (isLeaf inner)
        · cases same
          cases rest with
          | nil => cases deeper
          | cons i rest =>
            exact .inl ⟨_, inHere.mpr ⟨i, rest, by rw [Nat.zero_add], deeper⟩, rfl⟩
      · exact .inr ⟨i, rest, by rw [Nat.add_right_comm]; rfl, leafAt_cons_succ_iff.mp found⟩

theorem Listing.mem_iff_leafAt (listing : Listing 0 items listed) {path : List Nat} :
    (path, leaf) ∈ listed ↔ LeafAt items path leaf := by
  simp only [listing.mem_iff, Nat.zero_add]
  constructor
  · rintro ⟨i, rest, rfl, found⟩
    exact found
  · intro found
    cases path with
    | nil => cases found
    | cons i rest => exact ⟨i, rest, rfl, found⟩

/-- The paths increase lexicographically. -/
theorem Listing.increases (listing : Listing index items listed) :
    listed.Pairwise fun first second => List.Lex (· < ·) first.1 second.1 := by
  induction listing with
  | nil index => exact List.Pairwise.nil
  | @leaf index first items later _ listing ih =>
    refine List.pairwise_cons.mpr ⟨?_, ih⟩
    rintro ⟨path, leaf⟩ mem
    obtain ⟨i, rest, rfl, -⟩ := listing.mem_iff.mp mem
    exact .rel (by omega)
  | @list index inner items here later _ listing inHere inLater =>
    refine List.pairwise_append.mpr ⟨List.pairwise_map.mpr ?_, inLater, ?_⟩
    · exact inHere.imp fun less => .cons less
    · rintro first inFirst ⟨path, leaf⟩ mem
      obtain ⟨inner, -, rfl⟩ := List.mem_map.mp inFirst
      obtain ⟨i, rest, rfl, -⟩ := listing.mem_iff.mp mem
      exact .rel (by omega)

theorem Listing.eq_of_flat (listing : Listing index items listed)
    (flat : ∀ item ∈ items, IsLeaf item) :
    listed = (items.zipIdx index).map fun entry => ([entry.2], entry.1) := by
  induction listing with
  | nil index => rfl
  | leaf _ _ ih =>
    rw [ih (List.forall_mem_cons.mp flat).2]
    rfl
  | list _ _ _ _ => exact absurd rfl ((List.forall_mem_cons.mp flat).1 _)

end Listing

/-! ## Indices that do not fit -/

/-- Some list has an index that does not fit in 64 bits when it is counted from `start`. -/
def Overflows (start : Int) (items : List Value) : Prop :=
  ∃ inner, ListIn items inner ∧ ∃ i < inner.length, 0x7FFFFFFFFFFFFFFF < start + i

/-- The same, if the first item of the outermost list has the given index. -/
def OverflowsFrom (start : Int) (index : Nat) (items : List Value) : Prop :=
  (∃ i < items.length, 0x7FFFFFFFFFFFFFFF < start + (index + i : Nat)) ∨
    ∃ inner, .list inner ∈ items ∧ Overflows start inner

section Overflows

variable {start : Int} {index : Nat} {items : List Value}

theorem overflows_iff : Overflows start items ↔ OverflowsFrom start 0 items := by
  constructor
  · rintro ⟨inner, _ | ⟨mem, deeper⟩, i, less, large⟩
    · exact .inl ⟨i, less, by rwa [Nat.zero_add]⟩
    · exact .inr ⟨_, mem, inner, deeper, i, less, large⟩
  · rintro (⟨i, less, large⟩ | ⟨inner, mem, deeper, within, large⟩)
    · exact ⟨items, .self items, i, less, by rwa [Nat.zero_add] at large⟩
    · exact ⟨deeper, .within mem within, large⟩

theorem not_overflowsFrom_nil : ¬OverflowsFrom start index [] := by
  rintro (⟨i, less, -⟩ | ⟨inner, mem, -⟩)
  · exact absurd less (Nat.not_lt_zero i)
  · exact absurd mem List.not_mem_nil

theorem overflowsFrom_cons_iff {item : Value} :
    OverflowsFrom start index (item :: items) ↔
      0x7FFFFFFFFFFFFFFF < start + index ∨
        (∃ inner, item = .list inner ∧ Overflows start inner) ∨
        OverflowsFrom start (index + 1) items := by
  simp only [OverflowsFrom, List.mem_cons, List.length_cons]
  constructor
  · rintro (⟨_ | i, less, large⟩ | ⟨inner, rfl | mem, within⟩)
    · exact .inl large
    · exact .inr (.inr (.inl ⟨i, by omega, by omega⟩))
    · exact .inr (.inl ⟨inner, rfl, within⟩)
    · exact .inr (.inr (.inr ⟨inner, mem, within⟩))
  · rintro (large | ⟨inner, rfl, within⟩ | ⟨i, less, large⟩ | ⟨inner, mem, within⟩)
    · exact .inl ⟨0, by omega, large⟩
    · exact .inr ⟨inner, .inl rfl, within⟩
    · exact .inl ⟨i + 1, by omega, by omega⟩
    · exact .inr ⟨inner, .inr mem, within⟩

theorem LeafAt.fits {path : List Nat} {leaf : Value} (found : LeafAt items path leaf)
    (fit : ¬Overflows start items) : ∀ i ∈ path, start + i ≤ 0x7FFFFFFFFFFFFFFF := by
  induction found with
  | @here items i leaf at_i _ =>
    refine List.forall_mem_singleton.mpr (Int.not_lt.mp fun large => fit ?_)
    exact ⟨items, .self items, i, (List.getElem?_eq_some_iff.mp at_i).1, large⟩
  | @within items inner i path leaf at_i _ ih =>
    refine List.forall_mem_cons.mpr ⟨Int.not_lt.mp fun large => fit ?_,
      ih fun large => fit ?_⟩
    · exact ⟨items, .self items, i, (List.getElem?_eq_some_iff.mp at_i).1, large⟩
    · obtain ⟨deeper, isWithin, large⟩ := large
      exact ⟨deeper, .within (List.mem_of_getElem? at_i) isWithin, large⟩

end Overflows

/-! ## Keys -/

/-- A key stands for a path whose indices are counted from `start`: one index is a number, and
otherwise there is a tuple of them. -/
inductive Encodes (start : Int) : List Nat → Value → Prop
  | number {i : Nat} {n : Int64} : n.toInt = start + i → Encodes start [i] (.int n)
  | tuple {path : List Nat} {indices : List Int64} : path.length ≠ 1 →
      indices.map Int64.toInt = path.map (fun (i : Nat) => start + i) →
      Encodes start path (.tuple (indices.map .int))

/-- The indices of a path as words, counted from `start`. -/
def shifted (start : Int) (path : List Nat) : List Int64 :=
  path.map fun (i : Nat) => Int64.ofInt (start + i)

/-- The entry of a listed leaf, in a list at the given path. -/
def entryOf (start : Int) (path : List Int64) (listed : List Nat × Value) : Value × Value :=
  (indexKey (path ++ shifted start listed.1), listed.2)

section Keys

variable {start : Int} {path : List Nat}

section Shifted

variable (low : -0x8000000000000000 ≤ start) (fits : ∀ i ∈ path, start + i ≤ 0x7FFFFFFFFFFFFFFF)
include low fits

theorem map_toInt_shifted :
    (shifted start path).map Int64.toInt = path.map fun (i : Nat) => start + i := by
  rw [shifted, List.map_map]
  refine List.map_congr_left fun i mem => ?_
  have high := fits i mem
  exact Int64.toInt_ofInt_of_le (by omega) (by omega)

theorem eq_of_shifted_eq {other : List Nat} (fits' : ∀ i ∈ other, start + i ≤ 0x7FFFFFFFFFFFFFFF)
    (same : shifted start path = shifted start other) : path = other := by
  have sums := congrArg (List.map Int64.toInt) same
  rw [map_toInt_shifted low fits, map_toInt_shifted low fits'] at sums
  refine (List.map_inj_right fun i j same => ?_).mp sums
  omega

theorem encodes_indexKey : Encodes start path (indexKey (shifted start path)) := by
  have indices := map_toInt_shifted low fits
  match path with
  | [] => exact .tuple nofun rfl
  | [i] => exact .number (List.cons.inj indices).1
  | i :: j :: path => exact .tuple (fun single => by cases single) indices

end Shifted

theorem indexKey_of_length_ne_one {indices : List Int64} (several : indices.length ≠ 1) :
    indexKey indices = .tuple (indices.map .int) := by
  match indices with
  | [n] => exact absurd rfl several
  | [] | _ :: _ :: _ => rfl

theorem Encodes.eq_indexKey {key : Value} (encodes : Encodes start path key) :
    key = indexKey (shifted start path) := by
  cases encodes with
  | @number i n n_eq =>
    have word : Int64.ofInt (start + i) = n := by rw [← n_eq, Int64.ofInt_toInt]
    exact congrArg Value.int word.symm
  | @tuple path indices several indices_eq =>
    have words : shifted start path = indices := by
      calc shifted start path
          = (path.map fun (i : Nat) => start + i).map Int64.ofInt := by
            rw [List.map_map]
            rfl
        _ = (indices.map Int64.toInt).map Int64.ofInt := by rw [indices_eq]
        _ = indices := by simp [Function.comp_def]
    have length_eq : indices.length = path.length := by rw [← words, shifted, List.length_map]
    rw [words, indexKey_of_length_ne_one (length_eq ▸ several)]

theorem plain_indexKey (indices : List Int64) : (indexKey indices).Plain := by
  have ints : ∀ index ∈ indices.map Value.int, index.Plain :=
    List.forall_mem_map.mpr fun _ _ => everywhere_of_parts_eq_nil trivial rfl
  match indices with
  | [n] => exact everywhere_of_parts_eq_nil trivial rfl
  | [] | _ :: _ :: _ => exact everywhere_tuple.mpr ⟨trivial, ints⟩

end Keys

/-! ## The dict of the leaves -/

section Dict

variable {start : Int}

theorem leaves_leaf {leaf : Value} (isLeaf : IsLeaf leaf) (path : List Value) (index : Nat)
    (items : List Value) :
    leaves start path index (leaf :: items) = do
      let key ← Snippet.exactly (start + index)
      let later ← leaves start path (index + 1) items
      return (pathKey (path ++ [key]), leaf) :: later := by
  rw [leaves]
  cases leaf with
  | list inner => exact absurd rfl (isLeaf inner)
  | _ => rfl

theorem leaves_list (inner : List Value) (path : List Value) (index : Nat) (items : List Value) :
    leaves start path index (.list inner :: items) = do
      let key ← Snippet.exactly (start + index)
      let here ← leaves start (path ++ [key]) 0 inner
      let later ← leaves start path (index + 1) items
      return here ++ later := by
  rw [leaves]

theorem exactly_of_fits (low : -0x8000000000000000 ≤ start) {index : Nat}
    (high : start + index ≤ 0x7FFFFFFFFFFFFFFF) :
    Snippet.exactly (start + index) = .ok (.int (Int64.ofInt (start + index))) := by
  rw [Snippet.exactly, Number.int64?, if_pos ⟨by omega, by omega⟩]

theorem exactly_of_large {n : Int} (large : 0x7FFFFFFFFFFFFFFF < n) :
    Snippet.exactly n = .error .overflow := by
  rw [Snippet.exactly, Number.int64?, if_neg fun fits => by have := fits.2; omega]

/-- The leaves are listed under their keys, unless an index does not fit. -/
structure Indexes (start : Int) (path : List Int64) (index : Nat) (items : List Value) : Prop where
  fails : OverflowsFrom start index items →
    leaves start (path.map .int) index items = .error .overflow
  lists : ¬OverflowsFrom start index items → ∃ listed, Listing index items listed ∧
    leaves start (path.map .int) index items = .ok (listed.map (entryOf start path))

variable {path : List Int64} {index : Nat} {items : List Value}

theorem Indexes.nil : Indexes start path index [] where
  fails overflows := absurd overflows not_overflowsFrom_nil
  lists _ := ⟨[], .nil index, by rw [leaves]; rfl⟩

theorem Indexes.large {item : Value} (large : 0x7FFFFFFFFFFFFFFF < start + index) :
    Indexes start path index (item :: items) where
  fails _ := by
    rw [leaves, exactly_of_large large]
    rfl
  lists fit := absurd (overflowsFrom_cons_iff.mpr (.inl large)) fit

theorem Indexes.leaf (low : -0x8000000000000000 ≤ start)
    (fits : ¬0x7FFFFFFFFFFFFFFF < start + index) {leaf : Value} (isLeaf : IsLeaf leaf)
    (after : Indexes start path (index + 1) items) : Indexes start path index (leaf :: items) where
  fails overflows := by
    rcases overflowsFrom_cons_iff.mp overflows with large | ⟨inner, isList, -⟩ | later
    · exact absurd large fits
    · exact absurd isList (isLeaf inner)
    · rw [leaves_leaf isLeaf, exactly_of_fits low (Int.not_lt.mp fits), after.fails later]
      rfl
  lists fit := by
    obtain ⟨listed, listing, returned⟩ :=
      after.lists fun later => fit (overflowsFrom_cons_iff.mpr (.inr (.inr later)))
    refine ⟨([index], leaf) :: listed, .leaf isLeaf listing, ?_⟩
    rw [leaves_leaf isLeaf, exactly_of_fits low (Int.not_lt.mp fits), returned, List.map_cons,
      entryOf, indexKey, List.map_append]
    rfl

theorem Indexes.list (low : -0x8000000000000000 ≤ start)
    (fits : ¬0x7FFFFFFFFFFFFFFF < start + index) {inner : List Value}
    (inside : Indexes start (path ++ [Int64.ofInt (start + index)]) 0 inner)
    (after : Indexes start path (index + 1) items) :
    Indexes start path index (.list inner :: items) := by
  have entered : leaves start (path.map .int) index (.list inner :: items) = do
      let here ← leaves start ((path ++ [Int64.ofInt (start + index)]).map .int) 0 inner
      let later ← leaves start (path.map .int) (index + 1) items
      return here ++ later := by
    rw [leaves_list, exactly_of_fits low (Int.not_lt.mp fits), List.map_append]
    rfl
  constructor
  · intro overflows
    rw [entered]
    by_cases overflowsInside : OverflowsFrom start 0 inner
    · rw [inside.fails overflowsInside]
      rfl
    · obtain ⟨here, -, returned⟩ := inside.lists overflowsInside
      rw [returned]
      rcases overflowsFrom_cons_iff.mp overflows with large | ⟨_, same, within⟩ | later
      · exact absurd large fits
      · cases same
        exact absurd (overflows_iff.mp within) overflowsInside
      · rw [after.fails later]
        rfl
  · intro fit
    obtain ⟨here, inHere, returned⟩ := inside.lists fun within =>
      fit (overflowsFrom_cons_iff.mpr (.inr (.inl ⟨inner, rfl, overflows_iff.mpr within⟩)))
    obtain ⟨later, inLater, returned'⟩ :=
      after.lists fun later => fit (overflowsFrom_cons_iff.mpr (.inr (.inr later)))
    refine ⟨_, .list inHere inLater, ?_⟩
    have entries_eq : here.map (entryOf start (path ++ [Int64.ofInt (start + index)])) =
        (here.map fun listed => (index :: listed.1, listed.2)).map (entryOf start path) := by
      rw [List.map_map]
      refine List.map_congr_left fun listed _ => ?_
      simp only [entryOf, shifted, Function.comp_apply, List.map_cons, List.append_assoc,
        List.singleton_append]
    rw [entered, returned, returned', entries_eq, List.map_append]
    rfl

/-- One step for each item, and the steps into inner lists. -/
theorem indexes (low : -0x8000000000000000 ≤ start) (path : List Int64) (index : Nat)
    (items : List Value) : Indexes start path index items := by
  match items with
  | [] => exact .nil
  | item :: items =>
    by_cases large : 0x7FFFFFFFFFFFFFFF < start + index
    · exact .large large
    · have after := indexes low path (index + 1) items
      cases item with
      | list inner => exact .list low large (indexes low _ 0 inner) after
      | _ => exact .leaf low large nofun after
termination_by sizeOf items

theorem Listing.keysDiffer {listed : List (List Nat × Value)} (listing : Listing 0 items listed)
    (low : -0x8000000000000000 ≤ start) (fit : ¬Overflows start items) :
    KeysDiffer (listed.map (entryOf start [])) := by
  refine List.pairwise_map.mpr (listing.increases.imp_of_mem ?_)
  intro first second inFirst inSecond less
  refine Bool.eq_false_iff.mpr fun equal => ?_
  have same := eq_of_shifted_eq low ((listing.mem_iff_leafAt.mp inFirst).fits fit)
    ((listing.mem_iff_leafAt.mp inSecond).fits fit) (eq_of_indexKey_equals equal)
  rw [same] at less
  exact List.lex_irrefl Nat.lt_irrefl _ less

/-- From nested lists, `PARAM` makes a dict with one entry for each leaf, in the order of their
paths. The key of a leaf is its path, with indices counted from `start`, and the leaf is found
under it. This fails only if there is an index that does not fit in 64 bits. -/
theorem indexed_keeps_leaves (items : List Value) (start : Int64) :
    (∀ value, indexed (.list items) start = .ok value →
      ∃ (paths : List (List Nat)) (entries : Entries), value = .dict entries ∧
        paths.Pairwise (List.Lex (· < ·)) ∧
        (∀ path, path ∈ paths ↔ ∃ leaf, LeafAt items path leaf) ∧
        List.Forall₂ (fun path entry =>
          Encodes start.toInt path entry.1 ∧ LeafAt items path entry.2) paths entries ∧
        KeysDiffer entries ∧
        ∀ path leaf key, LeafAt items path leaf → Encodes start.toInt path key →
          value.get? key = some leaf) ∧
    (indexed (.list items) start = .error .overflow ↔
      ∃ inner, ListIn items inner ∧ ∃ i < inner.length, 0x7FFFFFFFFFFFFFFF < start.toInt + i) ∧
    ∀ failure, indexed (.list items) start = .error failure → failure = .overflow := by
  have low := start.le_toInt
  have indexes := indexes low [] 0 items
  have unfolded : indexed (.list items) start = do return .dict (← leaves start.toInt [] 0 items) :=
    rfl
  change _ ∧ (_ ↔ Overflows start.toInt items) ∧ _
  by_cases overflows : Overflows start.toInt items
  · have failed : indexed (.list items) start = .error .overflow := by
      rw [unfolded, ← List.map_nil, indexes.fails (overflows_iff.mp overflows)]
      rfl
    rw [failed]
    exact ⟨nofun, iff_of_true rfl overflows, fun failure same => (Except.error.inj same).symm⟩
  · obtain ⟨listed, listing, returned⟩ := indexes.lists (mt overflows_iff.mpr overflows)
    have succeeded : indexed (.list items) start =
        .ok (.dict (listed.map (entryOf start.toInt []))) := by
      rw [unfolded, ← List.map_nil, returned]
      rfl
    have differ := listing.keysDiffer low overflows
    rw [succeeded]
    refine ⟨?_, iff_of_false nofun overflows, nofun⟩
    rintro _ ⟨⟩
    refine ⟨listed.map Prod.fst, _, rfl, List.pairwise_map.mpr listing.increases, ?_, ?_, differ,
      ?_⟩
    · intro path
      simp only [List.mem_map, Prod.exists, exists_and_right, exists_eq_right,
        listing.mem_iff_leafAt]
    · rw [List.forall₂_map_left_iff, List.forall₂_map_right_iff, List.forall₂_same]
      intro leaf mem
      have found := listing.mem_iff_leafAt.mp mem
      exact ⟨encodes_indexKey low (found.fits overflows), found⟩
    · intro path leaf key found encodes
      have mem := List.mem_map_of_mem (f := entryOf start.toInt [])
        (listing.mem_iff_leafAt.mpr found)
      rw [encodes.eq_indexKey]
      exact lookup?_of_mem differ mem (equals_self (plain_indexKey _).discrete)

end Dict

end ModelWeaver.Declare
