import ModelWeaver.Proofs.Generator.Leaves

/-!
# Numbered elements

`enumerate` pairs the elements of a value with numbers that count up from a start. `PARAM` counts
the items of a list in the same way, and refuses a number that does not fit in 64 bits. `enumerate`
refuses nothing: it panics at such a number. So both number alike as long as the last number fits,
and beyond that `enumerate` ends the program.
-/

namespace ModelWeaver.Snippet.Function

open Number

/-- The `i`-th of the pairs holds the number `start + i` and the `i`-th item. -/
def NumberedFrom (start : Int) (items pairs : List Value) : Prop :=
  pairs.length = items.length ∧
    ∀ (i : Nat) (item : Value), items[i]? = some item →
      ∃ n : Int64, n.toInt = start + i ∧ pairs[i]? = some (.tuple [.int n, item])

/-- The number of the last item fits in 64 bits, if there is one. -/
def LastFits (start : Int) (items : List Value) : Prop :=
  items = [] ∨ FitsInt64 (start + items.length - 1)

instance (start : Int) (items : List Value) : Decidable (LastFits start items) :=
  inferInstanceAs (Decidable (_ ∨ _))

variable {start : Int64} {items : List Value}

theorem lastFits_iff : LastFits start.toInt items ↔
    ∀ i < items.length, start.toInt + i ≤ 0x7FFFFFFFFFFFFFFF := by
  have low := start.le_toInt
  constructor
  · rintro (rfl | fits) i less
    · exact absurd less (Nat.not_lt_zero i)
    · have := fits.2
      omega
  · intro fits
    rcases List.eq_nil_or_concat items with rfl | ⟨front, last, rfl⟩
    · exact .inl rfl
    · have := fits front.length (by simp)
      refine .inr ⟨?_, ?_⟩ <;> simp <;> omega

/-! ## Counting or panicking -/

/-- The pairs of items and the numbers that count them. -/
def pairsFrom (start : Int) (items : List Value) : List Value :=
  items.zipIdx.map fun (item, i) => .tuple [.int (Int64.ofInt (start + i)), item]

theorem numbered_of_lastFits (fits : LastFits start.toInt items) :
    numbered start items = .ok (pairsFrom start.toInt items) := by
  have low := start.le_toInt
  rw [numbered, mapM_eq_ok_iff, pairsFrom, List.map_map]
  refine List.map_congr_left fun (item, i) mem => ?_
  have high := lastFits_iff.mp fits i (List.snd_lt_of_mem_zipIdx mem)
  have fits : int64? (start.toInt + i) = some (Int64.ofInt (start.toInt + i)) :=
    if_pos ⟨by omega, by omega⟩
  dsimp only
  rw [fits]
  rfl

/-- The first number that does not fit ends the count. -/
theorem numbered_of_not_lastFits (large : ¬LastFits start.toInt items) :
    numbered start items = .error (.panic .addition) := by
  cases counted : numbered start items with
  | error failure =>
    obtain ⟨⟨item, i⟩, -, failed⟩ := exists_of_mapM_eq_error counted
    dsimp only at failed
    cases fits : int64? (start.toInt + i) with
    | none =>
      rw [fits] at failed
      cases failed
      rfl
    | some number =>
      rw [fits] at failed
      cases failed
  | ok pairs =>
    rw [lastFits_iff] at large
    refine absurd (fun i less => ?_) large
    have mem : (items[i], i) ∈ items.zipIdx := List.mk_mem_zipIdx_iff_getElem?.mpr
      (List.getElem?_eq_getElem less)
    obtain ⟨pair, computed⟩ := exists_mapM_eq_ok_iff.mp ⟨pairs, counted⟩ _ mem
    dsimp only at computed
    cases fits : int64? (start.toInt + i) with
    | none =>
      rw [fits] at computed
      cases computed
    | some number =>
      have high := number.toInt_lt
      rw [int64?_eq_some_iff.mp fits] at high
      omega

theorem numberedFrom_pairsFrom (fits : LastFits start.toInt items) :
    NumberedFrom start.toInt items (pairsFrom start.toInt items) := by
  have low := start.le_toInt
  rw [lastFits_iff] at fits
  refine ⟨by rw [pairsFrom, List.length_map, List.length_zipIdx], fun i item found => ?_⟩
  have high := fits i (List.getElem?_eq_some_iff.mp found).1
  refine ⟨_, Int64.toInt_ofInt_of_le (by omega) (by omega), ?_⟩
  rw [pairsFrom, List.getElem?_map, List.getElem?_zipIdx, found]
  simp

theorem call_enumerate {value : Value} (iterable : value.elements = .ok items) (start : Int64) :
    call .enumerate ⟨[value, .int start], []⟩ = (numbered start items).map .list := by
  cases value with
  | str text | list items | tuple items | dict entries =>
    cases iterable
    rw [call]
    change (((numbered start _ >>= fun pairs => pure (pairs, _)) >>= fun read =>
      pure (Value.list read.1, read.2)) >>= fun read => pure read.1) = _
    cases numbered start _ <;> rfl
  | _ => cases iterable

/-! ## Words that are checked -/

open Declare

theorem indexed_of_not_lastFits (large : ¬LastFits start.toInt items) :
    indexed (.list items) start = .error .overflow := by
  have overflows : OverflowsFrom start.toInt 0 items := by
    rw [lastFits_iff] at large
    obtain ⟨i, notAll⟩ := not_forall.mp large
    obtain ⟨less, beyond⟩ := Classical.not_imp.mp notAll
    exact .inl ⟨i, less, by omega⟩
  have failed := (indexes start.le_toInt [] 0 items).fails overflows
  change (do return Value.dict (← leaves start.toInt [] 0 items)) = _
  rw [← List.map_nil, failed]
  rfl

theorem indexed_of_lastFits (fits : LastFits start.toInt items)
    (flat : ∀ item ∈ items, IsLeaf item) :
    ∃ entries, indexed (.list items) start = .ok (.dict entries) ∧
      pairsFrom start.toInt items = entries.map fun entry => .tuple [entry.1, entry.2] := by
  have small : ¬OverflowsFrom start.toInt 0 items := by
    rintro (⟨i, less, large⟩ | ⟨inner, mem, -⟩)
    · have := lastFits_iff.mp fits i less
      omega
    · exact flat _ mem inner rfl
  obtain ⟨listed, listing, returned⟩ := (indexes start.le_toInt [] 0 items).lists small
  refine ⟨listed.map (entryOf start.toInt []), ?_, ?_⟩
  · change (do return Value.dict (← leaves start.toInt [] 0 items)) = _
    rw [← List.map_nil, returned]
    rfl
  · rw [listing.eq_of_flat flat, List.map_map, List.map_map, pairsFrom]
    rfl

/-- If the number of the last element fits in 64 bits, `enumerate` gives the `i`-th element the
number `start + i`. `PARAM` counts the elements alike, if none of them is a list. Otherwise
`enumerate` panics, where `PARAM` refuses to count the same elements from the same start. -/
theorem enumerate_counts_or_panics (value : Value) (items : List Value) (start : Int64)
    (iterable : value.elements = .ok items) :
    (LastFits start.toInt items →
      ∃ pairs, call .enumerate ⟨[value, .int start], []⟩ = .ok (.list pairs) ∧
        NumberedFrom start.toInt items pairs ∧
        ((∀ item ∈ items, IsLeaf item) →
          ∃ entries, indexed (.list items) start = .ok (.dict entries) ∧
            pairs = entries.map fun entry => .tuple [entry.1, entry.2])) ∧
    (¬LastFits start.toInt items →
      call .enumerate ⟨[value, .int start], []⟩ = .error (.panic .addition) ∧
        indexed (.list items) start = .error .overflow) := by
  rw [call_enumerate iterable]
  constructor
  · intro fits
    refine ⟨pairsFrom start.toInt items, ?_, numberedFrom_pairsFrom fits,
      indexed_of_lastFits fits⟩
    rw [numbered_of_lastFits fits]
    rfl
  · intro large
    refine ⟨?_, indexed_of_not_lastFits large⟩
    rw [numbered_of_not_lastFits large]
    rfl

/-- Two characters, counted up to the greatest integer. -/
theorem enumerate_counts_or_panics_upToGreatest :
    let items := [Value.str "a", Value.str "b"]
    (Value.str "ab").elements = .ok items ∧
      ∃ pairs, call .enumerate ⟨[.str "ab", .int (Int64.maxValue - 1)], []⟩ = .ok (.list pairs) ∧
        NumberedFrom 0x7FFFFFFFFFFFFFFE items pairs ∧
        ∃ entries, indexed (.list items) (Int64.maxValue - 1) = .ok (.dict entries) ∧
          pairs = entries.map fun entry => .tuple [entry.1, entry.2] := by
  intro items
  have iterable : (Value.str "ab").elements = .ok items := rfl
  have fits : LastFits (Int64.maxValue - 1).toInt items := by decide
  have flat : ∀ item ∈ items, IsLeaf item := by
    intro item mem inner
    rcases List.mem_pair.mp mem with rfl | rfl <;> nofun
  obtain ⟨pairs, called, right, alike⟩ :=
    (enumerate_counts_or_panics (.str "ab") items (Int64.maxValue - 1) iterable).1 fits
  exact ⟨iterable, pairs, called, right, alike flat⟩

/-- There is no number after the greatest integer: `enumerate` panics, where `PARAM` refuses. -/
theorem enumerate_panics_after_greatest :
    call .enumerate ⟨[.list [.str "a", .str "b"], .int Int64.maxValue], []⟩ =
        .error (.panic .addition) ∧
      indexed (.list [.str "a", .str "b"]) Int64.maxValue = .error .overflow :=
  ⟨rfl, indexed_of_not_lastFits (by decide)⟩

end ModelWeaver.Snippet.Function
