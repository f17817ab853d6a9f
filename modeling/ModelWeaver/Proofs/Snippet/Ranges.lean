import Mathlib.Data.Rat.Floor
import Mathlib.Tactic.FieldSimp
import Mathlib.Tactic.Linarith
import ModelWeaver.Snippet.Function

/-!
# Ranges count in equal steps

A range adds its numbers one by one until the end is reached, or until the next number would not
fit in 64 bits. What is left to add is counted by `rangeLength`: with every step it is one less,
and it is zero at the end. A number that does not fit lies beyond any end, so that a range that
stops there is complete.
-/

namespace ModelWeaver.Snippet.Function

open Number

/-! ## Counting -/

/-- How many numbers there are from `start` in steps of `step` before `stop`. -/
def rangeLength (start stop step : Int) : Nat :=
  (max 0 ⌈((stop - start : Int) : ℚ) / step⌉).toNat

section Counting

variable {start stop step : Int}

theorem rangeLength_of_before (before : 0 < step ∧ start < stop ∨ step < 0 ∧ stop < start) :
    rangeLength start stop step = rangeLength (start + step) stop step + 1 := by
  have nonzero : (step : ℚ) ≠ 0 := by
    rw [Int.cast_ne_zero]
    omega
  have ahead : 0 < ((stop - start : Int) : ℚ) / step := by
    rcases before with ⟨up, less⟩ | ⟨down, less⟩
    · exact div_pos (Int.cast_pos.mpr (by omega)) (Int.cast_pos.mpr up)
    · exact div_pos_of_neg_of_neg (Int.cast_lt_zero.mpr (by omega)) (Int.cast_lt_zero.mpr down)
  have next : ((stop - (start + step) : Int) : ℚ) / step =
      ((stop - start : Int) : ℚ) / step - 1 := by
    rw [← Int.sub_sub, Int.cast_sub _ step, sub_div, div_self nonzero]
  have positive : 0 < ⌈((stop - start : Int) : ℚ) / step⌉ := Int.ceil_pos.mpr ahead
  rw [rangeLength, rangeLength, next, Int.ceil_sub_one]
  omega

theorem rangeLength_of_not_before
    (notBefore : ¬(0 < step ∧ start < stop ∨ step < 0 ∧ stop < start)) :
    rangeLength start stop step = 0 := by
  have behind : ((stop - start : Int) : ℚ) / step ≤ 0 := by
    rcases Int.lt_trichotomy step 0 with down | rfl | up
    · exact div_nonpos_of_nonneg_of_nonpos (Int.cast_nonneg (by omega))
        (Int.cast_nonpos.mpr down.le)
    · rw [Int.cast_zero, div_zero]
    · exact div_nonpos_of_nonpos_of_nonneg (Int.cast_nonpos.mpr (by omega)) (Int.cast_nonneg up.le)
  rw [rangeLength, max_eq_left (Int.ceil_le.mpr (by simpa using behind))]
  rfl

end Counting

/-! ## The loop -/

section Loop

variable {stop step current : Int64}

theorem inRange_iff :
    InRange stop step current ↔
      0 < step.toInt ∧ current.toInt < stop.toInt ∨
        step.toInt < 0 ∧ stop.toInt < current.toInt := by
  simp only [InRange, Int64.lt_iff_toInt_lt, Int64.toInt_zero]

theorem rangeLength_of_overflow (large : addInt64? current step = none) :
    rangeLength (current.toInt + step.toInt) stop.toInt step.toInt = 0 := by
  rw [addInt64?_eq_int64?, int64?_eq_none_iff, FitsInt64] at large
  have low := stop.le_toInt
  have high := stop.toInt_lt
  have low' := current.le_toInt
  have high' := current.toInt_lt
  apply rangeLength_of_not_before
  omega

theorem range_map_succ (start step : Int) (count : Nat) :
    (List.range (count + 1)).map (fun (i : Nat) => start + i * step) =
      start :: (List.range count).map fun (i : Nat) => start + step + i * step := by
  rw [List.range_succ_eq_map, List.map_cons, List.map_map]
  congr 1
  · simp
  · refine List.map_congr_left fun i _ => ?_
    simp only [Function.comp_apply, Nat.cast_succ]
    ring

/-- The loop adds exactly the numbers that are left. -/
theorem exists_addRange (stop step current : Int64) (values : Array Value) :
    ∃ numbers : List Int64,
      (addRange stop step current values).toList = values.toList ++ numbers.map .int ∧
      numbers.map Int64.toInt =
        (List.range (rangeLength current.toInt stop.toInt step.toInt)).map
          fun (i : Nat) => current.toInt + i * step.toInt := by
  rw [addRange]
  split
  · next inRange =>
      rw [rangeLength_of_before (inRange_iff.mp inRange), range_map_succ]
      split
      · next next found =>
          -- the invariant is that the numbers so far come first
          obtain ⟨numbers, added, numbers_eq⟩ :=
            exists_addRange stop step next (values.push (.int current))
          rw [addInt64?_eq_int64?, int64?_eq_some_iff] at found
          refine ⟨current :: numbers, ?_, ?_⟩
          · rw [added, Array.toList_push, List.append_assoc, List.map_cons, List.singleton_append]
          · rw [List.map_cons, numbers_eq, found]
      · next large =>
          refine ⟨[current], Array.toList_push, ?_⟩
          rw [rangeLength_of_overflow large]
          rfl
  · next behind =>
      rw [rangeLength_of_not_before (mt inRange_iff.mpr behind)]
      exact ⟨[], (List.append_nil _).symm, rfl⟩
termination_by rangeDistance stop step current
decreasing_by exact rangeDistance_lt ‹_› ‹_›

end Loop

/-! ## Calls -/

/-- A call of `range` with integers. -/
def callRange (bounds : List Int64) : Except Failure Value :=
  call .range { positional := bounds.map .int }

section Calls

variable {start stop step : Int64}

theorem mapM_toInteger_ints (bounds : List Int64) :
    (bounds.map Value.int).mapM Value.toInteger = .ok bounds := by
  induction bounds with
  | nil => rfl
  | cons bound bounds ih =>
    rw [List.map_cons, List.mapM_cons, ih]
    rfl

theorem callRange_eq (bounds : List Int64) :
    callRange bounds = (match bounds with
      | [stop] => return .list (← rangeValues 0 stop 1)
      | [start, stop] => return .list (← rangeValues start stop 1)
      | [start, stop, step] => return .list (← rangeValues start stop step)
      | bounds => throw (.badArgument (.rangeArity bounds.length))) := by
  change range _ = _
  rw [range, mapM_toInteger_ints]
  rfl

theorem callRange_three (start stop step : Int64) :
    callRange [start, stop, step] = do return .list (← rangeValues start stop step) :=
  callRange_eq _

theorem rangeValues_of_short (nonzero : step ≠ 0)
    (short : (stop.toInt - start.toInt).tdiv step.toInt ≤ maxSequenceLength) :
    rangeValues start stop step = .ok (addRange stop step start #[]).toList := by
  rw [rangeValues, if_neg nonzero, if_neg (Int.not_lt.mpr short)]

theorem rangeValues_of_long (nonzero : step ≠ 0)
    (long : ¬(stop.toInt - start.toInt).tdiv step.toInt ≤ maxSequenceLength) :
    rangeValues start stop step = .error (.badArgument .rangeTooLong) := by
  rw [rangeValues, if_neg nonzero, if_pos (Int.not_le.mp long)]

/-- A range succeeds unless it is too long. It lists the numbers in equal steps from its start
on, as many as there are before its end. The start is 0 and the step 1 if they are not given. -/
theorem range_counts_steps (start stop : Int64) (nonzero : step ≠ 0) :
    (∀ value, callRange [start, stop, step] = .ok value →
      ∃ numbers : List Int64, value = .list (numbers.map .int) ∧
        numbers.map Int64.toInt =
          (List.range (max 0 ⌈((stop.toInt - start.toInt : Int) : ℚ) / step.toInt⌉).toNat).map
            fun (i : Nat) => start.toInt + i * step.toInt) ∧
    ((∃ value, callRange [start, stop, step] = .ok value) ↔
      (stop.toInt - start.toInt).tdiv step.toInt ≤ maxSequenceLength) ∧
    callRange [stop] = callRange [0, stop, 1] ∧
    callRange [start, stop] = callRange [start, stop, 1] := by
  rw [callRange_three]
  refine ⟨?_, ?_, ?_, ?_⟩
  · intro value returned
    by_cases short : (stop.toInt - start.toInt).tdiv step.toInt ≤ maxSequenceLength
    · rw [rangeValues_of_short nonzero short] at returned
      cases returned
      obtain ⟨numbers, added, numbers_eq⟩ := exists_addRange stop step start #[]
      exact ⟨numbers, congrArg Value.list added, numbers_eq⟩
    · rw [rangeValues_of_long nonzero short] at returned
      cases returned
  · constructor
    · rintro ⟨value, returned⟩
      by_contra long
      rw [rangeValues_of_long nonzero long] at returned
      cases returned
    · intro short
      rw [rangeValues_of_short nonzero short]
      exact ⟨_, rfl⟩
  · exact (callRange_eq _).trans (callRange_three 0 stop 1).symm
  · exact (callRange_eq _).trans (callRange_three start stop 1).symm

/-- From the least integer up to the greatest, in steps of the greatest: the next number after
the third would not fit. -/
theorem range_counts_steps_wholeRange :
    (Int64.maxValue ≠ 0) ∧
      ∃ numbers : List Int64,
        callRange [Int64.minValue, Int64.maxValue, Int64.maxValue] =
          .ok (.list (numbers.map .int)) ∧
        numbers.map Int64.toInt = [-0x8000000000000000, -1, 0x7FFFFFFFFFFFFFFE] := by
  have nonzero : Int64.maxValue ≠ 0 := by decide
  have leastInt : Int64.minValue.toInt = -0x8000000000000000 := rfl
  have greatestInt : Int64.maxValue.toInt = 0x7FFFFFFFFFFFFFFF := rfl
  obtain ⟨lists, succeeds, -, -⟩ :=
    range_counts_steps Int64.minValue Int64.maxValue nonzero
  obtain ⟨value, returned⟩ := succeeds.mpr (by decide)
  obtain ⟨numbers, rfl, numbers_eq⟩ := lists value returned
  have count : ⌈((Int64.maxValue.toInt - Int64.minValue.toInt : Int) : ℚ) /
      Int64.maxValue.toInt⌉ = 3 := by
    rw [leastInt, greatestInt, Int.ceil_eq_iff]
    norm_num
  rw [count, leastInt, greatestInt] at numbers_eq
  exact ⟨nonzero, numbers, returned, numbers_eq⟩

end Calls

end ModelWeaver.Snippet.Function
