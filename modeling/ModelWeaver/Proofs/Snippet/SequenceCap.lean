import ModelWeaver.Proofs.Guarantee
import ModelWeaver.Proofs.Snippet.Ranges

/-!
# The length of ranges and repetitions

Ranges and repetitions refuse to make a sequence that is too long. A repetition is tested by the
exact size of the result. A range divides the distance of its ends by the step and rounds toward
zero, while the number of its elements is that quotient rounded up. So a quotient between the cap
and the next integer lets a range through that is longer than the cap by one.
-/

namespace ModelWeaver.Snippet

open Number

/-! ## Ranges -/

namespace Function

/-- How often the step of a range fits between its ends. -/
def rangeQuotient (start stop step : Int64) : ℚ :=
  ((stop.toInt - start.toInt : Int) : ℚ) / step.toInt

/-- The integers of a call of `range`, with the start and the step that they leave out. -/
inductive RangeBounds : List Int64 → (start stop step : Int64) → Prop where
  | stop (stop : Int64) : RangeBounds [stop] 0 stop 1
  | ends (start stop : Int64) : RangeBounds [start, stop] start stop 1
  | steps (start stop step : Int64) : RangeBounds [start, stop, step] start stop step

/-- Arguments of `range`: they have no names, and are read as integers. -/
structure ReadsRange (arguments : Arguments) (start stop step : Int64) : Prop where
  keyword : arguments.keyword = []
  positional : ∃ bounds, arguments.positional.mapM Value.toInteger = .ok bounds ∧
    RangeBounds bounds start stop step

section Cap

variable {start stop step : Int64}

theorem rangeLength_le_iff (start stop step : Int64) (n : Nat) :
    rangeLength start.toInt stop.toInt step.toInt ≤ n ↔ rangeQuotient start stop step ≤ n := by
  rw [rangeLength, Int.toNat_le, Int.max_le, Int.ceil_le, Int.cast_natCast]
  exact and_iff_right (Int.natCast_nonneg n)

/-- Rounding toward zero gives at most `n` for all quotients below `n + 1`. -/
theorem tdiv_le_iff (distance : Int) {step : Int} (nonzero : step ≠ 0) (n : Nat) :
    distance.tdiv step ≤ n ↔ (distance : ℚ) / step < n + 1 := by
  -- the sign of the step can be taken over by the distance
  wlog up : 0 < step generalizing distance step
  · have mirrored := this (-distance) (Int.neg_ne_zero.mpr nonzero) (by omega)
    rwa [Int.neg_tdiv_neg, Int.cast_neg, Int.cast_neg, neg_div_neg_eq] at mirrored
  · have cleared : (distance : ℚ) / step < n + 1 ↔ distance < (n + 1) * step := by
      rw [div_lt_iff₀ (Int.cast_pos.mpr up)]
      exact_mod_cast Iff.rfl
    rw [cleared]
    rcases Int.le_total 0 distance with ahead | behind
    · rw [Int.tdiv_eq_ediv_of_nonneg ahead, ← Int.lt_add_one_iff, Int.ediv_lt_iff_lt_mul up]
    · have above : 0 < (n + 1) * step := Int.mul_pos (by omega) up
      have quotient := Int.tdiv_nonneg (Int.neg_nonneg_of_nonpos behind) up.le
      rw [Int.neg_tdiv] at quotient
      exact iff_of_true (by omega) (by omega)

theorem length_addRange (start stop step : Int64) :
    (addRange stop step start #[]).toList.length =
      rangeLength start.toInt stop.toInt step.toInt := by
  obtain ⟨numbers, added, numbers_eq⟩ := exists_addRange stop step start #[]
  have lengths := congrArg List.length numbers_eq
  rw [List.length_map, List.length_map, List.length_range] at lengths
  rw [added, ← lengths]
  exact List.length_map _

end Cap

variable {args : Arguments}

theorem call_range_of_reads {start stop step : Int64}
    (reads : ReadsRange args start stop step) :
    call .range args = do return .list (← rangeValues start stop step) := by
  obtain ⟨keyword, bounds, read, shape⟩ := reads
  change range args = _
  rw [range, Arguments.noKeywords, keyword, read]
  cases shape with
  | stop stop => rfl
  | ends start stop => rfl
  | steps start stop step => rfl

/-- A range with a step is made if and only if its quotient is below the cap and one. -/
theorem call_range_eq_ok_iff {start stop step : Int64}
    (reads : ReadsRange args start stop step) (nonzero : step ≠ 0) (value : Value) :
    call .range args = .ok value ↔
      rangeQuotient start stop step < maxSequenceLength + 1 ∧
        value = .list (addRange stop step start #[]).toList := by
  have nonzeroInt : step.toInt ≠ 0 := fun zero => nonzero (Int64.toInt_inj.mp zero)
  rw [call_range_of_reads reads, rangeQuotient, ← tdiv_le_iff _ nonzeroInt]
  by_cases short : (stop.toInt - start.toInt).tdiv step.toInt ≤ maxSequenceLength
  · rw [rangeValues_of_short nonzero short, and_iff_right short]
    change Except.ok (Value.list _) = _ ↔ _
    rw [Except.ok.injEq]
    exact eq_comm
  · rw [rangeValues_of_long nonzero short]
    exact iff_of_false nofun fun made => short made.1

/-- A range that is made has read its arguments as bounds, and its step is not zero. -/
theorem exists_reads_of_call_range {value : Value} (made : call .range args = .ok value) :
    ∃ start stop step, ReadsRange args start stop step ∧ step ≠ 0 := by
  change range args = _ at made
  rw [range, Arguments.noKeywords] at made
  cases keyword : args.keyword with
  | cons entry rest =>
    rw [keyword] at made
    cases made
  | nil =>
    rw [keyword] at made
    change args.positional.mapM Value.toInteger >>= _ = _ at made
    cases read : args.positional.mapM Value.toInteger with
    | error failure =>
      rw [read] at made
      cases made
    | ok bounds =>
      rw [read] at made
      have shaped : ∃ start stop step, RangeBounds bounds start stop step := by
        rcases bounds with _ | ⟨first, _ | ⟨second, _ | ⟨third, _ | ⟨fourth, more⟩⟩⟩⟩
        · cases made
        · exact ⟨_, _, _, .stop first⟩
        · exact ⟨_, _, _, .ends first second⟩
        · exact ⟨_, _, _, .steps first second third⟩
        · cases made
      obtain ⟨start, stop, step, shape⟩ := shaped
      refine ⟨start, stop, step, ⟨keyword, bounds, read, shape⟩, ?_⟩
      rintro rfl
      cases shape with
      | steps start stop => cases made

end Function

/-! ## Repetitions -/

/-- What can be repeated, with its size and the results of repeating it: a list, or a text, whose
size is counted in bytes. -/
inductive Repeatable : Value → Nat → (Nat → Value) → Prop where
  | list (items : List Value) :
      Repeatable (.list items) items.length fun n => .list (List.replicate n items).flatten
  | text (text : String) :
      Repeatable (.str text) text.utf8ByteSize fun n =>
        .str (String.ofList (List.replicate n text.toList).flatten)

/-- A value that is a list or a text is not larger than the cap. -/
def Capped (value : Value) : Prop :=
  ∀ size repeated, Repeatable value size repeated → size ≤ maxSequenceLength

section Repetition

theorem repeatList_eq (items : List Value) (times : Int) :
    repeatList items times =
      (repetitions items.length times).map fun n => .list (List.replicate n items).flatten := by
  have joined (n : Nat) :
      n.fold (fun _ _ done => items ++ done) [] = (List.replicate n items).flatten := by
    induction n with
    | zero => rfl
    | succ n ih =>
      rw [Nat.fold_succ, ih]
      rfl
  rw [repeatList]
  simp only [joined]
  rfl

theorem repeatText_eq (text : String) (times : Int) :
    repeatText text times =
      (repetitions text.utf8ByteSize times).map fun n =>
        .str (String.ofList (List.replicate n text.toList).flatten) := by
  have joined (n : Nat) :
      n.fold (fun _ _ done => done ++ text) "" =
        String.ofList (List.replicate n text.toList).flatten := by
    induction n with
    | zero => rfl
    | succ n ih =>
      rw [Nat.fold_succ, ih, List.replicate_succ', List.flatten_append,
        String.ofList_append, List.flatten_singleton, String.ofList_toList]
  rw [repeatText]
  simp only [joined]
  rfl

theorem utf8ByteSize_replicate (text : String) (n : Nat) :
    (String.ofList (List.replicate n text.toList).flatten).utf8ByteSize =
      text.utf8ByteSize * n := by
  induction n with
  | zero => rfl
  | succ n ih =>
    rw [List.replicate_succ, List.flatten_cons, String.ofList_append,
      String.utf8ByteSize_append, ih, String.ofList_toList, Nat.mul_succ,
      Nat.add_comm]

variable {sequence factor : Value} {size : Nat} {repeated : Nat → Value}

namespace Repeatable

theorem size_unique (first : Repeatable sequence size repeated) {size' : Nat}
    {repeated' : Nat → Value} (second : Repeatable sequence size' repeated') : size' = size := by
  cases first with
  | list items =>
    cases second
    rfl
  | text text =>
    cases second
    rfl

variable (repeatable : Repeatable sequence size repeated)
include repeatable

theorem size_repeated (n : Nat) {total : Nat} {again : Nat → Value}
    (result : Repeatable (repeated n) total again) : total = size * n := by
  cases repeatable with
  | list items =>
    rw [(Repeatable.list _).size_unique result, List.length_flatten, List.map_replicate,
      List.sum_replicate_nat, Nat.mul_comm]
  | text text => rw [(Repeatable.text _).size_unique result, utf8ByteSize_replicate]

theorem repeated_of_empty (empty : size = 0) (n : Nat) : repeated 0 = repeated n := by
  cases repeatable with
  | list items =>
    rw [List.eq_nil_of_length_eq_zero empty]
    simp
  | text text =>
    rw [String.utf8ByteSize_eq_zero_iff.mp empty]
    simp

theorem multiply_right {times : Int64} (whole : factor.int? = some times) :
    multiply sequence factor = (repetitions size times.toInt).map repeated := by
  cases repeatable with
  | list items =>
    rw [← repeatList_eq]
    cases factor <;> cases whole <;> rfl
  | text text =>
    rw [← repeatText_eq]
    cases factor <;> cases whole <;> rfl

theorem multiply_left {times : Int64} (whole : factor.int? = some times) :
    multiply factor sequence = multiply sequence factor := by
  cases repeatable <;> cases factor <;> cases whole <;> rfl

end Repeatable

theorem repetitions_of_le {times : Int} (small : size * times.toNat ≤ maxSequenceLength) :
    repetitions size times = .ok (if size = 0 then 0 else times.toNat) := by
  have fits : FitsInt64 (size * times.toNat) := by
    rw [FitsInt64]
    rw [maxSequenceLength] at small
    omega
  rw [repetitions]
  simp only [fits, Nat.not_lt.mpr small]
  split <;> rfl

theorem exists_repetitions_of_lt {times : Int}
    (large : maxSequenceLength < size * times.toNat) :
    ∃ failure, repetitions size times = .error failure := by
  have nonempty : size ≠ 0 := by
    rintro rfl
    omega
  rw [repetitions]
  simp only [if_neg nonempty, if_pos large]
  split
  · exact ⟨_, rfl⟩
  · exact ⟨_, rfl⟩

/-- The number of times is known only up to repetitions of nothing. -/
theorem Repeatable.map_repetitions (repeatable : Repeatable sequence size repeated) {times : Int}
    (small : size * times.toNat ≤ maxSequenceLength) :
    (repetitions size times).map repeated = .ok (repeated times.toNat) := by
  rw [repetitions_of_le small]
  split
  · next empty => exact congrArg Except.ok (repeatable.repeated_of_empty empty _)
  · rfl

theorem Repeatable.yields_capped (repeatable : Repeatable sequence size repeated) (times : Int) :
    Yields Capped ((repetitions size times).map repeated) := by
  by_cases small : size * times.toNat ≤ maxSequenceLength
  · rw [repeatable.map_repetitions small]
    refine Yields.ok fun total again result => ?_
    rw [repeatable.size_repeated _ result]
    exact small
  · obtain ⟨failure, refused⟩ := exists_repetitions_of_lt (Nat.lt_of_not_le small)
    rw [refused]
    exact Yields.error failure

theorem yields_arithmetic_capped (symbol : String) (onInts : Int64 → Int64 → Option Int64)
    (onFloats : Float → Float → Float) (left right : Value) :
    Yields Capped (arithmetic symbol onInts onFloats left right) := by
  rw [arithmetic.eq_def]
  split
  · split
    · exact Yields.ok nofun
    · exact Yields.error _
  · exact Yields.after fun _ => Yields.ok nofun

theorem yields_multiply_capped (left right : Value) : Yields Capped (multiply left right) := by
  rw [multiply.eq_def]
  split
  · exact repeatText_eq _ _ ▸ (Repeatable.text _).yields_capped _
  · exact repeatText_eq _ _ ▸ (Repeatable.text _).yields_capped _
  · exact repeatList_eq _ _ ▸ (Repeatable.list _).yields_capped _
  · exact repeatList_eq _ _ ▸ (Repeatable.list _).yields_capped _
  · exact yields_arithmetic_capped ..

end Repetition

/-! ## The cap -/

/-- Products of a list or a text and an integer are at most as large as the cap, and are made
whenever their exact size allows it. A range is made whenever its exact length allows it too, but
it may be longer than the cap by one: just if the exact quotient of the distance and the step lies
between the cap and the next integer. -/
theorem sequence_sizes_capped (left right : Value) (arguments : Arguments) :
    (∀ value, applyBinary .multiplication left right = .ok value → Capped value) ∧
    (∀ size repeated times, Repeatable left size repeated → right.int? = some times →
      size * times.toInt.toNat ≤ maxSequenceLength →
        applyBinary .multiplication left right = .ok (repeated times.toInt.toNat) ∧
        applyBinary .multiplication right left = .ok (repeated times.toInt.toNat)) ∧
    (∀ value, Function.call .range arguments = .ok value →
      ∃ start stop step items, Function.ReadsRange arguments start stop step ∧
        value = .list items ∧
        items.length = Function.rangeLength start.toInt stop.toInt step.toInt ∧
        items.length ≤ maxSequenceLength + 1 ∧
        (maxSequenceLength < items.length ↔
          maxSequenceLength < Function.rangeQuotient start stop step ∧
            Function.rangeQuotient start stop step < maxSequenceLength + 1)) ∧
    ∀ start stop step, Function.ReadsRange arguments start stop step → step ≠ 0 →
      Function.rangeLength start.toInt stop.toInt step.toInt ≤ maxSequenceLength →
        ∃ items, Function.call .range arguments = .ok (.list items) ∧
          items.length = Function.rangeLength start.toInt stop.toInt step.toInt := by
  refine ⟨fun value made => yields_multiply_capped left right made, ?_, ?_, ?_⟩
  · intro size repeated times repeatable whole small
    change multiply left right = _ ∧ multiply right left = _
    rw [repeatable.multiply_left whole, repeatable.multiply_right whole,
      repeatable.map_repetitions small]
    exact ⟨rfl, rfl⟩
  · intro value made
    obtain ⟨start, stop, step, reads, nonzero⟩ := Function.exists_reads_of_call_range made
    obtain ⟨below, rfl⟩ := (Function.call_range_eq_ok_iff reads nonzero value).mp made
    refine ⟨start, stop, step, _, reads, rfl, Function.length_addRange .., ?_, ?_⟩
    · rw [Function.length_addRange, Function.rangeLength_le_iff, Nat.cast_succ]
      exact below.le
    · rw [Function.length_addRange, ← not_le, Function.rangeLength_le_iff, not_le]
      exact (and_iff_left below).symm
  · intro start stop step reads nonzero short
    rw [Function.rangeLength_le_iff] at short
    have below : Function.rangeQuotient start stop step < maxSequenceLength + 1 :=
      lt_of_le_of_lt short (lt_add_one _)
    exact ⟨_, (Function.call_range_eq_ok_iff reads nonzero _).mpr ⟨below, rfl⟩,
      Function.length_addRange ..⟩

/-- A pair that is repeated up to the cap, and a range that ends right at it. -/
theorem sequence_sizes_capped_atCap :
    2 * 5000000 ≤ maxSequenceLength ∧
      applyBinary .multiplication (.int 5000000) (.list [.none, .bool true]) =
        .ok (.list (List.replicate 5000000 [.none, .bool true]).flatten) ∧
      ∃ items, Function.callRange [0, 20000000, 2] = .ok (.list items) ∧
        items.length = maxSequenceLength := by
  obtain ⟨-, repeats, -, ranges⟩ := sequence_sizes_capped (.list [.none, .bool true])
    (.int 5000000) { positional := [.int 0, .int 20000000, .int 2] }
  have times : (5000000 : Int64).toInt.toNat = 5000000 := by decide
  have product := repeats _ _ 5000000 (.list [.none, .bool true]) rfl (by rw [times]; decide)
  rw [times] at product
  have length : Function.rangeLength (0 : Int64).toInt (20000000 : Int64).toInt
      (2 : Int64).toInt = maxSequenceLength := by
    have quotient : ⌈((20000000 - 0 : Int) : ℚ) / (2 : Int)⌉ = 10000000 := by
      rw [Int.ceil_eq_iff]
      norm_num
    change (max 0 ⌈((20000000 - 0 : Int) : ℚ) / (2 : Int)⌉).toNat = _
    rw [quotient]
    rfl
  obtain ⟨items, made, items_length⟩ := ranges 0 20000000 2
    ⟨rfl, _, rfl, .steps 0 20000000 2⟩ (by decide) length.le
  exact ⟨by decide, product.2, items, made, items_length.trans length⟩

/-- The step fits ten million times between the ends and a half, so that the range is made and has
one element more than that. -/
theorem range_longer_than_cap :
    ∃ items, Function.callRange [0, 20000001, 2] = .ok (.list items) ∧
      ¬items.length ≤ maxSequenceLength := by
  have quotient : Function.rangeQuotient 0 20000001 2 = 20000001 / 2 := by
    change ((20000001 - 0 : Int) : ℚ) / (2 : Int) = _
    norm_num
  have reads : Function.ReadsRange { positional := [.int 0, .int 20000001, .int 2] } 0 20000001 2 :=
    ⟨rfl, _, rfl, .steps 0 20000001 2⟩
  refine ⟨_, (Function.call_range_eq_ok_iff reads (by decide) _).mpr ⟨?_, rfl⟩, ?_⟩
  · rw [quotient, maxSequenceLength]
    norm_num
  · rw [Function.length_addRange, Function.rangeLength_le_iff, quotient, maxSequenceLength]
    norm_num

end ModelWeaver.Snippet
