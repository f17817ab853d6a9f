import ModelWeaver.Proofs.Guarantee
import ModelWeaver.Proofs.Value.Parts
import ModelWeaver.Snippet.Function
import ModelWeaver.Snippet.Method

/-!
# Values without a key twice

A value is unambiguous if no dict within it holds two keys that are equal in the language. The
operators, functions and methods of the language give unambiguous values for unambiguous
arguments. Most of them give numbers and texts, or put together what they were given; the
function that makes dicts stores its entries one by one.
-/

namespace ModelWeaver

namespace Value

/-! ## Unambiguous values -/

/-- No key of a dict equals a later one. -/
def UnambiguousHere : Value → Prop
  | dict entries => KeysDiffer entries
  | _ => True

instance : DecidablePred UnambiguousHere
  | dict entries => inferInstanceAs (Decidable (KeysDiffer entries))
  | none | bool _ | int _ | float _ | str _ | list _ | tuple _ | builtin _ | method _ _
  | command _ _ => .isTrue trivial

/-- No dict within a value holds a key twice. -/
def Unambiguous (value : Value) : Prop :=
  value.Everywhere UnambiguousHere

instance (value : Value) : Decidable value.Unambiguous :=
  inferInstanceAs (Decidable (value.Everywhere UnambiguousHere))

/-- Values that hold no other values. -/
def isAtom : Value → Bool
  | none | bool _ | int _ | float _ | str _ | builtin _ | command _ _ => true
  | list _ | tuple _ | dict _ | method _ _ => false

variable {value : Value} {entries : Entries}

theorem unambiguous_of_isAtom (atom : value.isAtom = true) : value.Unambiguous := by
  cases value with
  | list _ | tuple _ | dict _ | method _ _ => cases atom
  | _ => exact everywhere_of_parts_eq_nil trivial rfl

@[simp]
theorem unambiguous_none : none.Unambiguous := unambiguous_of_isAtom rfl

@[simp]
theorem unambiguous_bool (b : Bool) : (bool b).Unambiguous := unambiguous_of_isAtom rfl

@[simp]
theorem unambiguous_int (n : Int64) : (int n).Unambiguous := unambiguous_of_isAtom rfl

@[simp]
theorem unambiguous_float (x : Float) : (float x).Unambiguous := unambiguous_of_isAtom rfl

@[simp]
theorem unambiguous_str (text : String) : (str text).Unambiguous := unambiguous_of_isAtom rfl

@[simp]
theorem unambiguous_list {items : List Value} :
    (list items).Unambiguous ↔ ∀ item ∈ items, item.Unambiguous :=
  everywhere_list.trans (and_iff_right trivial)

@[simp]
theorem unambiguous_tuple {items : List Value} :
    (tuple items).Unambiguous ↔ ∀ item ∈ items, item.Unambiguous :=
  everywhere_tuple.trans (and_iff_right trivial)

theorem unambiguous_dict :
    (dict entries).Unambiguous ↔ KeysDiffer entries ∧
      ∀ entry ∈ entries, entry.1.Unambiguous ∧ entry.2.Unambiguous :=
  everywhere_dict

@[simp]
theorem unambiguous_method {receiver : Value} {name : String} :
    (method receiver name).Unambiguous ↔ receiver.Unambiguous :=
  everywhere_iff.trans ((and_iff_right trivial).trans List.forall_mem_singleton)

theorem unambiguous_insertEntry {key : Value} (unambiguous : (dict entries).Unambiguous)
    (goodKey : key.Unambiguous) (good : value.Unambiguous) :
    (dict (insertEntry entries key value)).Unambiguous := by
  obtain ⟨differ, within⟩ := unambiguous_dict.mp unambiguous
  refine unambiguous_dict.mpr ⟨keysDiffer_insertEntry differ key value, ?_⟩
  rcases insertEntry_cases entries key value with
    ⟨_, inserted⟩ | ⟨before, held, after, rfl, inserted⟩
  · rw [inserted, List.forall_mem_append, List.forall_mem_singleton]
    exact ⟨within, goodKey, good⟩
  · rw [List.forall_mem_append, List.forall_mem_cons] at within
    rw [inserted, List.forall_mem_append, List.forall_mem_cons]
    exact ⟨within.1, ⟨within.2.1.1, good⟩, within.2.2⟩

theorem unambiguous_of_lookup? {key : Value} (unambiguous : (dict entries).Unambiguous)
    (found : lookup? entries key = some value) : value.Unambiguous := by
  obtain ⟨entry, first, rfl⟩ := Option.map_eq_some_iff.mp found
  exact ((unambiguous_dict.mp unambiguous).2 entry (List.mem_of_find?_eq_some first)).2

theorem Unambiguous.elements (unambiguous : value.Unambiguous) :
    Yields (fun items => ∀ item ∈ items, item.Unambiguous) value.elements := by
  cases value with
  | list items => exact Yields.ok (unambiguous_list.mp unambiguous)
  | tuple items => exact Yields.ok (unambiguous_tuple.mp unambiguous)
  | dict entries =>
    refine Yields.ok (List.forall_mem_map.mpr fun entry mem => ?_)
    exact ((unambiguous_dict.mp unambiguous).2 entry mem).1
  | str text =>
    exact Yields.ok (List.forall_mem_map.mpr fun _ _ => unambiguous_of_isAtom rfl)
  | _ => exact Yields.error _

end Value

namespace Snippet

open Value

/-! ## Operators -/

@[simp]
theorem yields_mismatch (value : Value) (expected : String) :
    Yields Unambiguous (value.mismatch expected) :=
  Yields.error _

@[simp]
theorem yields_exactly (n : Int) : Yields Unambiguous (exactly n) := by
  rw [exactly]
  split <;> simp

theorem yields_floorDivInt (a b : Int64) : Yields Unambiguous (floorDivInt a b) := by
  rw [floorDivInt]
  (repeat' split) <;> simp

theorem yields_moduloInt (a b : Int64) : Yields Unambiguous (moduloInt a b) := by
  rw [moduloInt]
  (repeat' split) <;> simp

theorem yields_arithmetic (symbol : String) (onInts : Int64 → Int64 → Option Int64)
    (onFloats : Float → Float → Float) (left right : Value) :
    Yields Unambiguous (arithmetic symbol onInts onFloats left right) := by
  rw [arithmetic]
  (repeat' split) <;> simp

theorem yields_power (left right : Value) : Yields Unambiguous (power left right) := by
  have floats : Yields Unambiguous (power.floatPower left right) :=
    Yields.after fun _ => Yields.ite (by simp) (by simp)
  have ints (base : Int) (exponent : Nat) : Yields Unambiguous (powInt64 base exponent) := by
    rw [powInt64]
    (repeat' split) <;> simp
  rw [power]
  (repeat' split) <;> simp [floats, ints]

theorem yields_repeatList {items : List Value} (good : ∀ item ∈ items, item.Unambiguous)
    (times : Int) : Yields Unambiguous (repeatList items times) := by
  refine Yields.after fun count => Yields.ok (unambiguous_list.mpr ?_)
  induction count with
  | zero => exact List.forall_mem_nil _
  | succ count ih =>
    rw [Nat.fold_succ, List.forall_mem_append]
    exact ⟨good, ih⟩

theorem yields_multiply {left right : Value} (goodLeft : left.Unambiguous)
    (goodRight : right.Unambiguous) : Yields Unambiguous (multiply left right) := by
  have text (text : String) (times : Int) : Yields Unambiguous (repeatText text times) := by
    simp [repeatText]
  rw [multiply.eq_def]
  split
  · exact text _ _
  · exact text _ _
  · exact yields_repeatList (unambiguous_list.mp goodLeft) _
  · exact yields_repeatList (unambiguous_list.mp goodRight) _
  · exact yields_arithmetic ..

theorem yields_add {left right : Value} (goodLeft : left.Unambiguous)
    (goodRight : right.Unambiguous) : Yields Unambiguous (add left right) := by
  rw [add.eq_def]
  split
  · exact Yields.ok (by simp)
  · exact Yields.ok (unambiguous_list.mpr (List.forall_mem_append.mpr
      ⟨unambiguous_list.mp goodLeft, unambiguous_list.mp goodRight⟩))
  · exact Yields.ok (unambiguous_tuple.mpr (List.forall_mem_append.mpr
      ⟨unambiguous_tuple.mp goodLeft, unambiguous_tuple.mp goodRight⟩))
  · exact yields_arithmetic ..

theorem yields_applyBinary (op : BinaryOp) {left right : Value} (goodLeft : left.Unambiguous)
    (goodRight : right.Unambiguous) : Yields Unambiguous (applyBinary op left right) := by
  cases op with
  | addition => exact yields_add goodLeft goodRight
  | subtraction => exact yields_arithmetic ..
  | multiplication => exact yields_multiply goodLeft goodRight
  | floorDivision =>
    rw [applyBinary]
    split
    · exact yields_floorDivInt _ _
    · simp
  | modulo =>
    rw [applyBinary.eq_def]
    dsimp only
    split
    · simp
    · split
      · exact yields_moduloInt _ _
      · simp
  | power => exact yields_power left right
  | _ => simp [applyBinary]

theorem yields_applyUnary (op : UnaryOp) (operand : Value) :
    Yields Unambiguous (applyUnary op operand) := by
  rw [applyUnary.eq_def]
  (repeat' split) <;> simp

/-! ## Functions -/

namespace Function

variable {args : Arguments}

theorem unambiguous_addRange (stop step current : Int64) {values : Array Value}
    (good : ∀ value ∈ values, value.Unambiguous) :
    ∀ value ∈ addRange stop step current values, value.Unambiguous := by
  have pushed : ∀ value ∈ values.push (.int current), value.Unambiguous := by
    intro value mem
    rcases Array.mem_push.mp mem with before | rfl
    · exact good value before
    · exact unambiguous_of_isAtom rfl
  rw [addRange]
  split
  · split
    · exact unambiguous_addRange stop step _ pushed
    · exact pushed
  · exact good
termination_by rangeDistance stop step current
decreasing_by exact rangeDistance_lt ‹_› ‹_›

theorem yields_rangeValues (start stop step : Int64) :
    Yields (fun items => ∀ item ∈ items, item.Unambiguous) (rangeValues start stop step) := by
  rw [rangeValues]
  split
  · simp
  · split
    · simp
    · refine Yields.ok fun value mem => ?_
      exact unambiguous_addRange stop step start (by simp) value (Array.mem_toList_iff.mp mem)

theorem yields_range : Yields Unambiguous (range args) := by
  refine Yields.after fun _ => Yields.after fun bounds => ?_
  split <;> simp [yields_rangeValues]

/-- Rows consist of items of the columns. -/
theorem unambiguous_rows {columns : List (List Value)}
    (good : ∀ column ∈ columns, ∀ item ∈ column, item.Unambiguous) :
    (Value.list (rows columns)).Unambiguous := by
  have within (start : List (List Value))
      (goodStart : ∀ row ∈ start, ∀ item ∈ row, item.Unambiguous) :
      ∀ row ∈ columns.foldr (List.zipWith (· :: ·)) start, ∀ item ∈ row, item.Unambiguous := by
    induction columns with
    | nil => exact goodStart
    | cons column columns ih =>
      obtain ⟨here, others⟩ := List.forall_mem_cons.mp good
      rw [List.foldr_cons, ← List.map_uncurry_zip_eq_zipWith, List.forall_mem_map]
      rintro ⟨first, row⟩ mem
      obtain ⟨inColumn, inRows⟩ := List.of_mem_zip mem
      exact List.forall_mem_cons.mpr ⟨here first inColumn, ih others row inRows⟩
  refine unambiguous_list.mpr (List.forall_mem_map.mpr fun row mem => ?_)
  refine unambiguous_tuple.mpr (within _ (fun row mem => ?_) row mem)
  rw [List.eq_of_mem_replicate mem]
  exact List.forall_mem_nil _

/-- The extremum of some values is one of them. -/
theorem yields_extremumOf (function : Builtin) (wanted : Ordering) (items : List Value) :
    (∀ item ∈ items, item.Unambiguous) →
      Yields Unambiguous (match items with
        | [] => throw (.badArgument (.emptyExtremum function.name))
        | first :: rest => rest.foldlM (fun best item =>
          return if (← item.order best) == wanted then item else best) first :
          Except Failure Value) := by
  intro good
  cases items with
  | nil => exact Yields.error _
  | cons first rest =>
    obtain ⟨goodFirst, goodRest⟩ := List.forall_mem_cons.mp good
    refine Yields.foldlM goodFirst fun best goodBest item mem => ?_
    refine Yields.after fun ordering => Yields.ok ?_
    cases ordering == wanted with
    | true => exact goodRest item mem
    | false => exact goodBest

theorem yields_extremum (function : Builtin) (wanted : Ordering)
    (good : args.All Unambiguous) :
    Yields Unambiguous (extremum function wanted args) := by
  have good := good.positional
  refine Yields.after fun _ => ?_
  split
  · next single positional =>
      rw [positional] at good
      exact (good single List.mem_cons_self).elements.bind fun items good =>
        yields_extremumOf function wanted items good
  · exact yields_extremumOf function wanted args.positional good

/-! ### Sorting -/

theorem yields_insertDown {item : Value} {items : List Value} :
    Yields (fun sorted => ∀ other ∈ sorted, other ∈ item :: items) (insertDown item items) := by
  induction items with
  | nil => exact Yields.ok fun _ => id
  | cons first items ih =>
    rw [insertDown]
    refine Yields.after fun ordering => ?_
    split
    · refine ih.bind fun sorted within => Yields.ok (List.forall_mem_cons.mpr ⟨?_, ?_⟩)
      · exact List.mem_cons_of_mem item List.mem_cons_self
      · intro other mem
        rcases List.mem_cons.mp (within other mem) with rfl | inItems
        · exact List.mem_cons_self
        · exact List.mem_cons_of_mem _ (List.mem_cons_of_mem _ inItems)
    · exact Yields.ok fun _ => id

/-- Sorting brings in nothing new. -/
theorem yields_sort {items : List Value} :
    Yields (fun sorted => ∀ item ∈ sorted, item ∈ items) (sort items) := by
  rw [sort]
  split
  · have inserted : Yields (fun sorted => ∀ item ∈ sorted, item ∈ items)
        (items.foldlM (fun sorted item => insertDown item sorted) []) := by
      refine Yields.foldlM (List.forall_mem_nil _) fun sorted within item mem => ?_
      refine yields_insertDown.mono fun result inserted other inResult => ?_
      rcases List.mem_cons.mp (inserted other inResult) with rfl | inSorted
      · exact mem
      · exact within other inSorted
    exact inserted.bind fun sorted within => Yields.ok fun item mem =>
      within item (List.mem_reverse.mp mem)
  · refine Yields.after fun _ => Yields.after fun _ => ?_
    exact Yields.ok fun item mem => List.mem_mergeSort.mp mem

/-! ### Dicts -/

theorem unambiguous_dict_nil : (Value.dict []).Unambiguous :=
  unambiguous_dict.mpr ⟨List.Pairwise.nil, List.forall_mem_nil _⟩

theorem yields_insertPair {entries : Entries} {pair : Value}
    (unambiguous : (Value.dict entries).Unambiguous) (good : pair.Unambiguous) :
    Yields (fun entries => (Value.dict entries).Unambiguous) (insertPair entries pair) := by
  refine good.elements.bind fun items within => ?_
  split
  · next key value =>
      exact Yields.ok (unambiguous_insertEntry unambiguous (within key (by simp))
        (within value (by simp)))
  · exact Yields.error _

theorem unambiguous_foldl_insertEntry {α : Type} {key value : α → Value} {items : List α}
    (good : ∀ item ∈ items, (key item).Unambiguous ∧ (value item).Unambiguous)
    {entries : Entries} (unambiguous : (Value.dict entries).Unambiguous) :
    (Value.dict (items.foldl (fun entries item => insertEntry entries (key item) (value item))
      entries)).Unambiguous := by
  induction items generalizing entries with
  | nil => exact unambiguous
  | cons item items ih =>
    obtain ⟨here, others⟩ := List.forall_mem_cons.mp good
    exact ih others (unambiguous_insertEntry unambiguous here.1 here.2)

theorem yields_dict (good : args.All Unambiguous) :
    Yields Unambiguous (dict args) := by
  have finish {entries : Entries} (unambiguous : (Value.dict entries).Unambiguous) :
      (Value.dict (args.keyword.foldl
        (fun entries entry => insertEntry entries (.str entry.1) entry.2)
        entries)).Unambiguous :=
    unambiguous_foldl_insertEntry
      (fun entry mem => ⟨unambiguous_of_isAtom rfl, good.keyword entry mem⟩) unambiguous
  have good := good.positional
  rw [dict]
  split
  · exact Yields.ok (finish unambiguous_dict_nil)
  · next source positional =>
      rw [positional] at good
      have within := (unambiguous_dict.mp (good _ List.mem_cons_self)).2
      exact Yields.ok (finish (unambiguous_foldl_insertEntry within unambiguous_dict_nil))
  · next pairs _ positional =>
      rw [positional] at good
      refine (good pairs List.mem_cons_self).elements.bind fun pairs within => ?_
      have stored : Yields (fun entries => (Value.dict entries).Unambiguous)
          (pairs.foldlM insertPair []) :=
        Yields.foldlM unambiguous_dict_nil fun entries unambiguous pair mem =>
          yields_insertPair unambiguous (within pair mem)
      exact stored.bind fun entries unambiguous => Yields.ok (finish unambiguous)
  · exact Yields.error _

/-! ### Numbers -/

theorem yields_magnitude (value : Value) : Yields Unambiguous (magnitude value) := by
  rw [magnitude.eq_def]
  (repeat' split) <;> simp

theorem yields_toInt (value : Value) : Yields Unambiguous (toInt value) := by
  rw [toInt.eq_def]
  (repeat' split) <;> simp

theorem yields_toFloat (value : Value) : Yields Unambiguous (toFloat value) := by
  rw [toFloat.eq_def]
  (repeat' split) <;> simp

theorem yields_roundToInt (value : Value) : Yields Unambiguous (roundToInt value) := by
  rw [roundToInt.eq_def]
  split
  · exact Yields.ite (by simp) (by simp)
  · split <;> simp

theorem yields_roundToPlaces (value places : Value) :
    Yields Unambiguous (roundToPlaces value places) := by
  refine Yields.after fun _ => Yields.ite (by simp) fun _ => ?_
  split <;> simp

theorem yields_numbered {items : List Value} (within : ∀ item ∈ items, item.Unambiguous)
    (start : Int64) :
    Yields (fun pairs => ∀ pair ∈ pairs, pair.Unambiguous) (numbered start items) := by
  refine Yields.mapM fun entry mem => ?_
  have goodItem := within entry.1 (List.fst_mem_of_mem_zipIdx mem)
  refine Yields.after fun number => Yields.ok ?_
  exact unambiguous_tuple.mpr (List.forall_mem_cons.mpr
    ⟨unambiguous_of_isAtom rfl, List.forall_mem_singleton.mpr goodItem⟩)

/-! ### All functions -/

theorem unambiguous_getD {value? : Option Value} {default : Value}
    (good : ∀ value ∈ value?, value.Unambiguous) (goodDefault : default.Unambiguous) :
    (value?.getD default).Unambiguous := by
  cases value? with
  | none => exact goodDefault
  | some value => exact good value rfl

/-- Functions that go through the items of their first argument. -/
theorem yields_readingItems (good : args.All Unambiguous) {callee : String}
    {params : List String} {next : List Value → Taking Value}
    (takes : ∀ items, (∀ item ∈ items, item.Unambiguous) →
      Takes Unambiguous Unambiguous (next items)) :
    Yields Unambiguous (args.reading callee params 1 do
      next (← (← Bound.required "iterable").elements)) :=
  good.reading (Takes.bind (Bound.takes_required "iterable") fun _ goodValue =>
    Takes.bind (Takes.lift goodValue.elements) takes)

theorem yields_call (function : Builtin) (good : args.All Unambiguous) :
    Yields Unambiguous (call function args) := by
  cases function with
  | range => exact yields_range
  | zip =>
    refine Yields.after fun _ => ?_
    have columns := Yields.mapM fun value mem => (good.positional value mem).elements
    exact columns.bind fun columns within => Yields.ok (unambiguous_rows within)
  | len =>
    exact good.reading (Takes.bind (Bound.takes_required "obj") fun _ _ =>
      Takes.after fun _ => Takes.pure (by simp))
  | abs =>
    exact good.reading (Takes.bind (Bound.takes_required "x") fun value _ =>
      Takes.lift (yields_magnitude value))
  | min => exact yields_extremum .min .lt good
  | max => exact yields_extremum .max .gt good
  | sum =>
    refine yields_readingItems good fun items within => ?_
    refine Takes.bind (Bound.takes_take "start") fun start goodStart => Takes.lift ?_
    exact Yields.foldlM (unambiguous_getD goodStart (unambiguous_of_isAtom rfl))
      fun sum goodSum item mem => yields_add goodSum (within item mem)
  | list | tuple =>
    refine good.reading (Takes.bind (Bound.takes_take "iterable") fun value? goodValue => ?_)
    cases value? with
    | none => exact Takes.pure (by simp)
    | some value =>
      exact Takes.bind (Takes.lift (goodValue value rfl).elements) fun items within =>
        Takes.pure (by simpa using within)
  | dict => exact yields_dict good
  | str =>
    exact good.reading (Takes.bind (Bound.takes_take "object") fun _ _ => Takes.pure (by simp))
  | int =>
    exact good.reading (Takes.bind (Bound.takes_required "x") fun value _ =>
      Takes.lift (yields_toInt value))
  | float =>
    refine good.reading (Takes.bind (Bound.takes_take "x") fun value? _ => ?_)
    cases value? with
    | none => exact Takes.pure (by simp)
    | some value => exact Takes.lift (yields_toFloat value)
  | sorted =>
    refine yields_readingItems good fun items within => ?_
    refine Takes.bind (Bound.takes_flag "reverse") fun reverse _ => ?_
    refine Takes.bind (Takes.lift yields_sort) fun sorted among => Takes.pure ?_
    have goodSorted : ∀ item ∈ sorted, item.Unambiguous :=
      fun item mem => within item (among item mem)
    refine unambiguous_list.mpr ?_
    cases reverse with
    | true => exact fun item mem => goodSorted item (List.mem_reverse.mp mem)
    | false => exact goodSorted
  | enumerate =>
    refine yields_readingItems good fun items within => ?_
    have taken (start : Int64) : Takes Unambiguous
        (fun pairs => ∀ pair ∈ pairs, pair.Unambiguous) (liftM (numbered start items)) :=
      Takes.lift (yields_numbered within start)
    have listed (start : Int64) := Takes.bind (taken start) fun pairs good =>
      Takes.pure (unambiguous_list.mpr good)
    refine Takes.bind (Bound.takes_take "start") fun start? _ => ?_
    cases start? with
    | none => exact listed 0
    | some start =>
      exact Takes.after fun start => listed start
  | round =>
    refine good.reading ?_
    refine Takes.bind (Bound.takes_required "number") fun number _ => ?_
    refine Takes.bind (Bound.takes_take "ndigits") fun places? _ => ?_
    cases places? with
    | none => exact Takes.lift (yields_roundToInt number)
    | some places => exact Takes.lift (yields_roundToPlaces number places)
  | print => exact Yields.ok (by simp)

end Function

/-! ## Methods -/

namespace Method

variable {args : Arguments}

/-- The methods of texts give texts, truth values and lists of texts. -/
theorem yields_callOnText {text name callee : String} (good : args.All Unambiguous) :
    ∀ result ∈ callOnText text name callee args, Yields Unambiguous result := by
  rw [callOnText.eq_def]
  dsimp only
  split <;> rintro _ ⟨⟩
  · exact Yields.after fun _ => Yields.ok (by simp)
  · exact good.reading (Takes.bind (Bound.takes_required "iterable") fun _ _ =>
      Takes.after fun _ => Takes.after fun _ => Takes.pure (by simp))
  · exact good.reading (Takes.pure (by simp))
  · exact good.reading (Takes.pure (by simp))
  · exact good.reading (Takes.pure (by simp))
  · refine good.reading (Takes.bind (Bound.takes_take "sep") fun separator? _ => ?_)
    cases separator? with
    | none => exact Takes.pure (by simp [ofChars])
    | some separator => exact Takes.after fun _ => Takes.pure (by simp [ofChars])
  · exact good.reading (Takes.bind (Bound.takes_required "old") fun _ _ =>
      Takes.bind (Bound.takes_required "new") fun _ _ =>
        Takes.after fun _ => Takes.after fun _ => Takes.pure (by simp [ofChars]))
  · exact good.reading (Takes.bind (Bound.takes_required "prefix") fun _ _ =>
      Takes.after fun _ => Takes.pure (by simp))
  · exact good.reading (Takes.bind (Bound.takes_required "suffix") fun _ _ =>
      Takes.after fun _ => Takes.pure (by simp))

/-- The methods of dicts give what is within the dict. -/
theorem yields_callOnDict {entries : Entries} {name callee : String}
    (unambiguous : (Value.dict entries).Unambiguous) (good : args.All Unambiguous) :
    ∀ result ∈ callOnDict entries name callee args, Yields Unambiguous result := by
  have within := (unambiguous_dict.mp unambiguous).2
  rw [callOnDict.eq_def]
  dsimp only
  split <;> rintro _ ⟨⟩
  · exact good.reading (Takes.pure (unambiguous_list.mpr (List.forall_mem_map.mpr
      fun entry mem => (within entry mem).1)))
  · exact good.reading (Takes.pure (unambiguous_list.mpr (List.forall_mem_map.mpr
      fun entry mem => (within entry mem).2)))
  · refine good.reading (Takes.pure (unambiguous_list.mpr (List.forall_mem_map.mpr ?_)))
    intro entry mem
    obtain ⟨goodKey, goodValue⟩ := within entry mem
    exact unambiguous_tuple.mpr
      (List.forall_mem_cons.mpr ⟨goodKey, List.forall_mem_singleton.mpr goodValue⟩)
  · refine good.reading (Takes.bind (Bound.takes_required "key") fun key _ => ?_)
    split
    · next value found => exact Takes.pure (unambiguous_of_lookup? unambiguous found)
    · exact Takes.bind (Bound.takes_take "default") fun value? goodValue =>
        Takes.pure (Function.unambiguous_getD goodValue (unambiguous_of_isAtom rfl))

theorem yields_callOnItems {items : List Value} {name callee : String}
    (good : args.All Unambiguous) :
    ∀ result ∈ callOnItems items name callee args, Yields Unambiguous result := by
  rw [callOnItems.eq_def]
  dsimp only
  split <;> rintro _ ⟨⟩
  · refine good.reading (Takes.bind (Bound.takes_required "value") fun value _ => ?_)
    split
    · exact Takes.pure (unambiguous_of_isAtom rfl)
    · exact Takes.throw _
  · exact good.reading (Takes.bind (Bound.takes_required "value") fun _ _ =>
      Takes.pure (unambiguous_of_isAtom rfl))

theorem yields_call {receiver : Value} (name : String) (unambiguous : receiver.Unambiguous)
    (good : args.All Unambiguous) : Yields Unambiguous (call receiver name args) := by
  have orError {result? : Option (Except Failure Value)} {failure : Failure}
      (yields : ∀ result ∈ result?, Yields Unambiguous result) :
      Yields Unambiguous (result?.getD (.error failure)) := by
    cases result? with
    | none => exact Yields.error _
    | some result => exact yields result rfl
  cases receiver with
  | str text => exact orError (yields_callOnText good)
  | dict entries => exact orError (yields_callOnDict unambiguous good)
  | list items | tuple items => exact orError (yields_callOnItems good)
  | _ => exact Yields.error _

end Method

end Snippet

end ModelWeaver
