import ModelWeaver.Call.Arguments
import ModelWeaver.Snippet.Operator
import ModelWeaver.Text.Letter

/-!
# Functions of the snippet language

What the functions that every snippet can call compute. None of them has an
effect but `print`, whose line is computed here and written by its caller.
-/

namespace ModelWeaver.Snippet.Function

open Number

/-! ## Ranges -/

/-- Whether a range goes on with a number: it is before the end in the direction of the step. -/
def InRange (stop step current : Int64) : Prop :=
  0 < step ∧ current < stop ∨ step < 0 ∧ stop < current

/-- Whether a range reaches a number can be computed. -/
instance (stop step current : Int64) : Decidable (InRange stop step current) :=
  inferInstanceAs (Decidable (_ ∨ _))

/-- How far a number is before the end of a range. -/
def rangeDistance (stop step current : Int64) : Nat :=
  if 0 < step then (stop.toInt - current.toInt).toNat else (current.toInt - stop.toInt).toNat

/-- Every step leads closer to the end, or past it. -/
theorem rangeDistance_lt {stop step current next : Int64} (inRange : InRange stop step current)
    (found : addInt64? current step = some next) :
    rangeDistance stop step next < rangeDistance stop step current := by
  rw [addInt64?_eq_int64?, int64?_eq_some_iff] at found
  simp only [InRange, Int64.lt_iff_toInt_lt, Int64.toInt_zero] at inRange
  simp only [rangeDistance, Int64.lt_iff_toInt_lt, Int64.toInt_zero]
  split <;> omega

/-- Add the numbers of a range from `current` on. It ends before `stop`, or where the next number
would not fit in 64 bits. -/
def addRange (stop step current : Int64) (values : Array Value) : Array Value :=
  if _ : InRange stop step current then
    match _ : addInt64? current step with
    | some next => addRange stop step next (values.push (.int current))
    | none => values.push (.int current)
  else values
termination_by rangeDistance stop step current
decreasing_by exact rangeDistance_lt ‹_› ‹_›

/-- The numbers from `start` in steps of `step` before `stop`. The whole quotient
of the distance and the step is limited. -/
def rangeValues (start stop step : Int64) : Except Failure (List Value) :=
  if step = 0 then .error (.badArgument .rangeStepZero)
  else if (maxSequenceLength : Int) < (stop.toInt - start.toInt).tdiv step.toInt then
    .error (.badArgument .rangeTooLong)
  else .ok (addRange stop step start #[]).toList

/-- A range given by its end, by both ends, or by both ends and a step. -/
def range (args : Arguments) : Except Failure Value := do
  args.noKeywords Builtin.range.name
  let bounds ← args.positional.mapM Value.toInteger
  match bounds with
  | [stop] => return .list (← rangeValues 0 stop 1)
  | [start, stop] => return .list (← rangeValues start stop 1)
  | [start, stop, step] => return .list (← rangeValues start stop step)
  | bounds => throw (.badArgument (.rangeArity bounds.length))

/-! ## Sequences -/

/-- The first items of all columns, the second ones, and so on, as long as every
column has one. -/
def rows (columns : List (List Value)) : List Value :=
  let count := (columns.map List.length).min?.getD 0
  let rows := columns.foldr (List.zipWith (· :: ·)) (List.replicate count [])
  rows.map .tuple

/-- The first item that no later one precedes in the wanted direction. -/
def extremum (function : Builtin) (wanted : Ordering) (args : Arguments) :
    Except Failure Value := do
  args.noKeywords function.name
  let items ← match args.positional with
    | [single] => single.elements
    | many => pure many
  match items with
  | [] => throw (.badArgument (.emptyExtremum function.name))
  | first :: rest =>
    rest.foldlM (fun best item => return if (← item.order best) == wanted then item else best)
      first

/-! ## Sorting -/

/-- Insert an item into a sequence sorted downwards, behind the items that it
precedes. -/
def insertDown (item : Value) : List Value → Except Failure (List Value)
  | [] => .ok [item]
  | other :: others => do
      if (← item.order other) == .lt then return other :: (← insertDown item others)
      else return item :: other :: others

/-- Items in ascending order; equal ones keep theirs. Each is compared with those before it, from
the nearest on, until it does not precede one. -/
def insertionSort (items : List Value) : Except Failure (List Value) := do
  let sorted ← items.foldlM (fun sorted item => insertDown item sorted) []
  return sorted.reverse

/-- Check that every item can be compared with the one before it. -/
def neighboursCompare : List Value → Except Failure Unit
  | before :: item :: items =>
    match item.order before with
    | .ok _ => neighboursCompare (item :: items)
    | .error failure => .error failure
  | _ => .ok ()

/-- Whether `a` may stand before `b` in ascending order. -/
def mayPrecede (a b : Value) : Bool :=
  match a.order b with
  | .ok .gt => false
  | _ => true

/-- Items in ascending order; equal ones keep theirs. The items must be comparable
with their neighbours both in the given and in the ascending order. -/
def mergeSort (items : List Value) : Except Failure (List Value) := do
  neighboursCompare items
  let sorted := items.mergeSort mayPrecede
  neighboursCompare sorted
  return sorted

/-- The longest sequence that is sorted by insertion. -/
def maxInsertion : Nat := 20

/-- Items in ascending order; equal ones keep theirs. -/
def sort (items : List Value) : Except Failure (List Value) :=
  if items.length ≤ maxInsertion then insertionSort items else mergeSort items

/-! ## Numbering and length -/

/-- Items paired with numbers that count up from `start`. A number that does not fit in 64
bits is a panic. -/
def numbered (start : Int64) (items : List Value) : Except Failure (List Value) :=
  items.zipIdx.mapM fun (item, i) => do
    return .tuple [.int (← Failure.orPanic .addition (int64? (start.toInt + i))), item]

/-- The number of elements of a text, a sequence or a dict. -/
def length (value : Value) : Except Failure Nat :=
  match value with
  | .str text => .ok text.length
  | .list items | .tuple items => .ok items.length
  | .dict entries => .ok entries.length
  | value => value.mismatch "sized value"

/-! ## Dicts -/

/-- Store the pair that a value consists of. -/
def insertPair (entries : Entries) (pair : Value) : Except Failure Entries := do
  match ← pair.elements with
  | [key, value] => return Value.insertEntry entries key value
  | _ => throw (.badArgument .dictPairLength)

/-- A dict from the entries of another one or from pairs, and from named
arguments. -/
def dict (args : Arguments) : Except Failure Value := do
  let entries ← match args.positional with
    | [] => pure []
    | [.dict source] =>
      pure (source.foldl (fun entries (key, value) => Value.insertEntry entries key value) [])
    | [pairs] => (← pairs.elements).foldlM insertPair []
    | more => throw (.badArgument (.dictArity more.length))
  return .dict (args.keyword.foldl
    (fun entries (name, value) => Value.insertEntry entries (.str name) value) entries)

/-! ## Numbers -/

/-- The magnitude of a number. -/
def magnitude (value : Value) : Except Failure Value :=
  match value with
  | .float x => .ok (.float x.abs)
  | value =>
    match value.int? with
    | some n => exactly n.toInt.natAbs
    | none => value.mismatch "number"

/-- A value as an integer: floats lose their fraction, texts are read. -/
def toInt (value : Value) : Except Failure Value :=
  match value with
  | .float x =>
    if x.isFinite then .ok (.int (toInt64 x)) else value.mismatch "number or string"
  | .str text =>
    match readInt64? (Text.trim text).toList with
    | some n => .ok (.int n)
    | none => .error (.badArgument (.intLiteral text))
  | value =>
    match value.int? with
    | some n => .ok (.int n)
    | none => value.mismatch "number or string"

/-- A value as a float: texts are read. -/
def toFloat (value : Value) : Except Failure Value :=
  match value with
  | .str text =>
    match readFloat? (Text.trim text).toList with
    | some x => .ok (.float x)
    | none => .error (.badArgument (.floatLiteral text))
  | value => return .float (← value.toNumber)

/-- A number rounded to an integer; a half goes to the even one. -/
def roundToInt (value : Value) : Except Failure Value :=
  match value with
  | .float x =>
    let rounded := roundHalfEven x
    if rounded.isFinite then .ok (.int (toInt64 rounded)) else .error .overflow
  | value =>
    match value.int? with
    | some n => .ok (.int n)
    | none => value.mismatch "number"

/-- A number rounded to some decimal places. Integers stay as they are. -/
def roundToPlaces (value places : Value) : Except Failure Value := do
  let places := (← places.toInteger).toInt
  if places < -0x80000000 || 0x80000000 ≤ places then throw .overflow
  match value with
  | .int n => return .int n
  | value =>
    let scale := powInt 10.0 places
    return .float (roundHalfEven ((← value.toNumber) * scale) / scale)

/-! ## All functions -/

/-- The line that `print` writes. -/
def printed (args : Arguments) : String :=
  let separator := match args.keyword.lookup "sep" with
    | some value => value.text
    | none => " "
  separator.intercalate (args.positional.map Value.text)

/-- Call a function. -/
def call (function : Builtin) (args : Arguments) : Except Failure Value :=
  let reading := args.reading (α := Value) function.name
  match function with
  | .range => range args
  | .zip => do
      args.noKeywords function.name
      return .list (rows (← args.positional.mapM Value.elements))
  | .len => reading ["obj"] 1 do
      return .int (Int64.ofNat (← length (← Bound.required "obj")))
  | .abs => reading ["x"] 1 do magnitude (← Bound.required "x")
  | .min => extremum function .lt args
  | .max => extremum function .gt args
  | .sum => reading ["iterable", "start"] 1 do
      let items ← (← Bound.required "iterable").elements
      let start := (← Bound.take "start").getD (.int 0)
      items.foldlM (m := Except Failure) add start
  | .list => reading ["iterable"] 0 do
      match ← Bound.take "iterable" with
      | some value => return .list (← value.elements)
      | none => return .list []
  | .tuple => reading ["iterable"] 0 do
      match ← Bound.take "iterable" with
      | some value => return .tuple (← value.elements)
      | none => return .tuple []
  | .dict => dict args
  | .str => reading ["object"] 0 do
      return .str (((← Bound.take "object").map Value.text).getD "")
  | .int => reading ["x"] 1 do toInt (← Bound.required "x")
  | .float => reading ["x"] 0 do
      match ← Bound.take "x" with
      | some value => toFloat value
      | none => return .float 0.0
  | .sorted => reading ["iterable", "reverse"] 1 do
      let items ← (← Bound.required "iterable").elements
      let reverse ← Bound.flag "reverse"
      let sorted ← sort items
      return .list (if reverse then sorted.reverse else sorted)
  | .enumerate => reading ["iterable", "start"] 1 do
      let items ← (← Bound.required "iterable").elements
      let start ← match ← Bound.take "start" with
        | some start => start.toInteger
        | none => pure 0
      return .list (← numbered start items)
  | .round => reading ["number", "ndigits"] 1 do
      let number ← Bound.required "number"
      match ← Bound.take "ndigits" with
      | some places => roundToPlaces number places
      | none => roundToInt number
  | .print => return .none

end ModelWeaver.Snippet.Function
