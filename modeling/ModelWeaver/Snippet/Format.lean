import ModelWeaver.Number.Read
import ModelWeaver.Text.Search
import ModelWeaver.Value.Text

/-!
# Formatting texts

Two ways to put values into a template: replacement fields in braces, and
conversions that start with a percent sign. Both describe the layout of a value by
a `Spec`.
-/

namespace ModelWeaver.Snippet.Format

open Number

/-- On which side of the field a value stands. -/
inductive Align where
  | left
  | right
  | centre
  deriving DecidableEq

/-- The layout of a value. -/
structure Spec where
  fill : Char := ' '
  /-- Numbers stand on the right by default, everything else on the left. -/
  align : Option Align := none
  width : Nat := 0
  precision : Option Nat := none
  kind : Option Char := none

/-! ## Reading a layout -/

/-- The alignment that a character stands for. -/
def align? : Char → Option Align
  | '<' => some .left
  | '>' => some .right
  | '^' => some .centre
  | _ => none

/-- A size of at most 64 bits; a larger one, or none at all, counts as zero. -/
def size (digits : List Char) : Nat :=
  let n := digitsValue digits
  if n < UInt64.size then n else 0

/-- Read an alignment, with or without a fill character in front of it, a width, a
precision behind a point and a kind. -/
def Spec.parse (text : String) : Except Failure Spec := do
  let cs := text.toList
  let (spec, cs) : Spec × List Char :=
    match cs with
    | fill :: mark :: rest =>
      match align? mark, align? fill with
      | some align, _ => ({ fill, align := some align }, rest)
      | none, some align => ({ align := some align }, mark :: rest)
      | none, none => ({}, cs)
    | [mark] =>
      match align? mark with
      | some align => ({ align := some align }, [])
      | none => ({}, cs)
    | [] => ({}, [])
  let width := cs.takeWhile Char.isDigit
  let cs := cs.drop width.length
  let (precision, cs) : Option Nat × List Char :=
    match cs with
    | '.' :: rest => (some (size (rest.takeWhile Char.isDigit)), rest.dropWhile Char.isDigit)
    | cs => (none, cs)
  let spec := { spec with width := size width, precision }
  match cs with
  | [] => return spec
  | [kind] => return { spec with kind := some kind }
  | _ => throw (.badArgument (.formatSpec text))

/-! ## Applying a layout -/

/-- Drop the zeros at the end of a fraction, and the point if nothing is left
behind it. -/
def stripZeros (text : List Char) : List Char :=
  if text.contains '.' then
    ((text.reverse.dropWhile (· = '0')).dropWhile (· = '.')).reverse
  else text

/-- A number with the given number of digits, in full or with an exponent,
whichever fits its size. -/
def generalText (x : Float) (precision : Nat) : String :=
  if !x.isFinite then Value.floatText x
  else if x == 0.0 then "0"
  else
    let digits := max precision 1
    let power := (toInt64 (floor x.abs.log10)).toInt
    if power < -4 || (digits : Int) ≤ power then
      let text := (exponentText (digits - 1) x).toList
      let mantissa := text.takeWhile (· ≠ 'e')
      String.ofList (stripZeros mantissa ++ text.drop mantissa.length)
    else
      String.ofList (stripZeros (fixedText ((digits : Int) - 1 - power).toNat x).toList)

/-- The text of a value in a given kind of layout, before it is padded. -/
def Spec.body (spec : Spec) (value : Value) : Except Failure String := do
  let places := spec.precision.getD 6
  match spec.kind with
  | some 'd' | some 'i' =>
    match value with
    | .float x => return toString (toInt64 x).toInt
    | value =>
      match value.int? with
      | some n => return toString n.toInt
      | none => value.mismatch "integer"
  | some 'f' | some 'F' => return fixedText places (← value.toNumber)
  | some 'e' => return exponentText places (← value.toNumber)
  | some 'g' => return generalText (← value.toNumber) places
  | some '%' => return fixedText places ((← value.toNumber) * 100.0) ++ "%"
  | some 'r' => return value.repr
  | none =>
    match spec.precision, value with
    | some places, .float x => return generalText x places
    | some places, value => return String.ofList (value.text.toList.take places)
    | none, value => return value.text
  | some 's' =>
    match spec.precision with
    | some places => return String.ofList (value.text.toList.take places)
    | none => return value.text
  | some code => throw (.badArgument (.formatCode code))

/-- The text of a value, padded to the width of its field. -/
def Spec.apply (spec : Spec) (value : Value) : Except Failure String := do
  let body ← spec.body value
  let missing := spec.width - body.length
  if missing = 0 then return body
  let padding (n : Nat) := String.ofList (List.replicate n spec.fill)
  let usual := if value.isNumber && spec.kind ≠ some 's' then Align.right else Align.left
  match spec.align.getD usual with
  | .left => return body ++ padding missing
  | .right => return padding missing ++ body
  | .centre => return padding (missing / 2) ++ body ++ padding (missing - missing / 2)

/-! ## Replacement fields -/

/-- The value of a field: the next one if the field has no key, the one at a
position if the key is a number, the one of that name otherwise. -/
def fieldValue? (positional : List Value) (keyword : List (String × Value)) (next : Nat)
    (key : List Char) : Option Value :=
  if key.isEmpty then positional[next]?
  else
    match readIndex? key with
    | some i => positional[i]?
    | none => keyword.lookup (String.ofList key)

/-- The text of one replacement field. -/
def fieldText (positional : List Value) (keyword : List (String × Value)) (next : Nat)
    (field : List Char) : Except Failure String := do
  let key := field.takeWhile (· ≠ ':')
  let layout := field.drop (key.length + 1)
  match fieldValue? positional keyword next key with
  | none => throw (.outOfRange (.replacementField (String.ofList field)))
  | some value => (← Spec.parse (String.ofList layout)).apply value

/-- What was just read of a template. -/
inductive Reading where
  | literal
  | opened
  /-- A closing brace outside a field. -/
  | closed
  /-- A field, with its characters so far, last one first. -/
  | field (read : List Char)

/-- A template filled in up to some point: what was just read, the number of
fields without a key, and the text so far. -/
structure Filling where
  reading : Reading := .literal
  next : Nat := 0
  done : String := ""

/-- Fill in a field that is complete. -/
def Filling.close (filling : Filling) (positional : List Value)
    (keyword : List (String × Value)) (field : List Char) : Except Failure Filling := do
  let text ← fieldText positional keyword filling.next field
  let isAuto := (field.takeWhile (· ≠ ':')).isEmpty
  return {
    reading := .literal
    next := if isAuto then filling.next + 1 else filling.next
    done := filling.done ++ text }

/-- Read one more character of a template. -/
def Filling.step (positional : List Value) (keyword : List (String × Value))
    (filling : Filling) (c : Char) : Except Failure Filling :=
  match filling.reading with
  | .literal =>
    if c = '{' then .ok { filling with reading := .opened }
    else if c = '}' then .ok { filling with reading := .closed }
    else .ok { filling with done := filling.done.push c }
  | .opened =>
    if c = '{' then .ok { filling with reading := .literal, done := filling.done.push c }
    else if c = '}' then filling.close positional keyword []
    else .ok { filling with reading := .field [c] }
  | .closed =>
    if c = '}' then .ok { filling with reading := .literal, done := filling.done.push c }
    else .error (.badArgument .singleCloseBrace)
  | .field read =>
    if c = '}' then filling.close positional keyword read.reverse
    else .ok { filling with reading := .field (c :: read) }

/-- Fill in the fields of a template: doubled braces stand for single ones, and a
field is a key and a layout, both of which may be left out. -/
def template (text : String) (positional : List Value) (keyword : List (String × Value)) :
    Except Failure String := do
  let filling ← text.toList.foldlM (Filling.step positional keyword) {}
  match filling.reading with
  | .literal => return filling.done
  | .closed => throw (.badArgument .singleCloseBrace)
  | .opened | .field _ => throw (.badArgument .singleOpenBrace)

/-! ## Percent conversions -/

/-- Whether a character ends a conversion. -/
def isConversion (c : Char) : Bool := "sdifeEgGr".toList.contains c

/-- What was just read of a template. -/
inductive Conversion where
  | literal
  | start
  /-- A layout, with the alignment and its characters so far, last one first. -/
  | layout (align : Option Align) (read : List Char)

/-- A template converted up to some point: what was just read, the values that
are left, and the text so far. -/
structure Converting where
  conversion : Conversion := .literal
  values : List Value
  done : String := ""

/-- Lay out the first of the values that are left. -/
def Converting.convert (converting : Converting) (align : Option Align) (layout : List Char)
    (kind : Char) : Except Failure Converting :=
  match converting.values with
  | [] => .error (.badArgument .notEnoughValues)
  | value :: values => do
      let spec ← Spec.parse (String.ofList layout)
      let text ← { spec with align, kind := some kind.toLower : Spec }.apply value
      return { conversion := .literal, values, done := converting.done ++ text }

/-- Read one more character of a layout in the template `whole`. -/
def Converting.layoutStep (whole : String) (converting : Converting) (align : Option Align)
    (read : List Char) (c : Char) : Except Failure Converting :=
  if c.isDigit || c = '.' then
    .ok { converting with conversion := .layout align (c :: read) }
  else if c = '%' && read.isEmpty then
    .ok { converting with conversion := .literal, done := converting.done.push '%' }
  else if isConversion c then converting.convert align read.reverse c
  else .error (.badArgument (.unsupportedConversion whole))

/-- Read one more character of the template `whole`. -/
def Converting.step (whole : String) (converting : Converting) (c : Char) :
    Except Failure Converting :=
  match converting.conversion with
  | .literal =>
    if c = '%' then .ok { converting with conversion := .start }
    else .ok { converting with done := converting.done.push c }
  | .start =>
    if c = '-' then .ok { converting with conversion := .layout (some .left) [] }
    else converting.layoutStep whole none [] c
  | .layout align read => converting.layoutStep whole align read c

/-- Fill in the conversions of a template. A tuple gives one value to each; any
other value is a single one. -/
def percent (template : String) (values : Value) : Except Failure String := do
  let values := match values with
    | .tuple items => items
    | value => [value]
  let converting ← template.toList.foldlM (Converting.step template) { values }
  match converting.conversion with
  | .literal =>
    if converting.values.isEmpty then return converting.done
    else throw (.badArgument .unusedValues)
  | _ => throw (.badArgument (.unsupportedConversion template))

end ModelWeaver.Snippet.Format
