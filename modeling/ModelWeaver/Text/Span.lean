/-!
# Spans, excerpts and locations

Positions in a text are byte offsets of its UTF-8 form. An `Excerpt` is a piece
of a text together with the offset it was cut from, so its span can never
disagree with what it holds. A `Location` is the line and column shown to a
reader.
-/

namespace ModelWeaver.Text

/-- The number of bytes that the characters take in UTF-8. -/
def byteLength (cs : List Char) : Nat :=
  cs.foldl (fun total c => total + c.utf8Size) 0

/-- A half-open range of byte offsets. -/
structure Span where
  /-- Offset of the first byte. -/
  start : Nat
  /-- Offset just past the last byte. -/
  stop : Nat
  deriving DecidableEq, Repr, Inhabited

/-- A piece of a text and the byte offset at which it starts. -/
structure Excerpt where
  text : String
  /-- The byte offset of its first character in the whole text. -/
  start : Nat
  deriving DecidableEq, Repr, Inhabited

/-- The byte range that an excerpt was cut from. -/
def Excerpt.span (excerpt : Excerpt) : Span :=
  ⟨excerpt.start, excerpt.start + excerpt.text.utf8ByteSize⟩

/-- A line and a column, both counted from one. -/
structure Location where
  line : Nat
  column : Nat
  deriving DecidableEq, Repr, Inhabited

namespace Location

/-- The location of the first character of a text. -/
def origin : Location := ⟨1, 1⟩

/-- The location just after a character: a line feed opens a new line, any
other character takes one column. -/
def after (location : Location) (c : Char) : Location :=
  if c = '\n' then ⟨location.line + 1, 1⟩ else ⟨location.line, location.column + 1⟩

/-- Walk over characters until `offset` bytes are used up or the text ends. -/
def walk (location : Location) (offset : Nat) : List Char → Location
  | [] => location
  | c :: cs =>
    if offset = 0 then location
    else walk (location.after c) (offset - c.utf8Size) cs

/-- The location of a byte offset. Offsets past the end give the location of
the end. -/
def ofOffset (source : String) (offset : Nat) : Location :=
  origin.walk offset source.toList

/-- How a location is written in messages. -/
def render (location : Location) : String :=
  s!"line {location.line} col {location.column}"

end Location

end ModelWeaver.Text
