import ModelWeaver.Text.Search

/-!
# Readers

A reader takes characters off the start of a text. It gives what it read, or fails;
an alternative starts again where the failed reader did.
-/

namespace ModelWeaver.Toml

open Text

/-- Takes characters off the start of a text. -/
abbrev Reader := StateT (List Char) Option

namespace Reader

/-- Take a character that satisfies a condition. -/
def satisfying (condition : Char → Bool) : Reader Char := do
  match ← get with
  | [] => failure
  | c :: rest =>
    if condition c then
      set rest
      return c
    else failure

/-- Take a given character. -/
def char (c : Char) : Reader Unit := discard (satisfying (· = c))

/-- Take a given word. -/
def word (text : String) : Reader Unit := do
  match dropStart? text.toList (← get) with
  | some rest => set rest
  | none => failure

/-- Take characters as long as they satisfy a condition. -/
def takeWhile (condition : Char → Bool) : Reader (List Char) := do
  let taken := (← get).takeWhile condition
  modify (·.drop taken.length)
  return taken

/-- Take one or more characters that satisfy a condition. -/
def takeSome (condition : Char → Bool) : Reader (List Char) := do
  let taken ← takeWhile condition
  if taken.isEmpty then failure else return taken

/-- The next character, which is not taken. -/
def next? : Reader (Option Char) := return (← get).head?

/-- Read something that may be missing. -/
def maybe {α : Type} (reader : Reader α) : Reader (Option α) :=
  (some <$> reader) <|> pure none

/-- Read something as often as possible, at most once for each of some characters, after `items`,
the last first. -/
def upTo {α : Type} (reader : Reader α) : (bound : List Char) → (items : List α) → Reader (List α)
  | [], items => return items.reverse
  | _ :: bound, items => do
      match ← maybe reader with
      | some item => upTo reader bound (item :: items)
      | none => return items.reverse

/-- Read something as often as possible, but not more often than there are characters. -/
def many {α : Type} (reader : Reader α) : Reader (List α) := do
  upTo reader (← get) []

/-- Read one or more things with separators between them. -/
def separated {α : Type} (item : Reader α) (separator : Reader Unit) : Reader (List α) := do
  let first ← item
  return first :: (← many (separator *> item))

/-- Read to the end of the text. -/
def whole? {α : Type} (reader : Reader α) (text : List Char) : Option α :=
  match reader.run text with
  | some (value, []) => some value
  | _ => none

/-! ## Blanks -/

/-- Take blanks and tabs. -/
def blanks : Reader Unit := discard (takeWhile fun c => c = ' ' || c = '\t')

/-- Take the end of a line. -/
def lineFeed : Reader Unit := char '\n' <|> word "\r\n"

/-- Whether a character may stand in a text: no control character but the tab. -/
def isPrintable (c : Char) : Bool := c = '\t' || (' ' ≤ c && c ≠ '\x7f')

/-- Take a comment. -/
def comment : Reader Unit := do
  char '#'
  discard (takeWhile isPrintable)

/-- Take the rest of a line: blanks, a comment, and the end of the line or of the
text. -/
def restOfLine : Reader Unit := do
  blanks
  discard (maybe comment)
  if (← get).isEmpty then return () else lineFeed

/-- Take blanks, comments and ends of lines. -/
def gap : Reader Unit := do
  blanks
  discard (many (maybe comment *> lineFeed *> blanks))

end Reader

end ModelWeaver.Toml
