/-!
# Delimited text

The text between an opening bracket and the bracket that closes it. Brackets
of the three kinds nest; quoted strings and `#` comments in between are passed
over, so a bracket inside them neither opens nor closes anything.
-/

namespace ModelWeaver.Document

/-- The three kinds of bracket. -/
inductive Bracket where
  | round
  | square
  | curly
  deriving DecidableEq, Repr, Inhabited

namespace Bracket

/-- The character that opens a bracket. -/
def opener : Bracket → Char
  | round => '('
  | square => '['
  | curly => '{'

/-- The character that closes a bracket. -/
def closer : Bracket → Char
  | round => ')'
  | square => ']'
  | curly => '}'

/-- The bracket that a character opens. -/
def ofOpener? : Char → Option Bracket
  | '(' => some round
  | '[' => some square
  | '{' => some curly
  | _ => none

/-- The bracket that a character closes. -/
def ofCloser? : Char → Option Bracket
  | ')' => some round
  | ']' => some square
  | '}' => some curly
  | _ => none

end Bracket

/-- Whether a character starts a quoted string. -/
def isQuote (c : Char) : Bool := c = '"' || c = '\''

namespace Delimiter

/-- What the scan is inside of. -/
inductive Mode where
  /-- Neither a string nor a comment. -/
  | plain
  /-- A string opened by the given quote. -/
  | quoted (quote : Char)
  /-- A string, right after a backslash. -/
  | escaped (quote : Char)
  /-- A comment, which lasts to the end of the line. -/
  | comment
  deriving DecidableEq

/-- Why no matching closer was found. -/
inductive Fault where
  /-- A closer of another kind than the innermost open bracket; `taken` is the
  text read up to and including it. -/
  | mismatched (found wanted : Bracket) (taken : List Char)
  /-- The text ended with the outermost bracket still open. -/
  | unterminated
  deriving DecidableEq

/-- Scan on, with the outermost bracket and `inner` (innermost first) open and `taken` read so
far, last character first. The result is the text before the outermost closer. -/
def scan (outer : Bracket) :
    Mode → List Bracket → List Char → List Char → Except Fault (List Char)
  | _, _, _, [] => .error .unterminated
  | .comment, inner, taken, c :: cs =>
    scan outer (if c = '\n' then .plain else .comment) inner (c :: taken) cs
  | .escaped quote, inner, taken, c :: cs =>
    scan outer (.quoted quote) inner (c :: taken) cs
  | .quoted quote, inner, taken, c :: cs =>
    let mode := if c = '\\' then .escaped quote else if c = quote then .plain else .quoted quote
    scan outer mode inner (c :: taken) cs
  | .plain, inner, taken, c :: cs =>
    match Bracket.ofOpener? c, Bracket.ofCloser? c with
    | some bracket, _ => scan outer .plain (bracket :: inner) (c :: taken) cs
    | none, some bracket =>
      match inner with
      | [] =>
        if bracket = outer then .ok taken.reverse
        else .error (.mismatched bracket outer (c :: taken).reverse)
      | wanted :: inner =>
        if bracket = wanted then scan outer .plain inner (c :: taken) cs
        else .error (.mismatched bracket wanted (c :: taken).reverse)
    | none, none =>
      let mode := if isQuote c then .quoted c else if c = '#' then .comment else .plain
      scan outer mode inner (c :: taken) cs

/-- The text between an opening bracket, already read, and its closer. -/
def inside (outer : Bracket) (text : List Char) : Except Fault (List Char) :=
  scan outer .plain [] [] text

end Delimiter

end ModelWeaver.Document
