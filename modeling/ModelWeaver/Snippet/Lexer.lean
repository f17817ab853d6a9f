import ModelWeaver.Number.Decimal
import ModelWeaver.Number.Int64Range
import ModelWeaver.SyntaxError
import ModelWeaver.Text.Letter

/-!
# Reading tokens

`lexemes` turns the text of a snippet into tokens. Blanks, comments and escaped
line ends are passed over. Between statements a line end is a token, unless it
stands inside brackets or right after another separator; inside an expression
it is a blank.

Each step takes the character at hand and a number of characters after it.
-/

namespace ModelWeaver.Snippet

open Number
open Text

namespace Lexer

/-- What a step found: how many characters it takes after the first, and what
they are. -/
inductive Step where
  /-- Nothing that matters. -/
  | skip (extent : Nat)
  | token (token : Token) (extent : Nat)
  | fault (cause : SyntaxError.Cause) (extent : Nat)

/-! ## Strings -/

/-- The text that a backslash and a character stand for. -/
def escape : Char → List Char
  | 'n' => ['\n']
  | 't' => ['\t']
  | 'r' => ['\x0d']
  | '0' => ['\x00']
  | '\\' => ['\\']
  | '\'' => ['\'']
  | '"' => ['"']
  | '\n' => []
  | other => ['\\', other]

/-- The contents of a string up to its closing quote, and the number of
characters read. -/
def stringBody? (quote : Char) : List Char → Option (List Char × Nat)
  | [] => none
  | c :: cs =>
    if c = quote then some ([], 1)
    else if c = '\\' then
      match cs with
      | [] => none
      | escaped :: cs =>
        (stringBody? quote cs).map fun (body, extent) => (escape escaped ++ body, extent + 2)
    else (stringBody? quote cs).map fun (body, extent) => (c :: body, extent + 1)

/-! ## Numbers -/

/-- An exponent mark with its sign and digits: the power and the number of
characters. -/
def exponent? : List Char → Option (Int × Nat)
  | mark :: cs =>
    if mark = 'e' || mark = 'E' then
      let (negative, signs) : Bool × Nat :=
        match cs with
        | '+' :: _ => (false, 1)
        | '-' :: _ => (true, 1)
        | _ => (false, 0)
      let digits := (cs.drop signs).takeWhile Char.isDigit
      if digits.isEmpty then none
      else
        let power : Int := digitsValue digits
        some (if negative then -power else power, 1 + signs + digits.length)
    else none
  | [] => none

/-- The number at the start of a text, and its length. A point or an exponent makes it a float;
underscores may stand between the digits before the point. -/
def number (text : List Char) : Except SyntaxError.Cause Token × Nat :=
  let run := text.takeWhile fun c => c.isDigit || c = '_'
  let whole := run.filter Char.isDigit
  let rest := text.drop run.length
  let (fraction, pointed) : List Char × Nat :=
    match rest with
    | '.' :: more => let digits := more.takeWhile Char.isDigit; (digits, digits.length + 1)
    | _ => ([], 0)
  match exponent? (rest.drop pointed) with
  | some (power, extent) =>
    (.ok (.float (DecimalText.toFloat ⟨whole, fraction, power⟩)), run.length + pointed + extent)
  | none =>
    if pointed = 0 then
      match int64? (digitsValue whole) with
      | some value => (.ok (.integer value), run.length)
      | none => (.error (.integerTooLarge (String.ofList whole)), run.length)
    else
      (.ok (.float (DecimalText.toFloat ⟨whole, fraction, 0⟩)), run.length + pointed)

/-! ## Operators -/

/-- The operator that starts with `c`, given the character after it, and
whether it takes that character too. -/
def operator? (c : Char) (next : Option Char) : Option (Token × Nat) :=
  match c, next with
  | '*', some '*' => some (.starStar, 1)
  | '/', some '/' => some (.slashSlash, 1)
  | '+', some '=' => some (.plusEq, 1)
  | '-', some '=' => some (.minusEq, 1)
  | '*', some '=' => some (.starEq, 1)
  | '=', some '=' => some (.eqEq, 1)
  | '!', some '=' => some (.bangEq, 1)
  | '<', some '=' => some (.ltEq, 1)
  | '>', some '=' => some (.gtEq, 1)
  | '+', _ => some (.plus, 0)
  | '-', _ => some (.minus, 0)
  | '*', _ => some (.star, 0)
  | '/', _ => some (.slash, 0)
  | '=', _ => some (.eq, 0)
  | '<', _ => some (.lt, 0)
  | '>', _ => some (.gt, 0)
  | '%', _ => some (.percent, 0)
  | ',', _ => some (.comma, 0)
  | ':', _ => some (.colon, 0)
  | '.', _ => some (.dot, 0)
  | ';', _ => some (.semicolon, 0)
  | '(', _ => some (.lParen, 0)
  | '[', _ => some (.lBracket, 0)
  | '{', _ => some (.lBrace, 0)
  | ')', _ => some (.rParen, 0)
  | ']', _ => some (.rBracket, 0)
  | '}', _ => some (.rBrace, 0)
  | _, _ => none

/-! ## Steps -/

/-- Whether a number starts here: at a digit, or at a point before one. -/
def startsNumber (c : Char) (text : List Char) : Bool :=
  c.isDigit || (c = '.' && text.head?.any Char.isDigit)

/-- The step at character `c`, which `text` follows. `breaks` says whether a
line end counts as a token here. -/
def step (breaks : Bool) (c : Char) (text : List Char) : Step :=
  if c = ' ' || c = '\t' || c = '\x0d' then .skip 0
  else if c = '\n' then
    if breaks then .token .newline 0 else .skip 0
  else if c = '\\' && text.head? = some '\n' then .skip 1
  else if c = '#' then .skip (text.takeWhile (· ≠ '\n')).length
  else if c = '"' || c = '\'' then
    match stringBody? c text with
    | some (body, extent) => .token (.string (String.ofList body)) extent
    | none => .fault .unterminatedString text.length
  else if startsNumber c text then
    match number (c :: text) with
    | (.ok token, taken) => .token token (taken - 1)
    | (.error cause, taken) => .fault cause (taken - 1)
  else if isAlphabetic c || c = '_' then
    let more := text.takeWhile fun c => isAlphanumeric c || c = '_'
    .token (.ofWord (String.ofList (c :: more))) more.length
  else
    match operator? c text.head? with
    | some (token, extent) => .token token extent
    | none => .fault (.unexpectedCharacter c) 0

/-- How a token changes the number of open brackets. -/
def depthAfter (depth : Nat) : Token → Nat
  | .lParen | .lBracket | .lBrace => depth + 1
  | .rParen | .rBracket | .rBrace => depth - 1
  | _ => depth

/-- Whether a token separates statements. -/
def isSeparator : Token → Bool
  | .newline | .semicolon => true
  | _ => false

/-- Read tokens from byte `offset` on. `depth` brackets are open, and
`separated` says that no token since the last separator was read. -/
def lexFrom (statements : Bool) (offset depth : Nat) (separated : Bool) :
    List Char → Except SyntaxError (List Lexeme)
  | [] => return []
  | c :: text =>
    let stop (extent : Nat) := offset + byteLength (c :: text.take extent)
    match step (statements && depth = 0 && !separated) c text with
    | .skip extent => lexFrom statements (stop extent) depth separated (text.drop extent)
    | .token token extent => do
        let more ← lexFrom statements (stop extent) (depthAfter depth token)
          (isSeparator token) (text.drop extent)
        return ⟨token, offset, stop extent⟩ :: more
    | .fault cause extent => throw ⟨cause, offset, stop extent⟩
termination_by text => text.length
decreasing_by all_goals simp only [List.length_drop, List.length_cons]; omega

end Lexer

/-- The tokens of a snippet whose first byte has offset `base` in its document.
Line ends are tokens only between `statements`. -/
def lexemes (statements : Bool) (base : Nat) (source : String) :
    Except SyntaxError (List Lexeme) :=
  Lexer.lexFrom statements base 0 true source.toList

end ModelWeaver.Snippet
