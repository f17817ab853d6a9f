import ModelWeaver.Number.Int64Range
import ModelWeaver.Toml.Basic

/-!
# Single values of settings

How texts and numbers are written in a settings file.
-/

namespace ModelWeaver.Toml.Scalar

open Number
open Reader

/-! ## Digits -/

/-- Whether a character is a hexadecimal digit. -/
def isHexDigit (c : Char) : Bool :=
  c.isDigit || ('a' ≤ c && c ≤ 'f') || ('A' ≤ c && c ≤ 'F')

/-- The value of a hexadecimal digit. -/
def hexDigitValue (c : Char) : Nat :=
  if c.isDigit then c.toNat - '0'.toNat
  else if 'a' ≤ c then c.toNat - 'a'.toNat + 10
  else c.toNat - 'A'.toNat + 10

/-- The value of digits in a base. -/
def valueIn (base : Nat) (digits : List Char) : Nat :=
  digits.foldl (fun value c => base * value + hexDigitValue c) 0

/-- Read one or more digits; single underscores may stand between them. -/
def digits (isDigit : Char → Bool) : Reader (List Char) := do
  let first ← satisfying isDigit
  let rest ← many ((maybe (char '_')) *> satisfying isDigit)
  return first :: rest

/-! ## Texts -/

/-- The character with a hexadecimal code of `count` digits. -/
def codePoint (count : Nat) : Reader Char := do
  let taken := (← get).take count
  let code := valueIn 16 taken
  if taken.length = count && taken.all isHexDigit && code.isValidChar then
    modify (·.drop count)
    return Char.ofNat code
  else failure

/-- Read what follows a backslash. -/
def escape : Reader Char := do
  match ← satisfying fun _ => true with
  | 'b' => return '\x08'
  | 't' => return '\t'
  | 'n' => return '\n'
  | 'f' => return '\x0c'
  | 'r' => return '\r'
  | '"' => return '"'
  | '\\' => return '\\'
  | 'u' => codePoint 4
  | 'U' => codePoint 8
  | _ => failure

/-- Read a piece of a text between double quotes. -/
def basicPiece : Reader (List Char) :=
  takeSome (fun c => isPrintable c && c ≠ '"' && c ≠ '\\') <|>
    (do char '\\'; return [← escape])

/-- Read a text between double quotes. -/
def basicText : Reader String := do
  char '"'
  let pieces ← many basicPiece
  char '"'
  return String.ofList pieces.flatten

/-- Read a text between single quotes, where every character stands for itself. -/
def literalText : Reader String := do
  char '\''
  let cs ← takeWhile fun c => isPrintable c && c ≠ '\''
  char '\''
  return String.ofList cs

/-- Read one or two quotes inside a text of several lines. -/
def innerQuotes (quote : Char) : Reader (List Char) := do
  let quotes := (← get).takeWhile (· = quote)
  if quotes.isEmpty || 2 < quotes.length then failure
  modify (·.drop quotes.length)
  return quotes

/-- Read three quotes at the end of a text, and up to two before them that belong to
the text. -/
def closingQuotes (quote : Char) : Reader (List Char) := do
  let quotes := (← get).takeWhile (· = quote)
  if quotes.length < 3 || 5 < quotes.length then failure
  modify (·.drop quotes.length)
  return quotes.drop 3

/-- A backslash at the end of a line takes away all blanks up to the next
character. -/
def continuation : Reader Unit := do
  char '\\'
  blanks
  lineFeed
  discard (many (discard (satisfying fun c => c = ' ' || c = '\t') <|> lineFeed))

/-- Read a text of several lines. An end of line right after the opening quotes does not count;
all others are line feeds. -/
def longText (quote : Char) (piece : Reader (List Char)) : Reader String := do
  word (String.ofList [quote, quote, quote])
  discard (maybe lineFeed)
  let pieces ← many (piece <|> (do lineFeed; return ['\n']) <|> innerQuotes quote)
  let quotes ← closingQuotes quote
  return String.ofList (pieces.flatten ++ quotes)

/-- Read a text of several lines between double quotes. -/
def longBasicText : Reader String :=
  longText '"' ((do continuation; return []) <|> basicPiece)

/-- Read a text of several lines between single quotes. -/
def longLiteralText : Reader String :=
  longText '\'' (takeSome fun c => isPrintable c && c ≠ '\'')

/-- Read a text. -/
def text : Reader String := longBasicText <|> basicText <|> longLiteralText <|> literalText

/-! ## Numbers -/

/-- Read a sign, if any: whether it is a minus. -/
def sign : Reader Bool :=
  (do char '-'; return true) <|> (do char '+'; return false) <|> pure false

/-- Read decimal digits without a zero in front of others. -/
def decimalDigits : Reader (List Char) := do
  if (← next?) = some '0' then
    char '0'
    return ['0']
  else digits Char.isDigit

/-- Give a magnitude its sign as a 64-bit integer. -/
def signed (negative : Bool) (magnitude : Nat) : Reader Int64 :=
  match int64? (if negative then -magnitude else magnitude) with
  | some value => pure value
  | none => failure

/-- Read digits after the mark of a base. -/
def based (mark : String) (base : Nat) (isDigit : Char → Bool) : Reader Int64 := do
  word mark
  signed false (valueIn base (← digits isDigit))

/-- Read an integer. -/
def integer : Reader Int64 :=
  based "0x" 16 isHexDigit <|>
  based "0o" 8 (fun c => '0' ≤ c && c ≤ '7') <|>
  based "0b" 2 (fun c => c = '0' || c = '1') <|>
  (do let negative ← sign
      signed negative (digitsValue (← decimalDigits)))

/-- Read an exponent. -/
def exponent : Reader Int := do
  char 'e' <|> char 'E'
  let negative ← sign
  let magnitude : Int := digitsValue (← digits Char.isDigit)
  return if negative then -magnitude else magnitude

/-- Read a number with a fraction or an exponent. A positive one must not be too
large. -/
def decimal : Reader Float := do
  let negative ← sign
  let whole ← decimalDigits
  let fraction ← maybe (char '.' *> digits Char.isDigit)
  let power ← maybe exponent
  if fraction.isNone && power.isNone then failure
  let magnitude := DecimalText.toFloat ⟨whole, fraction.getD [], power.getD 0⟩
  if !negative && magnitude == infinity then failure
  return if negative then -magnitude else magnitude

/-- Read infinity or what is not a number. -/
def namedFloat : Reader Float := do
  let negative ← sign
  let magnitude ← (do word "inf"; return infinity) <|> (do word "nan"; return 0.0 / 0.0)
  return if negative then -magnitude else magnitude

/-! ## All single values -/

/-- Read a value that is neither an array nor a table. -/
def read : Reader Toml :=
  Toml.str <$> text <|>
  Toml.moment <$> Moment.read Moment.plainLimits <|>
  Toml.float <$> decimal <|>
  Toml.float <$> namedFloat <|>
  Toml.int <$> integer <|>
  (do word "true"; return .bool true) <|>
  (do word "false"; return .bool false)

end ModelWeaver.Toml.Scalar
