import ModelWeaver.Text.Alphabetic

/-!
# Letters, words and blanks

Character classes and whole-text operations that follow Unicode: words, case
and trimming.
-/

namespace ModelWeaver.Text

/-- Whether a character is a letter or a number. -/
def isAlphanumeric (c : Char) : Bool := isAlphabetic c || isNumeric c

/-- Whether a character belongs to words: letters but the most recent ones, decimal
digits and marks. -/
def isWordChar (c : Char) : Bool := (isAlphabetic c && !isRecentLetter c) || isWordPart c

/-! ## Case -/

/-- Apply a case mapping to one character. -/
def mapCase (runs : List CaseRun) (expansions : List (Nat × List Nat)) (c : Char) : List Char :=
  match expansions.lookup c.toNat with
  | some codes => codes.map Char.ofNat
  | none =>
    match runs.findSome? (fun run => run.map? c.toNat) with
    | some code => [Char.ofNat code]
    | none => [c]

/-- The upper case of a character. -/
def upperChar (c : Char) : List Char :=
  if c.toNat < 128 then [c.toUpper] else mapCase upperRuns upperExpansions c

/-- The lower case of a character on its own. -/
def lowerChar (c : Char) : List Char :=
  if c.toNat < 128 then [c.toLower] else mapCase lowerRuns lowerExpansions c

/-- Whether the first character that is not ignored for casing is a cased one. -/
def meetsCased (cs : List Char) : Bool :=
  match cs.dropWhile caseIgnorableRanges.contains with
  | [] => false
  | c :: _ => casedRanges.contains c

/-- Lower-case characters, with those before them given last first. A capital
sigma at the end of a word becomes the final form. -/
def lowerFrom (before : List Char) : List Char → List (List Char)
  | [] => []
  | c :: cs =>
    let image :=
      if c = 'Σ' then
        if meetsCased before && !meetsCased cs then ['ς'] else ['σ']
      else lowerChar c
    image :: lowerFrom (c :: before) cs

/-- A text in upper case. -/
def upper (text : String) : String :=
  String.ofList (text.toList.flatMap upperChar)

/-- A text in lower case. -/
def lower (text : String) : String :=
  String.ofList (lowerFrom [] text.toList).flatten

/-! ## Trimming -/

/-- Drop the characters that satisfy `drop` from both ends. -/
def trimBy (drop : Char → Bool) (cs : List Char) : List Char :=
  ((cs.dropWhile drop).reverse.dropWhile drop).reverse

/-- A text without the white space at its ends. -/
def trim (text : String) : String := String.ofList (trimBy isBlank text.toList)

/-- A text without the white space at its start. -/
def trimStart (text : String) : String := String.ofList (text.toList.dropWhile isBlank)

end ModelWeaver.Text
