/-!
# Searching texts

Finding, splitting and replacing pieces of a text, given as lists of characters.
Occurrences are taken from the left and do not overlap. The empty piece occurs
before every character and at the end.
-/

namespace ModelWeaver.Text

/-- The rest of a text after a given start. -/
def dropStart? : (start text : List Char) → Option (List Char)
  | [], text => some text
  | _ :: _, [] => none
  | a :: start, b :: text => if a = b then dropStart? start text else none

/-- Whether a text contains a piece. -/
def isInfixOf (piece : List Char) : List Char → Bool
  | [] => piece.isEmpty
  | c :: text => (dropStart? piece (c :: text)).isSome || isInfixOf piece text

/-- Whether a text ends with a piece. -/
def endsWith (piece text : List Char) : Bool :=
  (dropStart? piece.reverse text.reverse).isSome

/-- The parts of a text between the occurrences of a piece that is not empty. `part` was read
since the last one, last character first; `skip` characters of it are still to come. -/
def splitFrom (piece : List Char) (part : List Char) (skip : Nat) : List Char → List (List Char)
  | [] => [part.reverse]
  | c :: text =>
    match skip with
    | skip + 1 => splitFrom piece part skip text
    | 0 =>
      if (dropStart? piece (c :: text)).isSome then
        part.reverse :: splitFrom piece [] (piece.length - 1) text
      else
        splitFrom piece (c :: part) 0 text

/-- The parts of a text between the occurrences of a piece. -/
def split (piece text : List Char) : List (List Char) :=
  if piece.isEmpty then [] :: text.map ([·]) ++ [[]]
  else splitFrom piece [] 0 text

/-- A text with every occurrence of a piece replaced. -/
def replace (piece new text : List Char) : List Char :=
  new.intercalate (split piece text)

/-- The parts of a text between runs of characters that satisfy `isGap`; no part
is empty. -/
def fields (isGap : Char → Bool) (text : List Char) : List (List Char) :=
  (go [] text).filter (! ·.isEmpty)
where
  /-- Parts between single gaps, after `part`, last character first. -/
  go (part : List Char) : List Char → List (List Char)
    | [] => [part.reverse]
    | c :: text => if isGap c then part.reverse :: go [] text else go (c :: part) text

end ModelWeaver.Text
