import ModelWeaver.Context

/-!
# Assembling the output

The output is put together from the pieces of the document and the fragments that
its constructs produce. Data statements go where they arise, or all together into
one data section: after the first `data;` of the model text if there is one, else
before its first `end;`, else at the end.
-/

namespace ModelWeaver.Document

open Text

/-- Where data statements go. -/
inductive DataMode where
  /-- Right after the construct that produced them. -/
  | inline
  /-- Into one data section. -/
  | consolidated
  deriving DecidableEq, Repr, Inhabited

/-- How the output is laid out. -/
structure Layout where
  dataMode : DataMode := .inline
  /-- Whether every construct is shown in a comment in front of what it produced,
  and block comments are marked as ignored. -/
  echo : Bool := false
  deriving DecidableEq, Repr, Inhabited

/-- A piece of output. Statements are looked for in model text only. -/
structure Piece where
  text : List Char
  isCode : Bool := false
  deriving DecidableEq, Repr, Inhabited

/-- An output that is being put together. -/
structure Assembly where
  layout : Layout
  /-- The pieces so far, the last first. -/
  pieces : List Piece := []
  /-- The data statements that wait for their place. -/
  data : String := ""
  deriving Inhabited

namespace Assembly

/-! ## Pieces -/

/-- Add model text. -/
def code (assembly : Assembly) (text : String) : Assembly :=
  { assembly with pieces := ⟨text.toList, true⟩ :: assembly.pieces }

/-- Add text that is no model text. -/
def literal (assembly : Assembly) (text : String) : Assembly :=
  { assembly with pieces := ⟨text.toList, false⟩ :: assembly.pieces }

/-- Characters that a marker drops from the ends of what it shows. -/
def isMarkerEdge (c : Char) : Bool := "/*#$; ".toList.contains c

/-- A comment that shows a piece of the document. -/
def marker (title text : String) : String :=
  "/*" ++ title ++ ":" ++ String.ofList (trimBy isMarkerEdge text.toList) ++ "*/"

/-- Add a block comment. -/
def blockComment (assembly : Assembly) (text : String) : Assembly :=
  assembly.literal (if assembly.layout.echo then marker "IGNORED" text else text)

/-- Add what the construct `source` has produced. -/
def fragment (assembly : Assembly) (source : String) (fragment : Fragment) : Assembly :=
  let shown := if assembly.layout.echo then marker "EVALUATED" source else ""
  let assembly := assembly.literal (shown ++ fragment.defs ++ fragment.model)
  if fragment.data.isEmpty then assembly
  else match assembly.layout.dataMode with
    | .inline => assembly.literal (";data;" ++ fragment.data ++ "model;")
    | .consolidated => { assembly with data := assembly.data ++ fragment.data }

/-- The whole output without the data that wait. -/
def output (assembly : Assembly) : List Char :=
  assembly.pieces.reverse.flatMap Piece.text

/-! ## Statements -/

/-- The length of a statement at the start of a text: a word, white space and a
semicolon. -/
def statementLength? (word cs : List Char) : Option Nat := do
  let rest ← dropStart? word cs
  let blanks := rest.takeWhile isBlank
  match rest.drop blanks.length with
  | ';' :: _ => some (word.length + blanks.length + 1)
  | _ => none

/-- Where the first statement in a text starts and ends, in characters from `position`. It must
start a word; `joined` says that a word goes on at the start of the text. -/
def findStatement? (word : List Char) (joined : Bool) (position : Nat) :
    List Char → Option (Nat × Nat)
  | [] => none
  | c :: cs =>
    match if joined then none else statementLength? word (c :: cs) with
    | some length => some (position, position + length)
    | none => findStatement? word (isWordChar c) (position + 1) cs

/-- Whether a word that ends in a character can go on after it. -/
def joins (c : Char) : Bool := isAlphanumeric c || c = '_'

/-- Where the first statement in some pieces starts and ends, if it lies within one piece of
model text. They start at `position`, after a character that may join them. -/
def findInPieces? (word : List Char) (joined : Bool) (position : Nat) :
    List Piece → Option (Nat × Nat)
  | [] => none
  | piece :: pieces =>
    match if piece.isCode then findStatement? word joined position piece.text else none with
    | some found => some found
    | none =>
      let joined := (piece.text.getLast?.map joins).getD joined
      findInPieces? word joined (position + piece.text.length) pieces

/-- Where the first statement of the model text starts and ends. -/
def statement? (assembly : Assembly) (word : String) : Option (Nat × Nat) :=
  findInPieces? word.toList false 0 assembly.pieces.reverse

/-! ## The data section -/

/-- The output with data statements put in their place. -/
def withData (assembly : Assembly) (data : List Char) : List Char :=
  let output := assembly.output
  match assembly.statement? "data" with
  | some (_, stop) => output.take stop ++ '\n' :: data ++ output.drop stop
  | none =>
    let dataSection := "data;\n".toList ++ data ++ "\nend;".toList
    match assembly.statement? "end" with
    | some (start, stop) => output.take start ++ dataSection ++ output.drop stop
    | none => output ++ dataSection

/-- The finished output. -/
def finish (assembly : Assembly) : String :=
  String.ofList (if assembly.data.isEmpty then assembly.output
    else assembly.withData assembly.data.toList)

end Assembly

end ModelWeaver.Document
