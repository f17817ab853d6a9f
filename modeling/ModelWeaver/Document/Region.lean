import ModelWeaver.Text.Span

/-!
# Regions of a document

A model document is a sequence of regions: plain text, quoted strings and
comments, which are copied, and inline expressions and commands, which are
replaced by what they produce.
-/

namespace ModelWeaver.Document

open Text

/-- What a region holds. -/
inductive Region.Kind where
  | literal
  /-- A quoted string; nothing in it is a construct. -/
  | quoted
  /-- A comment to the end of the line, or one between `/*` and `*/`. -/
  | comment
  /-- An inline expression: the text between `$` with a brace and a brace with `$`. -/
  | inline (expression : Excerpt)
  /-- A command with the texts of its index and of its body, brackets left out. -/
  | command (name : String) (index : Option Excerpt) (body : Excerpt)
  deriving DecidableEq, Inhabited

/-- A contiguous piece of a document. -/
structure Region where
  kind : Region.Kind
  source : Excerpt
  deriving DecidableEq, Inhabited

namespace Region

/-- The text of a region. -/
def text (region : Region) : String := region.source.text

/-- The bytes of a region. -/
def span (region : Region) : Span := region.source.span

/-- Whether a region is replaced by what it produces. -/
def isEvaluated (region : Region) : Bool :=
  match region.kind with
  | .inline _ | .command _ _ _ => true
  | _ => false

/-- A short form of a construct for messages; any other region is shown whole. -/
def describe (region : Region) : String :=
  match region.kind with
  | .inline _ => "$\x7b...\x7d$"
  | .command name (some index) _ => "$" ++ name ++ "[" ++ index.text ++ "]\x7b...\x7d"
  | .command name none _ => "$" ++ name ++ "\x7b...\x7d"
  | _ => region.text

end Region

end ModelWeaver.Document
