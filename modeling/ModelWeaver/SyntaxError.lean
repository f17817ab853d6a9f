import ModelWeaver.Snippet.Token

/-!
# Errors of reading

What can be wrong with the text of a document or of a snippet. An error names
its cause and the bytes to show; the wording of each cause is in one place.
-/

namespace ModelWeaver

open Text
open Snippet (Token)

/-- Why a text could not be read. -/
inductive SyntaxError.Cause where
  /-- The braces of an inline expression are closed, but no `$` follows. -/
  | inlineNotClosed
  /-- A command has an index, but no body. -/
  | bodyMissing (command : String)
  /-- A command body is closed, but no `;` follows. -/
  | commandNotClosed (command : String)
  /-- A closing bracket does not belong to the innermost open one. -/
  | mismatched (found wanted : Char)
  /-- The text ends before the outermost bracket is closed. -/
  | unterminated (missing : Char)
  | unterminatedString
  | integerTooLarge (digits : String)
  | unexpectedCharacter (c : Char)
  | nestedTooDeep (limit : Nat)
  | unexpectedEnd
  | unexpectedToken (token : Token)
  /-- Some token was required here. -/
  | expected (what : String)
  /-- Tokens are left over after a complete item. -/
  | trailing (item : String)
  | positionalAfterKeyword
  | notAssignable
  /-- An assignment that updates a variable names more than one. -/
  | severalUpdated
  deriving DecidableEq

/-- A fault in a text and the bytes it concerns. -/
structure SyntaxError where
  cause : SyntaxError.Cause
  span : Span
  deriving DecidableEq

namespace SyntaxError

/-- The wording of a cause. -/
def Cause.message : Cause → String
  | inlineNotClosed => "expected `$` after inline expression"
  | bodyMissing command => "expected `\x7b` after `$" ++ command ++ "[...]`"
  | commandNotClosed command => "expected `;` after `$" ++ command ++ "` command body"
  | mismatched found wanted =>
    "mismatched `" ++ found.toString ++ "`: expected `" ++ wanted.toString ++ "`"
  | unterminated missing =>
    "unterminated `$` construct: missing closing `" ++ missing.toString ++ "`"
  | unterminatedString => "unterminated string literal"
  | integerTooLarge digits => "integer literal '" ++ digits ++ "' is too large"
  | unexpectedCharacter c => "unexpected character '" ++ c.toString ++ "'"
  | nestedTooDeep limit =>
    "expression nested more than " ++ toString limit ++ " levels deep"
  | unexpectedEnd => "unexpected end of expression"
  | unexpectedToken token => "unexpected token: " ++ token.label
  | expected what => "expected " ++ what
  | trailing item => "unexpected tokens after " ++ item
  | positionalAfterKeyword => "positional argument follows keyword argument"
  | notAssignable => "cannot assign to expression"
  | severalUpdated => "augmented assignment requires a single variable"

/-- Advice shown below the message. -/
def Cause.notes : Cause → List String
  | inlineNotClosed => ["inline expressions are written as $\x7bexpr\x7d$"]
  | commandNotClosed _ => ["commands are written as $NAME[index]\x7barguments\x7d;"]
  | mismatched _ _ => ["brackets inside a `$` construct must be balanced"]
  | _ => []

/-- The wording of an error. -/
def message (error : SyntaxError) : String := error.cause.message

/-- The advice that goes with an error. -/
def notes (error : SyntaxError) : List String := error.cause.notes

end SyntaxError

end ModelWeaver
