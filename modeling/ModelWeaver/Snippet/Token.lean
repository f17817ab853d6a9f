import ModelWeaver.Text.Span

/-!
# Tokens of the snippet language

A snippet is a small expression language embedded in model documents. This
module lists its lexical elements; a `Lexeme` is a token with the byte span it
was read from.
-/

namespace ModelWeaver.Snippet

open Text

/-- The lexical elements of a snippet. -/
inductive Token where
  | integer (value : Int64)
  | float (value : Float)
  | string (text : String)
  | trueWord
  | falseWord
  | noneWord
  | ident (name : String)
  | andWord
  | orWord
  | notWord
  | inWord
  | ifWord
  | elseWord
  | forWord
  | plus
  | minus
  | star
  | starStar
  | slash
  | slashSlash
  | percent
  | eq
  | eqEq
  | bangEq
  | gt
  | lt
  | gtEq
  | ltEq
  | plusEq
  | minusEq
  | starEq
  | comma
  | colon
  | dot
  | lParen
  | rParen
  | lBracket
  | rBracket
  | lBrace
  | rBrace
  /-- A line end that separates statements. -/
  | newline
  | semicolon
  deriving DecidableEq, Inhabited

namespace Token

/-- The name under which a token is reported when it cannot start an
expression. -/
def label : Token → String
  | integer _ => "Integer"
  | float _ => "Float"
  | string _ => "StringLit"
  | trueWord => "True"
  | falseWord => "False"
  | noneWord => "NoneKw"
  | ident _ => "Ident"
  | andWord => "And"
  | orWord => "Or"
  | notWord => "Not"
  | inWord => "In"
  | ifWord => "If"
  | elseWord => "Else"
  | forWord => "For"
  | plus => "Plus"
  | minus => "Minus"
  | star => "Star"
  | starStar => "StarStar"
  | slash => "Slash"
  | slashSlash => "SlashSlash"
  | percent => "Percent"
  | eq => "Eq"
  | eqEq => "EqEq"
  | bangEq => "BangEq"
  | gt => "Gt"
  | lt => "Lt"
  | gtEq => "GtEq"
  | ltEq => "LtEq"
  | plusEq => "PlusEq"
  | minusEq => "MinusEq"
  | starEq => "StarEq"
  | comma => "Comma"
  | colon => "Colon"
  | dot => "Dot"
  | lParen => "LParen"
  | rParen => "RParen"
  | lBracket => "LBracket"
  | rBracket => "RBracket"
  | lBrace => "LBrace"
  | rBrace => "RBrace"
  | newline => "Newline"
  | semicolon => "Semicolon"

/-- The token of a word: a reserved word stands for itself, every other word
is an identifier. -/
def ofWord : String → Token
  | "True" => trueWord
  | "False" => falseWord
  | "None" => noneWord
  | "and" => andWord
  | "or" => orWord
  | "not" => notWord
  | "in" => inWord
  | "if" => ifWord
  | "else" => elseWord
  | "for" => forWord
  | name => ident name

end Token

/-- A token and the bytes it was read from. -/
structure Lexeme where
  token : Token
  span : Span
  deriving DecidableEq, Inhabited

end ModelWeaver.Snippet
