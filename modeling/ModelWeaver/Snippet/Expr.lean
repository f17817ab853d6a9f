import ModelWeaver.Text.Span

/-!
# Trees of the snippet language

Expressions, call arguments and statements. References, calls, subscripts,
attributes and statements carry the bytes they were read from.
-/

namespace ModelWeaver.Snippet

open Text

/-- Operators on one operand. -/
inductive UnaryOp where
  | negation
  | identity
  | logicalNot
  deriving DecidableEq, Repr, Inhabited

/-- Operators on two operands. -/
inductive BinaryOp where
  | addition
  | subtraction
  | multiplication
  | division
  | floorDivision
  | modulo
  | power
  | logicalAnd
  | logicalOr
  | equality
  | inequality
  | greaterThan
  | lessThan
  | greaterThanOrEqual
  | lessThanOrEqual
  | membership
  | nonMembership
  deriving DecidableEq, Repr, Inhabited

/-- What a loop or an assignment binds: a name, or several at once. -/
inductive Target where
  | name (name : String)
  | tuple (items : List Target)
  deriving Inhabited

mutual

/-- An expression. -/
inductive Expr where
  | int (value : Int64)
  | float (value : Float)
  | str (text : String)
  | bool (value : Bool)
  | none
  | var (name : String) (span : Span)
  | list (items : List Expr)
  | tuple (items : List Expr)
  | dict (entries : List (Expr × Expr))
  | listComp (element : Expr) (clauses : List Clause)
  | dictComp (key value : Expr) (clauses : List Clause)
  | unary (op : UnaryOp) (operand : Expr)
  | binary (op : BinaryOp) (left right : Expr)
  /-- The choice between two expressions. -/
  | cond (condition yes no : Expr)
  | call (callee : Expr) (arguments : List Argument) (span : Span)
  | subscript (value index : Expr) (span : Span)
  | member (value : Expr) (name : String) (span : Span)

/-- One loop of a comprehension, with an optional filter. -/
inductive Clause where
  | mk (target : Target) (iterable : Expr) (condition : Option Expr)

/-- An argument of a call. -/
inductive Argument where
  | positional (value : Expr)
  | keyword (name : String) (value : Expr)

end

/-- The expression `None`. -/
instance : Inhabited Expr := ⟨.none⟩

/-- How an assignment combines the old and the new value. -/
inductive AssignOp where
  | assign
  | add
  | subtract
  | multiply
  deriving DecidableEq, Repr, Inhabited

/-- A statement. -/
inductive Statement where
  | assign (target : Target) (op : AssignOp) (value : Expr) (span : Span)
  | expr (value : Expr) (span : Span)
  deriving Inhabited

end ModelWeaver.Snippet
