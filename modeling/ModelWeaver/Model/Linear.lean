import ModelWeaver.Model.SymbolName
import ModelWeaver.NameMap
import ModelWeaver.Number.Shortest
import ModelWeaver.Value.Basic

/-!
# Linear constraints

A relation compares two operands. Each operand contributes multiples of variables
and constants; the variables are gathered on the left and the constants on the
right, which gives a constraint.

Operands and relations are written over any type of numbers. Those of programs are
over floats; where all numbers are whole, the relations are stated over integers and
then mapped to floats.
-/

namespace ModelWeaver.Model

open Number

/-- Coefficients up to this size count as zero. -/
def zeroTolerance : Float := 1e-12

/-! ## Operands -/

/-- One side of a relation between numbers of type `κ`. -/
inductive Operand (κ : Type) where
  | constant (value : κ)
  | single (name : String)
  | term (name : String) (coefficient : κ)
  | product (a b : κ)
  | sum (items : List (Operand κ))

namespace Operand

variable {κ μ : Type}

/-- The sum of single variables. -/
def ofNames (names : List String) : Operand κ := sum (names.map single)

mutual

/-- The operand with every number changed. -/
def map (change : κ → μ) : Operand κ → Operand μ
  | constant value => constant (change value)
  | single name => single name
  | term name coefficient => term name (change coefficient)
  | product a b => product (change a) (change b)
  | sum items => sum (mapAll change items)
termination_by structural operand => operand

/-- The operands with every number changed. -/
def mapAll (change : κ → μ) : List (Operand κ) → List (Operand μ)
  | [] => []
  | item :: items => map change item :: mapAll change items
termination_by structural items => items

end

/-- An entry of a side: a number, a name, or a pair of a name and a number or of
two numbers. -/
def ofEntry (value : Value) : Except Failure (Operand Float) :=
  match value with
  | .str name => .ok (single name)
  | .tuple [.str name, coefficient] => return term name (← coefficient.toNumber)
  | .tuple [coefficient, .str name] => return term name (← coefficient.toNumber)
  | .tuple [a, b] => return product (← a.toNumber) (← b.toNumber)
  | value =>
    match value.float? with
    | some x => .ok (constant x)
    | none => value.mismatch "number, variable name or (variable, coefficient) pair"

/-- A side: an entry, or a list of entries, which are added. -/
def ofValue (value : Value) : Except Failure (Operand Float) :=
  match value with
  | .list items => return sum (← items.mapM ofEntry)
  | value => ofEntry value

end Operand

/-! ## Contributions -/

/-- What an operand adds to a constraint: a multiple of a variable, or a
constant. -/
inductive Contribution where
  | toVariable (name : String) (coefficient : Float)
  | toConstant (value : Float)
  deriving Inhabited

/-- The contribution of the same thing on the other side. -/
def Contribution.negate : Contribution → Contribution
  | toVariable name coefficient => toVariable name (-coefficient)
  | toConstant value => toConstant (-value)

namespace Operand

mutual

/-- The contributions of an operand in order. Marks of hidden names are
dropped. -/
def contributions : Operand Float → List Contribution
  | constant value => [.toConstant value]
  | product a b => [.toConstant (a * b)]
  | single name => [.toVariable (stripMark name) 1.0]
  | term name coefficient => [.toVariable (stripMark name) coefficient]
  | sum items => allContributions items
termination_by structural operand => operand

/-- The contributions of operands in order. -/
def allContributions : List (Operand Float) → List Contribution
  | [] => []
  | item :: items => contributions item ++ allContributions items
termination_by structural items => items

end

end Operand

/-! ## Constraints -/

/-- How the two sides compare. -/
inductive Sense where
  | le
  | ge
  | eq
  deriving DecidableEq, Repr, Inhabited

namespace Sense

/-- How a sense is written. -/
def render : Sense → String
  | le => "<="
  | ge => ">="
  | eq => "="

/-- Read a sense; several spellings are allowed. -/
def parse (sign : String) : Except Failure Sense :=
  match Text.trim sign with
  | "<" | "<=" | "=<" => .ok le
  | ">" | ">=" | "=>" => .ok ge
  | "=" | "==" => .ok eq
  | other => .error (.badArgument (.constraintSign other))

end Sense

/-- Two operands that are to compare in a given sense. -/
structure Relation (κ : Type) where
  left : Operand κ
  sense : Sense
  right : Operand κ

/-- The relation with every number changed. -/
def Relation.map {κ μ : Type} (change : κ → μ) (relation : Relation κ) : Relation μ :=
  ⟨relation.left.map change, relation.sense, relation.right.map change⟩

/-- A sum of multiples of variables, compared with a constant. -/
structure Constraint where
  terms : NameMap Float
  sense : Sense
  rhs : Float
  deriving Inhabited

/-- What a relation adds up on its left side: what its left operand contributes, then the
opposite of what its right operand does. -/
def Relation.contributions (relation : Relation Float) : List Contribution :=
  relation.left.contributions ++ relation.right.contributions.map Contribution.negate

/-- The coefficients of all variables. -/
def gatherTerms (contributions : List Contribution) : NameMap Float :=
  contributions.foldl (fun terms contribution =>
    match contribution with
    | .toVariable name coefficient => terms.insertWith (· + ·) name coefficient
    | .toConstant _ => terms) .empty

/-- The sum of all constants. -/
def gatherConstant (contributions : List Contribution) : Float :=
  contributions.foldl (fun total contribution =>
    match contribution with
    | .toVariable _ _ => total
    | .toConstant value => total + value) 0.0

/-- Whether a coefficient does not count as zero. -/
def isSignificant (coefficient : Float) : Bool := zeroTolerance < coefficient.abs

/-- The coefficients that do not count as zero. If there are none, all variables
stay with coefficient zero. -/
def cleanTerms (terms : NameMap Float) : NameMap Float :=
  if terms.entries.any fun term => isSignificant term.2 then
    ⟨terms.entries.filter fun term => isSignificant term.2⟩
  else
    terms.mapValues fun _ => 0.0

namespace Constraint

/-- The constraint that a relation states. It must name a variable. -/
def ofRelation (relation : Relation Float) : Except Failure Constraint :=
  let contributions := relation.contributions
  let terms := gatherTerms contributions
  if terms.entries.isEmpty then .error (.badArgument .noVariable)
  else .ok ⟨cleanTerms terms, relation.sense, -gatherConstant contributions⟩

/-- The constraint between two values. -/
def ofValues (left : Value) (sign : String) (right : Value) : Except Failure Constraint := do
  let left ← Operand.ofValue left
  let sense ← Sense.parse sign
  let right ← Operand.ofValue right
  ofRelation ⟨left, sense, right⟩

/-- The left side for given values of the variables. -/
def lhsValue (constraint : Constraint) (values : String → Float) : Float :=
  constraint.terms.entries.foldl
    (fun total (name, coefficient) => total + coefficient * values name) (-0.0)

/-- Whether values miss a constraint by more than a tolerance. -/
def isViolated (constraint : Constraint) (values : String → Float) (tolerance : Float) : Bool :=
  let lhs := constraint.lhsValue values
  match constraint.sense with
  | .le => constraint.rhs + tolerance < lhs
  | .ge => lhs < constraint.rhs - tolerance
  | .eq => tolerance < (lhs - constraint.rhs).abs

/-- A constraint with other names for its variables. -/
def rename (constraint : Constraint) (newName : String → String) : Constraint :=
  { constraint with
    terms := .ofList (constraint.terms.entries.map fun (name, coefficient) =>
      (newName name, coefficient)) }

end Constraint

/-! ## Text -/

/-- The text of a number; whole numbers below 10 to the 15 have no point. -/
def numberText (x : Float) : String :=
  if isWhole x && x.abs < 1e15 then toString (toInt64 x).toInt else plainText x

/-- The text of a multiple of a variable, with a blank in front. A coefficient of
one is left out. -/
def termText (name : String) (coefficient : Float) : String :=
  let sign := if 0.0 ≤ coefficient then "+" else "-"
  let factor := if coefficient.abs == 1.0 then "" else numberText coefficient.abs ++ "*"
  " " ++ sign ++ factor ++ stripMark name

namespace Constraint

/-- The text of the left side. -/
def lhsText (constraint : Constraint) : String :=
  String.join (constraint.terms.entries.map fun (name, coefficient) => termText name coefficient)

/-- The constraint as a model statement. -/
def statement (constraint : Constraint) (name : String) : String :=
  s!"s.t. {name}:{constraint.lhsText} {constraint.sense.render} {numberText constraint.rhs};"

/-- The constraint on its own. -/
def render (constraint : Constraint) : String :=
  s!"{Text.trimStart constraint.lhsText} {constraint.sense.render} {numberText constraint.rhs}"

end Constraint

end ModelWeaver.Model
