import ModelWeaver.Snippet.Expr
import ModelWeaver.Snippet.Token

/-!
# Printing expressions

An expression is printed to tokens with as few parentheses as its operators allow. Every form has
a level, every position needs one, and a sub-expression is put in parentheses exactly if its level
is below the need of its position. How much the left operand of a power needs is a parameter,
`powerLeft`.

Beside the printer stand the number of nesting levels that reading its output takes, the trees
that can be written down at all, and the shape of a tree, which forgets where it was read from.
-/

namespace ModelWeaver.Snippet

open Text

/-! ## Levels and needs -/

/-- How tightly a unary operator binds. -/
def UnaryOp.level : UnaryOp → Nat
  | negation | identity => 16
  | logicalNot => 8

/-- How tightly a binary operator binds. -/
def BinaryOp.level : BinaryOp → Nat
  | logicalOr => 4
  | logicalAnd => 6
  | equality | inequality | greaterThan | lessThan | greaterThanOrEqual | lessThanOrEqual
  | membership | nonMembership => 10
  | addition | subtraction => 12
  | multiplication | division | floorDivision | modulo => 14
  | power => 18

/-- The level of a choice. -/
def choiceLevel : Nat := 2

/-- The level of what never takes parentheses. -/
def closedLevel : Nat := 20

/-- The level of an expression. -/
def Expr.level : Expr → Nat
  | unary op _ => op.level
  | binary op _ _ => op.level
  | cond _ _ _ => choiceLevel
  | _ => closedLevel

/-- The need of a left operand. -/
def BinaryOp.leftNeed (powerLeft : Nat) : BinaryOp → Nat
  | power => powerLeft
  | op => op.level

/-- The need of a right operand. -/
def BinaryOp.rightNeed : BinaryOp → Nat
  | power => 17
  | op => op.level + 1

/-! ## Tokens -/

/-- The token of a unary operator. -/
def UnaryOp.token : UnaryOp → Token
  | negation => .minus
  | identity => .plus
  | logicalNot => .notWord

/-- The tokens of a binary operator. -/
def BinaryOp.tokens : BinaryOp → List Token
  | addition => [.plus]
  | subtraction => [.minus]
  | multiplication => [.star]
  | division => [.slash]
  | floorDivision => [.slashSlash]
  | modulo => [.percent]
  | power => [.starStar]
  | logicalAnd => [.andWord]
  | logicalOr => [.orWord]
  | equality => [.eqEq]
  | inequality => [.bangEq]
  | greaterThan => [.gt]
  | lessThan => [.lt]
  | greaterThanOrEqual => [.gtEq]
  | lessThanOrEqual => [.ltEq]
  | membership => [.inWord]
  | nonMembership => [.notWord, .inWord]

theorem BinaryOp.tokens_length_pos (op : BinaryOp) : 0 < op.tokens.length := by
  cases op <;> decide

/-- What is printed at a position, in parentheses if the position needs a higher
level. -/
def guarded (need level : Nat) (tokens : List Token) : List Token :=
  if level < need then .lParen :: (tokens ++ [.rParen]) else tokens

/-- Items with commas between them. -/
def separated : List (List Token) → List Token
  | [] => []
  | item :: items => item ++ items.flatMap (.comma :: ·)

theorem separated_map_cons {α : Type} (print : α → List Token) (item : α) (items : List α) :
    separated ((item :: items).map print) =
      print item ++ items.flatMap (.comma :: print ·) := by
  rw [List.map_cons, separated, List.flatMap_map]

/-- The items of a tuple: a single one has a comma behind it. -/
def tupled : List (List Token) → List Token
  | [item] => item ++ [.comma]
  | items => separated items

theorem tupled_map_cons_cons {α : Type} (print : α → List Token) (first second : α)
    (items : List α) :
    tupled ((first :: second :: items).map print) =
      print first ++ (second :: items).flatMap (.comma :: print ·) :=
  separated_map_cons print first (second :: items)

/-- What is printed for a target within a tuple, in parentheses if it is a tuple
itself. -/
def Target.guarded (tokens : List Token) : Target → List Token
  | name _ => tokens
  | tuple _ => .lParen :: (tokens ++ [.rParen])

/-- The nesting of a target within a tuple: parentheses add a level. -/
def Target.guardedNesting (nesting : Nat) : Target → Nat
  | name _ => nesting
  | tuple _ => nesting + 1

mutual

/-- The tokens of the targets of a loop. -/
def Target.print : Target → List Token
  | .name word => [.ident word]
  | .tuple items => tupled (printAll items)
termination_by structural target => target

/-- The tokens of each target within a tuple. -/
def Target.printAll : List Target → List (List Token)
  | [] => []
  | item :: items => item.guarded item.print :: printAll items
termination_by structural items => items

end

mutual

/-- The levels of nesting that reading targets takes. -/
def Target.nesting : Target → Nat
  | .name _ => 0
  | .tuple items => nestingAll items
termination_by structural target => target

/-- The levels of nesting that reading targets within a tuple takes. -/
def Target.nestingAll : List Target → Nat
  | [] => 0
  | item :: items => max (item.guardedNesting item.nesting) (nestingAll items)
termination_by structural items => items

end

theorem Target.printAll_eq_map (items : List Target) :
    printAll items = items.map fun item => item.guarded item.print := by
  induction items with
  | nil => rfl
  | cons item items ih => exact congrArg (item.guarded item.print :: ·) ih

theorem Target.nestingAll_le_iff {items : List Target} {levels : Nat} :
    nestingAll items ≤ levels ↔
      ∀ item ∈ items, item.guardedNesting item.nesting ≤ levels := by
  induction items with
  | nil => exact iff_of_true (Nat.zero_le levels) (List.forall_mem_nil _)
  | cons item items ih =>
    change max (item.guardedNesting item.nesting) (nestingAll items) ≤ levels ↔ _
    rw [Nat.max_le, ih, List.forall_mem_cons]

/-- The expression of an argument. -/
def Argument.value : Argument → Expr
  | positional value | keyword _ value => value

section Print

variable (powerLeft : Nat) {levels : Nat}

mutual

/-- The tokens of an expression, without parentheses around it. -/
def Expr.print : Expr → List Token
  | int value => [.integer value]
  | float value => [.float value]
  | str text => [.string text]
  | bool value => [if value then .trueWord else .falseWord]
  | none => [.noneWord]
  | var name _ => [.ident name]
  | list items => .lBracket :: (separated (printAll items) ++ [.rBracket])
  | tuple items => .lParen :: (tupled (printAll items) ++ [.rParen])
  | dict entries => .lBrace :: (separated (printEntries entries) ++ [.rBrace])
  | listComp element clauses =>
    .lBracket :: (element.print ++ (printClauses clauses ++ [.rBracket]))
  | dictComp key value clauses =>
    .lBrace :: (key.print ++ .colon :: (value.print ++ (printClauses clauses ++ [.rBrace])))
  | unary op operand => op.token :: guarded op.level operand.level operand.print
  | binary op left right =>
    guarded (op.leftNeed powerLeft) left.level left.print ++
      (op.tokens ++ guarded op.rightNeed right.level right.print)
  | cond condition yes no =>
    guarded (choiceLevel + 1) yes.level yes.print ++
      .ifWord :: (guarded (choiceLevel + 1) condition.level condition.print ++
        .elseWord :: guarded choiceLevel no.level no.print)
  | call callee args _ =>
    guarded closedLevel callee.level callee.print ++
      .lParen :: (separated (printArguments args) ++ [.rParen])
  | subscript value index _ =>
    guarded closedLevel value.level value.print ++ .lBracket :: (index.print ++ [.rBracket])
  | member value name _ => guarded closedLevel value.level value.print ++ [.dot, .ident name]
termination_by structural expr => expr

/-- The tokens of each expression. -/
def Expr.printAll : List Expr → List (List Token)
  | [] => []
  | item :: items => item.print :: printAll items
termination_by structural items => items

/-- The tokens of each entry. -/
def Expr.printEntries : List (Expr × Expr) → List (List Token)
  | [] => []
  | (key, value) :: entries => (key.print ++ .colon :: value.print) :: printEntries entries
termination_by structural entries => entries

/-- The tokens of the loops of a comprehension. -/
def Expr.printClauses : List Clause → List Token
  | [] => []
  | .mk target iterable condition :: clauses =>
    .forWord :: (target.print ++ .inWord ::
      (guarded (choiceLevel + 1) iterable.level iterable.print ++
        (printFilter condition ++ printClauses clauses)))
termination_by structural clauses => clauses

/-- The tokens of a filter. -/
def Expr.printFilter : Option Expr → List Token
  | .none => []
  | some condition => .ifWord :: guarded (choiceLevel + 1) condition.level condition.print
termination_by structural condition => condition

/-- The tokens of each argument. -/
def Expr.printArguments : List Argument → List (List Token)
  | [] => []
  | .positional value :: args => value.print :: printArguments args
  | .keyword name value :: args =>
    (.ident name :: .eq :: value.print) :: printArguments args
termination_by structural args => args

end

theorem Expr.printAll_eq_map (items : List Expr) :
    printAll powerLeft items = items.map (print powerLeft) := by
  induction items with
  | nil => rfl
  | cons item items ih => exact congrArg (item.print powerLeft :: ·) ih

/-- The tokens of an entry. -/
def Expr.printEntry (entry : Expr × Expr) : List Token :=
  entry.1.print powerLeft ++ .colon :: entry.2.print powerLeft

theorem Expr.printEntries_eq_map (entries : List (Expr × Expr)) :
    printEntries powerLeft entries = entries.map (printEntry powerLeft) := by
  induction entries with
  | nil => rfl
  | cons entry entries ih => exact congrArg (printEntry powerLeft entry :: ·) ih

/-- The tokens of an argument. -/
def Argument.print : Argument → List Token
  | positional value => value.print powerLeft
  | keyword name value => .ident name :: .eq :: value.print powerLeft

theorem Expr.printArguments_eq_map (args : List Argument) :
    printArguments powerLeft args = args.map (Argument.print powerLeft) := by
  induction args with
  | nil => rfl
  | cons argument args ih =>
    cases argument <;> exact congrArg (_ :: ·) ih

/-! ## Levels of nesting -/

/-- The nesting of what is printed at a position: parentheses add a level. -/
def guardedNesting (need level nesting : Nat) : Nat :=
  if level < need then nesting + 1 else nesting

mutual

/-- The levels below that of an expression which reading it takes. Left operands
are read on the level of the expression itself. -/
def Expr.nesting : Expr → Nat
  | list items | tuple items => nestingAll items
  | dict entries => nestingEntries entries
  | listComp element clauses => max (element.nesting + 1) (nestingClauses clauses)
  | dictComp key value clauses =>
    max (max (key.nesting + 1) (value.nesting + 1)) (nestingClauses clauses)
  | unary op operand => guardedNesting op.level operand.level operand.nesting + 1
  | binary op left right =>
    max (guardedNesting (op.leftNeed powerLeft) left.level left.nesting)
      (guardedNesting op.rightNeed right.level right.nesting + 1)
  | cond condition yes no =>
    max (guardedNesting (choiceLevel + 1) yes.level yes.nesting)
      (max (guardedNesting (choiceLevel + 1) condition.level condition.nesting + 1)
        (guardedNesting choiceLevel no.level no.nesting + 1))
  | call callee args _ =>
    max (guardedNesting closedLevel callee.level callee.nesting) (nestingArguments args)
  | subscript value index _ =>
    max (guardedNesting closedLevel value.level value.nesting) (index.nesting + 1)
  | member value _ _ => guardedNesting closedLevel value.level value.nesting
  | _ => 0
termination_by structural expr => expr

/-- The levels that reading expressions takes. -/
def Expr.nestingAll : List Expr → Nat
  | [] => 0
  | item :: items => max (item.nesting + 1) (nestingAll items)
termination_by structural items => items

/-- The levels that reading entries takes. -/
def Expr.nestingEntries : List (Expr × Expr) → Nat
  | [] => 0
  | (key, value) :: entries =>
    max (max (key.nesting + 1) (value.nesting + 1)) (nestingEntries entries)
termination_by structural entries => entries

/-- The levels that reading the loops of a comprehension takes. -/
def Expr.nestingClauses : List Clause → Nat
  | [] => 0
  | .mk target iterable condition :: clauses =>
    max (max target.nesting
        (guardedNesting (choiceLevel + 1) iterable.level iterable.nesting + 1))
      (max (nestingFilter condition) (nestingClauses clauses))
termination_by structural clauses => clauses

/-- The levels that reading a filter takes. -/
def Expr.nestingFilter : Option Expr → Nat
  | .none => 0
  | some condition => guardedNesting (choiceLevel + 1) condition.level condition.nesting + 1
termination_by structural condition => condition

/-- The levels that reading arguments takes. -/
def Expr.nestingArguments : List Argument → Nat
  | [] => 0
  | .positional value :: args | .keyword _ value :: args =>
    max (value.nesting + 1) (nestingArguments args)
termination_by structural args => args

end

theorem Expr.nestingAll_le_iff {items : List Expr} :
    nestingAll powerLeft items ≤ levels ↔ ∀ item ∈ items, item.nesting powerLeft < levels := by
  induction items with
  | nil => exact iff_of_true (Nat.zero_le levels) (List.forall_mem_nil _)
  | cons item items ih =>
    change max (item.nesting powerLeft + 1) (nestingAll powerLeft items) ≤ levels ↔ _
    rw [Nat.max_le, ih, List.forall_mem_cons, Nat.succ_le_iff]

theorem Expr.nestingEntries_le_iff {entries : List (Expr × Expr)} :
    nestingEntries powerLeft entries ≤ levels ↔
      ∀ entry ∈ entries,
        entry.1.nesting powerLeft < levels ∧ entry.2.nesting powerLeft < levels := by
  induction entries with
  | nil => exact iff_of_true (Nat.zero_le levels) (List.forall_mem_nil _)
  | cons entry entries ih =>
    change max (max (entry.1.nesting powerLeft + 1) (entry.2.nesting powerLeft + 1))
      (nestingEntries powerLeft entries) ≤ levels ↔ _
    rw [Nat.max_le, Nat.max_le, ih, List.forall_mem_cons, Nat.succ_le_iff, Nat.succ_le_iff]

theorem Expr.nestingClauses_cons_le_iff {target : Target} {iterable : Expr}
    {condition : Option Expr} {clauses : List Clause} :
    nestingClauses powerLeft (.mk target iterable condition :: clauses) ≤ levels ↔
      (target.nesting ≤ levels ∧
        guardedNesting (choiceLevel + 1) iterable.level (iterable.nesting powerLeft) < levels ∧
        ∀ filter ∈ condition,
          guardedNesting (choiceLevel + 1) filter.level (filter.nesting powerLeft) < levels) ∧
      nestingClauses powerLeft clauses ≤ levels := by
  have filter_le_iff : nestingFilter powerLeft condition ≤ levels ↔ ∀ filter ∈ condition,
      guardedNesting (choiceLevel + 1) filter.level (filter.nesting powerLeft) < levels := by
    cases condition with
    | none => exact iff_of_true (Nat.zero_le levels) nofun
    | some filter =>
      change _ + 1 ≤ levels ↔ _
      simp only [Nat.succ_le_iff, Option.mem_some_iff, forall_eq']
  change max (max _ (_ + 1)) (max _ _) ≤ levels ↔ _
  rw [Nat.max_le, Nat.max_le, Nat.max_le, Nat.succ_le_iff, filter_le_iff, and_assoc, and_assoc,
    and_assoc]

theorem Expr.nestingArguments_le_iff {args : List Argument} :
    nestingArguments powerLeft args ≤ levels ↔
      ∀ argument ∈ args, argument.value.nesting powerLeft < levels := by
  induction args with
  | nil => exact iff_of_true (Nat.zero_le levels) (List.forall_mem_nil _)
  | cons argument args ih =>
    rw [List.forall_mem_cons, ← ih]
    cases argument <;> exact Nat.max_le

section NestingOf

variable {levels : Nat} {items : List Expr} {clauses : List Clause}

theorem Expr.nesting_list_le_iff :
    (list items).nesting powerLeft ≤ levels ↔ ∀ item ∈ items, item.nesting powerLeft < levels :=
  nestingAll_le_iff powerLeft

theorem Expr.nesting_tuple_le_iff :
    (tuple items).nesting powerLeft ≤ levels ↔ ∀ item ∈ items, item.nesting powerLeft < levels :=
  nestingAll_le_iff powerLeft

theorem Expr.nesting_dict_le_iff {entries : List (Expr × Expr)} :
    (dict entries).nesting powerLeft ≤ levels ↔
      ∀ entry ∈ entries,
        entry.1.nesting powerLeft < levels ∧ entry.2.nesting powerLeft < levels :=
  nestingEntries_le_iff powerLeft

theorem Expr.nesting_listComp_le_iff {element : Expr} :
    (listComp element clauses).nesting powerLeft ≤ levels ↔
      element.nesting powerLeft < levels ∧ nestingClauses powerLeft clauses ≤ levels :=
  Nat.max_le

theorem Expr.nesting_dictComp_le_iff {key value : Expr} :
    (dictComp key value clauses).nesting powerLeft ≤ levels ↔
      (key.nesting powerLeft < levels ∧ value.nesting powerLeft < levels) ∧
        nestingClauses powerLeft clauses ≤ levels :=
  Nat.max_le.trans (and_congr_left' Nat.max_le)

theorem Expr.nesting_binary_le_iff {op : BinaryOp} {left right : Expr} :
    (binary op left right).nesting powerLeft ≤ levels ↔
      guardedNesting (op.leftNeed powerLeft) left.level (left.nesting powerLeft) ≤ levels ∧
        guardedNesting op.rightNeed right.level (right.nesting powerLeft) < levels :=
  Nat.max_le

theorem Expr.nesting_cond_le_iff {condition yes no : Expr} :
    (cond condition yes no).nesting powerLeft ≤ levels ↔
      guardedNesting (choiceLevel + 1) yes.level (yes.nesting powerLeft) ≤ levels ∧
        guardedNesting (choiceLevel + 1) condition.level (condition.nesting powerLeft) < levels ∧
        guardedNesting choiceLevel no.level (no.nesting powerLeft) < levels :=
  Nat.max_le.trans (and_congr_right' Nat.max_le)

theorem Expr.nesting_call_le_iff {callee : Expr} {args : List Argument} {span : Span} :
    (call callee args span).nesting powerLeft ≤ levels ↔
      guardedNesting closedLevel callee.level (callee.nesting powerLeft) ≤ levels ∧
        ∀ argument ∈ args, argument.value.nesting powerLeft < levels :=
  Nat.max_le.trans (and_congr_right' (nestingArguments_le_iff powerLeft))

theorem Expr.nesting_subscript_le_iff {value index : Expr} {span : Span} :
    (subscript value index span).nesting powerLeft ≤ levels ↔
      guardedNesting closedLevel value.level (value.nesting powerLeft) ≤ levels ∧
        index.nesting powerLeft < levels :=
  Nat.max_le

end NestingOf

end Print

/-! ## Shapes -/

mutual

/-- A tree that does not tell where it was read from. -/
def Expr.shape : Expr → Expr
  | var name _ => var name ⟨0, 0⟩
  | list items => list (shapeAll items)
  | tuple items => tuple (shapeAll items)
  | dict entries => dict (shapeEntries entries)
  | listComp element clauses => listComp element.shape (shapeClauses clauses)
  | dictComp key value clauses => dictComp key.shape value.shape (shapeClauses clauses)
  | unary op operand => unary op operand.shape
  | binary op left right => binary op left.shape right.shape
  | cond condition yes no => cond condition.shape yes.shape no.shape
  | call callee args _ => call callee.shape (shapeArguments args) ⟨0, 0⟩
  | subscript value index _ => subscript value.shape index.shape ⟨0, 0⟩
  | member value name _ => member value.shape name ⟨0, 0⟩
  | expr => expr
termination_by structural expr => expr

/-- The shapes of expressions. -/
def Expr.shapeAll : List Expr → List Expr
  | [] => []
  | item :: items => item.shape :: shapeAll items
termination_by structural items => items

/-- The shapes of entries. -/
def Expr.shapeEntries : List (Expr × Expr) → List (Expr × Expr)
  | [] => []
  | (key, value) :: entries => (key.shape, value.shape) :: shapeEntries entries
termination_by structural entries => entries

/-- The shapes of the loops of a comprehension. -/
def Expr.shapeClauses : List Clause → List Clause
  | [] => []
  | .mk target iterable condition :: clauses =>
    .mk target iterable.shape (shapeFilter condition) :: shapeClauses clauses
termination_by structural clauses => clauses

/-- The shape of a filter. -/
def Expr.shapeFilter : Option Expr → Option Expr
  | .none => .none
  | some condition => some condition.shape
termination_by structural condition => condition

/-- The shapes of arguments. -/
def Expr.shapeArguments : List Argument → List Argument
  | [] => []
  | .positional value :: args => .positional value.shape :: shapeArguments args
  | .keyword name value :: args => .keyword name value.shape :: shapeArguments args
termination_by structural args => args

end

theorem Expr.shapeAll_eq_map (items : List Expr) : shapeAll items = items.map shape := by
  induction items with
  | nil => rfl
  | cons item items ih => exact congrArg (item.shape :: ·) ih

/-- The shape of an entry. -/
def Expr.shapeEntry (entry : Expr × Expr) : Expr × Expr :=
  (entry.1.shape, entry.2.shape)

theorem Expr.shapeEntries_eq_map (entries : List (Expr × Expr)) :
    shapeEntries entries = entries.map shapeEntry := by
  induction entries with
  | nil => rfl
  | cons entry entries ih => exact congrArg (shapeEntry entry :: ·) ih

/-- The shape of a loop of a comprehension. -/
def Clause.shape : Clause → Clause
  | mk target iterable condition => mk target iterable.shape (condition.map Expr.shape)

theorem Expr.shapeClauses_eq_map (clauses : List Clause) :
    shapeClauses clauses = clauses.map Clause.shape := by
  induction clauses with
  | nil => rfl
  | cons clause clauses ih =>
    obtain ⟨target, iterable, condition⟩ := clause
    cases condition <;> exact congrArg (_ :: ·) ih

/-- The shape of an argument. -/
def Argument.shape : Argument → Argument
  | positional value => positional value.shape
  | keyword name value => keyword name value.shape

theorem Expr.shapeArguments_eq_map (args : List Argument) :
    shapeArguments args = args.map Argument.shape := by
  induction args with
  | nil => rfl
  | cons argument args ih =>
    cases argument <;> exact congrArg (_ :: ·) ih

section ShapeOf

variable (items : List Expr) (entries : List (Expr × Expr)) (clauses : List Clause)
  (args : List Argument)

theorem Expr.shape_list : (list items).shape = list (items.map shape) :=
  congrArg list (shapeAll_eq_map items)

theorem Expr.shape_tuple : (tuple items).shape = tuple (items.map shape) :=
  congrArg tuple (shapeAll_eq_map items)

theorem Expr.shape_dict : (dict entries).shape = dict (entries.map shapeEntry) :=
  congrArg dict (shapeEntries_eq_map entries)

theorem Expr.shape_listComp (element : Expr) :
    (listComp element clauses).shape = listComp element.shape (clauses.map Clause.shape) :=
  congrArg (listComp element.shape) (shapeClauses_eq_map clauses)

theorem Expr.shape_dictComp (key value : Expr) :
    (dictComp key value clauses).shape =
      dictComp key.shape value.shape (clauses.map Clause.shape) :=
  congrArg (dictComp key.shape value.shape) (shapeClauses_eq_map clauses)

theorem Expr.shape_call (callee : Expr) (span : Span) :
    (call callee args span).shape =
      call callee.shape (args.map Argument.shape) ⟨0, 0⟩ :=
  congrArg (call callee.shape · ⟨0, 0⟩) (shapeArguments_eq_map args)

end ShapeOf

/-! ## Trees that can be written down -/

/-- Targets without an empty tuple. -/
inductive Target.Filled : Target → Prop
  | name (word : String) : Filled (.name word)
  | tuple {items : List Target} :
      items ≠ [] → (∀ item ∈ items, item.Filled) → Filled (.tuple items)

/-- The targets of a loop. -/
def Clause.target : Clause → Target
  | mk target _ _ => target

/-- The expressions in a loop. -/
def Clause.parts : Clause → List Expr
  | mk _ iterable condition => iterable :: condition.toList

/-- Whether an argument is given by name. -/
def Argument.isKeyword : Argument → Bool
  | positional _ => false
  | keyword _ _ => true

/-- The expressions directly within an expression. -/
def Expr.parts : Expr → List Expr
  | list items | tuple items => items
  | dict entries => entries.flatMap fun entry => [entry.1, entry.2]
  | listComp element clauses => element :: clauses.flatMap Clause.parts
  | dictComp key value clauses => key :: value :: clauses.flatMap Clause.parts
  | unary _ operand => [operand]
  | binary _ left right => [left, right]
  | cond condition yes no => [condition, yes, no]
  | call callee args _ => callee :: args.map Argument.value
  | subscript value index _ => [value, index]
  | member value _ _ => [value]
  | _ => []

/-- What the grammar asks of an expression beyond its parts: comprehensions have
loops, loops have targets, and keyword arguments follow the positional ones. -/
def Expr.Admissible : Expr → Prop
  | listComp _ clauses | dictComp _ _ clauses =>
    clauses ≠ [] ∧ ∀ clause ∈ clauses, clause.target.Filled
  | call _ args _ =>
    args.Pairwise fun first second => first.isKeyword → second.isKeyword
  | _ => True

/-- An expression that is admissible throughout. -/
inductive Expr.Writable : Expr → Prop
  | mk {expr : Expr} :
      expr.Admissible → (∀ part ∈ expr.parts, part.Writable) → Writable expr

end ModelWeaver.Snippet
