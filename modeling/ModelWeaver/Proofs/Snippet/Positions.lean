import Mathlib.Data.List.Forall2
import ModelWeaver.Proofs.Snippet.Printer
import ModelWeaver.SyntaxError

/-!
# The positions in a tree

References, calls, subscripts, attributes and statements carry spans. `mapSpans` changes all
spans of a tree and nothing else, and `AllSpans` says that all of them are good.

The two are used together: `Moved` relates a tree with good spans to the same tree with its
spans changed. It has one rule for each form of a tree, and lists are related item by item.
-/

namespace ModelWeaver

open Text

/-! ## Spans -/

/-- The span so many bytes further on. -/
def Text.Span.shift (distance : Nat) (span : Span) : Span :=
  ⟨span.start + distance, span.stop + distance⟩

/-- A span from one of some positions to another that does not come before it. -/
structure Text.Span.LiesOn (positions : Nat → Prop) (span : Span) : Prop where
  start : positions span.start
  stop : positions span.stop
  ordered : span.start ≤ span.stop

/-- The same fault so many bytes further on. -/
def SyntaxError.shift (distance : Nat) (error : SyntaxError) : SyntaxError :=
  { error with span := error.span.shift distance }

namespace Snippet

/-! ## All spans of a tree -/

mutual

/-- Change all spans of an expression. -/
def Expr.mapSpans (change : Span → Span) : Expr → Expr
  | int value => int value
  | float value => float value
  | str text => str text
  | bool value => bool value
  | none => none
  | var name span => var name (change span)
  | list items => list (mapSpansAll change items)
  | tuple items => tuple (mapSpansAll change items)
  | dict entries => dict (mapSpansEntries change entries)
  | listComp element clauses =>
    listComp (element.mapSpans change) (mapSpansClauses change clauses)
  | dictComp key value clauses =>
    dictComp (key.mapSpans change) (value.mapSpans change) (mapSpansClauses change clauses)
  | unary op operand => unary op (operand.mapSpans change)
  | binary op left right => binary op (left.mapSpans change) (right.mapSpans change)
  | cond condition yes no =>
    cond (condition.mapSpans change) (yes.mapSpans change) (no.mapSpans change)
  | call callee args span =>
    call (callee.mapSpans change) (mapSpansArguments change args) (change span)
  | subscript value index span =>
    subscript (value.mapSpans change) (index.mapSpans change) (change span)
  | member value name span => member (value.mapSpans change) name (change span)
termination_by structural expr => expr

/-- Change all spans of some expressions. -/
def Expr.mapSpansAll (change : Span → Span) : List Expr → List Expr
  | [] => []
  | item :: items => item.mapSpans change :: mapSpansAll change items
termination_by structural items => items

/-- Change all spans of the entries of a dict. -/
def Expr.mapSpansEntries (change : Span → Span) : List (Expr × Expr) → List (Expr × Expr)
  | [] => []
  | (key, value) :: entries =>
    (key.mapSpans change, value.mapSpans change) :: mapSpansEntries change entries
termination_by structural entries => entries

/-- Change all spans of the loops of a comprehension. -/
def Expr.mapSpansClauses (change : Span → Span) : List Clause → List Clause
  | [] => []
  | .mk target iterable condition :: clauses =>
    .mk target (iterable.mapSpans change) (mapSpansFilter change condition) ::
      mapSpansClauses change clauses
termination_by structural clauses => clauses

/-- Change all spans of a filter. -/
def Expr.mapSpansFilter (change : Span → Span) : Option Expr → Option Expr
  | .none => .none
  | some condition => some (condition.mapSpans change)
termination_by structural condition => condition

/-- Change all spans of some arguments. -/
def Expr.mapSpansArguments (change : Span → Span) : List Argument → List Argument
  | [] => []
  | .positional value :: args =>
    .positional (value.mapSpans change) :: mapSpansArguments change args
  | .keyword name value :: args =>
    .keyword name (value.mapSpans change) :: mapSpansArguments change args
termination_by structural args => args

end

section

variable (change : Span → Span) (good : Span → Prop)

/-- Change all spans of a loop. -/
def Clause.mapSpans : Clause → Clause
  | mk target iterable condition =>
    mk target (iterable.mapSpans change) (condition.map (Expr.mapSpans change))

/-- Change all spans of an argument. -/
def Argument.mapSpans : Argument → Argument
  | positional value => positional (value.mapSpans change)
  | keyword name value => keyword name (value.mapSpans change)

/-- Change all spans of a statement. -/
def Statement.mapSpans : Statement → Statement
  | assign target op value span => assign target op (value.mapSpans change) (change span)
  | expr value span => expr (value.mapSpans change) (change span)

theorem Expr.mapSpansAll_eq_map (items : List Expr) :
    mapSpansAll change items = items.map (mapSpans change) := by
  induction items with
  | nil => rfl
  | cons item items ih => exact congrArg (_ :: ·) ih

theorem Expr.mapSpansEntries_eq_map (entries : List (Expr × Expr)) :
    mapSpansEntries change entries =
      entries.map (Prod.map (mapSpans change) (mapSpans change)) := by
  induction entries with
  | nil => rfl
  | cons entry entries ih => exact congrArg (_ :: ·) ih

theorem Expr.mapSpansClauses_eq_map (clauses : List Clause) :
    mapSpansClauses change clauses = clauses.map (Clause.mapSpans change) := by
  induction clauses with
  | nil => rfl
  | cons clause clauses ih =>
    obtain ⟨target, iterable, condition⟩ := clause
    cases condition <;> exact congrArg (_ :: ·) ih

theorem Expr.mapSpansArguments_eq_map (args : List Argument) :
    mapSpansArguments change args = args.map (Argument.mapSpans change) := by
  induction args with
  | nil => rfl
  | cons argument args ih =>
    cases argument <;> exact congrArg (_ :: ·) ih

/-- The span that an expression itself carries. -/
def Expr.span? : Expr → Option Span
  | var _ span | call _ _ span | subscript _ _ span | member _ _ span => some span
  | _ => .none

/-- All spans of an expression are good: its own and those of its parts. -/
inductive Expr.AllSpans : Expr → Prop
  | mk {expr : Expr} :
      (∀ span ∈ expr.span?, good span) → (∀ part ∈ expr.parts, part.AllSpans) → AllSpans expr

/-- All spans of a loop are good. -/
def Clause.AllSpans (clause : Clause) : Prop :=
  ∀ part ∈ clause.parts, part.AllSpans good

/-- All spans of an argument are good. -/
def Argument.AllSpans (argument : Argument) : Prop :=
  argument.value.AllSpans good

/-- All spans of a statement are good. -/
def Statement.AllSpans : Statement → Prop
  | assign _ _ value span | expr value span => value.AllSpans good ∧ good span

end

/-! ## Trees whose spans are changed -/

/-- A tree with good spans, and the same tree with its spans changed. -/
structure Changed {α : Type} (mapSpans : α → α) (allSpans : α → Prop) (tree changed : α) :
    Prop where
  eq : changed = mapSpans tree
  good : allSpans tree

theorem Changed.forall₂ {α : Type} {mapSpans : α → α} {allSpans : α → Prop}
    {trees changed : List α} (all : List.Forall₂ (Changed mapSpans allSpans) trees changed) :
    Changed (List.map mapSpans) (fun trees => ∀ tree ∈ trees, allSpans tree) trees changed := by
  induction all with
  | nil => exact ⟨rfl, List.forall_mem_nil _⟩
  | cons first _ ih =>
    refine ⟨?_, List.forall_mem_cons.mpr ⟨first.good, ih.good⟩⟩
    rw [List.map_cons, ← first.eq, ← ih.eq]

section

variable (change : Span → Span) (good : Span → Prop)

/-- An expression with good spans, and the same one with its spans changed. -/
abbrev Expr.Moved : Expr → Expr → Prop :=
  Changed (Expr.mapSpans change) (Expr.AllSpans good)

/-- An entry of a dict with good spans, and the same one with its spans changed. -/
abbrev Expr.MovedEntry : Expr × Expr → Expr × Expr → Prop :=
  Changed (Prod.map (Expr.mapSpans change) (Expr.mapSpans change))
    fun entry => entry.1.AllSpans good ∧ entry.2.AllSpans good

/-- A loop with good spans, and the same one with its spans changed. -/
abbrev Clause.Moved : Clause → Clause → Prop :=
  Changed (Clause.mapSpans change) (Clause.AllSpans good)

/-- An argument with good spans, and the same one with its spans changed. -/
abbrev Argument.Moved : Argument → Argument → Prop :=
  Changed (Argument.mapSpans change) (Argument.AllSpans good)

/-- A statement with good spans, and the same one with its spans changed. -/
abbrev Statement.Moved : Statement → Statement → Prop :=
  Changed (Statement.mapSpans change) (Statement.AllSpans good)

end

section

variable {change : Span → Span} {good : Span → Prop}

namespace Expr

theorem AllSpans.of_parts {expr : Expr} (parts : ∀ part ∈ expr.parts, part.AllSpans good)
    (none : expr.span? = .none) : expr.AllSpans good :=
  .mk (by simp [none]) parts

theorem AllSpans.of_span {expr : Expr} {span : Span} (own : good span)
    (parts : ∀ part ∈ expr.parts, part.AllSpans good) (some : expr.span? = .some span) :
    expr.AllSpans good :=
  .mk (by simpa [some] using own) parts

theorem Moved.literal {expr : Expr} (same : expr.mapSpans change = expr) (parts : expr.parts = [])
    (none : expr.span? = .none) : expr.Moved change good expr :=
  ⟨same.symm, .of_parts (by simp [parts]) none⟩

theorem Moved.var (name : String) {span : Span} (own : good span) :
    (Expr.var name span).Moved change good (.var name (change span)) :=
  ⟨rfl, .of_span own (List.forall_mem_nil _) rfl⟩

section

variable {items items' : List Expr} (all : List.Forall₂ (Moved change good) items items')

include all

theorem Moved.list : (Expr.list items).Moved change good (.list items') := by
  obtain ⟨rfl, itemsGood⟩ := Changed.forall₂ all
  exact ⟨congrArg Expr.list (mapSpansAll_eq_map change items).symm, .of_parts itemsGood rfl⟩

theorem Moved.tuple : (Expr.tuple items).Moved change good (.tuple items') := by
  obtain ⟨rfl, itemsGood⟩ := Changed.forall₂ all
  exact ⟨congrArg Expr.tuple (mapSpansAll_eq_map change items).symm, .of_parts itemsGood rfl⟩

end

theorem MovedEntry.pair {key key' value value' : Expr} (keys : key.Moved change good key')
    (values : value.Moved change good value') :
    MovedEntry change good (key, value) (key', value') :=
  ⟨Prod.ext keys.eq values.eq, keys.good, values.good⟩

theorem Moved.dict {entries entries' : List (Expr × Expr)}
    (all : List.Forall₂ (MovedEntry change good) entries entries') :
    (Expr.dict entries).Moved change good (.dict entries') := by
  obtain ⟨rfl, entriesGood⟩ := Changed.forall₂ all
  refine ⟨congrArg Expr.dict (mapSpansEntries_eq_map change entries).symm, .of_parts ?_ rfl⟩
  intro part mem
  obtain ⟨entry, entryMember, mem⟩ := List.mem_flatMap.mp mem
  obtain ⟨keyGood, valueGood⟩ := entriesGood entry entryMember
  exact List.forall_mem_cons.mpr ⟨keyGood, List.forall_mem_singleton.mpr valueGood⟩ part mem

section

variable {clauses clauses' : List Clause}
  (all : List.Forall₂ (Clause.Moved change good) clauses clauses')

include all

theorem eq_and_allSpans_of_clauses : clauses' = mapSpansClauses change clauses ∧
    ∀ part ∈ clauses.flatMap Clause.parts, part.AllSpans good := by
  obtain ⟨clausesEq, clausesGood⟩ := Changed.forall₂ all
  refine ⟨clausesEq.trans (mapSpansClauses_eq_map change clauses).symm, ?_⟩
  intro part mem
  obtain ⟨clause, clauseMember, mem⟩ := List.mem_flatMap.mp mem
  exact clausesGood clause clauseMember part mem

theorem Moved.listComp {element element' : Expr} (elements : element.Moved change good element') :
    (Expr.listComp element clauses).Moved change good (.listComp element' clauses') := by
  obtain ⟨rfl, clausesGood⟩ := eq_and_allSpans_of_clauses all
  obtain ⟨rfl, elementGood⟩ := elements
  exact ⟨rfl, .of_parts (List.forall_mem_cons.mpr ⟨elementGood, clausesGood⟩) rfl⟩

theorem Moved.dictComp {entry entry' : Expr × Expr}
    (entries : MovedEntry change good entry entry') :
    (Expr.dictComp entry.1 entry.2 clauses).Moved change good
      (.dictComp entry'.1 entry'.2 clauses') := by
  obtain ⟨rfl, clausesGood⟩ := eq_and_allSpans_of_clauses all
  obtain ⟨rfl, keyGood, valueGood⟩ := entries
  exact ⟨rfl, .of_parts (List.forall_mem_cons.mpr
    ⟨keyGood, List.forall_mem_cons.mpr ⟨valueGood, clausesGood⟩⟩) rfl⟩

end

section

variable {first first' second second' third third' : Expr}
  (firsts : first.Moved change good first') (seconds : second.Moved change good second')
  (thirds : third.Moved change good third')

include firsts

theorem Moved.unary (op : UnaryOp) :
    (Expr.unary op first).Moved change good (.unary op first') := by
  obtain ⟨rfl, firstGood⟩ := firsts
  exact ⟨rfl, .of_parts (List.forall_mem_singleton.mpr firstGood) rfl⟩

theorem Moved.member (name : String) {span : Span} (own : good span) :
    (Expr.member first name span).Moved change good (.member first' name (change span)) := by
  obtain ⟨rfl, firstGood⟩ := firsts
  exact ⟨rfl, .of_span own (List.forall_mem_singleton.mpr firstGood) rfl⟩

theorem Moved.call {args arguments' : List Argument}
    (all : List.Forall₂ (Argument.Moved change good) args arguments') {span : Span}
    (own : good span) :
    (Expr.call first args span).Moved change good
      (.call first' arguments' (change span)) := by
  obtain ⟨rfl, firstGood⟩ := firsts
  obtain ⟨rfl, argumentsGood⟩ := Changed.forall₂ all
  refine ⟨?_, .of_span own ?_ rfl⟩
  · rw [mapSpans, mapSpansArguments_eq_map]
  · refine List.forall_mem_cons.mpr ⟨firstGood, ?_⟩
    intro part mem
    obtain ⟨argument, argumentMember, rfl⟩ := List.mem_map.mp mem
    exact argumentsGood argument argumentMember

include seconds

theorem Moved.binary (op : BinaryOp) :
    (Expr.binary op first second).Moved change good (.binary op first' second') := by
  obtain ⟨rfl, firstGood⟩ := firsts
  obtain ⟨rfl, secondGood⟩ := seconds
  exact ⟨rfl, .of_parts (List.forall_mem_cons.mpr
    ⟨firstGood, List.forall_mem_singleton.mpr secondGood⟩) rfl⟩

theorem Moved.subscript {span : Span} (own : good span) :
    (Expr.subscript first second span).Moved change good
      (.subscript first' second' (change span)) := by
  obtain ⟨rfl, firstGood⟩ := firsts
  obtain ⟨rfl, secondGood⟩ := seconds
  exact ⟨rfl, .of_span own (List.forall_mem_cons.mpr
    ⟨firstGood, List.forall_mem_singleton.mpr secondGood⟩) rfl⟩

include thirds

theorem Moved.cond :
    (Expr.cond first second third).Moved change good (.cond first' second' third') := by
  obtain ⟨rfl, firstGood⟩ := firsts
  obtain ⟨rfl, secondGood⟩ := seconds
  obtain ⟨rfl, thirdGood⟩ := thirds
  exact ⟨rfl, .of_parts (List.forall_mem_cons.mpr ⟨firstGood, List.forall_mem_cons.mpr
    ⟨secondGood, List.forall_mem_singleton.mpr thirdGood⟩⟩) rfl⟩

end

end Expr

section

variable {value value' : Expr} (values : value.Moved change good value')

include values

theorem Clause.Moved.all (target : Target) :
    (Clause.mk target value .none).Moved change good (.mk target value' .none) := by
  obtain ⟨rfl, valueGood⟩ := values
  exact ⟨rfl, List.forall_mem_singleton.mpr valueGood⟩

theorem Clause.Moved.filtered (target : Target) {condition condition' : Expr}
    (conditions : condition.Moved change good condition') :
    (Clause.mk target value (some condition)).Moved change good
      (.mk target value' (some condition')) := by
  obtain ⟨rfl, valueGood⟩ := values
  obtain ⟨rfl, conditionGood⟩ := conditions
  exact ⟨rfl, List.forall_mem_cons.mpr ⟨valueGood, List.forall_mem_singleton.mpr conditionGood⟩⟩

theorem Argument.Moved.positional :
    (Argument.positional value).Moved change good (.positional value') := by
  obtain ⟨rfl, valueGood⟩ := values
  exact ⟨rfl, valueGood⟩

theorem Argument.Moved.keyword (name : String) :
    (Argument.keyword name value).Moved change good (.keyword name value') := by
  obtain ⟨rfl, valueGood⟩ := values
  exact ⟨rfl, valueGood⟩

theorem Statement.Moved.assign (target : Target) (op : AssignOp) {span : Span}
    (own : good span) :
    (Statement.assign target op value span).Moved change good
      (.assign target op value' (change span)) := by
  obtain ⟨rfl, valueGood⟩ := values
  exact ⟨rfl, valueGood, own⟩

theorem Statement.Moved.expr {span : Span} (own : good span) :
    (Statement.expr value span).Moved change good (.expr value' (change span)) := by
  obtain ⟨rfl, valueGood⟩ := values
  exact ⟨rfl, valueGood, own⟩

end

end

end Snippet

end ModelWeaver
