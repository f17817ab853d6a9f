import ModelWeaver.Proofs.Snippet.Displays

/-!
# The parser inverts the printer

An expression that is printed with a left need of powers above their level is read back up to the
places it was read from, if the levels of nesting suffice, and otherwise the parser reports that
they do not.

The left spine of a tree is spread over the rounds of two loops, one over the operators of a level
and one over the calls, subscripts and attributes behind an operand. The statements are therefore
made about all that a loop may do after a printed expression: `Grows` and `Trails`.
-/

namespace ModelWeaver.Snippet

open Snippet.Parser

/-- What is printed: its tokens, the levels of nesting that reading them takes
and the shape of what is read. -/
structure Printed where
  tokens : List Token
  nesting : Nat
  shape : Expr

/-- What is printed for an expression without parentheses around it. -/
def Expr.printed (powerLeft : Nat) (expr : Expr) : Printed :=
  ⟨expr.print powerLeft, expr.nesting powerLeft, expr.shape⟩

/-- What is printed for an expression at a position. -/
def Expr.printedAt (powerLeft need : Nat) (expr : Expr) : Printed :=
  ⟨guarded need expr.level (expr.print powerLeft),
    guardedNesting need expr.level (expr.nesting powerLeft), expr.shape⟩

variable {powerLeft : Nat} {printed : Printed}

theorem Expr.printedAt_of_le {need : Nat} {expr : Expr} (fits : need ≤ expr.level) :
    expr.printedAt powerLeft need = expr.printed powerLeft := by
  simp [printedAt, printed, guarded, guardedNesting, Nat.not_lt.mpr fits]

/-- It is read as an atom. -/
def Stands (printed : Printed) : Prop :=
  ∀ levels rest, (∀ text, rest.head? ≠ some (.string text)) →
    Reads (atom (expr levels) (targets levels)) (printed.tokens ++ rest) rest
      (printed.nesting ≤ levels) fun value => value.shape = printed.shape

/-- It is read as an atom with some calls, subscripts and attributes, and more of
them may follow. -/
def Trails (printed : Printed) : Prop :=
  ∀ (levels : Nat) {rest after : List Token} {fits : Prop} {good : Expr → Prop},
    (∀ text, rest.head? ≠ some (.string text)) →
    (∀ value, value.shape = printed.shape →
      Loops (trailerRound (expr levels) (targets levels)) value rest after fits good) →
    Reads (atom (expr levels) (targets levels) >>= trailers (expr levels) (targets levels))
      (printed.tokens ++ rest) after (printed.nesting ≤ levels ∧ fits) good

/-- It is read as an expression of the given level, and more operators may
follow that its right edge does not grip. -/
def Grows (level grip : Nat) (printed : Printed) : Prop :=
  ∀ (levels : Nat) {least : Nat} {rest after : List Token} {fits : Prop} {good : Expr → Prop},
    least ≤ level → Stops grip rest →
    (∀ value, value.shape = printed.shape →
      Loops (operatorRound (expr levels) least) value rest after fits good) →
    Reads (expression (expr levels) (targets levels) least)
      (printed.tokens ++ rest) after (printed.nesting ≤ levels ∧ fits) good

/-! ## From atoms to expressions -/

theorem Stands.trails (stands : Stands printed) : Trails printed := by
  intro levels rest after fits good noString continues
  exact (stands levels rest noString).bind fun value same => (continues value same).reads

theorem Trails.operand (trails : Trails printed) (starts : StartsExpr closedLevel printed.tokens)
    (levels : Nat) {rest : List Token} (ends : ∀ token ∈ rest.head?, token.extendsOperand = false) :
    Reads (Parser.operand (expr levels) (targets levels)) (printed.tokens ++ rest) rest
      (printed.nesting ≤ levels) fun value => value.shape = printed.shape := by
  have noString : ∀ text, rest.head? ≠ some (.string text) := by
    intro text string
    exact absurd (ends _ string) (by simp [Token.extendsOperand])
  have reads := trails levels noString fun value same => loops_trailerRound_stop ends same
  obtain ⟨token, more, split, opens | ⟨low, _⟩⟩ := starts
  · rw [split] at reads ⊢
    apply Reads.peek?
    rw [List.cons_append, List.head?_cons]
    split
    · rename_i minus
      cases minus
      contradiction
    · rename_i plus
      cases plus
      contradiction
    · rename_i notWord
      cases notWord
      contradiction
    · exact reads.congr (and_true _).symm.to_iff fun _ => id
  · exact absurd low (Nat.lt_irrefl _)

theorem Trails.grows (trails : Trails printed) (starts : StartsExpr closedLevel printed.tokens)
    (level grip : Nat) : Grows level grip printed := by
  intro levels least rest after fits good _ stops continues
  exact (trails.operand starts levels stops.operand).bind
    fun value same => (continues value same).reads

theorem Grows.reads {level grip : Nat} (grows : Grows level grip printed) {least : Nat}
    (low : least ≤ level) (levels : Nat) {rest : List Token} (stops : Stops least rest)
    (free : Stops grip rest) :
    Reads (expr levels least) (printed.tokens ++ rest) rest (printed.nesting < levels)
      fun value => value.shape = printed.shape := by
  cases levels with
  | zero => exact reads_nestedTooDeep.congr (by simp) fun _ => id
  | succ levels =>
    have reads := grows levels low free fun value same => loops_operatorRound_stop stops same
    exact reads.congr (Nat.lt_succ_iff.trans (and_true _).symm.to_iff) fun _ => id

/-! ## Positions -/

/-- What is shown of an expression: it grows, and if it is closed, it trails. -/
structure Inverts (powerLeft : Nat) (expr : Expr) : Prop where
  grows : Grows expr.level expr.grip (expr.printed powerLeft)
  trails : expr.level = closedLevel → Trails (expr.printed powerLeft)

section Positions

variable {powerLeft : Nat} {inner : Expr}

section Inverting

variable (inverts : Inverts powerLeft inner)
include inverts

theorem Inverts.item : ReadsAt powerLeft 0 inner := by
  intro levels rest stops
  have reads := inverts.grows.reads (Nat.zero_le _) levels stops (stops.mono (Nat.zero_le _))
  rwa [← Expr.printedAt_of_le (Nat.zero_le _)] at reads

theorem Inverts.stands {need : Nat} (low : inner.level < need) :
    Stands (inner.printedAt powerLeft need) := by
  intro levels rest _
  have reads := reads_parenthesised levels rest inverts.item
  simp only [Expr.printedAt, guarded, guardedNesting, if_pos low, List.cons_append,
    List.append_assoc]
  exact Reads.next? fun _ => reads

theorem Inverts.trailsAt : Trails (inner.printedAt powerLeft closedLevel) := by
  by_cases low : inner.level < closedLevel
  · exact (inverts.stands low).trails
  · have closed : inner.level = closedLevel := Nat.le_antisymm inner.level_le (Nat.not_lt.mp low)
    rw [Expr.printedAt_of_le (Nat.not_lt.mp low)]
    exact inverts.trails closed

omit inverts in
theorem startsExpr_printedAt {need : Nat} (low : inner.level < need) :
    StartsExpr closedLevel (inner.printedAt powerLeft need).tokens := by
  simp only [Expr.printedAt, guarded, if_pos low]
  exact ⟨_, _, rfl, .inl rfl⟩

theorem Inverts.growsAt (need : Nat) :
    Grows need (if inner.level < need then closedLevel else inner.grip)
      (inner.printedAt powerLeft need) := by
  split
  · rename_i low
    exact (inverts.stands low).trails.grows (startsExpr_printedAt low) need closedLevel
  · rename_i high
    have fits : need ≤ inner.level := Nat.not_lt.mp high
    rw [Expr.printedAt_of_le fits]
    intro levels least rest after fitting good low
    exact inverts.grows levels (Nat.le_trans low fits)

/-- At a position whose need is at most that of the right operand of a power, an
expression is read back. -/
theorem Inverts.readsAt {need : Nat} (low : need ≤ BinaryOp.power.rightNeed) :
    ReadsAt powerLeft need inner := by
  intro levels rest stops
  have free : Stops (if inner.level < need then closedLevel else inner.grip) rest := by
    apply stops.mono
    split
    · exact Nat.le_trans low (by decide)
    · rename_i high
      exact Expr.le_grip low (Nat.not_lt.mp high)
  exact (inverts.growsAt need).reads (Nat.le_refl need) levels stops free

end Inverting

/-! ## Atoms -/

theorem inverts_of_trails (closed : inner.level = closedLevel)
    (trails : Trails (inner.printed powerLeft)) : Inverts powerLeft inner := by
  have starts := startsExpr_print powerLeft inner
  rw [closed] at starts
  exact ⟨trails.grows starts _ _, fun _ => trails⟩

theorem stands_str (text : String) : Stands ((Expr.str text).printed powerLeft) := by
  intro levels rest noString
  have last : Reads (stringRound text) rest rest True fun round =>
      ∃ whole, round = .done whole ∧ whole = text := by
    apply Reads.peek?
    split
    · exact absurd ‹_› (noString _)
    · exact Reads.value ⟨text, rfl, rfl⟩
  apply Reads.next?
  intro span
  refine ((Loops.done last).reads.andThen fun whole same => Reads.value ?_).of_fits
    (Nat.zero_le levels)
  rw [same]
  rfl

theorem stands_list {items : List Expr} (inverts : ∀ item ∈ items, Inverts powerLeft item) :
    Stands ((Expr.list items).printed powerLeft) := by
  intro levels rest _
  have reads := reads_list levels rest (fun item mem => (inverts item mem).item)
  simp only [Expr.printed, Expr.print, Expr.printAll_eq_map, Expr.nesting_list_le_iff,
    List.cons_append, List.append_assoc]
  exact Reads.next? fun _ => reads

theorem stands_tuple {items : List Expr} (inverts : ∀ item ∈ items, Inverts powerLeft item) :
    Stands ((Expr.tuple items).printed powerLeft) := by
  intro levels rest _
  have reads := reads_tuple levels rest (fun item mem => (inverts item mem).item)
  simp only [Expr.printed, Expr.print, Expr.printAll_eq_map, Expr.nesting_tuple_le_iff,
    List.cons_append, List.append_assoc]
  exact Reads.next? fun _ => reads

theorem stands_dict {entries : List (Expr × Expr)}
    (inverts : ∀ entry ∈ entries, Inverts powerLeft entry.1 ∧ Inverts powerLeft entry.2) :
    Stands ((Expr.dict entries).printed powerLeft) := by
  intro levels rest _
  have reads := reads_dict levels rest (fun entry mem =>
    ⟨(inverts entry mem).1.item, (inverts entry mem).2.item⟩)
  simp only [Expr.printed, Expr.print, Expr.printEntries_eq_map, Expr.nesting_dict_le_iff,
    List.cons_append, List.append_assoc]
  exact Reads.next? fun _ => reads

section Comprehensions

variable {clauses : List Clause} (nonempty : clauses ≠ [])
  (filled : ∀ clause ∈ clauses, clause.target.Filled)
  (inverts : ∀ part ∈ clauses.flatMap Clause.parts, Inverts powerLeft part)

include filled inverts in
private theorem readsAt_clauses (clause : Clause) (mem : clause ∈ clauses) :
    clause.ReadsBack powerLeft := by
  refine ⟨filled clause mem, fun part within => ?_⟩
  exact (inverts part (List.mem_flatMap.mpr ⟨clause, mem, within⟩)).readsAt (by decide)

include nonempty filled inverts

theorem stands_listComp {element : Expr} (invertsElement : Inverts powerLeft element) :
    Stands ((Expr.listComp element clauses).printed powerLeft) := by
  intro levels rest _
  have reads := reads_listComp levels rest nonempty invertsElement.item
    (readsAt_clauses filled inverts)
  simp only [Expr.printed, Expr.print, Expr.nesting_listComp_le_iff, List.cons_append,
    List.append_assoc]
  exact Reads.next? fun _ => reads

theorem stands_dictComp {key value : Expr} (invertsKey : Inverts powerLeft key)
    (invertsValue : Inverts powerLeft value) :
    Stands ((Expr.dictComp key value clauses).printed powerLeft) := by
  intro levels rest _
  have reads := reads_dictComp levels rest nonempty invertsKey.item invertsValue.item
    (readsAt_clauses filled inverts)
  rw [Expr.printEntry, List.append_assoc] at reads
  simp only [Expr.printed, Expr.print, Expr.nesting_dictComp_le_iff, List.cons_append,
    List.append_assoc]
  exact Reads.next? fun _ => reads

end Comprehensions

/-! ## Calls, subscripts and attributes -/

theorem trails_call {callee : Expr} {args : List Argument} (span : Text.Span)
    (invertsCallee : Inverts powerLeft callee)
    (inverts : ∀ argument ∈ args, Inverts powerLeft argument.value)
    (pairwise : args.Pairwise fun first second => first.isKeyword → second.isKeyword) :
    Trails ((Expr.call callee args span).printed powerLeft) := by
  intro levels rest after fits good _ continues
  simp only [Expr.printed, Expr.print, Expr.printArguments_eq_map, Expr.nesting_call_le_iff,
    and_assoc, List.append_assoc, List.cons_append]
  refine invertsCallee.trailsAt levels (by simp) fun value same => ?_
  refine Loops.again ?_ (by simp only [List.length_cons, List.length_append]; omega) continues
  apply Reads.here
  intro start
  apply Reads.peek?
  apply Reads.skip
  have reads := reads_argumentList levels rest (fun argument mem => (inverts argument mem).item)
    pairwise
  refine reads.andThen fun all allEq => ?_
  apply Reads.spanFrom
  intro extent
  refine Reads.value ⟨_, rfl, ?_⟩
  change _ = (Expr.call callee args span).shape
  rw [Expr.shape_call, Expr.shape_call, same, allEq]
  rfl

theorem trails_subscript {value index : Expr} (span : Text.Span)
    (invertsValue : Inverts powerLeft value) (invertsIndex : Inverts powerLeft index) :
    Trails ((Expr.subscript value index span).printed powerLeft) := by
  intro levels rest after fits good _ continues
  simp only [Expr.printed, Expr.print, Expr.nesting_subscript_le_iff, and_assoc,
    List.append_assoc, List.cons_append]
  refine invertsValue.trailsAt levels (by simp) fun base same => ?_
  refine Loops.again ?_ (by simp only [List.length_cons, List.length_append]; omega) continues
  apply Reads.here
  intro start
  apply Reads.peek?
  apply Reads.skip
  have reads : Reads (tupleOrExpr (expr levels)) (index.print powerLeft ++ .rBracket :: rest)
      (.rBracket :: rest) (index.nesting powerLeft < levels)
      fun tree => tree.shape = index.shape := by
    refine (invertsIndex.item.item (stops_of_endsExpr rfl 0 rest)).andThen fun tree sameTree => ?_
    apply Reads.sees
    exact Reads.value sameTree
  refine reads.andThen fun tree sameTree => ?_
  apply Reads.expect
  apply Reads.spanFrom
  intro extent
  refine Reads.value ⟨_, rfl, ?_⟩
  change Expr.subscript base.shape tree.shape ⟨0, 0⟩ = _
  rw [same, sameTree]
  rfl

theorem trails_member {value : Expr} (name : String) (span : Text.Span)
    (inverts : Inverts powerLeft value) :
    Trails ((Expr.member value name span).printed powerLeft) := by
  intro levels rest after fits good _ continues
  simp only [Expr.printed, Expr.print, List.append_assoc, List.cons_append]
  refine inverts.trailsAt levels (by simp) fun base same => ?_
  have round : Reads (trailerRound (expr levels) (targets levels) base)
      (.dot :: .ident name :: rest) rest True fun round =>
        ∃ tree, round = .again tree ∧ tree.shape = (Expr.member value name span).shape := by
    apply Reads.here
    intro start
    apply Reads.peek?
    apply Reads.skip
    apply Reads.ident
    apply Reads.spanFrom
    intro extent
    refine Reads.value ⟨_, rfl, ?_⟩
    exact congrArg (Expr.member · name ⟨0, 0⟩) same
  have shorter : rest.length < (Token.dot :: .ident name :: rest).length := by
    simp only [List.length_cons]
    omega
  exact (Loops.again round shorter continues).congr (true_and fits).symm.to_iff fun _ => id

/-! ## Operators -/

theorem grows_unary {op : UnaryOp} {operand : Expr} (inverts : Inverts powerLeft operand) :
    Grows op.level op.level ((Expr.unary op operand).printed powerLeft) := by
  intro levels least rest after fits good _ stops continues
  have reads := inverts.readsAt (by cases op <;> decide) levels rest stops
  have readsOperand : Reads (Parser.operand (expr levels) (targets levels))
      (op.token :: (guarded op.level operand.level (operand.print powerLeft) ++ rest)) rest
      (guardedNesting op.level operand.level (operand.nesting powerLeft) < levels)
      fun value => value.shape = (Expr.unary op operand).shape := by
    apply Reads.peek?
    cases op with
    | _ =>
      apply Reads.skip
      refine reads.andThen fun value same => Reads.value ?_
      exact congrArg (Expr.unary _) same
  exact readsOperand.bind fun value same => (continues value same).reads

theorem reads_skip_operator {α : Type} {op : BinaryOp} {before after : List Token}
    {fits : Prop} {good : α → Prop} {next : Unit → Parser α}
    (rest : Reads (next ()) before after fits good) :
    Reads (skip >>= fun _ => if op.tokens.length = 2 then skip >>= next else next ())
      (op.tokens ++ before) after fits good := by
  cases op with
  | nonMembership =>
    apply Reads.skip
    exact Reads.skip rest
  | _ =>
    apply Reads.skip
    exact rest

theorem grows_binary (above : BinaryOp.power.level < powerLeft) {op : BinaryOp}
    {left right : Expr} (invertsLeft : Inverts powerLeft left)
    (invertsRight : Inverts powerLeft right) :
    Grows op.level op.rightNeed ((Expr.binary op left right).printed powerLeft) := by
  intro levels least rest after fits good low stops continues
  have free : op.level <
      if left.level < op.leftNeed powerLeft then closedLevel else left.grip := by
    split
    · exact op.level_lt_closedLevel
    · rename_i high
      exact Expr.level_lt_grip above (Nat.not_lt.mp high)
  have reads := invertsRight.readsAt (by cases op <;> decide) levels rest stops
  simp only [Expr.printed, Expr.print, Expr.nesting_binary_le_iff, and_assoc, List.append_assoc]
  refine invertsLeft.growsAt (op.leftNeed powerLeft) levels
    (Nat.le_trans low (op.level_le_leftNeed above)) (stops_operator free _) fun value same => ?_
  have shorter : rest.length <
      (op.tokens ++ (guarded op.rightNeed right.level (right.print powerLeft) ++ rest)).length := by
    have positive := op.tokens_length_pos
    simp only [List.length_append]
    omega
  refine Loops.again ?_ shorter continues
  apply Reads.peekTwo
  have noChoice : (((op.tokens ++ (guarded op.rightNeed right.level (right.print powerLeft) ++
      rest)).take 2).head? == some .ifWord) = false := by
    cases op <;> rfl
  rw [noChoice, binaryForm?_take_two, binaryForm?_tokens]
  simp only [Bool.false_eq_true, if_false, if_neg (Nat.not_lt.mpr low)]
  apply reads_skip_operator
  refine reads.andThen fun tree sameTree => Reads.value ⟨_, rfl, ?_⟩
  change Expr.binary op value.shape tree.shape = _
  rw [same, sameTree]
  rfl

theorem grows_cond {condition yes no : Expr} (invertsCondition : Inverts powerLeft condition)
    (invertsYes : Inverts powerLeft yes) (invertsNo : Inverts powerLeft no) :
    Grows choiceLevel choiceLevel ((Expr.cond condition yes no).printed powerLeft) := by
  intro levels least rest after fits good low stops continues
  have free : choicePower <
      if yes.level < choiceLevel + 1 then closedLevel else yes.grip := by
    split
    · decide
    · rename_i high
      exact Expr.le_grip (by decide) (Nat.not_lt.mp high)
  have reaches : ¬ choicePower < least := Nat.not_lt.mpr low
  have readsCondition := invertsCondition.readsAt (by decide : choiceLevel + 1 ≤ 17) levels _
    (stops_of_endsExpr (by rfl : Token.elseWord.endsExpr = true) _
      (guarded choiceLevel no.level (no.print powerLeft) ++ rest))
  have readsNo := invertsNo.readsAt (by decide : choiceLevel ≤ 17) levels rest stops
  simp only [Expr.printed, Expr.print, Expr.nesting_cond_le_iff, and_assoc, List.append_assoc,
    List.cons_append]
  refine invertsYes.growsAt (choiceLevel + 1) levels (Nat.le_succ_of_le low) (stops_if free _)
    fun value same => ?_
  refine (Loops.again ?_ (by simp only [List.length_cons, List.length_append]; omega)
    continues).congr and_assoc.symm fun _ => id
  apply Reads.peekTwo
  change Reads (if choicePower < least then _ else _) _ _ _ _
  rw [if_neg reaches]
  apply Reads.skip
  refine readsCondition.bind fun test sameTest => ?_
  apply Reads.expect
  refine readsNo.andThen fun other sameOther => Reads.value ⟨_, rfl, ?_⟩
  change Expr.cond test.shape value.shape other.shape = _
  rw [same, sameTest, sameOther]
  rfl

end Positions

/-! ## Whole expressions -/

theorem inverts_leaf {leaf : Expr} {token : Token} (closed : leaf.level = closedLevel)
    (printed : leaf.printed powerLeft = ⟨[token], 0, leaf.shape⟩)
    (reads : ∀ levels rest, Reads (atom (expr levels) (targets levels)) (token :: rest) rest True
      fun value => value.shape = leaf.shape) :
    Inverts powerLeft leaf := by
  apply inverts_of_trails closed
  apply Stands.trails
  rw [printed]
  intro levels rest _
  exact (reads levels rest).of_fits (Nat.zero_le levels)

theorem inverts_of_grows {inner : Expr} (low : inner.level < closedLevel)
    (grows : Grows inner.level inner.grip (inner.printed powerLeft)) : Inverts powerLeft inner :=
  ⟨grows, fun closed => absurd closed (Nat.ne_of_lt low)⟩

/-- Every writable expression grows and trails as its level says, from its parts
upwards. -/
theorem Expr.Writable.inverts (above : BinaryOp.power.level < powerLeft) {expr : Expr}
    (writable : expr.Writable) : Inverts powerLeft expr := by
  induction writable with
  | @mk expr admissible _ ih =>
    cases expr with
    | int value | float value | none | var name span =>
      exact inverts_leaf rfl rfl fun levels rest => Reads.next? fun _ => Reads.value rfl
    | bool value =>
      cases value with
      | _ => exact inverts_leaf rfl rfl fun levels rest => Reads.next? fun _ => Reads.value rfl
    | str text => exact inverts_of_trails rfl (stands_str text).trails
    | list items => exact inverts_of_trails rfl (stands_list ih).trails
    | tuple items => exact inverts_of_trails rfl (stands_tuple ih).trails
    | dict entries =>
      have parts : ∀ entry ∈ entries, Inverts powerLeft entry.1 ∧ Inverts powerLeft entry.2 :=
        fun entry mem =>
          ⟨ih entry.1 (List.mem_flatMap.mpr ⟨entry, mem, by simp⟩),
            ih entry.2 (List.mem_flatMap.mpr ⟨entry, mem, by simp⟩)⟩
      exact inverts_of_trails rfl (stands_dict parts).trails
    | listComp element clauses =>
      obtain ⟨nonempty, filled⟩ := admissible
      have stands := stands_listComp nonempty filled
        (fun part mem => ih part (List.mem_cons_of_mem _ mem))
        (ih element List.mem_cons_self)
      exact inverts_of_trails rfl stands.trails
    | dictComp key value clauses =>
      obtain ⟨nonempty, filled⟩ := admissible
      have stands := stands_dictComp nonempty filled
        (fun part mem => ih part (List.mem_cons_of_mem _ (List.mem_cons_of_mem _ mem)))
        (ih key List.mem_cons_self) (ih value (by simp [parts]))
      exact inverts_of_trails rfl stands.trails
    | unary op operand =>
      exact inverts_of_grows op.level_lt_closedLevel
        (grows_unary (ih operand List.mem_cons_self))
    | binary op left right =>
      exact inverts_of_grows op.level_lt_closedLevel
        (grows_binary above (ih left List.mem_cons_self) (ih right (by simp [parts])))
    | cond condition yes no =>
      exact inverts_of_grows (by decide : choiceLevel < closedLevel)
        (grows_cond (ih condition List.mem_cons_self) (ih yes (by simp [parts]))
          (ih no (by simp [parts])))
    | call callee args span =>
      have trails := trails_call span (ih callee List.mem_cons_self)
        (fun argument mem =>
          ih argument.value (List.mem_cons_of_mem _ (List.mem_map_of_mem mem)))
        admissible
      exact inverts_of_trails rfl trails
    | subscript value index span =>
      exact inverts_of_trails rfl
        (trails_subscript span (ih value List.mem_cons_self) (ih index (by simp [parts])))
    | member value name span =>
      exact inverts_of_trails rfl (trails_member name span (ih value List.mem_cons_self))

theorem reads_tupleOrExpr (above : BinaryOp.power.level < powerLeft) {expr : Expr}
    (writable : expr.Writable) (levels : Nat) :
    Reads (tupleOrExpr (Parser.expr levels)) (expr.print powerLeft) []
      (expr.nesting powerLeft < levels) fun tree => tree.shape = expr.shape := by
  have reads : Reads (Parser.expr levels 0) (expr.print powerLeft ++ []) []
      (expr.nesting powerLeft < levels) fun tree => tree.shape = expr.shape :=
    (writable.inverts above).item.item (stops_nil 0)
  rw [List.append_nil] at reads
  refine reads.andThen fun tree same => ?_
  apply Reads.sees
  exact Reads.value same

theorem parseExpression_of_print (above : BinaryOp.power.level < powerLeft) {expr : Expr}
    (writable : expr.Writable) (fits : expr.nesting powerLeft < maxNesting) {base : Nat}
    {source : String} {tokens : List Lexeme} (lexed : lexemes false base source = .ok tokens)
    (printed : tokens.map Lexeme.token = expr.print powerLeft) :
    ∃ tree, parseExpression base source = .ok tree ∧ tree.shape = expr.shape := by
  have reads := reads_tupleOrExpr above writable maxNesting
  rw [← printed] at reads
  exact run_of_reads lexed reads fits "expression"

/-- The parser inverts the printer. If the left operands of powers need more than
the level of powers, every printed expression is read to its last token, and the
tree is the one that was printed, up to the places it was read from. This takes
one level of nesting more than lie below the expression; without them the parser
reports that the nesting is too deep. -/
theorem tupleOrExpr_inverts_print (powerLeft : Nat) (above : BinaryOp.power.level < powerLeft)
    (expr : Expr) (writable : expr.Writable) (lexemes : List Lexeme)
    (printed : lexemes.map Lexeme.token = expr.print powerLeft) (start stop : Nat) :
    (expr.nesting powerLeft < maxNesting →
      ∃ tree cursor,
        StateT.run (tupleOrExpr (Parser.expr maxNesting)) ⟨lexemes, start, stop⟩ =
          .ok (tree, cursor) ∧
        cursor.rest = [] ∧ tree.shape = expr.shape) ∧
    (maxNesting ≤ expr.nesting powerLeft →
      ∃ span,
        StateT.run (tupleOrExpr (Parser.expr maxNesting)) ⟨lexemes, start, stop⟩ =
          .error ⟨.nestedTooDeep maxNesting, span⟩) := by
  obtain ⟨succeeds, fails⟩ :=
    reads_tupleOrExpr above writable maxNesting ⟨lexemes, start, stop⟩ printed
  constructor
  · intro fits
    obtain ⟨tree, cursor, ran, rest, same⟩ := succeeds fits
    exact ⟨tree, cursor, ran, List.map_eq_nil_iff.mp rest, same⟩
  · intro deep
    exact fails (Nat.not_lt.mpr deep)

/-- The power of a power, `(a ** b) ** c`. -/
def powerOfPower : Expr :=
  .binary .power (.binary .power (.var "a" ⟨0, 0⟩) (.var "b" ⟨0, 0⟩)) (.var "c" ⟨0, 0⟩)

theorem writable_var (name : String) (span : Text.Span) : (Expr.var name span).Writable :=
  ⟨trivial, by simp [Expr.parts]⟩

theorem writable_powerOfPower : powerOfPower.Writable := by
  have writableLeft : (Expr.binary .power (.var "a" ⟨0, 0⟩) (.var "b" ⟨0, 0⟩)).Writable :=
    ⟨trivial, by simp [Expr.parts, writable_var]⟩
  exact ⟨trivial, by simp [powerOfPower, Expr.parts, writableLeft, writable_var]⟩

/-- If the left operand of a power needs no more than the level of powers, a power
of a power is printed without parentheses and read as a different tree. -/
theorem powerOfPower_misread :
    powerOfPower.Writable ∧ powerOfPower.nesting BinaryOp.power.level < maxNesting ∧
      ∃ tree cursor,
        StateT.run (tupleOrExpr (Parser.expr maxNesting))
            ⟨(powerOfPower.print BinaryOp.power.level).map (⟨·, ⟨0, 0⟩⟩), 0, 0⟩ =
          .ok (tree, cursor) ∧
        cursor.rest = [] ∧ tree.shape ≠ powerOfPower.shape := by
  refine ⟨writable_powerOfPower, by decide, _, _, rfl, rfl, ?_⟩
  simp [powerOfPower, Expr.shape]

/-- The comprehension `[(a ** b) ** c for a, in f(b, k = c) if not a]`. -/
def powersInLoop : Expr :=
  .listComp powerOfPower
    [.mk (.tuple [.name "a"])
      (.call (.var "f" ⟨0, 0⟩)
        [.positional (.var "b" ⟨0, 0⟩), .keyword "k" (.var "c" ⟨0, 0⟩)] ⟨0, 0⟩)
      (some (.unary .logicalNot (.var "a" ⟨0, 0⟩)))]

theorem tupleOrExpr_inverts_print_powersInLoop :
    ∃ tree cursor,
      StateT.run (tupleOrExpr (Parser.expr maxNesting))
          ⟨(powersInLoop.print 19).map (⟨·, ⟨0, 0⟩⟩), 0, 0⟩ = .ok (tree, cursor) ∧
        cursor.rest = [] ∧ tree.shape = powersInLoop.shape := by
  have filled : (Target.tuple [.name "a"]).Filled :=
    .tuple (by simp) (by simp [Target.Filled.name])
  have writableCall : (Expr.call (.var "f" ⟨0, 0⟩)
      [.positional (.var "b" ⟨0, 0⟩), .keyword "k" (.var "c" ⟨0, 0⟩)] ⟨0, 0⟩).Writable :=
    ⟨by simp [Expr.Admissible, Argument.isKeyword],
      by simp [Expr.parts, Argument.value, writable_var]⟩
  have writableNot : (Expr.unary .logicalNot (.var "a" ⟨0, 0⟩)).Writable :=
    ⟨trivial, by simp [Expr.parts, writable_var]⟩
  have writable : powersInLoop.Writable :=
    ⟨⟨by simp, by simp [Clause.target, filled]⟩,
      by simp [powersInLoop, Expr.parts, Clause.parts, writable_powerOfPower, writableCall,
        writableNot]⟩
  exact (tupleOrExpr_inverts_print 19 (by decide) powersInLoop writable
    ((powersInLoop.print 19).map (⟨·, ⟨0, 0⟩⟩)) rfl 0 0).1 (by decide)

end ModelWeaver.Snippet
