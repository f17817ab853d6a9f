import ModelWeaver.Proofs.Snippet.Lookahead

/-!
# Reading what is printed in brackets

Loop targets, comprehensions, displays and argument lists are read back from
what is printed for them, provided that the expressions in them are.
-/

namespace ModelWeaver.Snippet

open Snippet.Parser

/-! ## Loop targets -/

/-- The reader of targets in brackets when `levels` more levels are allowed. -/
def innerTargets : (levels : Nat) → Parser Target
  | 0 => fail (.nestedTooDeep maxNesting)
  | levels + 1 => targets levels

theorem targets_eq (levels : Nat) : targets levels = targetList (innerTargets levels) := by
  cases levels <;> rfl

theorem reads_innerTargets {before after : List Token} {nesting : Nat} {good : Target → Prop}
    (reads : ∀ levels, Reads (targets levels) before after (nesting ≤ levels) good)
    (levels : Nat) : Reads (innerTargets levels) before after (nesting + 1 ≤ levels) good := by
  cases levels with
  | zero => exact reads_nestedTooDeep.congr (by simp) fun _ => id
  | succ levels => exact (reads levels).congr Nat.succ_le_succ_iff fun _ => id

/-- Targets are read back in front of tokens that end a tuple. -/
def Target.ReadsBack (target : Target) : Prop :=
  ∀ levels rest, endsTuple rest.head? = true →
    Reads (targets levels) (target.print ++ rest) rest (target.nesting ≤ levels) (· = target)

theorem reads_targetAtom_name (inner : Parser Target) (word : String) (rest : List Token) :
    Reads (targetAtom inner) (.ident word :: rest) rest True (· = .name word) := by
  apply Reads.peek?
  apply Reads.skip
  exact Reads.value rfl

theorem reads_targetAtom {target : Target} (reads : target.ReadsBack) (levels : Nat)
    (rest : List Token) :
    Reads (targetAtom (innerTargets levels)) (target.guarded target.print ++ rest) rest
      (target.guardedNesting target.nesting ≤ levels) (· = target) := by
  cases target with
  | name word => exact (reads_targetAtom_name _ word rest).of_fits (Nat.zero_le levels)
  | tuple items =>
    rw [Target.guarded, List.cons_append, List.append_assoc]
    apply Reads.peek?
    apply Reads.skip
    have inner := reads_innerTargets (fun levels => reads levels (.rParen :: rest) rfl) levels
    refine inner.andThen fun value same => ?_
    apply Reads.expect
    exact Reads.value same

theorem endsTuple_guarded (target : Target) (rest : List Token) :
    endsTuple (target.guarded target.print ++ rest).head? = false := by
  cases target <;> rfl

private theorem ne_comma_of_endsTuple {token : Option Token} (ends : endsTuple token = true) :
    token ≠ some .comma := by
  rintro rfl
  contradiction

theorem readsBack_tuple {items : List Target} (nonempty : items ≠ [])
    (reads : ∀ item ∈ items, item.ReadsBack) : (Target.tuple items).ReadsBack := by
  intro levels rest ends
  have noComma := ne_comma_of_endsTuple ends
  have readsItem : ∀ item ∈ items, ∀ after,
      Reads (targetAtom (innerTargets levels)) (item.guarded item.print ++ after) after
        (item.guardedNesting item.nesting ≤ levels) (· = item) :=
    fun item mem after => reads_targetAtom (reads item mem) levels after
  rw [targets_eq, Target.print, Target.nesting, Target.printAll_eq_map, Target.nestingAll_le_iff]
  match items, nonempty with
  | [single], _ =>
    rw [List.map_singleton, tupled, List.append_assoc, List.forall_mem_singleton]
    refine (readsItem single (by simp) _).andThen fun first same => ?_
    apply Reads.sees
    exact (reads_itemsFrom_trailing ends first).andThen fun all allEq =>
      Reads.value (by rw [allEq, same])
  | first :: second :: others, _ =>
    rw [tupled_map_cons_cons, List.append_assoc, List.forall_mem_cons]
    refine (readsItem first (by simp) _).bind fun value same => ?_
    apply Reads.sees
    have readsOthers := reads_itemsFrom noComma
      (fun item mem after _ => ⟨endsTuple_guarded item after,
        readsItem item (List.mem_cons_of_mem first mem) after⟩) value
    exact readsOthers.andThen fun all allEq => Reads.value (by simpa [same] using allEq)

theorem Target.Filled.readsBack {target : Target} (filled : target.Filled) :
    target.ReadsBack := by
  induction filled with
  | name word =>
    intro levels rest ends
    rw [targets_eq]
    have atom := reads_targetAtom_name (innerTargets levels) word rest
    refine (atom.andThen fun first same => ?_).of_fits (Nat.zero_le levels)
    apply Reads.sees
    rw [beq_false_of_ne (ne_comma_of_endsTuple ends)]
    exact Reads.value same
  | tuple nonempty _ ih => exact readsBack_tuple nonempty ih

/-! ## Comprehensions -/

/-- A printed expression is read back at a position of the given need. -/
def ReadsAt (powerLeft need : Nat) (expr : Expr) : Prop :=
  ∀ levels rest, Stops need rest →
    Reads (Parser.expr levels need) (guarded need expr.level (expr.print powerLeft) ++ rest) rest
      (guardedNesting need expr.level (expr.nesting powerLeft) < levels)
      fun value => value.shape = expr.shape

def Clause.ReadsBack (powerLeft : Nat) (clause : Clause) : Prop :=
  clause.target.Filled ∧ ∀ part ∈ clause.parts, ReadsAt powerLeft (choiceLevel + 1) part

section Positions

variable {powerLeft : Nat} {close : Token} {clauses : List Clause} {items : List Expr}
  (levels : Nat) (rest : List Token)

theorem exists_clauses_eq_cons (powerLeft : Nat) (ends : close.endsExpr = true)
    (clauses : List Clause) :
    ∃ token more, Expr.printClauses powerLeft clauses ++ close :: rest = token :: more ∧
      token.endsExpr = true := by
  cases clauses with
  | nil => exact ⟨close, rest, rfl, ends⟩
  | cons clause clauses =>
    obtain ⟨target, iterable, condition⟩ := clause
    exact ⟨.forWord, _, rfl, rfl⟩

/-- One loop is read in front of tokens that start with the end of an
expression. -/
theorem reads_clauseRound {target : Target} {iterable : Expr} {condition : Option Expr}
    (filled : target.Filled)
    (reads : ∀ part ∈ (Clause.mk target iterable condition).parts,
      ReadsAt powerLeft (choiceLevel + 1) part)
    {token : Token} (ends : token.endsExpr = true) (more : List Token) (read : List Clause) :
    Reads (clauseRound (expr levels) (targets levels) read)
      (Expr.printClauses powerLeft [.mk target iterable condition] ++ token :: more)
      (token :: more)
      (target.nesting ≤ levels ∧
        guardedNesting (choiceLevel + 1) iterable.level (iterable.nesting powerLeft) < levels ∧
        ∀ filter ∈ condition,
          guardedNesting (choiceLevel + 1) filter.level (filter.nesting powerLeft) < levels)
      fun round => ∃ all, round = .again all ∧
        all.map Clause.shape =
          (Clause.mk target iterable condition).shape :: read.map Clause.shape := by
  have stops := stops_of_endsExpr ends (choiceLevel + 1) more
  have readsIterable := reads iterable List.mem_cons_self levels
  simp only [Expr.printClauses, List.append_nil, List.cons_append, List.append_assoc]
  apply Reads.sees
  apply Reads.skip
  refine (filled.readsBack levels _ rfl).bind fun value same => ?_
  apply Reads.expect
  subst same
  cases condition with
  | none =>
    refine (readsIterable _ stops).bind fun items sameItems => ?_
    apply Reads.sees
    have noFilter : (token :: more).head? ≠ some .ifWord := by
      rintro ⟨⟩
      contradiction
    rw [beq_false_of_ne noFilter]
    refine (Reads.value ⟨_, rfl, ?_⟩).of_fits (by simp)
    simp [Clause.shape, sameItems]
  | some filter =>
    have readsFilter := reads filter (by simp [Clause.parts]) levels
    refine (readsIterable _ (stops_if (by decide) _)).bind fun items sameItems => ?_
    apply Reads.sees
    apply Reads.skip
    refine ((readsFilter _ stops).andThen fun test sameTest => ?_).congr (by simp) fun _ => id
    refine Reads.value ⟨_, rfl, ?_⟩
    simp [Clause.shape, sameItems, sameTest]

theorem loops_clauseRound (closer : close.isCloser = true)
    (reads : ∀ clause ∈ clauses, clause.ReadsBack powerLeft) (read : List Clause) :
    Loops (clauseRound (expr levels) (targets levels)) read
      (Expr.printClauses powerLeft clauses ++ close :: rest) (close :: rest)
      (Expr.nestingClauses powerLeft clauses ≤ levels)
      fun all => all.map Clause.shape =
        (clauses.map Clause.shape).reverse ++ read.map Clause.shape := by
  induction clauses generalizing read with
  | nil =>
    have last : Reads (clauseRound (expr levels) (targets levels) read) (close :: rest)
        (close :: rest) True fun round =>
          ∃ all, round = .done all ∧ all.map Clause.shape = read.map Clause.shape := by
      apply Reads.sees
      have notFor : (close :: rest).head? ≠ some .forWord := by
        rintro ⟨⟩
        contradiction
      rw [beq_false_of_ne notFor]
      exact Reads.value ⟨read, rfl, rfl⟩
    exact (Loops.done last).congr (by simp [Expr.nestingClauses]) fun _ => id
  | cons clause clauses ih =>
    obtain ⟨target, iterable, condition⟩ := clause
    obtain ⟨filled, readsParts⟩ : target.Filled ∧ _ := reads _ List.mem_cons_self
    obtain ⟨token, more, follows, endsToken⟩ :=
      exists_clauses_eq_cons rest powerLeft (Token.endsExpr_of_isCloser closer) clauses
    have round := reads_clauseRound levels filled readsParts endsToken more read
    have split : Expr.printClauses powerLeft (.mk target iterable condition :: clauses) ++
          close :: rest =
        Expr.printClauses powerLeft [.mk target iterable condition] ++ token :: more := by
      simp [Expr.printClauses, ← follows]
    have shorter : (token :: more).length <
        (Expr.printClauses powerLeft [.mk target iterable condition] ++
          token :: more).length := by
      simp only [Expr.printClauses, List.length_append, List.length_cons]
      omega
    rw [split, Expr.nestingClauses_cons_le_iff]
    refine Loops.again round shorter fun all between => ?_
    rw [← follows]
    refine (ih (fun clause mem => reads clause (List.mem_cons_of_mem _ mem)) all).congr
      Iff.rfl ?_
    intro result resultEq
    rw [resultEq, between]
    simp

/-- The loops of a comprehension are read up to the bracket that closes it. -/
theorem reads_clauses (close : Token) (closer : close.isCloser = true)
    (reads : ∀ clause ∈ clauses, clause.ReadsBack powerLeft) :
    Reads (Parser.clauses (expr levels) (targets levels))
      (Expr.printClauses powerLeft clauses ++ close :: rest) (close :: rest)
      (Expr.nestingClauses powerLeft clauses ≤ levels)
      fun all => all.map Clause.shape = clauses.map Clause.shape := by
  have loops := loops_clauseRound levels rest closer reads []
  refine loops.reads.andThen fun all same => Reads.value ?_
  rw [List.map_reverse, same]
  simp

/-! ## Displays -/

theorem ReadsAt.item {levels : Nat} {rest : List Token} {item : Expr}
    (reads : ReadsAt powerLeft 0 item) (stops : Stops 0 rest) :
    Reads (expr levels 0) (item.print powerLeft ++ rest) rest
      (item.nesting powerLeft < levels) fun value => value.shape = item.shape := by
  simpa [guarded, guardedNesting] using reads levels rest stops

theorem StartsExpr.head_ne {level : Nat} {tokens : List Token} (starts : StartsExpr level tokens)
    {token : Token} (ends : token.endsExpr = true) :
    ((tokens ++ rest).head? == some token) = false := by
  obtain ⟨first, more, rfl, starts⟩ := starts
  apply beq_false_of_ne
  rintro ⟨⟩
  rcases starts with opens | ⟨_, unary⟩
  · cases token <;> contradiction
  · cases token <;> contradiction

theorem stops_behind_item {rest after : List Token} (closer : close.isCloser = true) (least : Nat)
    (behind : after = close :: rest ∨ after.head? = some .comma) : Stops least after := by
  rcases behind with rfl | comma
  · exact stops_of_endsExpr (Token.endsExpr_of_isCloser closer) least rest
  · obtain ⟨more, rfl⟩ := List.head?_eq_some_iff.mp comma
    exact stops_of_endsExpr rfl least more

theorem reads_sequenceTail (close : Token) (closer : close.isCloser = true)
    (reads : ∀ item ∈ items, ReadsAt powerLeft 0 item) (first : Expr) (what : String) :
    Reads (sequenceTail (expr levels) first close what)
      (items.flatMap (.comma :: Expr.print powerLeft ·) ++ close :: rest) rest
      (∀ item ∈ items, item.nesting powerLeft < levels)
      fun all => all.map Expr.shape = first.shape :: items.map Expr.shape := by
  have readsItem : ∀ item ∈ items, ∀ after,
      after = close :: rest ∨ after.head? = some .comma →
        ((item.print powerLeft ++ after).head? == some close) = false ∧
          Reads (expr levels 0) (item.print powerLeft ++ after) after
            (item.nesting powerLeft < levels) fun value => value.shape = item.shape :=
    fun item mem after behind =>
      ⟨(startsExpr_print powerLeft item).head_ne after (Token.endsExpr_of_isCloser closer),
        (reads item mem).item (stops_behind_item closer 0 behind)⟩
  have noComma : (close :: rest).head? ≠ some .comma := by
    rintro ⟨⟩
    contradiction
  refine (reads_itemsFrom noComma readsItem first).andThen fun all same => ?_
  apply Reads.expect
  exact Reads.value same

theorem reads_sequenceTail_trailing (close : Token) (sub : Nat → Parser Expr) (first : Expr)
    (what : String) :
    Reads (sequenceTail sub first close what) (.comma :: close :: rest) rest True
      fun all => all = [first] := by
  refine (reads_itemsFrom_trailing (by simp) first).andThen fun all single => ?_
  apply Reads.expect
  exact Reads.value single

theorem noLoop_behind_item {α : Type} (closer : close.isCloser = true) (print : α → List Token)
    (items : List α) :
    ((items.flatMap (.comma :: print ·) ++ close :: rest).head? == some .forWord) = false := by
  apply beq_false_of_ne
  cases items with
  | nil =>
    rintro ⟨⟩
    contradiction
  | cons item items => nofun

theorem reads_list (reads : ∀ item ∈ items, ReadsAt powerLeft 0 item) :
    Reads (listDisplay (expr levels) (targets levels))
      (separated (items.map (Expr.print powerLeft)) ++ .rBracket :: rest) rest
      (∀ item ∈ items, item.nesting powerLeft < levels)
      fun value => value.shape = (Expr.list items).shape := by
  cases items with
  | nil =>
    apply Reads.sees
    apply Reads.skip
    refine (Reads.value ?_).of_fits (by simp)
    rfl
  | cons item items =>
    have behind := behind_item (Expr.print powerLeft) items (.rBracket :: rest)
    rw [separated_map_cons, List.append_assoc, List.forall_mem_cons]
    apply Reads.sees
    rw [(startsExpr_print powerLeft item).head_ne _ rfl]
    refine ((reads item List.mem_cons_self).item (stops_behind_item rfl 0 behind)).bind
      fun first same => ?_
    apply Reads.sees
    rw [noLoop_behind_item _ rfl]
    have readsTail := reads_sequenceTail levels rest .rBracket rfl
      (fun item mem => reads item (List.mem_cons_of_mem _ mem)) first "']'"
    refine readsTail.andThen fun all allEq => Reads.value ?_
    rw [Expr.shape_list, Expr.shape_list, allEq, same, List.map_cons]

theorem reads_parenthesised {inner : Expr} (reads : ReadsAt powerLeft 0 inner) :
    Reads (parenthesised (expr levels) (targets levels))
      (inner.print powerLeft ++ .rParen :: rest) rest (inner.nesting powerLeft < levels)
      fun value => value.shape = inner.shape := by
  apply Reads.sees
  rw [(startsExpr_print powerLeft inner).head_ne _ rfl]
  refine (reads.item (stops_of_endsExpr rfl 0 rest)).andThen fun value same => ?_
  apply Reads.sees
  apply Reads.sees
  apply Reads.expect
  exact Reads.value same

theorem reads_tuple (reads : ∀ item ∈ items, ReadsAt powerLeft 0 item) :
    Reads (parenthesised (expr levels) (targets levels))
      (tupled (items.map (Expr.print powerLeft)) ++ .rParen :: rest) rest
      (∀ item ∈ items, item.nesting powerLeft < levels)
      fun value => value.shape = (Expr.tuple items).shape := by
  match items with
  | [] =>
    apply Reads.sees
    apply Reads.skip
    refine (Reads.value ?_).of_fits (by simp)
    rfl
  | [single] =>
    rw [List.map_singleton, tupled, List.append_assoc, List.forall_mem_singleton]
    apply Reads.sees
    rw [(startsExpr_print powerLeft single).head_ne _ rfl]
    refine ((reads single List.mem_cons_self).item (stops_of_endsExpr rfl 0 _)).andThen
      fun first same => ?_
    apply Reads.sees
    apply Reads.sees
    refine (reads_sequenceTail_trailing rest .rParen _ first "')'").andThen
      fun all allEq => Reads.value ?_
    rw [Expr.shape_tuple, Expr.shape_tuple, allEq, List.map_singleton, same, List.map_singleton]
  | item :: second :: others =>
    rw [tupled_map_cons_cons, List.append_assoc, List.forall_mem_cons]
    apply Reads.sees
    rw [(startsExpr_print powerLeft item).head_ne _ rfl]
    refine ((reads item List.mem_cons_self).item (stops_of_endsExpr rfl 0 _)).bind
      fun first same => ?_
    apply Reads.sees
    apply Reads.sees
    have readsTail := reads_sequenceTail levels rest .rParen rfl
      (fun item mem => reads item (List.mem_cons_of_mem _ mem)) first "')'"
    refine readsTail.andThen fun all allEq => Reads.value ?_
    rw [Expr.shape_tuple, Expr.shape_tuple, allEq, same]
    rfl

theorem exists_clauses_eq_forWord (powerLeft : Nat) (nonempty : clauses ≠ []) :
    ∃ more, Expr.printClauses powerLeft clauses ++ rest = .forWord :: more := by
  match clauses, nonempty with
  | .mk target iterable condition :: clauses, _ => exact ⟨_, rfl⟩

/-- A comprehension in square brackets. -/
theorem reads_listComp {element : Expr} (nonempty : clauses ≠ [])
    (readsElement : ReadsAt powerLeft 0 element)
    (reads : ∀ clause ∈ clauses, clause.ReadsBack powerLeft) :
    Reads (listDisplay (expr levels) (targets levels))
      (element.print powerLeft ++
        (Expr.printClauses powerLeft clauses ++ .rBracket :: rest)) rest
      (element.nesting powerLeft < levels ∧ Expr.nestingClauses powerLeft clauses ≤ levels)
      fun value => value.shape = (Expr.listComp element clauses).shape := by
  have readsClauses := reads_clauses levels rest .rBracket rfl reads
  obtain ⟨more, follows⟩ := exists_clauses_eq_forWord (.rBracket :: rest) powerLeft nonempty
  rw [follows] at readsClauses ⊢
  apply Reads.sees
  rw [(startsExpr_print powerLeft element).head_ne _ rfl]
  refine (readsElement.item (stops_of_endsExpr rfl 0 more)).bind fun first same => ?_
  apply Reads.sees
  refine readsClauses.andThen fun all allEq => ?_
  apply Reads.expect
  refine Reads.value ?_
  rw [Expr.shape_listComp, Expr.shape_listComp, same, allEq]

theorem reads_entry {entry : Expr × Expr} (readsKey : ReadsAt powerLeft 0 entry.1)
    (readsValue : ReadsAt powerLeft 0 entry.2) (stops : Stops 0 rest) :
    Reads (Parser.entry (expr levels)) (Expr.printEntry powerLeft entry ++ rest) rest
      (entry.1.nesting powerLeft < levels ∧ entry.2.nesting powerLeft < levels)
      fun read => Expr.shapeEntry read = Expr.shapeEntry entry := by
  rw [Expr.printEntry, List.append_assoc, List.cons_append]
  refine (readsKey.item (stops_of_endsExpr rfl 0 _)).bind fun key sameKey => ?_
  apply Reads.expect
  refine (readsValue.item stops).andThen fun value sameValue => Reads.value ?_
  rw [Expr.shapeEntry, Expr.shapeEntry, sameKey, sameValue]

theorem startsExpr_printEntry (powerLeft : Nat) (entry : Expr × Expr) :
    StartsExpr entry.1.level (Expr.printEntry powerLeft entry) := by
  obtain ⟨token, more, split, starts⟩ := startsExpr_print powerLeft entry.1
  refine ⟨token, more ++ .colon :: entry.2.print powerLeft, ?_, starts⟩
  rw [Expr.printEntry, split]
  rfl

theorem reads_dict {entries : List (Expr × Expr)}
    (reads : ∀ entry ∈ entries, ReadsAt powerLeft 0 entry.1 ∧ ReadsAt powerLeft 0 entry.2) :
    Reads (dictDisplay (expr levels) (targets levels))
      (separated (entries.map (Expr.printEntry powerLeft)) ++ .rBrace :: rest) rest
      (∀ entry ∈ entries,
        entry.1.nesting powerLeft < levels ∧ entry.2.nesting powerLeft < levels)
      fun value => value.shape = (Expr.dict entries).shape := by
  have readsEntry : ∀ entry ∈ entries, ∀ after,
      after = .rBrace :: rest ∨ after.head? = some .comma →
        ((Expr.printEntry powerLeft entry ++ after).head? == some .rBrace) = false ∧
          Reads (Parser.entry (expr levels)) (Expr.printEntry powerLeft entry ++ after) after
            (entry.1.nesting powerLeft < levels ∧ entry.2.nesting powerLeft < levels)
            fun read => Expr.shapeEntry read = Expr.shapeEntry entry :=
    fun entry mem after behind =>
      ⟨(startsExpr_printEntry powerLeft entry).head_ne after rfl,
        reads_entry levels after (reads entry mem).1 (reads entry mem).2
          (stops_behind_item rfl 0 behind)⟩
  cases entries with
  | nil =>
    apply Reads.sees
    apply Reads.skip
    refine (Reads.value ?_).of_fits (by simp)
    rfl
  | cons entry entries =>
    have behind := behind_item (Expr.printEntry powerLeft) entries (.rBrace :: rest)
    obtain ⟨noClose, readsFirst⟩ := readsEntry entry List.mem_cons_self _ behind
    rw [separated_map_cons, List.append_assoc, List.forall_mem_cons]
    apply Reads.sees
    rw [noClose]
    refine readsFirst.bind fun first same => ?_
    apply Reads.sees
    rw [noLoop_behind_item _ rfl]
    have noComma : (Token.rBrace :: rest).head? ≠ some .comma := by simp
    refine (reads_itemsFrom noComma (fun entry mem =>
      readsEntry entry (List.mem_cons_of_mem _ mem)) first).andThen fun all allEq => ?_
    apply Reads.expect
    refine Reads.value ?_
    rw [Expr.shape_dict, Expr.shape_dict, allEq, same, List.map_cons]

/-- A comprehension in braces. -/
theorem reads_dictComp {key value : Expr} (nonempty : clauses ≠ [])
    (readsKey : ReadsAt powerLeft 0 key) (readsValue : ReadsAt powerLeft 0 value)
    (reads : ∀ clause ∈ clauses, clause.ReadsBack powerLeft) :
    Reads (dictDisplay (expr levels) (targets levels))
      (Expr.printEntry powerLeft (key, value) ++
        (Expr.printClauses powerLeft clauses ++ .rBrace :: rest)) rest
      ((key.nesting powerLeft < levels ∧ value.nesting powerLeft < levels) ∧
        Expr.nestingClauses powerLeft clauses ≤ levels)
      fun tree => tree.shape = (Expr.dictComp key value clauses).shape := by
  have readsClauses := reads_clauses levels rest .rBrace rfl reads
  obtain ⟨more, follows⟩ := exists_clauses_eq_forWord (.rBrace :: rest) powerLeft nonempty
  rw [follows] at readsClauses ⊢
  apply Reads.sees
  rw [(startsExpr_printEntry powerLeft (key, value)).head_ne _ rfl]
  refine (reads_entry levels _ readsKey readsValue (stops_of_endsExpr rfl 0 more)).bind
    fun first same => ?_
  apply Reads.sees
  refine readsClauses.andThen fun all allEq => ?_
  apply Reads.expect
  refine Reads.value ?_
  obtain ⟨sameKey, sameValue⟩ := Prod.mk.inj same
  rw [Expr.shape_dictComp, Expr.shape_dictComp, sameKey, sameValue, allEq]

/-! ## Arguments -/

theorem noClose_print_argument (powerLeft : Nat) (argument : Argument) :
    ((argument.print powerLeft ++ rest).head? == some .rParen) = false := by
  cases argument with
  | positional value => exact (startsExpr_print powerLeft value).head_ne rest rfl
  | keyword name value => rfl

/-- One argument, if it is not a positional one behind a keyword argument. -/
theorem reads_argument {argument : Argument} (reads : ReadsAt powerLeft 0 argument.value)
    {named : Bool} (ordered : named = true → argument.isKeyword = true)
    {after : List Token} (behind : after = .rParen :: rest ∨ after.head? = some .comma) :
    Reads (Parser.argument (expr levels) (targets levels) named)
      (argument.print powerLeft ++ after) after (argument.value.nesting powerLeft < levels)
      fun read => read.1.shape = argument.shape ∧ (read.2 = true → argument.isKeyword = true) := by
  have stops : Stops 0 after := stops_behind_item rfl 0 behind
  cases argument with
  | keyword name value =>
    apply Reads.peekTwo
    apply Reads.skip
    apply Reads.skip
    refine (reads.item stops).andThen fun read same => Reads.value ⟨?_, fun _ => rfl⟩
    rw [Argument.shape, same]
    rfl
  | positional value =>
    obtain rfl : named = false := by
      cases named with
      | false => rfl
      | true => cases ordered rfl
    have noAssign : after.head? ≠ some .eq := by
      rcases behind with rfl | comma
      · simp
      · simp [comma]
    apply Reads.peekTwo
    split
    · rename_i name more same
      have starts : StartsKeyword (value.print powerLeft ++ after) := by
        refine ⟨name, more ++ (value.print powerLeft ++ after).drop 2, ?_⟩
        exact (List.take_append_drop 2 _).symm.trans (congrArg (· ++ _) same)
      exact absurd starts (not_startsKeyword_print powerLeft value noAssign)
    · refine (reads.item stops).andThen fun read same => ?_
      apply Reads.sees
      have noLoop : (after.head? == some .forWord) = false := by
        rcases behind with rfl | comma
        · rfl
        · rw [comma]
          rfl
      rw [noLoop]
      refine Reads.value ⟨?_, fun absurd => absurd⟩
      rw [Argument.shape, same]
      rfl

theorem loops_argumentRound {argument : Argument} {args : List Argument}
    (reads : ∀ each ∈ argument :: args, ReadsAt powerLeft 0 each.value)
    (pairwise : (argument :: args).Pairwise fun first second =>
      first.isKeyword → second.isKeyword)
    (read : List Argument × Bool)
    (ordered : read.2 = true → ∀ each ∈ argument :: args, each.isKeyword = true) :
    Loops (argumentRound (expr levels) (targets levels) (some .rParen)) read
      (separated ((argument :: args).map (Argument.print powerLeft)) ++ .rParen :: rest)
      rest (∀ each ∈ argument :: args, each.value.nesting powerLeft < levels)
      fun all => all.1.map Argument.shape =
        ((argument :: args).map Argument.shape).reverse ++ read.1.map Argument.shape := by
  induction args generalizing argument read with
  | nil =>
    have readsOne := reads_argument levels rest (reads argument List.mem_cons_self)
      (fun named => ordered named argument List.mem_cons_self)
      (behind_item (Argument.print powerLeft) [] (.rParen :: rest))
    rw [separated_map_cons, List.append_assoc, List.forall_mem_singleton]
    apply Loops.done
    apply Reads.peek?
    rw [noClose_print_argument]
    refine readsOne.andThen fun result same => ?_
    apply Reads.sees
    apply Reads.expect
    exact Reads.value ⟨_, rfl, by simp [same.1]⟩
  | cons next args ih =>
    have readsOne := reads_argument levels rest (reads argument List.mem_cons_self)
      (fun named => ordered named argument List.mem_cons_self)
      (behind_item (Argument.print powerLeft) (next :: args) (.rParen :: rest))
    have round : Reads
        (argumentRound (expr levels) (targets levels) (some .rParen) read)
        (separated ((argument :: next :: args).map (Argument.print powerLeft)) ++
          .rParen :: rest)
        (separated ((next :: args).map (Argument.print powerLeft)) ++ .rParen :: rest)
        (argument.value.nesting powerLeft < levels) fun round =>
          ∃ all, round = .again all ∧
            all.1.map Argument.shape = argument.shape :: read.1.map Argument.shape ∧
            (all.2 = true → argument.isKeyword = true) := by
      rw [separated_map_cons, separated_map_cons, List.append_assoc]
      apply Reads.peek?
      rw [noClose_print_argument]
      refine readsOne.andThen fun result same => ?_
      rw [List.flatMap_cons, List.cons_append, List.cons_append, List.append_assoc]
      apply Reads.sees
      apply Reads.skip
      exact Reads.value ⟨_, rfl, by rw [List.map_cons, same.1], same.2⟩
    obtain ⟨follow, pairwise⟩ := List.pairwise_cons.mp pairwise
    have shorter :
        (separated ((next :: args).map (Argument.print powerLeft)) ++
          .rParen :: rest).length <
        (separated ((argument :: next :: args).map (Argument.print powerLeft)) ++
          .rParen :: rest).length := by
      simp only [List.map_cons, separated, List.flatMap_cons, List.length_append,
        List.length_cons]
      omega
    rw [List.forall_mem_cons]
    refine Loops.again round shorter fun all between => ?_
    refine (ih (fun each mem => reads each (List.mem_cons_of_mem _ mem)) pairwise all
      (fun named each mem => follow each mem (between.2 named))).congr Iff.rfl ?_
    intro result resultEq
    rw [resultEq, between.1]
    simp

/-- The arguments of a call, with the parenthesis that closes them. -/
theorem reads_argumentList {args : List Argument}
    (reads : ∀ argument ∈ args, ReadsAt powerLeft 0 argument.value)
    (pairwise : args.Pairwise fun first second => first.isKeyword → second.isKeyword) :
    Reads (argumentList (expr levels) (targets levels) (some .rParen))
      (separated (args.map (Argument.print powerLeft)) ++ .rParen :: rest) rest
      (∀ argument ∈ args, argument.value.nesting powerLeft < levels)
      fun all => all.map Argument.shape = args.map Argument.shape := by
  have loops : Loops (argumentRound (expr levels) (targets levels) (some .rParen)) ([], false)
      (separated (args.map (Argument.print powerLeft)) ++ .rParen :: rest) rest
      (∀ argument ∈ args, argument.value.nesting powerLeft < levels)
      fun all => all.1.map Argument.shape = (args.map Argument.shape).reverse := by
    cases args with
    | nil =>
      apply Loops.done
      apply Reads.peek?
      apply Reads.skip
      exact (Reads.value ⟨_, rfl, rfl⟩).of_fits (by simp)
    | cons argument args =>
      refine (loops_argumentRound levels rest reads pairwise ([], false)
        fun named => nomatch named).congr Iff.rfl ?_
      intro all allEq
      rw [allEq]
      simp
  refine loops.reads.andThen fun all allEq => Reads.value ?_
  rw [List.map_reverse, allEq, List.reverse_reverse]

end Positions

end ModelWeaver.Snippet
