import ModelWeaver.Proofs.Snippet.ParallelReading
import ModelWeaver.Proofs.Text.Octets

/-!
# Spans are relative to the start of a text

A snippet is read with the offset of its first byte in the document. At another offset the same
tree, arguments, statements or fault come out, with all spans moved by the distance, and every
span lies between characters of the snippet.

Each function of the parser goes along with itself in the two places if the parsers that it is
built from do. A span is closed after a token was read.
-/

namespace ModelWeaver.Snippet

open Text

namespace Relocation

/-! ## Trees in two places -/

section

variable (r : Relocation)

/-- An expression and the same one in the second place. -/
abbrev expr : Expr → Expr → Prop := Expr.Moved r.moved r.Sound

/-- A loop of a comprehension and the same one in the second place. -/
abbrev clause : Clause → Clause → Prop := Clause.Moved r.moved r.Sound

/-- An argument and the same one in the second place. -/
abbrev argument : Argument → Argument → Prop := Argument.Moved r.moved r.Sound

/-- A statement and the same one in the second place. -/
abbrev statement : Statement → Statement → Prop := Statement.Moved r.moved r.Sound

/-- Arguments that were read, and whether a keyword argument is among them. -/
abbrev arguments (read read' : List Argument × Bool) : Prop :=
  List.Forall₂ r.argument read.1 read'.1 ∧ read.2 = read'.2

end

variable {r : Relocation} {inner : Parser Target}

/-! ## Loop targets -/

theorem tracks_bracketedTarget (inners : r.TracksSelf Eq inner) (close : Token) (what : String) :
    r.TracksSelf Eq (Parser.bracketedTarget inner close what) := by
  refine .skip (inners.bind ?_)
  rintro target _ rfl
  exact .expect (.value rfl)

theorem tracks_targetAtom (inners : r.TracksSelf Eq inner) :
    r.TracksSelf Eq (Parser.targetAtom inner) := by
  apply Tracks.peek?
  intro token?
  split
  · exact .skip (.value rfl)
  · exact tracks_bracketedTarget inners _ _
  · exact tracks_bracketedTarget inners _ _
  · exact (Advances.fail _).tracks

theorem tracks_targetList (inners : r.TracksSelf Eq inner) :
    r.TracksSelf Eq (Parser.targetList inner) := by
  refine (tracks_targetAtom inners).bind ?_
  rintro first _ rfl
  refine .sees fun seen => .ite (.value rfl) ?_
  refine (tracks_itemsFrom (tracks_targetAtom inners) rfl).bind fun items items' same => ?_
  rw [List.forall₂_eq_eq_eq] at same
  exact .value (congrArg Target.tuple same)

theorem tracks_targets (levels : Nat) : r.TracksSelf Eq (Parser.targets levels) := by
  induction levels with
  | zero => exact tracks_targetList (Advances.fail _).tracks
  | succ levels ih => exact tracks_targetList ih

/-! ## Expressions of one level -/

section Level

variable {sub : Nat → Parser Expr} {targets : Parser Target}
  (subs : ∀ power, r.AdvancesSelf r.expr (sub power))
  (targetsTrack : r.TracksSelf Eq targets)

include subs

section

include targetsTrack

theorem tracks_clauseRound {clauses clauses' : List Clause}
    (related : List.Forall₂ r.clause clauses clauses') :
    r.Tracks (Parser.Loop.Related (List.Forall₂ r.clause))
      (Parser.clauseRound sub targets clauses) (Parser.clauseRound sub targets clauses') := by
  refine .sees fun seen => .ite (.value (.done related)) (.skip (targetsTrack.bind ?_))
  rintro target _ rfl
  refine .expect ((subs _).tracks.bind fun iterable iterable' iterables => ?_)
  refine .sees fun filtered => .ite (.skip ?_) ?_
  · refine (subs _).tracks.bind fun condition condition' conditions => .value (.again ?_)
    exact .cons (.filtered iterables target conditions) related
  · exact .value (.again (.cons (.all iterables target) related))

theorem tracks_clauses : r.TracksSelf (List.Forall₂ r.clause) (Parser.clauses sub targets) :=
  (Tracks.loop (fun _ _ => tracks_clauseRound subs targetsTrack) .nil).bind
    fun _ _ related => .value (List.forall₂_reverse_iff.mpr related)

end

theorem tracks_sequenceTail {first first' : Expr} (firsts : r.expr first first') (close : Token)
    (what : String) :
    r.Tracks (List.Forall₂ r.expr) (Parser.sequenceTail sub first close what)
      (Parser.sequenceTail sub first' close what) :=
  (tracks_itemsFrom (subs 0).tracks firsts).bind fun _ _ items => .expect (.value items)

theorem tracks_entry : r.TracksSelf (Expr.MovedEntry r.moved r.Sound) (Parser.entry sub) := by
  refine (subs 0).tracks.bind fun key key' keys => .expect ?_
  exact (subs 0).tracks.bind fun value value' values => .value (.pair keys values)

theorem advances_tupleOrExpr : r.AdvancesSelf r.expr (Parser.tupleOrExpr sub) := by
  refine (subs 0).bind fun first first' firsts => .sees fun seen => .ite (.value firsts) ?_
  exact (tracks_itemsFrom (subs 0).tracks firsts).bind fun _ _ items => .value (.tuple items)

include targetsTrack

theorem tracks_parenthesised : r.TracksSelf r.expr (Parser.parenthesised sub targets) := by
  refine .sees fun closed => .ite (.skip (.value (.tuple .nil))) ?_
  refine (subs 0).tracks.bind fun first first' firsts => .sees fun looped => .ite ?_ ?_
  · refine (tracks_clauses subs targetsTrack).bind fun clauses clauses' related => ?_
    exact .expect (.value (.listComp related firsts))
  · refine .sees fun listed => .ite ?_ (.expect (.value firsts))
    exact (tracks_sequenceTail subs firsts _ _).bind fun _ _ items => .value (.tuple items)

theorem tracks_listDisplay : r.TracksSelf r.expr (Parser.listDisplay sub targets) := by
  refine .sees fun closed => .ite (.skip (.value (.list .nil))) ?_
  refine (subs 0).tracks.bind fun first first' firsts => .sees fun looped => .ite ?_ ?_
  · refine (tracks_clauses subs targetsTrack).bind fun clauses clauses' related => ?_
    exact .expect (.value (.listComp related firsts))
  · exact (tracks_sequenceTail subs firsts _ _).bind fun _ _ items => .value (.list items)

theorem tracks_dictDisplay : r.TracksSelf r.expr (Parser.dictDisplay sub targets) := by
  refine .sees fun closed => .ite (.skip (.value (.dict .nil))) ?_
  refine (tracks_entry subs).bind fun first first' firsts => .sees fun looped => .ite ?_ ?_
  · refine (tracks_clauses subs targetsTrack).bind fun clauses clauses' related => ?_
    exact .expect (.value (.dictComp related firsts))
  · refine (tracks_itemsFrom (tracks_entry subs) firsts).bind fun entries entries' related => ?_
    exact .expect (.value (.dict related))

omit subs targetsTrack in
theorem tracks_adjacentStrings (first : String) :
    r.TracksSelf r.expr (Parser.adjacentStrings first) := by
  have round (text text' : String) (same : text = text') :
      r.Tracks (Parser.Loop.Related Eq) (Parser.stringRound text) (Parser.stringRound text') := by
    subst same
    apply Tracks.peek?
    intro token?
    split
    · exact .skip (.value (.again rfl))
    · exact .value (.done rfl)
  refine (Tracks.loop round rfl).bind ?_
  rintro text _ rfl
  exact .value (.literal rfl rfl rfl)

theorem advances_atom : r.AdvancesSelf r.expr (Parser.atom sub targets) := by
  intro cursor laid
  cases split : cursor.rest with
  | nil => exact TracksAt.next?_nil split (.fail laid _)
  | cons lexeme lexemes =>
    refine TracksAt.next? split laid ?_
    intro after laidAfter above
    refine Tracks.above ?_ laidAfter above
    obtain ⟨token, span⟩ := lexeme
    have sound : r.Sound span := by
      have tokens := laid.tokens
      rw [split] at tokens
      exact tokens.2.1
    dsimp only [Lexeme.shift]
    cases token with
    | integer | float | trueWord | falseWord | noneWord => exact .value (.literal rfl rfl rfl)
    | string text => exact tracks_adjacentStrings text
    | ident name => exact .value (.var name sound)
    | lParen => exact tracks_parenthesised subs targetsTrack
    | lBracket => exact tracks_listDisplay subs targetsTrack
    | lBrace => exact tracks_dictDisplay subs targetsTrack
    | _ => exact .throw _ sound

theorem tracks_argument (named : Bool) :
    r.TracksSelf (fun read read' => r.argument read.1 read'.1 ∧ read.2 = read'.2)
      (Parser.argument sub targets named) := by
  apply Tracks.peekTwo
  intro tokens
  split
  · refine .skip (.skip ((subs 0).tracks.bind fun value value' values => ?_))
    exact .value ⟨.keyword values _, rfl⟩
  · refine Tracks.failIf (.fail _) ((subs 0).tracks.bind fun value value' values => ?_)
    refine .sees fun looped => .ite ?_ (.value ⟨.positional values, rfl⟩)
    refine (tracks_clauses subs targetsTrack).bind fun clauses clauses' related => ?_
    exact .value ⟨.positional (.listComp related values), rfl⟩

theorem tracks_argumentRound (close : Option Token) {read read' : List Argument × Bool}
    (related : r.arguments read read') :
    r.Tracks (Parser.Loop.Related r.arguments) (Parser.argumentRound sub targets close read)
      (Parser.argumentRound sub targets close read') := by
  obtain ⟨read, named⟩ := read
  obtain ⟨read', _⟩ := read'
  obtain ⟨related, rfl⟩ := related
  refine .peek? fun token? => .ite ?_ ?_
  · exact .ite (.skip (.value (.done ⟨related, rfl⟩))) (.value (.done ⟨related, rfl⟩))
  · refine (tracks_argument subs targetsTrack named).bind ?_
    rintro ⟨argument, named⟩ ⟨argument', _⟩ ⟨args, rfl⟩
    have all : r.arguments (argument :: read, named) (argument' :: read', named) :=
      ⟨.cons args related, rfl⟩
    refine .sees fun more => .ite (.skip (.value (.again all))) ?_
    cases close with
    | some close => exact .expect (.value (.done all))
    | none => exact .peek? fun token? => Tracks.failIf (.fail _) (.value (.done all))

theorem tracks_argumentList (close : Option Token) :
    r.TracksSelf (List.Forall₂ r.argument) (Parser.argumentList sub targets close) :=
  (Tracks.loop (fun _ _ => tracks_argumentRound subs targetsTrack close) ⟨.nil, rfl⟩).bind
    fun _ _ related => .value (List.forall₂_reverse_iff.mpr related.1)

theorem tracks_trailerRound {value value' : Expr} (values : r.expr value value') :
    r.Tracks (Parser.Loop.Related r.expr) (Parser.trailerRound sub targets value)
      (Parser.trailerRound sub targets value') := by
  intro cursor laid
  have start := laid.here.start
  refine .here (.peek? ?_)
  -- The bracket or point at the start of the span is passed before the span is closed.
  split
  · rename_i seen
    refine (TracksAt.skip seen laid).bind fun _ _ after _ laid above => ?_
    refine ((tracks_argumentList subs targetsTrack _).above laid above).bind ?_
    intro args arguments' after related laid above
    exact .spanFrom laid start above fun span sound => .value (.again (.call values related sound))
  · rename_i seen
    refine (TracksAt.skip seen laid).bind fun _ _ after _ laid above => ?_
    refine ((advances_tupleOrExpr subs).tracks.above laid above).bind ?_
    intro index index' after related laid above
    refine ((tracks_expect _ _).above laid above).bind fun _ _ after _ laid above => ?_
    exact .spanFrom laid start above fun span sound =>
      .value (.again (.subscript values related sound))
  · rename_i seen
    refine (TracksAt.skip seen laid).bind fun _ _ after _ laid above => ?_
    refine (tracks_ident.above laid above).bind ?_
    rintro name _ after rfl laid above
    exact .spanFrom laid start above fun span sound => .value (.again (.member values name sound))
  · exact .value laid (Nat.zero_le _) (.done values)

theorem tracks_trailers {value value' : Expr} (values : r.expr value value') :
    r.Tracks r.expr (Parser.trailers sub targets value) (Parser.trailers sub targets value') :=
  .loop (fun _ _ => tracks_trailerRound subs targetsTrack) values

theorem advances_operand : r.AdvancesSelf r.expr (Parser.operand sub targets) := by
  intro cursor laid
  have unary {token : Token} (seen : cursor.rest.head?.map Lexeme.token = some token)
      (op : UnaryOp) (power : Nat) : r.TracksAt cursor cursor.here.start r.expr
        (Parser.unaryOperand sub op power) (Parser.unaryOperand sub op power) :=
    (TracksAt.skip seen laid).andThen fun _ _ _ =>
      (subs power).tracks.bind fun _ _ operands => .value (.unary operands op)
  refine .peek? ?_
  split
  · exact unary ‹_› _ _
  · exact unary ‹_› _ _
  · exact unary ‹_› _ _
  · exact (advances_atom subs targetsTrack cursor laid).andThen fun _ _ atoms =>
      tracks_trailers subs targetsTrack atoms

omit targetsTrack in
theorem tracks_operatorRound (least : Nat) {left left' : Expr} (lefts : r.expr left left') :
    r.Tracks (Parser.Loop.Related r.expr) (Parser.operatorRound sub least left)
      (Parser.operatorRound sub least left') := by
  have ended : r.Tracks (Parser.Loop.Related r.expr) (pure (.done left)) (pure (.done left')) :=
    .value (.done lefts)
  refine .peekTwo fun tokens => .ite (.ite ended (.skip ?_)) ?_
  · refine (subs _).tracks.bind fun condition condition' conditions => .expect ?_
    exact (subs _).tracks.bind fun no no' nos => .value (.again (.cond conditions lefts nos))
  · split
    · exact ended
    · refine .ite ended (.skip ?_)
      have operands (power : Nat) (op : BinaryOp) :
          r.Tracks (Parser.Loop.Related r.expr)
            (sub power >>= fun right => pure (.again (.binary op left right)))
            (sub power >>= fun right => pure (.again (.binary op left' right))) :=
        (subs power).tracks.bind fun _ _ rights => .value (.again (.binary lefts rights op))
      exact .ite (.skip (operands _ _)) (operands _ _)

theorem advances_expression (least : Nat) :
    r.AdvancesSelf r.expr (Parser.expression sub targets least) :=
  (advances_operand subs targetsTrack).bind fun _ _ firsts =>
    .loop (fun _ _ => tracks_operatorRound subs least) firsts

end Level

/-! ## Whole snippets -/

theorem advances_expr (levels least : Nat) : r.AdvancesSelf r.expr (Parser.expr levels least) := by
  induction levels generalizing least with
  | zero => exact .fail _
  | succ levels ih =>
    exact advances_expression ih (tracks_targets levels) least

end Relocation

mutual

theorem Parser.targetOf?_mapSpans (change : Span → Span) :
    (expr : Expr) → targetOf? (expr.mapSpans change) = targetOf? expr
  | .tuple items | .list items =>
    congrArg (Option.map Target.tuple) (targetsOf?_mapSpansAll change items)
  | .var _ _ | .int _ | .float _ | .str _ | .bool _ | .none | .dict _ | .listComp _ _
  | .dictComp _ _ _ | .unary _ _ | .binary _ _ _ | .cond _ _ _ | .call _ _ _
  | .subscript _ _ _ | .member _ _ _ => rfl

theorem Parser.targetsOf?_mapSpansAll (change : Span → Span) :
    (items : List Expr) →
      targetOf?.targetsOf? (Expr.mapSpansAll change items) = targetOf?.targetsOf? items
  | [] => rfl
  | item :: items => by
    rw [Expr.mapSpansAll, targetOf?.targetsOf?, targetOf?.targetsOf?,
      targetOf?_mapSpans change item, targetsOf?_mapSpansAll change items]

end

namespace Relocation

variable {r : Relocation}

theorem advances_line : r.AdvancesSelf r.expr (Parser.tupleOrExpr (Parser.expr maxNesting)) :=
  advances_tupleOrExpr (advances_expr maxNesting)

theorem tracks_statement : r.TracksSelf r.statement Parser.statement := by
  intro cursor laid
  have start := laid.here.start
  -- The line in front reads at least the token that the statement starts with.
  refine .here ((advances_line cursor laid).bind ?_)
  intro left left' after lefts laid above
  refine .peek? ?_
  split
  · exact .spanFrom laid start above fun span sound => .value (.expr lefts sound)
  · refine (tracks_skip.above laid above).bind fun _ _ after _ laid above => ?_
    rw [lefts.eq, Parser.targetOf?_mapSpans]
    have assigned (target : Target) (op : AssignOp) :
        r.TracksAt after 0 r.statement
          (do
            let value ← Parser.tupleOrExpr (Parser.expr maxNesting)
            return .assign target op value (← Parser.spanFrom cursor.here.start))
          (do
            let value ← Parser.tupleOrExpr (Parser.expr maxNesting)
            return .assign target op value (← Parser.spanFrom (r.moved cursor.here).start)) := by
      refine (advances_line.tracks.above laid above).bind ?_
      intro value value' after values laid above
      exact .spanFrom laid start above fun span sound => .value (.assign values target op sound)
    split
    · exact .fail laid _
    · split
      · exact assigned _ _
      · exact assigned _ _
      · exact .fail laid _

theorem tracks_statements : r.TracksSelf (List.Forall₂ r.statement) Parser.statements := by
  refine Tracks.bind (.loop (fun read read' related => ?_) .nil) fun _ _ related =>
    .value (List.forall₂_reverse_iff.mpr related)
  refine .seesSeparator fun separated => .ite (.skip (.value (.again related))) ?_
  refine .peek? fun token? => .ite (.value (.done related)) ?_
  refine tracks_statement.bind fun statement statement' statements => ?_
  refine .peek? fun token? => .seesSeparator fun separated => ?_
  exact Tracks.failIf (.fail _) (.value (.again (.cons statements related)))

end Relocation

/-! ## Tokens of a text -/

/-- A position between two characters of a text whose first byte has offset `base`. -/
structure Boundary (source : String) (base position : Nat) : Prop where
  base_le : base ≤ position
  le_stop : position ≤ base + source.utf8ByteSize
  isValid : String.Pos.Raw.IsValid source ⟨position - base⟩

/-- The rest of a text from a position on. -/
def Remains (source : String) (base position : Nat) (rest : List Char) : Prop :=
  ∃ before, source.toList = before ++ rest ∧ position = base + byteLength before

variable {source : String}

theorem Remains.boundary {base position : Nat} {rest : List Char}
    (remains : Remains source base position rest) : Boundary source base position := by
  obtain ⟨before, split, rfl⟩ := remains
  refine ⟨Nat.le_add_right _ _, ?_, ?_⟩
  · rw [← byteLength_toList, split, byteLength_append]
    omega
  · have stands : StandsAt source.toList [] (byteLength before) :=
      ⟨before, rest, by simpa using split, rfl⟩
    rw [Nat.add_sub_cancel_left]
    exact stands.isValid_start

theorem Remains.append {base position : Nat} {taken rest : List Char}
    (remains : Remains source base position (taken ++ rest)) :
    Remains source base (position + byteLength taken) rest := by
  obtain ⟨before, split, rfl⟩ := remains
  exact ⟨before ++ taken, by simp [split], by simp [Nat.add_assoc]⟩

theorem remains_start (source : String) (base : Nat) : Remains source base base source.toList :=
  ⟨[], rfl, rfl⟩

theorem remains_stop (source : String) (base : Nat) :
    Remains source base (base + source.utf8ByteSize) [] := by
  rw [← byteLength_toList]
  exact Remains.append (by simpa using remains_start source base)

/-- The place of a text in a document, and the same text so many bytes further on. -/
def Relocation.ofText (source : String) (base distance : Nat) : Relocation where
  distance := distance
  positions := Boundary source base

section

variable {source : String} {base : Nat} (distance : Nat)

theorem agrees_lexFrom (statements : Bool) (offset depth : Nat) (separated : Bool)
    {text : List Char} (remains : Remains source base offset text) :
    (Relocation.ofText source base distance).Agrees
      (fun lexemes lexemes' => (Relocation.ofText source base distance).LaidFrom offset lexemes ∧
        lexemes' = lexemes.map (Lexeme.shift distance))
      (Lexer.lexFrom statements offset depth separated text)
      (Lexer.lexFrom statements (offset + distance) depth separated text) := by
  have behind {offset : Nat} {c : Char} {text : List Char}
      (remains : Remains source base offset (c :: text)) (extent : Nat) :
      Remains source base (offset + byteLength (c :: text.take extent)) (text.drop extent) :=
    Remains.append (by simpa using remains)
  induction offset, depth, separated, text using Lexer.lexFrom.induct statements with
  | case1 offset depth separated =>
    rw [Lexer.lexFrom, Lexer.lexFrom]
    exact .ok ⟨trivial, rfl⟩
  | case2 offset depth separated c text stop extent stepEq =>
    rename_i ih
    rw [Lexer.lexFrom, stepEq, Lexer.lexFrom, stepEq]
    dsimp only
    rw [Nat.add_right_comm]
    refine (ih (behind remains extent)).imp ?_
    rintro lexemes lexemes' ⟨laid, same⟩
    exact ⟨laid.from_le (Nat.le_add_right _ _), same⟩
  | case3 offset depth separated c text stop token extent stepEq =>
    rename_i ih
    have after := behind remains extent
    rw [Lexer.lexFrom, stepEq, Lexer.lexFrom, stepEq]
    dsimp only
    rw [Nat.add_right_comm]
    refine (ih after).bind ?_
    rintro lexemes _ ⟨laid, rfl⟩
    refine .ok ⟨⟨Nat.le_refl _, ?_, laid⟩, rfl⟩
    exact ⟨remains.boundary, after.boundary, Nat.le_add_right _ _⟩
  | case4 offset depth separated c text cause extent stepEq =>
    rw [Lexer.lexFrom, stepEq, Lexer.lexFrom, stepEq]
    dsimp only
    rw [Nat.add_right_comm]
    exact .error ⟨remains.boundary, (behind remains extent).boundary, Nat.le_add_right _ _⟩

/-! ## Texts in two places -/

theorem agrees_run {α : Type} {rel : α → α → Prop} {parser : Parser α}
    (tracks : (Relocation.ofText source base distance).TracksSelf rel parser) (what : String)
    (statements : Bool) :
    (Relocation.ofText source base distance).Agrees rel (parser.run what statements base source)
      (parser.run what statements (base + distance) source) := by
  refine (agrees_lexFrom distance statements base 0 true (remains_start source base)).bind ?_
  rintro lexemes _ ⟨laid, rfl⟩
  have complete : (Relocation.ofText source base distance).TracksSelf rel
      (do
        let item ← parser
        if (← Parser.peek?).isSome then Parser.fail (.trailing what)
        return item) :=
    tracks.bind fun item item' related => .peek? fun token? =>
      Relocation.Tracks.failIf (.fail _) (.value related)
  have agrees := complete ⟨lexemes, base, base + source.utf8ByteSize⟩
    ⟨laid, (remains_start source base).boundary, (remains_stop source base).boundary⟩
  rw [StateT.run'_eq, StateT.run'_eq, map_eq_pure_bind, map_eq_pure_bind, Nat.add_right_comm]
  exact Relocation.Agrees.bind agrees fun read read' related => .ok related.1

end

/-- A text is read in the same way wherever it stands. Only the spans of what is read, or of the
fault, differ, and by the distance. They lie between characters of the text. -/
def FollowsBase {α : Type} (parse : Nat → String → Except SyntaxError α)
    (mapSpans : (Span → Span) → α → α) (AllSpans : (Span → Prop) → α → Prop)
    (source : String) : Prop :=
  ∀ base distance,
    (∀ read, parse base source = .ok read →
      parse (base + distance) source = .ok (mapSpans (Span.shift distance) read) ∧
        AllSpans (Span.LiesOn (Boundary source base)) read) ∧
    ∀ error, parse base source = .error error →
      parse (base + distance) source = .error (error.shift distance) ∧
        error.span.LiesOn (Boundary source base)

theorem followsBase_of_agrees {α : Type} {parse : Nat → String → Except SyntaxError α}
    {mapSpans : (Span → Span) → α → α} {AllSpans : (Span → Prop) → α → Prop}
    (agrees : ∀ base distance, (Relocation.ofText source base distance).Agrees
      (Changed (mapSpans (Span.shift distance)) (AllSpans (Span.LiesOn (Boundary source base))))
      (parse base source) (parse (base + distance) source)) :
    FollowsBase parse mapSpans AllSpans source := by
  intro base distance
  have both := agrees base distance
  generalize parse (base + distance) source = other at both ⊢
  constructor
  · intro read parsed
    rw [parsed] at both
    cases both with
    | ok changed => exact ⟨changed.eq ▸ rfl, changed.good⟩
  · intro error failed
    rw [failed] at both
    cases both with
    | error sound => exact ⟨rfl, sound⟩

/-- Spans are relative to the start of a text, and stay within it. -/
theorem spans_follow_base (source : String) :
    FollowsBase parseExpression Expr.mapSpans Expr.AllSpans source ∧
    FollowsBase parseArguments (fun change => List.map (Argument.mapSpans change))
      (fun good arguments => ∀ argument ∈ arguments, argument.AllSpans good) source ∧
    FollowsBase parseStatements (fun change => List.map (Statement.mapSpans change))
      (fun good statements => ∀ statement ∈ statements, statement.AllSpans good) source := by
  refine ⟨?_, ?_, ?_⟩
  · refine followsBase_of_agrees fun base distance => ?_
    exact agrees_run distance Relocation.advances_line.tracks _ _
  · refine followsBase_of_agrees fun base distance => ?_
    refine (agrees_run distance ?_ _ _).imp fun _ _ => Changed.forall₂
    exact Relocation.tracks_argumentList (Relocation.advances_expr maxNesting)
      (Relocation.tracks_targets maxNesting) none
  · refine followsBase_of_agrees fun base distance => ?_
    exact (agrees_run distance Relocation.tracks_statements _ _).imp fun _ _ => Changed.forall₂

end ModelWeaver.Snippet
