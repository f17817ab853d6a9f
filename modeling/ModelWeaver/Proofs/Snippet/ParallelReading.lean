import ModelWeaver.Proofs.Snippet.Positions
import ModelWeaver.Snippet.Parser

/-!
# Reading a text in two places

The same text is read in two places of a document. `Tracks` says that a parser in the one place
goes along with a parser in the other: both succeed or both fail, the cursors keep their distance,
and what is read is related. It also says that the positions in what is read are those of the
tokens, and that the last token read ends no earlier than before.

Where a span is closed, its start has to come before the end of the last token; this is what the
`floor` of `TracksAt` is for.
-/

namespace ModelWeaver.Snippet

open Text

/-! ## Cursors in two places -/

/-- Where the second place is, and which positions can occur in the first. -/
structure Relocation where
  distance : Nat
  positions : Nat → Prop

/-- A token in the second place. -/
def Lexeme.shift (distance : Nat) (lexeme : Lexeme) : Lexeme :=
  { lexeme with span := lexeme.span.shift distance }

/-- A cursor in the second place. -/
def Cursor.shift (distance : Nat) (cursor : Cursor) : Cursor where
  rest := cursor.rest.map (Lexeme.shift distance)
  lastStop := cursor.lastStop + distance
  stop := cursor.stop + distance

/-- The span of the token at the cursor, or of the end of the text. -/
def Cursor.here (cursor : Cursor) : Span :=
  (cursor.rest.head?.map Lexeme.span).getD ⟨cursor.stop, cursor.stop⟩

namespace Relocation

variable (r : Relocation)

/-- A span in the second place. -/
def moved (span : Span) : Span := span.shift r.distance

/-- A span on positions of the first place. -/
def Sound (span : Span) : Prop := span.LiesOn r.positions

/-- Tokens follow one another from a position on. -/
def LaidFrom : Nat → List Lexeme → Prop
  | _, [] => True
  | last, lexeme :: lexemes =>
    last ≤ lexeme.span.start ∧ r.Sound lexeme.span ∧ LaidFrom lexeme.span.stop lexemes

theorem LaidFrom.from_le {r : Relocation} {last earlier : Nat} {lexemes : List Lexeme}
    (laid : r.LaidFrom last lexemes) (le : earlier ≤ last) : r.LaidFrom earlier lexemes := by
  cases lexemes with
  | nil => trivial
  | cons lexeme lexemes => exact ⟨Nat.le_trans le laid.1, laid.2⟩

/-- The tokens in front of a cursor follow the last one that was read. -/
structure Laid (cursor : Cursor) : Prop where
  tokens : r.LaidFrom cursor.lastStop cursor.rest
  lastStop : r.positions cursor.lastStop
  stop : r.positions cursor.stop

/-- Two results are related values, or the same fault in the two places. -/
inductive Agrees {α : Type} (rel : α → α → Prop) :
    Except SyntaxError α → Except SyntaxError α → Prop
  | ok {value value' : α} : rel value value' → Agrees rel (.ok value) (.ok value')
  | error {error : SyntaxError} :
      r.Sound error.span → Agrees rel (.error error) (.error (error.shift r.distance))

/-- A parser run at a cursor goes along with another one run at the cursor in the second place.
The last token that is read ends at the floor or later. -/
def TracksAt {α : Type} (cursor : Cursor) (floor : Nat) (rel : α → α → Prop)
    (parser other : Parser α) : Prop :=
  r.Agrees
    (fun read read' => rel read.1 read'.1 ∧ read'.2 = read.2.shift r.distance ∧ r.Laid read.2 ∧
      cursor.lastStop ≤ read.2.lastStop ∧ floor ≤ read.2.lastStop)
    (StateT.run parser cursor) (StateT.run other (cursor.shift r.distance))

/-- A parser goes along with another one, wherever the cursor stands. -/
def Tracks {α : Type} (rel : α → α → Prop) (parser other : Parser α) : Prop :=
  ∀ cursor, r.Laid cursor → r.TracksAt cursor 0 rel parser other

/-- Moreover a successful run reads the token at the cursor. -/
def Advances {α : Type} (rel : α → α → Prop) (parser other : Parser α) : Prop :=
  ∀ cursor, r.Laid cursor → r.TracksAt cursor cursor.here.start rel parser other

/-- A parser goes along with itself. -/
abbrev TracksSelf {α : Type} (rel : α → α → Prop) (parser : Parser α) : Prop :=
  r.Tracks rel parser parser

/-- A parser goes along with itself, and a successful run reads the token at the cursor. -/
abbrev AdvancesSelf {α : Type} (rel : α → α → Prop) (parser : Parser α) : Prop :=
  r.Advances rel parser parser

end Relocation

/-! ## Sequencing -/

section Sequencing

variable {r : Relocation} {α β : Type} {cursor : Cursor} {floor : Nat} {rel : α → α → Prop}
  {rel' : β → β → Prop} {parser other : Parser α} {next next' : α → Parser β}

namespace Relocation

theorem Agrees.imp {stronger : α → α → Prop} {result other : Except SyntaxError α}
    (agrees : r.Agrees stronger result other)
    (weaken : ∀ value value', stronger value value' → rel value value') :
    r.Agrees rel result other := by
  cases agrees with
  | ok related => exact .ok (weaken _ _ related)
  | error sound => exact .error sound

theorem Agrees.bind {result other : Except SyntaxError α}
    {next next' : α → Except SyntaxError β} (first : r.Agrees rel result other)
    (second : ∀ value value', rel value value' → r.Agrees rel' (next value) (next' value')) :
    r.Agrees rel' (result >>= next) (other >>= next') := by
  cases first with
  | ok related => exact second _ _ related
  | error sound => exact .error sound

theorem TracksAt.value {value value' : α} (laid : r.Laid cursor) (above : floor ≤ cursor.lastStop)
    (related : rel value value') : r.TracksAt cursor floor rel (pure value) (pure value') :=
  .ok ⟨related, rfl, laid, Nat.le_refl _, above⟩

theorem TracksAt.change {floor' : Nat} (tracks : r.TracksAt cursor floor rel parser other)
    (reached : ∀ last, cursor.lastStop ≤ last → floor ≤ last → floor' ≤ last) :
    r.TracksAt cursor floor' rel parser other := by
  refine Agrees.imp tracks ?_
  rintro read read' ⟨related, same, laid, later, above⟩
  exact ⟨related, same, laid, later, reached _ later above⟩

theorem TracksAt.bind {middle : Nat} (first : r.TracksAt cursor middle rel parser other)
    (second : ∀ value value' after, rel value value' → r.Laid after → middle ≤ after.lastStop →
      r.TracksAt after floor rel' (next value) (next' value')) :
    r.TracksAt cursor floor rel' (parser >>= next) (other >>= next') := by
  rw [TracksAt, StateT.run_bind, StateT.run_bind]
  refine Agrees.bind first ?_
  rintro ⟨value, after⟩ ⟨value', _⟩ ⟨related, rfl, laid, later, above⟩
  refine Agrees.imp (second value value' after related laid above) ?_
  rintro read read' ⟨related, same, laid, laterStill, above⟩
  exact ⟨related, same, laid, Nat.le_trans later laterStill, above⟩

theorem Tracks.above (tracks : r.Tracks rel parser other) (laid : r.Laid cursor)
    (above : floor ≤ cursor.lastStop) : r.TracksAt cursor floor rel parser other :=
  (tracks cursor laid).change fun _ later _ => Nat.le_trans above later

theorem TracksAt.andThen (first : r.TracksAt cursor floor rel parser other)
    (second : ∀ value value', rel value value' → r.Tracks rel' (next value) (next' value')) :
    r.TracksAt cursor floor rel' (parser >>= next) (other >>= next') :=
  first.bind fun value value' _ related laid above =>
    (second value value' related).above laid above

theorem Advances.tracks (advances : r.Advances rel parser other) : r.Tracks rel parser other :=
  fun cursor laid => (advances cursor laid).change fun last _ _ => last.zero_le

theorem Advances.bind (first : r.Advances rel parser other)
    (second : ∀ value value', rel value value' → r.Tracks rel' (next value) (next' value')) :
    r.Advances rel' (parser >>= next) (other >>= next') :=
  fun cursor laid => (first cursor laid).andThen second

theorem Tracks.value {value value' : α} (related : rel value value') :
    r.Tracks rel (pure value) (pure value') :=
  fun _ laid => .value laid (Nat.zero_le _) related

theorem Tracks.bind (first : r.Tracks rel parser other)
    (second : ∀ value value', rel value value' → r.Tracks rel' (next value) (next' value')) :
    r.Tracks rel' (parser >>= next) (other >>= next') :=
  fun cursor laid => (first cursor laid).andThen second

theorem Tracks.ite {condition : Prop} [Decidable condition] {parser₂ other₂ : Parser α}
    (positive : r.Tracks rel parser other) (negative : r.Tracks rel parser₂ other₂) :
    r.Tracks rel (if condition then parser else parser₂)
      (if condition then other else other₂) := by
  by_cases holds : condition
  · rw [if_pos holds, if_pos holds]
    exact positive
  · rw [if_neg holds, if_neg holds]
    exact negative

end Relocation

end Sequencing

/-! ## The token at the cursor -/

section Tokens

variable {r : Relocation} {α γ : Type} {cursor : Cursor} {floor : Nat} {rel : α → α → Prop}

namespace Relocation

theorem TracksAt.look {look : Parser γ} {seen seen' : γ}
    (ran : StateT.run look cursor = .ok (seen, cursor))
    (ran' : StateT.run look (cursor.shift r.distance) = .ok (seen', cursor.shift r.distance))
    {next next' : γ → Parser α} (rest : r.TracksAt cursor floor rel (next seen) (next' seen')) :
    r.TracksAt cursor floor rel (look >>= next) (look >>= next') := by
  rw [TracksAt, StateT.run_bind, StateT.run_bind, ran, ran']
  exact rest

theorem TracksAt.here {next next' : Span → Parser α}
    (rest : r.TracksAt cursor floor rel (next cursor.here) (next' (r.moved cursor.here))) :
    r.TracksAt cursor floor rel (Parser.here >>= next) (Parser.here >>= next') := by
  have run (cursor : Cursor) : StateT.run Parser.here cursor = .ok (cursor.here, cursor) := by
    obtain ⟨lexemes, last, stop⟩ := cursor
    cases lexemes <;> rfl
  have shifted : (cursor.shift r.distance).here = r.moved cursor.here := by
    obtain ⟨lexemes, last, stop⟩ := cursor
    cases lexemes <;> rfl
  exact .look (run cursor) (shifted ▸ run (cursor.shift r.distance)) rest

theorem TracksAt.peek? {next next' : Option Token → Parser α}
    (rest : r.TracksAt cursor floor rel (next (cursor.rest.head?.map Lexeme.token))
      (next' (cursor.rest.head?.map Lexeme.token))) :
    r.TracksAt cursor floor rel (Parser.peek? >>= next) (Parser.peek? >>= next') := by
  refine .look rfl ?_ rest
  obtain ⟨lexemes, last, stop⟩ := cursor
  cases lexemes <;> rfl

theorem Tracks.peek? {next next' : Option Token → Parser α}
    (rest : ∀ token?, r.Tracks rel (next token?) (next' token?)) :
    r.Tracks rel (Parser.peek? >>= next) (Parser.peek? >>= next') :=
  fun cursor laid => .peek? (rest _ cursor laid)

/-- What is done next depends on some property of the token at the cursor. -/
theorem Tracks.peeked (view : Option Token → γ) {next next' : γ → Parser α}
    (rest : ∀ seen, r.Tracks rel (next seen) (next' seen)) :
    r.Tracks rel ((do return view (← Parser.peek?)) >>= next)
      ((do return view (← Parser.peek?)) >>= next') := by
  rw [bind_assoc, bind_assoc]
  apply Tracks.peek?
  intro token?
  rw [pure_bind, pure_bind]
  exact rest _

variable {token : Token}

theorem Tracks.sees {next next' : Bool → Parser α}
    (rest : ∀ seen, r.Tracks rel (next seen) (next' seen)) :
    r.Tracks rel (Parser.sees token >>= next) (Parser.sees token >>= next') :=
  .peeked (· == some token) rest

theorem Tracks.seesSeparator {next next' : Bool → Parser α}
    (rest : ∀ seen, r.Tracks rel (next seen) (next' seen)) :
    r.Tracks rel (Parser.seesSeparator >>= next) (Parser.seesSeparator >>= next') :=
  .peeked (Option.any Lexer.isSeparator) rest

theorem Tracks.peekTwo {next next' : List Token → Parser α}
    (rest : ∀ tokens, r.Tracks rel (next tokens) (next' tokens)) :
    r.Tracks rel (Parser.peekTwo >>= next) (Parser.peekTwo >>= next') := by
  intro cursor laid
  refine .look rfl ?_ (rest _ cursor laid)
  have seen : ((cursor.shift r.distance).rest.take 2).map Lexeme.token =
      (cursor.rest.take 2).map Lexeme.token := by
    rw [Cursor.shift, ← List.map_take, List.map_map]
    rfl
  rw [← seen]
  rfl

theorem Laid.here (laid : r.Laid cursor) : r.Sound cursor.here := by
  obtain ⟨lexemes, last, stop⟩ := cursor
  cases lexemes with
  | nil => exact ⟨laid.stop, laid.stop, Nat.le_refl _⟩
  | cons lexeme lexemes => exact laid.tokens.2.1

theorem Tracks.throw (cause : SyntaxError.Cause) {span : Span} (sound : r.Sound span) :
    r.Tracks rel (throw ⟨cause, span⟩) (throw ⟨cause, r.moved span⟩) :=
  fun _ _ => .error sound

theorem TracksAt.fail (laid : r.Laid cursor) (cause : SyntaxError.Cause) :
    r.TracksAt cursor floor rel (Parser.fail cause) (Parser.fail cause) :=
  .here (.error laid.here)

theorem Advances.fail (cause : SyntaxError.Cause) :
    r.AdvancesSelf rel (Parser.fail cause) :=
  fun _ laid => .fail laid cause

theorem Tracks.failIf {condition : Prop} [Decidable condition] {failing failing' : Parser Unit}
    {next next' : Parser α} (fails : r.Advances Eq failing failing')
    (rest : r.Tracks rel next next') :
    r.Tracks rel (if condition then failing >>= fun _ => next else next)
      (if condition then failing' >>= fun _ => next' else next') :=
  .ite (fails.tracks.bind fun _ _ _ => rest) rest

/-! ## Reading tokens -/

theorem TracksAt.next?_nil (ended : cursor.rest = []) {next next' : Option Lexeme → Parser α}
    (rest : r.TracksAt cursor floor rel (next none) (next' none)) :
    r.TracksAt cursor floor rel (Parser.next? >>= next) (Parser.next? >>= next') := by
  obtain ⟨_, last, stop⟩ := cursor
  cases ended
  exact .look rfl rfl rest

theorem TracksAt.next? {lexeme : Lexeme} {lexemes : List Lexeme}
    (split : cursor.rest = lexeme :: lexemes) (laid : r.Laid cursor)
    {next next' : Option Lexeme → Parser α}
    (rest : ∀ after, r.Laid after → cursor.here.start ≤ after.lastStop →
      r.TracksAt after floor rel (next (some lexeme))
        (next' (some (lexeme.shift r.distance)))) :
    r.TracksAt cursor floor rel (Parser.next? >>= next) (Parser.next? >>= next') := by
  have first : r.TracksAt cursor cursor.here.start (fun found found' => found = some lexeme ∧
      found' = some (lexeme.shift r.distance)) Parser.next? Parser.next? := by
    obtain ⟨_, last, stop⟩ := cursor
    cases split
    obtain ⟨⟨before, sound, tokens⟩, -, isPosition⟩ := laid
    exact .ok ⟨⟨rfl, rfl⟩, rfl, ⟨tokens, sound.stop, isPosition⟩, Nat.le_trans before sound.ordered,
      sound.ordered⟩
  refine first.bind ?_
  rintro _ _ after ⟨rfl, rfl⟩ laid above
  exact rest after laid above

theorem TracksAt.skip (seen : cursor.rest.head?.map Lexeme.token = some token)
    (laid : r.Laid cursor) : r.TracksAt cursor cursor.here.start Eq Parser.skip Parser.skip := by
  cases split : cursor.rest with
  | nil =>
    rw [split] at seen
    cases seen
  | cons lexeme lexemes => exact .next? split laid fun _ laid above => .value laid above rfl

theorem tracks_skip : r.TracksSelf Eq Parser.skip := by
  intro cursor laid
  cases split : cursor.rest with
  | nil => exact .next?_nil split (.value laid (Nat.zero_le _) rfl)
  | cons lexeme lexemes =>
    exact .next? split laid fun _ laid _ => .value laid (Nat.zero_le _) rfl

theorem Tracks.skip {next next' : Unit → Parser α} (rest : r.Tracks rel (next ()) (next' ())) :
    r.Tracks rel (Parser.skip >>= next) (Parser.skip >>= next') :=
  tracks_skip.bind fun _ _ _ => rest

theorem tracks_expect (token : Token) (what : String) :
    r.TracksSelf Eq (Parser.expect token what) :=
  .sees fun _ => .ite tracks_skip (Advances.fail _).tracks

theorem Tracks.expect {what : String} {next next' : Unit → Parser α}
    (rest : r.Tracks rel (next ()) (next' ())) :
    r.Tracks rel (Parser.expect token what >>= next) (Parser.expect token what >>= next') :=
  (tracks_expect token what).bind fun _ _ _ => rest

theorem tracks_ident : r.TracksSelf Eq Parser.ident := by
  apply Tracks.peek?
  intro token?
  split
  · exact .skip (.value rfl)
  · exact (Advances.fail _).tracks

theorem TracksAt.spanFrom {start : Nat} (laid : r.Laid cursor) (isPosition : r.positions start)
    (before : start ≤ cursor.lastStop) {next next' : Span → Parser α}
    (rest : ∀ span, r.Sound span → r.Tracks rel (next span) (next' (r.moved span))) :
    r.TracksAt cursor 0 rel (Parser.spanFrom start >>= next)
      (Parser.spanFrom (start + r.distance) >>= next') := by
  have sound : r.Sound ⟨start, cursor.lastStop⟩ := ⟨isPosition, laid.lastStop, before⟩
  have first : r.TracksAt cursor 0 (fun span span' => r.Sound span ∧ span' = r.moved span)
      (Parser.spanFrom start) (Parser.spanFrom (start + r.distance)) :=
    .ok ⟨⟨sound, rfl⟩, rfl, laid, Nat.le_refl _, Nat.zero_le _⟩
  refine first.andThen ?_
  rintro span _ ⟨sound, rfl⟩
  exact rest span sound

end Relocation

end Tokens

/-! ## Repetition -/

/-- Rounds that both go on or both end, with related values. -/
inductive Parser.Loop.Related {α : Type} (rel : α → α → Prop) : Loop α → Loop α → Prop
  | again {value value' : α} : rel value value' → Related rel (.again value) (.again value')
  | done {value value' : α} : rel value value' → Related rel (.done value) (.done value')

section Repetition

variable {r : Relocation} {α : Type} {rel : α → α → Prop}

namespace Relocation

section

variable {body body' : α → Parser (Parser.Loop α)}
  (round : ∀ value value', rel value value' →
    r.Tracks (Parser.Loop.Related rel) (body value) (body' value'))

include round

theorem tracks_rounds {fuel fuel' : List Lexeme} (same : fuel'.length = fuel.length)
    {value value' : α} (related : rel value value') :
    r.Tracks rel (Parser.rounds body fuel value) (Parser.rounds body' fuel' value') := by
  induction fuel generalizing fuel' value value' with
  | nil =>
    cases List.length_eq_zero_iff.mp same
    refine (round value value' related).bind ?_
    rintro _ _ (related | related)
    · exact .value related
    · exact .value related
  | cons lexeme fuel ih =>
    obtain ⟨lexeme', fuel', rfl⟩ := List.exists_cons_of_length_eq_add_one same
    refine (round value value' related).bind ?_
    rintro _ _ (related | related)
    · exact ih (Nat.succ.inj same) related
    · exact .value related

theorem Tracks.loop {init init' : α} (related : rel init init') :
    r.Tracks rel (Parser.loop init body) (Parser.loop init' body') := by
  intro cursor laid
  have same : (cursor.shift r.distance).rest.length = cursor.rest.length := List.length_map _
  exact .look rfl rfl (tracks_rounds round same related cursor laid)

end

variable {ends : Option Token → Bool} {item : Parser α} (items : r.TracksSelf rel item)

include items

theorem tracks_itemAfterComma {read read' : List α} (related : List.Forall₂ rel read read') :
    r.Tracks (Parser.Loop.Related (List.Forall₂ rel)) (Parser.itemAfterComma ends item read)
      (Parser.itemAfterComma ends item read') := by
  refine .sees fun seen => .ite (.value (.done related)) (.skip (.peek? fun token? => ?_))
  refine .ite (.value (.done related)) (items.bind fun value value' relatedItem => ?_)
  exact .value (.again (.cons relatedItem related))

theorem tracks_itemsFrom {first first' : α} (related : rel first first') :
    r.Tracks (List.Forall₂ rel) (Parser.itemsFrom ends item first)
      (Parser.itemsFrom ends item first') := by
  have loops : r.Tracks (List.Forall₂ rel) (Parser.loop [first] (Parser.itemAfterComma ends item))
      (Parser.loop [first'] (Parser.itemAfterComma ends item)) :=
    .loop (fun _ _ => tracks_itemAfterComma items) (.cons related .nil)
  refine loops.bind fun read read' related => .value ?_
  exact List.forall₂_reverse_iff.mpr related

end Relocation

end Repetition

end ModelWeaver.Snippet
