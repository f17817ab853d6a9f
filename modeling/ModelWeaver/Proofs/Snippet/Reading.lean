import ModelWeaver.Snippet.Parser

/-!
# What a parser reads

`Reads` says which tokens a parser takes from the cursor and what it makes of
them, for a parser that can only fail for want of nesting levels. The rules below
follow the parser's own constructs: sequencing, looking ahead, passing over
tokens and repetition.
-/

namespace ModelWeaver.Snippet

open Text

/-- The tokens in front of the cursor. -/
def Cursor.tokens (cursor : Cursor) : List Token :=
  cursor.rest.map Lexeme.token

namespace Parser

/-- On the tokens `before`, the parser stops in front of the tokens `after` with a
good value if the nesting fits, and otherwise reports that it does not. -/
def Reads {α : Type} (parser : Parser α) (before after : List Token) (fits : Prop)
    (good : α → Prop) : Prop :=
  ∀ cursor : Cursor, cursor.tokens = before →
    (fits → ∃ value next,
      StateT.run parser cursor = .ok (value, next) ∧ next.tokens = after ∧ good value) ∧
    (¬ fits → ∃ span, StateT.run parser cursor = .error ⟨.nestedTooDeep maxNesting, span⟩)

section Rules

variable {α β : Type} {before middle after : List Token} {fits fits' : Prop} {good : α → Prop}
  {good' : β → Prop} {parser : Parser α} {token : Token} {body : α → Parser (Loop α)}

theorem Reads.congr (reads : Reads parser before after fits good) {weaker : α → Prop}
    (same : fits' ↔ fits) (weaken : ∀ value, good value → weaker value) :
    Reads parser before after fits' weaker := by
  intro cursor tokens
  obtain ⟨succeeds, fails⟩ := reads cursor tokens
  constructor
  · intro fitting
    obtain ⟨value, next, ran, rest, isGood⟩ := succeeds (same.mp fitting)
    exact ⟨value, next, ran, rest, weaken value isGood⟩
  · intro unfitting
    exact fails fun fitting => unfitting (same.mpr fitting)

theorem Reads.value {value : α} (isGood : good value) :
    Reads (pure value : Parser α) before before True good := by
  intro cursor tokens
  exact ⟨fun _ => ⟨value, cursor, rfl, tokens, isGood⟩, fun absent => absurd trivial absent⟩

theorem Reads.of_fits (reads : Reads parser before after True good) (fitting : fits) :
    Reads parser before after fits good :=
  reads.congr (iff_true_intro fitting) fun _ => id

theorem reads_nestedTooDeep :
    Reads (fail (.nestedTooDeep maxNesting) : Parser α) before after False good := by
  intro cursor _
  refine ⟨False.elim, fun _ => ?_⟩
  cases rest : cursor.rest with
  | nil => exact ⟨⟨cursor.stop, cursor.stop⟩, by simp [fail, here, rest]; rfl⟩
  | cons lexeme lexemes => exact ⟨lexeme.span, by simp [fail, here, rest]; rfl⟩

theorem Reads.bind {next : α → Parser β} (first : Reads parser before middle fits good)
    (second : ∀ value, good value → Reads (next value) middle after fits' good') :
    Reads (parser >>= next) before after (fits ∧ fits') good' := by
  intro cursor tokens
  obtain ⟨succeeds, fails⟩ := first cursor tokens
  by_cases fitting : fits
  · obtain ⟨value, cursor', ran, rest, isGood⟩ := succeeds fitting
    have runs : StateT.run (parser >>= next) cursor = StateT.run (next value) cursor' := by
      rw [StateT.run_bind, ran]
      rfl
    rw [runs]
    simpa [fitting] using second value isGood cursor' rest
  · obtain ⟨span, ran⟩ := fails fitting
    refine ⟨fun both => absurd both.1 fitting, fun _ => ⟨span, ?_⟩⟩
    rw [StateT.run_bind, ran]
    rfl

theorem Reads.andThen {next : α → Parser β} (first : Reads parser before middle fits good)
    (second : ∀ value, good value → Reads (next value) middle after True good') :
    Reads (parser >>= next) before after fits good' :=
  (first.bind second).congr (and_true fits).symm.to_iff fun _ => id

/-! ## Looking ahead and passing over tokens -/

theorem Reads.peek? {next : Option Token → Parser β}
    (rest : Reads (next before.head?) before after fits good') :
    Reads (Parser.peek? >>= next) before after fits good' := by
  intro cursor tokens
  have seen : before.head? = cursor.rest.head?.map Lexeme.token := by
    rw [← tokens, Cursor.tokens, List.head?_map]
  rw [seen] at rest
  exact rest cursor tokens

theorem Reads.peekTwo {next : List Token → Parser β}
    (rest : Reads (next (before.take 2)) before after fits good') :
    Reads (Parser.peekTwo >>= next) before after fits good' := by
  intro cursor tokens
  have seen : before.take 2 = (cursor.rest.take 2).map Lexeme.token := by
    rw [← tokens, Cursor.tokens, List.map_take]
  rw [seen] at rest
  exact rest cursor tokens

theorem Reads.sees {next : Bool → Parser β}
    (rest : Reads (next (before.head? == some token)) before after fits good') :
    Reads (Parser.sees token >>= next) before after fits good' := by
  rw [Parser.sees, bind_assoc]
  apply Reads.peek?
  rwa [pure_bind]

theorem Reads.here {next : Span → Parser β}
    (rest : ∀ span, Reads (next span) before after fits good') :
    Reads (Parser.here >>= next) before after fits good' := by
  intro cursor tokens
  have runs : ∃ span, StateT.run (Parser.here >>= next) cursor = StateT.run (next span) cursor := by
    cases lexemes : cursor.rest with
    | nil => exact ⟨⟨cursor.stop, cursor.stop⟩, by simp [Parser.here, lexemes]⟩
    | cons lexeme lexemes' => exact ⟨lexeme.span, by simp [Parser.here, lexemes]⟩
  obtain ⟨span, runs⟩ := runs
  rw [runs]
  exact rest span cursor tokens

theorem Reads.spanFrom {start : Nat} {next : Span → Parser β}
    (rest : ∀ span, Reads (next span) before after fits good') :
    Reads (Parser.spanFrom start >>= next) before after fits good' :=
  fun cursor tokens => rest ⟨start, cursor.lastStop⟩ cursor tokens

theorem Reads.next? {next : Option Lexeme → Parser β}
    (rest : ∀ span, Reads (next (some ⟨token, span⟩)) before after fits good') :
    Reads (Parser.next? >>= next) (token :: before) after fits good' := by
  intro cursor tokens
  obtain ⟨lexeme, lexemes, split, rfl, remaining⟩ := List.map_eq_cons_iff.mp tokens
  have runs : StateT.run (Parser.next? >>= next) cursor =
      StateT.run (next (some lexeme)) ⟨lexemes, lexeme.span.stop, cursor.stop⟩ := by
    simp [Parser.next?, split]
  rw [runs]
  exact rest lexeme.span _ remaining

theorem Reads.skip {next : Unit → Parser β} (rest : Reads (next ()) before after fits good') :
    Reads (Parser.skip >>= next) (token :: before) after fits good' := by
  rw [Parser.skip, bind_assoc]
  exact Reads.next? fun _ => by rwa [pure_bind]

theorem Reads.expect {what : String} {next : Unit → Parser β}
    (rest : Reads (next ()) before after fits good') :
    Reads (Parser.expect token what >>= next) (token :: before) after fits good' := by
  rw [Parser.expect, bind_assoc]
  apply Reads.sees
  rw [List.head?_cons, beq_self_eq_true, if_pos rfl]
  exact Reads.skip rest

theorem Reads.ident {name : String} {next : String → Parser β}
    (rest : Reads (next name) before after fits good') :
    Reads (Parser.ident >>= next) (.ident name :: before) after fits good' := by
  rw [Parser.ident, bind_assoc]
  apply Reads.peek?
  change Reads ((Parser.skip >>= fun _ => pure name) >>= next) _ _ _ _
  rw [bind_assoc]
  apply Reads.skip
  rwa [pure_bind]

/-! ## Repetition -/

/-- The rounds of a loop read as `Reads` says, however often the loop may go
round beyond the number of tokens. -/
def Loops (body : α → Parser (Loop α)) (value : α) (before after : List Token) (fits : Prop)
    (good : α → Prop) : Prop :=
  ∀ fuel : List Lexeme, before.length ≤ fuel.length →
    Reads (rounds body fuel value) before after fits good

theorem Loops.reads {value : α} (loops : Loops body value before after fits good) :
    Reads (loop value body) before after fits good := by
  intro cursor tokens
  have enough : before.length ≤ cursor.rest.length := by
    simp [← tokens, Cursor.tokens]
  exact loops cursor.rest enough cursor tokens

theorem Loops.congr {value : α} (loops : Loops body value before after fits good)
    {weaker : α → Prop} (same : fits' ↔ fits) (weaken : ∀ value, good value → weaker value) :
    Loops body value before after fits' weaker :=
  fun fuel enough => (loops fuel enough).congr same weaken

theorem Loops.done {value : α}
    (last : Reads (body value) before after fits fun round =>
      ∃ result, round = .done result ∧ good result) :
    Loops body value before after fits good := by
  intro fuel _
  have ends : ∀ next : Loop α → Parser α, (∀ result, next (.done result) = pure result) →
      Reads (body value >>= next) before after fits good := by
    intro next stops
    refine last.andThen fun round ended => ?_
    obtain ⟨result, rfl, isGood⟩ := ended
    rw [stops]
    exact Reads.value isGood
  cases fuel with
  | nil => exact ends _ fun _ => rfl
  | cons lexeme lexemes => exact ends _ fun _ => rfl

theorem Loops.again {value : α} {between : α → Prop}
    (round : Reads (body value) before middle fits fun round =>
      ∃ result, round = .again result ∧ between result)
    (shorter : middle.length < before.length)
    (more : ∀ result, between result → Loops body result middle after fits' good) :
    Loops body value before after (fits ∧ fits') good := by
  intro fuel enough
  cases fuel with
  | nil =>
    rw [List.length_nil] at enough
    omega
  | cons lexeme lexemes =>
    refine Reads.bind round fun result continued => ?_
    obtain ⟨result, rfl, isBetween⟩ := continued
    rw [List.length_cons] at enough
    exact more result isBetween lexemes (by omega)

end Rules

/-! ## Lists of items -/

section Items

variable {α β γ : Type} {ends : Option Token → Bool} {item : Parser α}

theorem behind_item (tokens : β → List Token) (items : List β) (rest : List Token) :
    items.flatMap (.comma :: tokens ·) ++ rest = rest ∨
      (items.flatMap (.comma :: tokens ·) ++ rest).head? = some .comma := by
  cases items with
  | nil => exact .inl rfl
  | cons item items => exact .inr rfl

section Separated

variable {tokens : β → List Token} {fits : β → Prop} {view : α → γ} {expected : β → γ}
  {rest : List Token} (noComma : rest.head? ≠ some .comma) {items : List β}
  (reads : ∀ x ∈ items, ∀ after, after = rest ∨ after.head? = some .comma →
    ends (tokens x ++ after).head? = false ∧
      Reads item (tokens x ++ after) after (fits x) fun value => view value = expected x)
include noComma reads

/-- What the items after the first of a list are, each behind its comma. -/
theorem loops_itemAfterComma (read : List α) :
    Loops (itemAfterComma ends item) read (items.flatMap (.comma :: tokens ·) ++ rest) rest
      (∀ x ∈ items, fits x)
      fun all => all.map view = (items.map expected).reverse ++ read.map view := by
  induction items generalizing read with
  | nil =>
    have last : Reads (itemAfterComma ends item read) rest rest True fun round =>
        ∃ all, round = .done all ∧ all.map view = read.map view := by
      apply Reads.sees
      rw [beq_false_of_ne noComma]
      exact Reads.value ⟨read, rfl, rfl⟩
    exact (Loops.done last).congr (by simp) fun _ => id
  | cons x items ih =>
    obtain ⟨continues, readsItem⟩ :=
      reads x List.mem_cons_self _ (behind_item tokens items rest)
    have round : Reads (itemAfterComma ends item read)
        ((x :: items).flatMap (.comma :: tokens ·) ++ rest)
        (items.flatMap (.comma :: tokens ·) ++ rest) (fits x) fun round =>
          ∃ all, round = .again all ∧ all.map view = expected x :: read.map view := by
      rw [List.flatMap_cons, List.cons_append, List.cons_append, List.append_assoc]
      apply Reads.sees
      apply Reads.skip
      apply Reads.peek?
      rw [continues]
      refine readsItem.andThen fun value isGood => ?_
      exact Reads.value ⟨_, rfl, by rw [List.map_cons, isGood]⟩
    have shorter : (items.flatMap (.comma :: tokens ·) ++ rest).length <
        ((x :: items).flatMap (.comma :: tokens ·) ++ rest).length := by
      simp only [List.flatMap_cons, List.length_append, List.length_cons]
      omega
    refine (Loops.again round shorter fun all between => ?_).congr
      List.forall_mem_cons fun _ => id
    refine (ih (fun y mem => reads y (List.mem_cons_of_mem x mem)) all).congr Iff.rfl ?_
    intro result resultEq
    rw [resultEq, between]
    simp

theorem reads_itemsFrom (first : α) :
    Reads (itemsFrom ends item first) (items.flatMap (.comma :: tokens ·) ++ rest) rest
      (∀ x ∈ items, fits x) fun all => all.map view = view first :: items.map expected := by
  have loops := loops_itemAfterComma noComma reads [first]
  refine loops.reads.andThen fun all same => Reads.value ?_
  rw [List.map_reverse, same]
  simp

end Separated

theorem reads_itemsFrom_trailing {rest : List Token} (atEnd : ends rest.head? = true)
    (first : α) :
    Reads (itemsFrom ends item first) (.comma :: rest) rest True fun all => all = [first] := by
  have last : Reads (itemAfterComma ends item [first]) (.comma :: rest) rest True fun round =>
      ∃ all, round = .done all ∧ all = [first] := by
    apply Reads.sees
    apply Reads.skip
    apply Reads.peek?
    rw [atEnd]
    exact Reads.value ⟨[first], rfl, rfl⟩
  refine (Loops.done last).reads.andThen fun all single => Reads.value ?_
  rw [single]
  rfl

end Items

/-! ## Whole texts -/

/-- A parser that reads all tokens of a text succeeds on the text. -/
theorem run_of_reads {α : Type} {parser : Parser α} {fits : Prop} {good : α → Prop}
    {inStatements : Bool} {base : Nat} {source : String} {tokens : List Lexeme}
    (lexed : lexemes inStatements base source = .ok tokens)
    (reads : Reads parser (tokens.map Lexeme.token) [] fits good) (fitting : fits)
    (what : String) :
    ∃ item, Parser.run parser what inStatements base source = .ok item ∧ good item := by
  have complete : Reads (do
      let item ← parser
      if (← peek?).isSome then fail (.trailing what)
      return item) (tokens.map Lexeme.token) [] fits good :=
    reads.andThen fun item isGood => Reads.peek? (Reads.value isGood)
  obtain ⟨item, cursor, ran, _, isGood⟩ :=
    (complete ⟨tokens, base, base + source.utf8ByteSize⟩ rfl).1 fitting
  refine ⟨item, ?_, isGood⟩
  rw [Parser.run, lexed]
  exact congrArg (Prod.fst <$> ·) ran

end Parser

end ModelWeaver.Snippet
