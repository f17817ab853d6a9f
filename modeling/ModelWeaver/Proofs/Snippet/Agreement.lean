import ModelWeaver.Proofs.Document.Partition
import ModelWeaver.Snippet.Lexer

/-!
# The document scan and the lexer agree

The document scan decides where a snippet ends, and the lexer then reads the snippet on its own.
Both pass over strings and comments, by separate rules. The lexer never sees a string without an
end in a snippet that the scan has cut out, and the brackets it reads there are balanced.

Whatever a step of the lexer takes moves the delimiter machine of the scan from outside strings and
comments to outside them again, and opens or closes a bracket exactly if it gives a bracket token.
-/

namespace ModelWeaver.Snippet

open Document
open Document.Delimiter (State)
open Text

/-! ## Balanced brackets -/

/-- Sequences of brackets that are properly nested and all closed. -/
inductive Balanced : List Char → Prop
  | nil : Balanced []
  | nest (bracket : Bracket) {inner rest : List Char} :
      Balanced inner → Balanced rest →
        Balanced (bracket.opener :: (inner ++ bracket.closer :: rest))

/-- The bracket that a token stands for. -/
def Token.bracketChar? : Token → Option Char
  | lParen => some '('
  | rParen => some ')'
  | lBracket => some '['
  | rBracket => some ']'
  | lBrace => some '{'
  | rBrace => some '}'
  | _ => none

def bracketChars (lexemes : List Lexeme) : List Char :=
  lexemes.filterMap fun lexeme => lexeme.token.bracketChar?

variable {token : Token} {c : Char} {text : List Char} {stack : List Bracket}

private theorem bracketChar_mem (bracket : token.bracketChar? = some c) :
    c ∈ ['(', ')', '[', ']', '{', '}'] := by
  cases token <;> simp [Token.bracketChar?] at bracket
  all_goals
    subst c
    decide

theorem mem_of_mem_bracketChars {lexemes : List Lexeme} (mem : c ∈ bracketChars lexemes) :
    c ∈ ['(', ')', '[', ']', '{', '}'] := by
  obtain ⟨lexeme, _, bracket⟩ := List.mem_filterMap.mp mem
  exact bracketChar_mem bracket

theorem balanced_of_parts (derivation : Parts text)
    (brackets : ∀ c ∈ text, c ∈ ['(', ')', '[', ']', '{', '}']) : Balanced text := by
  induction derivation with
  | nil => exact .nil
  | brackets bracket _ _ inner rest =>
    refine .nest bracket (inner fun c mem => ?_) (rest fun c mem => ?_)
    · exact brackets c (by simp [mem])
    · exact brackets c (by simp [mem])
  | string isQuote _ _ _ =>
    have quoted := brackets _ List.mem_cons_self
    rcases isQuote with rfl | rfl <;> simp at quoted
  | comment _ _ _ =>
    have hash := brackets _ List.mem_cons_self
    simp at hash
  | other ordinary _ _ =>
    have special := brackets _ List.mem_cons_self
    simp only [specialChars, List.mem_cons, List.not_mem_nil, or_false] at special ordinary
    tauto

/-! ## What one step takes -/

/-- The delimiter machine gets over the text from the given open brackets to
none. -/
def Closing (stack : List Bracket) (text : List Char) : Prop :=
  State.run ⟨.plain, stack⟩ text = some ⟨.plain, []⟩

theorem closing_cons_iff (ordinary : c ∉ specialChars) :
    Closing stack (c :: text) ↔ Closing stack text := by
  rw [Closing, State.run_cons, State.step_ordinary stack ordinary]
  rfl

theorem Closing.drop (closing : Closing stack text) {count : Nat}
    (ordinary : ∀ c ∈ text.take count, c ∉ specialChars) : Closing stack (text.drop count) := by
  induction count generalizing text with
  | zero => exact closing
  | succ count ih =>
    cases text with
    | nil => exact closing
    | cons c text =>
      simp only [List.take_succ_cons, List.mem_cons, forall_eq_or_imp] at ordinary
      exact ih ((closing_cons_iff ordinary.1).mp closing) ordinary.2

/-- The lexer finds the end of every string that the machine gets out of, and
takes the same characters. -/
theorem exists_stringBody {quote : Char} (isQuote : quote = '"' ∨ quote = '\'')
    (leaves : State.run ⟨.quoted quote, stack⟩ text = some ⟨.plain, []⟩) :
    ∃ body extent, Lexer.stringBody? quote text = some (body, extent) ∧
      Closing stack (text.drop extent) := by
  have notEscape : quote ≠ '\\' := by rcases isQuote with rfl | rfl <;> decide
  induction text using Lexer.stringBody?.induct quote with
  | case1 => simp at leaves
  | case2 text =>
    refine ⟨[], 1, by unfold Lexer.stringBody?; exact if_pos rfl, ?_⟩
    rw [State.run_cons, State.step, if_neg notEscape, if_pos rfl] at leaves
    exact leaves
  | case3 notQuote => simp [State.step] at leaves
  | case4 escaped text notQuote ih =>
    obtain ⟨body, extent, found, closing⟩ := ih (by simpa [State.step] using leaves)
    refine ⟨Lexer.escape escaped ++ body, extent + 2, ?_, by simpa using closing⟩
    rw [Lexer.stringBody?, if_neg notQuote, if_pos rfl, found]
    rfl
  | case5 c text notQuote notBackslash ih =>
    obtain ⟨body, extent, found, closing⟩ :=
      ih (by simpa [State.step, notQuote, notBackslash] using leaves)
    refine ⟨c :: body, extent + 1, ?_, by simpa using closing⟩
    unfold Lexer.stringBody?
    rw [if_neg notQuote, if_neg notBackslash, found]
    rfl

/-- A comment that the machine gets out of ends before a line end. -/
theorem closing_drop_comment (leaves : State.run ⟨.comment, stack⟩ text = some ⟨.plain, []⟩) :
    Closing stack (text.drop (text.takeWhile (· ≠ '\n')).length) := by
  induction text with
  | nil => simp at leaves
  | cons c text ih =>
    by_cases lineEnd : c = '\n'
    · subst c
      exact leaves
    · have more : State.run ⟨.comment, stack⟩ text = some ⟨.plain, []⟩ := by
        simpa [State.step, lineEnd] using leaves
      simpa [lineEnd] using ih more

/-! ## Numbers, words and operators -/

theorem ordinary_takeWhile {keep : Char → Bool} (apart : ∀ c ∈ specialChars, keep c = false)
    (text : List Char) : ∀ c ∈ text.take (text.takeWhile keep).length, c ∉ specialChars := by
  intro c mem special
  rw [← List.prefix_iff_eq_take.mp (List.takeWhile_prefix keep)] at mem
  have kept := List.all_eq_true.mp List.all_takeWhile c mem
  rw [apart c special] at kept
  contradiction

theorem ordinary_take_add {first second : Nat} (before : ∀ c ∈ text.take first, c ∉ specialChars)
    (after : ∀ c ∈ (text.drop first).take second, c ∉ specialChars) :
    ∀ c ∈ text.take (first + second), c ∉ specialChars := by
  intro c mem
  rw [List.take_add, List.mem_append] at mem
  exact mem.elim (before c) (after c)

theorem ordinary_take_one (head : ∀ c ∈ text.head?, c ∉ specialChars) :
    ∀ c ∈ text.take 1, c ∉ specialChars := by
  cases text with
  | nil => simp
  | cons c text => simpa using head

theorem ordinary_exponent {power : Int} {extent : Nat}
    (found : Lexer.exponent? text = some (power, extent)) :
    ∀ c ∈ text.take extent, c ∉ specialChars := by
  unfold Lexer.exponent? at found
  split at found
  · rename_i mark text
    split at found
    · rename_i isMark
      have ordinaryMark : mark ∉ specialChars := by
        simp only [Bool.or_eq_true, decide_eq_true_eq] at isMark
        rcases isMark with rfl | rfl <;> decide
      split at found
      rename_i negative signs signEq
      have ordinarySign : ∀ c ∈ text.take signs, c ∉ specialChars := by
        split at signEq <;> cases signEq <;> simp [specialChars]
      simp only [Option.ite_none_left_eq_some, Option.some.injEq, Prod.mk.injEq] at found
      obtain ⟨_, _, rfl⟩ := found
      rw [Nat.add_assoc]
      apply ordinary_take_add (ordinary_take_one (by simpa using ordinaryMark))
      exact ordinary_take_add ordinarySign
        (ordinary_takeWhile (forall_specialChars.mpr (by decide)) _)
    · contradiction
  · contradiction

/-- A number consists of ordinary characters. -/
theorem ordinary_number (text : List Char) :
    ∀ c ∈ text.take (Lexer.number text).2, c ∉ specialChars := by
  have apart : ∀ c ∈ specialChars, (c.isDigit || c = '_') = false :=
    forall_specialChars.mpr (by decide)
  have ordinaryRun := ordinary_takeWhile apart text
  rw [Lexer.number]
  split
  rename_i fraction pointed pointEq
  generalize text.takeWhile (fun c => c.isDigit || c = '_') = run at ordinaryRun pointEq ⊢
  have ordinaryPoint : ∀ c ∈ (text.drop run.length).take pointed, c ∉ specialChars := by
    split at pointEq
    · rename_i more restEq
      cases pointEq
      rw [restEq, Nat.add_comm]
      apply ordinary_take_add (ordinary_take_one (by simp [specialChars]))
      exact ordinary_takeWhile (forall_specialChars.mpr (by decide)) more
    · cases pointEq
      simp
  have ordinaryDecimal := ordinary_take_add ordinaryRun ordinaryPoint
  split
  · rename_i power extent found
    rw [List.drop_drop] at found
    exact ordinary_take_add ordinaryDecimal (ordinary_exponent found)
  · split
    · split <;> exact ordinaryRun
    · exact ordinaryDecimal

theorem bracketChar?_ofWord (word : String) : (Token.ofWord word).bracketChar? = none := by
  unfold Token.ofWord
  split <;> rfl

theorem operator?_cases {next : Option Char} {extent : Nat}
    (found : Lexer.operator? c next = some (token, extent)) :
    (token.bracketChar? = some c ∧ extent = 0) ∨
      (token.bracketChar? = none ∧ c ∉ specialChars ∧
        (extent = 0 ∨ extent = 1 ∧ ∀ d ∈ next, d ∉ specialChars)) := by
  unfold Lexer.operator? at found
  split at found <;> simp only [Option.some.injEq, Prod.mk.injEq, reduceCtorEq] at found
  all_goals
    obtain ⟨rfl, rfl⟩ := found
    simp [Token.bracketChar?, specialChars]

/-! ## Steps and runs of the lexer -/

/-- The faults that the lexer may still find in text whose strings and brackets
are closed. -/
inductive WithinToken : SyntaxError.Cause → Prop
  | large (digits : String) : WithinToken (.integerTooLarge digits)
  | character (c : Char) : WithinToken (.unexpectedCharacter c)

private theorem append_ne {lead target : String} (shown tail : String)
    (apart : ¬ lead.toList <+: target.toList) : lead ++ shown ++ tail ≠ target := by
  rintro rfl
  exact apart (by simp)

theorem WithinToken.message_ne {cause : SyntaxError.Cause} (fault : WithinToken cause) :
    cause.message ≠ "unterminated string literal" := by
  cases fault with
  | large digits => exact append_ne digits _ (by decide)
  | character c => exact append_ne c.toString _ (by decide)

/-- What a step of the lexer means to the machine: a token opens or closes what
its bracket does, and the machine gets over the text that is left. A fault
lies within one token. -/
def StepAgrees (stack : List Bracket) (text : List Char) : Lexer.Step → Prop
  | .skip extent => Closing stack (text.drop extent)
  | .token token extent =>
    ∃ next, State.run ⟨.plain, stack⟩ token.bracketChar?.toList = some ⟨.plain, next⟩ ∧
      Closing next (text.drop extent)
  | .fault cause _ => WithinToken cause

private theorem mode_step_bracket {next : State} (bracket : c ∈ ['(', ')', '[', ']', '{', '}'])
    (move : State.step ⟨.plain, stack⟩ c = some next) : next.mode = .plain := by
  have unmoved : ¬ (Bracket.ofOpener? c = none ∧ Bracket.ofCloser? c = none) := by
    simp only [List.mem_cons, List.not_mem_nil, or_false] at bracket
    rcases bracket with rfl | rfl | rfl | rfl | rfl | rfl <;> decide
  simp only [State.step] at move
  split at move
  · cases move
    rfl
  · split at move
    · contradiction
    · simp only [Option.ite_none_right_eq_some] at move
      cases move.2
      rfl
  · exact absurd ⟨‹_›, ‹_›⟩ unmoved

theorem stepAgrees_bracket (bracket : token.bracketChar? = some c)
    (closing : Closing stack (c :: text)) : StepAgrees stack text (.token token 0) := by
  rw [Closing, State.run_cons] at closing
  obtain ⟨⟨mode, next⟩, move, closing⟩ := Option.bind_eq_some_iff.mp closing
  obtain rfl : mode = .plain := mode_step_bracket (bracketChar_mem bracket) move
  refine ⟨next, ?_, closing⟩
  rw [bracket]
  simp [move]

theorem stepAgrees_ordinary {extent : Nat} (plain : token.bracketChar? = none)
    (closing : Closing stack (c :: text)) (ordinary : c ∉ specialChars)
    (more : ∀ d ∈ text.take extent, d ∉ specialChars) :
    StepAgrees stack text (.token token extent) := by
  refine ⟨stack, ?_, ((closing_cons_iff ordinary).mp closing).drop more⟩
  rw [plain]
  rfl

/-- A number is no bracket, and what is wrong with one is its size. -/
theorem number_result (text : List Char) :
    (∃ token, (Lexer.number text).1 = .ok token ∧ token.bracketChar? = none) ∨
      ∃ digits, (Lexer.number text).1 = .error (.integerTooLarge digits) := by
  rw [Lexer.number]
  split
  split
  · exact .inl ⟨_, rfl, rfl⟩
  · split
    · split
      · exact .inl ⟨_, rfl, rfl⟩
      · exact .inr ⟨_, rfl⟩
    · exact .inl ⟨_, rfl, rfl⟩

private theorem stepAgrees_number (starts : Lexer.startsNumber c text = true)
    (closing : Closing stack (c :: text)) :
    StepAgrees stack text
      (match Lexer.number (c :: text) with
        | (.ok token, taken) => .token token (taken - 1)
        | (.error cause, taken) => .fault cause (taken - 1)) := by
  have ordinaryFirst : c ∉ specialChars := by
    intro special
    have apart : ∀ d ∈ specialChars, d.isDigit = false ∧ d ≠ '.' :=
      forall_specialChars.mpr (by decide)
    simp [Lexer.startsNumber, apart c special] at starts
  have ordinaryRest : ∀ d ∈ text.take ((Lexer.number (c :: text)).2 - 1), d ∉ specialChars := by
    have ordinary := ordinary_number (c :: text)
    cases takenEq : (Lexer.number (c :: text)).2 with
    | zero => simp
    | succ taken =>
      rw [takenEq] at ordinary
      intro d mem
      exact ordinary d (by simpa using Or.inr mem)
  have result := number_result (c :: text)
  cases found : Lexer.number (c :: text) with
  | mk outcome taken =>
    rw [found] at ordinaryRest result
    rcases result with ⟨token, rfl, plain⟩ | ⟨digits, rfl⟩
    · exact stepAgrees_ordinary plain closing ordinaryFirst ordinaryRest
    · exact .large digits

private theorem stepAgrees_word (starts : (isAlphabetic c || c = '_') = true)
    (closing : Closing stack (c :: text)) :
    StepAgrees stack text
      (.token (.ofWord (String.ofList (c :: text.takeWhile fun c => isAlphanumeric c || c = '_')))
        (text.takeWhile fun c => isAlphanumeric c || c = '_').length) := by
  have ordinaryFirst : c ∉ specialChars := by
    intro special
    have apart : ∀ d ∈ specialChars, (isAlphabetic d || d = '_') = false :=
      forall_specialChars.mpr (by decide)
    rw [apart c special] at starts
    contradiction
  exact stepAgrees_ordinary (bracketChar?_ofWord _) closing ordinaryFirst
    (ordinary_takeWhile (forall_specialChars.mpr (by decide)) text)

/-- Every step of the lexer agrees with the machine. -/
theorem step_agrees (breaks : Bool) (closing : Closing stack (c :: text)) :
    StepAgrees stack text (Lexer.step breaks c text) := by
  unfold Lexer.step
  split
  · -- a blank
    rename_i blank
    have ordinary : c ∉ specialChars := by
      simp only [Bool.or_eq_true, decide_eq_true_eq] at blank
      rcases blank with (rfl | rfl) | rfl <;> decide
    exact (closing_cons_iff ordinary).mp closing
  · split
    · -- the end of a line, which is a token in statements
      rename_i lineEnd
      have ordinary : c ∉ specialChars := by rw [lineEnd]; decide
      split
      · exact stepAgrees_ordinary rfl closing ordinary (by simp)
      · exact (closing_cons_iff ordinary).mp closing
    · split
      · -- a line that is continued
        rename_i continued
        simp only [Bool.and_eq_true, decide_eq_true_eq] at continued
        obtain ⟨rfl, head⟩ := continued
        have afterBackslash : Closing stack text := (closing_cons_iff (by decide)).mp closing
        apply afterBackslash.drop
        apply ordinary_take_one
        rw [head]
        simp [specialChars]
      · split
        · rename_i hash
          subst c
          exact closing_drop_comment closing
        · split
          · -- a string, which the machine leaves where the lexer does
            rename_i quotes
            have isQuote : c = '"' ∨ c = '\'' := by simpa using quotes
            have leaves : State.run ⟨.quoted c, stack⟩ text = some ⟨.plain, []⟩ := by
              rw [Closing, State.run_cons, State.step_quote stack isQuote] at closing
              exact closing
            obtain ⟨body, extent, found, rest⟩ := exists_stringBody isQuote leaves
            rw [found]
            exact ⟨stack, rfl, rest⟩
          · split
            · rename_i starts
              exact stepAgrees_number starts closing
            · split
              · rename_i starts
                exact stepAgrees_word starts closing
              · split
                · rename_i token extent found
                  rcases operator?_cases found with
                    ⟨bracket, rfl⟩ | ⟨plain, ordinary, rfl | ⟨rfl, next⟩⟩
                  · exact stepAgrees_bracket bracket closing
                  · exact stepAgrees_ordinary plain closing ordinary (by simp)
                  · exact stepAgrees_ordinary plain closing ordinary (ordinary_take_one next)
                · exact .character c

/-- A run of the lexer agrees with the machine: the brackets of the tokens close
what is open, or the fault lies within one token. -/
theorem lexFrom_ends (statements : Bool) (offset depth : Nat) (separated : Bool)
    (closing : Closing stack text) :
    Ends (Lexer.lexFrom statements offset depth separated text)
      (fun tokens => Closing stack (bracketChars tokens))
      (fun error => WithinToken error.cause) := by
  induction offset, depth, separated, text using Lexer.lexFrom.induct statements
    generalizing stack with
  | case1 offset depth separated =>
    rw [Lexer.lexFrom]
    exact closing
  | case2 offset depth separated c text stop extent stepEq =>
    rename_i ih
    have agrees := step_agrees (statements && decide (depth = 0) && !separated) closing
    rw [stepEq] at agrees
    rw [Lexer.lexFrom, stepEq]
    exact ih agrees
  | case3 offset depth separated c text stop token extent stepEq =>
    rename_i ih
    have agrees := step_agrees (statements && decide (depth = 0) && !separated) closing
    rw [stepEq] at agrees
    obtain ⟨next, move, closing⟩ := agrees
    rw [Lexer.lexFrom, stepEq]
    apply Ends.bind (ih closing)
    intro tokens rest
    have split : bracketChars (⟨token, offset, stop extent⟩ :: tokens) =
        token.bracketChar?.toList ++ bracketChars tokens := by
      cases bracket : token.bracketChar? <;> simp [bracketChars, bracket]
    change Closing stack (bracketChars (⟨token, offset, stop extent⟩ :: tokens))
    rw [split, Closing, State.run_append, move]
    exact rest
  | case4 offset depth separated c text cause extent stepEq =>
    have agrees := step_agrees (statements && decide (depth = 0) && !separated) closing
    rw [stepEq] at agrees
    rw [Lexer.lexFrom, stepEq]
    exact agrees

/-- The lexer reads balanced brackets from parts, and finds every string
closed. -/
theorem lexemes_ends (statements : Bool) (base : Nat) {source : String}
    (parts : Parts source.toList) :
    Ends (lexemes statements base source) (fun tokens => Balanced (bracketChars tokens))
      (fun error => WithinToken error.cause) := by
  have ends := lexFrom_ends statements base 0 true (Delimiter.parts_iff_run.mp parts)
  rw [← lexemes] at ends
  cases found : lexemes statements base source with
  | error error =>
    rw [found] at ends
    exact ends
  | ok tokens =>
    rw [found] at ends
    exact balanced_of_parts (Delimiter.parts_iff_run.mpr ends)
      fun c mem => mem_of_mem_bracketChars mem

/-! ## Snippets of a document -/

/-- The snippet of an inline expression or of a command. -/
def Holds (region : Region) (snippet : Excerpt) : Prop :=
  region.kind = .inline snippet ∨ ∃ name index, region.kind = .command name index snippet

theorem parts_of_scan {source : String} {regions : List Region}
    (scanned : scan source = .ok regions) {region : Region} (mem : region ∈ regions)
    {snippet : Excerpt} (holds : Holds region snippet) : Parts snippet.text.toList := by
  have cuts := scan_cuts source
  rw [scanned] at cuts
  obtain ⟨kind, piece, start, rfl, _, written, _⟩ := Cuts.exists_piece [] cuts mem
  rcases holds with kindEq | ⟨name, index, kindEq⟩
  all_goals
    change kind = _ at kindEq
    subst kind
    cases written <;> rwa [String.toList_ofList]

/-- The lexer agrees with the scan of the document about strings, comments and
brackets: in the snippet of any region it finds every string closed, and the
brackets it reads are balanced. -/
theorem lexemes_agree_with_scan (source : String) (regions : List Region)
    (scanned : scan source = .ok regions) (region : Region) (member : region ∈ regions)
    (snippet : Excerpt) (holds : Holds region snippet) (statements : Bool) (base : Nat) :
    (∀ error, lexemes statements base snippet.text = .error error →
      error.message ≠ "unterminated string literal") ∧
    (∀ tokens, lexemes statements base snippet.text = .ok tokens →
      Balanced (bracketChars tokens)) := by
  have ends := lexemes_ends statements base (parts_of_scan scanned member holds)
  constructor
  · intro error failed words
    rw [failed] at ends
    exact ends.message_ne words
  · intro tokens read
    rw [read] at ends
    exact ends

/-- A brace in a string, after an escaped quote, and a parenthesis in a comment
mislead neither of the two. -/
theorem lexemes_agree_with_scan_quoted_brace :
    ∃ tokens, lexemes true 6 "x = ('\\'\x7d', [1]) # )\n" = .ok tokens ∧
      Balanced (bracketChars tokens) := by
  have scanned : scan "$EXEC\x7bx = ('\\'\x7d', [1]) # )\n\x7d;" =
      .ok [⟨.command "EXEC" none ⟨"x = ('\\'\x7d', [1]) # )\n", 6⟩,
        ⟨"$EXEC\x7bx = ('\\'\x7d', [1]) # )\n\x7d;", 0⟩⟩] := by
    decide +kernel
  have agree := lexemes_agree_with_scan _ _ scanned _ (List.mem_singleton_self _) _
    (.inr ⟨_, _, rfl⟩) true 6
  have reads : (lexemes true 6 "x = ('\\'\x7d', [1]) # )\n").toOption.isSome := by
    decide +kernel
  cases found : lexemes true 6 "x = ('\\'\x7d', [1]) # )\n" with
  | error error =>
    rw [found] at reads
    contradiction
  | ok tokens => exact ⟨tokens, rfl, agree.2 tokens found⟩

end ModelWeaver.Snippet
