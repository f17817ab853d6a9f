import ModelWeaver.Proofs.Engine.Independence

/-!
# The texts that an engine keeps

An engine keeps the text that was read last, which can be expanded again, and an output. The
output is the text that a file was expanded to last. It is kept before it is written, so a file
that cannot be written leaves an output that no request has returned. Apart from that, the output
is what was returned last.

The requests of a history are listed here with the latest first.
-/

namespace ModelWeaver.Engine

open Document

/-! ## Recent texts -/

/-- The text of the most recent request that has one, or the empty text. The text of a request may
depend on the earlier ones. -/
def mostRecent (text? : List Request → Request → Option String) : List Request → String
  | [] => ""
  | request :: earlier => (text? earlier request).getD (mostRecent text? earlier)

/-- The input and the destination of a request to expand a file. -/
def Request.file? : Request → Option (Input × Destination)
  | .expandFile input destination => some (input, destination)
  | _ => none

/-- The text that an input is read to; there is none if nothing is to be read, or if it cannot be
read. -/
def Input.content? : Input → Option String
  | .file content => content
  | .last => none

/-- The text that a request reads. -/
def textRead? (request : Request) : Option String := request.file?.bind (·.1.content?)

/-- The text that a request to expand a file returns after earlier requests. -/
def textReturned? (earlier : List Request) (request : Request) : Option String :=
  request.file?.bind fun file =>
    (outcome (expandFile file.1 file.2) (served earlier.reverse)).toOption

/-- The text that a request to expand a file would return if it did not have to be written. -/
def textExpanded? (earlier : List Request) (request : Request) : Option String :=
  request.file?.bind fun file =>
    (outcome (expandFile file.1 .none) (served earlier.reverse)).toOption

/-- The text that was expanded last could not be written, and is not the one that was returned
last. -/
inductive Unwritten : List Request → Prop
  | fails {earlier : List Request} {input : Input} {text : String} :
      textExpanded? earlier (.expandFile input (.file false)) = some text →
      text ≠ mostRecent textReturned? earlier →
      Unwritten (.expandFile input (.file false) :: earlier)
  | stays {earlier : List Request} {request : Request} :
      textExpanded? earlier request = none → Unwritten earlier → Unwritten (request :: earlier)

/-- What an engine answers if a text is to be expanded. -/
def answer (engine : Engine) (text : String) (destination : Destination) : Except Fault String := do
  let output ← outcome (expand fileLayout text) engine
  if destination = .file false then .error .fileAccess else .ok output

/-! ## Expanding a file -/

def SameTexts (first second : Engine) : Prop :=
  second.input = first.input ∧ second.output = first.output

theorem sameTexts_expand (layout : Layout) (source : String) :
    Moves SameTexts (expand layout source) := by
  intro engine
  rw [stateAfter_of_overState (expand_eq_renewed engine layout source)]
  exact ⟨rfl, rfl⟩

theorem outcome_expand_withInput (engine : Engine) (layout : Layout) (source input : String) :
    outcome (expand layout source) { engine with input } =
      outcome (expand layout source) engine := by
  have same := outcome_of_overState (expand_eq_renewed { engine with input } layout source)
  exact same.trans (outcome_of_overState (expand_eq_renewed engine layout source)).symm

/-- The text that was read last is expanded. The output is kept before it is written. -/
theorem expandFile_last (engine : Engine) (destination : Destination) :
    outcome (expandFile .last destination) engine = engine.answer engine.input destination ∧
      (stateAfter (expandFile .last destination) engine).input = engine.input ∧
      (stateAfter (expandFile .last destination) engine).output =
        (engine.answer engine.input .none).toOption.getD engine.output := by
  have kept := sameTexts_expand fileLayout engine.input engine
  have runs : expandFile .last destination engine =
      EStateM.bind (expand fileLayout engine.input) (fun output => do
        modify fun engine => { engine with output }
        if destination = .file false then throw .fileAccess
        return output) engine := rfl
  rw [stateAfter] at kept
  rw [outcome, stateAfter, answer, answer, outcome, runs, EStateM.bind]
  cases ran : expand fileLayout engine.input engine with
  | ok output after =>
    rw [ran] at kept
    by_cases failing : destination = .file false
    · simp only [if_pos failing]
      exact ⟨rfl, kept.1, rfl⟩
    · simp only [if_neg failing]
      exact ⟨rfl, kept.1, rfl⟩
  | error fault after =>
    rw [ran] at kept
    exact ⟨rfl, kept⟩

theorem outcome_expandFile_file (engine : Engine) (text : String) (destination : Destination) :
    outcome (expandFile (.file (some text)) destination) engine =
      engine.answer text destination := by
  have ran := (expandFile_last { engine with input := text } destination).1
  rw [answer, outcome_expand_withInput] at ran
  exact ran

/-! ## What one request does -/

variable (engine : Engine)

/-- The text that is read is kept, whatever becomes of it. -/
theorem texts_expandFile (input : Input) (destination : Destination) :
    (stateAfter (expandFile input destination) engine).input = input.content?.getD engine.input ∧
      (stateAfter (expandFile input destination) engine).output =
        (outcome (expandFile input .none) engine).toOption.getD engine.output := by
  have last (engine : Engine) := (expandFile_last engine destination).2
  simp only [← (expandFile_last _ .none).1] at last
  cases input with
  | last => exact last engine
  | file content =>
    cases content with
    | none => exact ⟨rfl, rfl⟩
    | some text => exact last { engine with input := text }

/-- Only what cannot be written keeps an expanded text from being returned. -/
theorem toOption_outcome_expandFile (input : Input) (destination : Destination) :
    (outcome (expandFile input destination) engine).toOption =
      if destination = .file false then none
      else (outcome (expandFile input .none) engine).toOption := by
  have answered : ∀ text, (engine.answer text destination).toOption =
      if destination = .file false then none else (engine.answer text .none).toOption := by
    intro text
    rw [answer, answer]
    cases outcome (expand fileLayout text) engine with
    | ok output =>
      by_cases failing : destination = .file false
      · simp only [if_pos failing]
        rfl
      · simp only [if_neg failing]
        rfl
    | error fault => exact (ite_self none).symm
  cases input with
  | last =>
    rw [(expandFile_last engine _).1, (expandFile_last engine _).1]
    exact answered engine.input
  | file content =>
    cases content with
    | none => exact (ite_self none).symm
    | some text =>
      rw [outcome_expandFile_file, outcome_expandFile_file]
      exact answered text

/-- All requests but those to expand a file leave the texts as they are. -/
theorem sameTexts_serve {request : Request} (other : request.file? = none) :
    SameTexts engine (engine.serve request) := by
  cases request with
  | bind name value => exact ⟨rfl, rfl⟩
  | register name run =>
    rcases register_cases name run with refused | accepted
    · obtain ⟨failure, refused⟩ := refused engine
      simp only [serve, refused]
      exact ⟨rfl, rfl⟩
    · simp only [serve, accepted]
      exact ⟨rfl, rfl⟩
  | expand layout source => exact sameTexts_expand layout source engine
  | expandFile input destination => cases other
  | dispatch context region =>
    simp only [serve, stateAfter, inSession]
    cases Session.dispatch region ⟨context, engine.registry, engine.printed⟩ with
    | ok fragment session | error failure session => exact ⟨rfl, rfl⟩
  | extract name solution | separate name solution => exact ⟨rfl, rfl⟩

theorem input_serve (request : Request) :
    (engine.serve request).input = (textRead? request).getD engine.input := by
  cases request with
  | expandFile input destination => exact (texts_expandFile engine input destination).1
  | _ => exact (sameTexts_serve engine rfl).1

/-! ## What all requests do -/

theorem served_cons (request : Request) (earlier : List Request) :
    served (request :: earlier).reverse = (served earlier.reverse).serve request := by
  rw [served, List.reverse_cons, List.foldl_append]
  rfl

theorem input_served (log : List Request) :
    (served log.reverse).input = mostRecent (fun _ => textRead?) log := by
  induction log with
  | nil => rfl
  | cons request earlier ih => rw [served_cons, input_serve, ih, mostRecent]

theorem output_served (log : List Request) :
    (served log.reverse).output = mostRecent textExpanded? log := by
  induction log with
  | nil => rfl
  | cons request earlier ih =>
    rw [served_cons, mostRecent, ← ih]
    cases request with
    | expandFile input destination => exact (texts_expandFile _ input destination).2
    | _ => exact (sameTexts_serve _ rfl).2

theorem textReturned?_expandFile (earlier : List Request) (input : Input)
    (destination : Destination) :
    textReturned? earlier (.expandFile input destination) =
      if destination = .file false then none
      else textExpanded? earlier (.expandFile input destination) :=
  toOption_outcome_expandFile (served earlier.reverse) input destination

section Request

variable {earlier : List Request} {request : Request}

theorem textReturned?_of_none (failed : textExpanded? earlier request = none) :
    textReturned? earlier request = none := by
  cases request with
  | expandFile input destination =>
    rw [textReturned?_expandFile, failed]
    exact ite_self none
  | _ => rfl

theorem unwritten_of_none (failed : textExpanded? earlier request = none) :
    Unwritten (request :: earlier) ↔ Unwritten earlier := by
  refine ⟨?_, .stays failed⟩
  rintro (⟨expanded, -⟩ | ⟨-, before⟩)
  · cases failed.symm.trans expanded
  · exact before

/-- A text that was expanded is returned or cannot be written. -/
theorem textReturned?_of_some {text : String}
    (expanded : textExpanded? earlier request = some text) :
    (textReturned? earlier request = some text ∧ ¬Unwritten (request :: earlier)) ∨
      textReturned? earlier request = none ∧
        (Unwritten (request :: earlier) ↔ text ≠ mostRecent textReturned? earlier) := by
  cases request with
  | expandFile input destination =>
    rw [textReturned?_expandFile]
    by_cases failing : destination = .file false
    · subst failing
      refine .inr ⟨if_pos rfl, ?_, .fails expanded⟩
      rintro (⟨found, differs⟩ | ⟨failed, -⟩)
      · cases expanded.symm.trans found
        exact differs
      · cases expanded.symm.trans failed
    · refine .inl ⟨(if_neg failing).trans expanded, ?_⟩
      rintro (_ | ⟨failed, -⟩)
      · exact failing rfl
      · cases expanded.symm.trans failed
  | _ => cases expanded

end Request

/-- The text that was expanded last is the one that was returned last, unless it could not be
written. -/
theorem mostRecent_expanded_eq_returned_iff (log : List Request) :
    mostRecent textExpanded? log = mostRecent textReturned? log ↔ ¬Unwritten log := by
  induction log with
  | nil => exact iff_of_true rfl nofun
  | cons request earlier ih =>
    rw [mostRecent, mostRecent]
    cases expanded : textExpanded? earlier request with
    | none =>
      rw [textReturned?_of_none expanded, unwritten_of_none expanded]
      exact ih
    | some text =>
      rcases textReturned?_of_some expanded with ⟨returned, written⟩ | ⟨failed, unwritten⟩
      · rw [returned]
        exact iff_of_true rfl written
      · rw [failed, unwritten, not_not]
        rfl

/-- After any requests, an engine that is given no file expands the text that was read last, also
if that could not be expanded. Its output is the text that was expanded last. That is the text
that was returned last, unless it could not be written and is another one. -/
theorem engine_keeps_last_texts (log : List Request) :
    let engine := served log.reverse
    (∀ destination, outcome (expandFile .last destination) engine =
      engine.answer (mostRecent (fun _ => textRead?) log) destination) ∧
    engine.output = mostRecent textExpanded? log ∧
    (engine.output = mostRecent textReturned? log ↔ ¬Unwritten log) := by
  intro engine
  refine ⟨fun destination => ?_, output_served log, ?_⟩
  · rw [(expandFile_last _ destination).1, input_served]
  · rw [output_served]
    exact mostRecent_expanded_eq_returned_iff log

/-- The second of two texts cannot be written. It becomes the output, although the first one is
what was returned last. -/
theorem unwritten_text_is_output :
    let log : List Request :=
      [.expandFile (.file (some "var y;")) (.file false), .expandFile (.file (some "var x;")) .none]
    (served log.reverse).output = "var y;" ∧ mostRecent textReturned? log = "var x;" := by
  decide +kernel

end ModelWeaver.Engine
