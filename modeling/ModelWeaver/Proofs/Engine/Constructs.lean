import ModelWeaver.Engine
import ModelWeaver.Proofs.Snippet.Evolution

/-!
# What a document does to a session

The constructs of a document read snippets, evaluate them and call commands. So a contract
that evaluation meets, whatever names are bound, is met by every construct and by the whole
document, if emptying the buffers meets it too.
-/

namespace ModelWeaver

open Document
open Snippet

namespace Session

theorem takeFragment_eq : takeFragment = (do
    let fragment ← inspect fun context _ => context.buffers
    clearBuffers
    return fragment) := rfl

theorem command_eq (name : String) (index : Option String) (body : Text.Excerpt) :
    command name index body =
      if name = execName then do
        if index.isSome then throw (.malformed (.indexForbidden execName))
        execute (← orUnreadable (parseStatements body.start body.text))
      else (do
        let known ← inspect fun _ registry => registry.commands.contains name
        if !known then throw (.unknownCommand name)
        let args ← orUnreadable (parseArguments body.start body.text)
        invoke name index (← evaluateArguments args)) := rfl

end Session

theorem located_eq {α : Type} (source : String) (construct : Region)
    (action : Action Session α) :
    located source construct action = action.adaptExcept
      (.ofFailure construct (Text.Location.ofOffset source construct.span.start)) := by
  funext session
  simp only [located, EStateM.adaptExcept]
  cases action session with
  | ok value final => rfl
  | error failure final => rfl

namespace Snippet.Evaluates

variable {Good : Value → Prop} {Across Within : ActionContract Session}
  (evaluates : Evaluates (fun _ => True) Good Across Within)
  (clears : Within (fun _ => True) Session.clearBuffers)
include evaluates

theorem orUnreadable {α : Type} (result : Except SyntaxError α) :
    Within (fun _ => True) (Session.orUnreadable result) := by
  cases result with
  | ok value => exact evaluates.within.pure trivial
  | error error => exact evaluates.within.throw _

theorem command (name : String) (index : Option String) (body : Text.Excerpt) :
    Within (fun _ => True) (Session.command name index body) := by
  have within := evaluates.within
  rw [Session.command_eq]
  split
  · split
    · exact within.throw_bind _ _
    · refine within.bind (evaluates.orUnreadable _) fun statements _ => ?_
      exact evaluates.execute within evaluates.widen (fun _ _ _ _ => trivial)
        fun _ _ _ _ => evaluates.bindName trivial
  · refine within.bind (evaluates.widen (evaluates.inspect _)) fun known _ => ?_
    split
    · exact within.throw_bind _ _
    · refine within.bind (evaluates.orUnreadable _) fun args _ => ?_
      refine within.bind (evaluates.widen ?_) fun args good =>
        evaluates.widen (evaluates.invoke name index good)
      exact evaluates.evalArguments 0 args (fun _ _ => trivial) Arguments.all_nil

include clears

theorem takeFragment : Within (fun _ => True) Session.takeFragment := by
  rw [Session.takeFragment_eq]
  exact evaluates.within.bind (evaluates.widen (evaluates.inspect _)) fun _ _ =>
    evaluates.within.bind clears fun _ _ => evaluates.within.pure trivial

theorem dispatch (region : Region) : Within (fun _ => True) (Session.dispatch region) := by
  have within := evaluates.within
  refine within.bind clears fun _ _ => ?_
  cases region.kind with
  | inline expression =>
    exact within.bind (evaluates.orUnreadable _) fun expr _ =>
      within.bind (evaluates.widen (evaluates.eval 0 expr fun _ _ => trivial)) fun _ _ =>
        within.bind (evaluates.takeFragment clears) fun _ _ => within.pure trivial
  | command name index body =>
    exact within.bind (evaluates.command name _ body) fun _ _ => evaluates.takeFragment clears
  | literal | quoted | comment => exact evaluates.takeFragment clears

theorem expandRegion (source : String) (assembly : Assembly) (region : Region) :
    Within (fun _ => True) (expandRegion source assembly region) := by
  rw [ModelWeaver.expandRegion]
  split
  · exact evaluates.within.pure trivial
  · exact evaluates.within.pure trivial
  · exact evaluates.within.pure trivial
  all_goals
    rw [located_eq]
    exact evaluates.within.bind
      (evaluates.within.adaptExcept _ (evaluates.dispatch clears region))
      fun _ _ => evaluates.within.pure trivial

theorem expandRegions (source : String) (layout : Layout) (regions : List Region) :
    Within (fun _ => True) (expandRegions source layout regions) := by
  have expands : Within (fun _ => True)
      (regions.foldlM (ModelWeaver.expandRegion source) { layout }) :=
    evaluates.within.foldlM trivial fun assembly _ region _ =>
      evaluates.expandRegion clears source assembly region
  exact evaluates.within.bind expands fun _ _ => evaluates.within.pure trivial

end Snippet.Evaluates

namespace Snippet.Evolves

variable {Across Within : ActionProperty Session} (evolves : Evolves (fun _ => True) Across Within)
  (clears : Within Session.clearBuffers)
include evolves clears

theorem dispatch (region : Region) : Within (Session.dispatch region) :=
  (evolves.evaluates.dispatch ⟨clears, fun _ => Yields.anything _⟩ region).1

theorem expandRegions (source : String) (layout : Layout) (regions : List Region) :
    Within (expandRegions source layout regions) :=
  (evolves.evaluates.expandRegions ⟨clears, fun _ => Yields.anything _⟩ source layout regions).1

end Snippet.Evolves

/-! ## Whole documents -/

namespace Engine

/-- The session in which an engine expands a document. -/
def opening (engine : Engine) : Session where
  context := { environment := .ofBindings engine.bindings }
  registry := engine.registry.reset
  printed := engine.printed

theorem expand_of_error (engine : Engine) (layout : Layout) {source : String}
    {error : SyntaxError} (scanned : scan source = .error error) :
    expand layout source engine =
      .error (.unreadable error (Text.Location.ofOffset source error.span.start))
        { engine with registry := engine.registry.reset } := by
  simp only [expand, scanned]
  rfl

/-- The regions of a document are expanded in a session that starts afresh. -/
theorem expand_of_regions (engine : Engine) (layout : Layout) {source : String}
    {regions : List Region} (scanned : scan source = .ok regions) :
    expand layout source engine =
      match expandRegions source layout regions engine.opening with
      | .ok output session =>
        .ok output
          { engine with registry := session.registry.complete, printed := session.printed }
      | .error fault session =>
        .error fault
          { engine with registry := session.registry, printed := session.printed } := by
  have run : expand layout source engine =
      EStateM.bind
        (inSession { environment := .ofBindings engine.bindings }
          (expandRegions source layout regions))
        (fun output => do
          modifyRegistry Registry.complete
          return output)
        { engine with registry := engine.registry.reset } := by
    simp only [expand, scanned]
    rfl
  rw [run, EStateM.bind, inSession, opening]
  cases expandRegions source layout regions
      ⟨{ environment := .ofBindings engine.bindings }, engine.registry.reset, engine.printed⟩ with
  | ok output session => rfl
  | error fault session => rfl

end Engine

end ModelWeaver
