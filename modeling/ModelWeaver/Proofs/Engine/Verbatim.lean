import ModelWeaver.Proofs.Document.Partition
import ModelWeaver.Proofs.Engine.Constructs

/-!
# Model text is copied

A document is expanded region by region. Text that is no construct reaches the output as it
stands, and a construct is replaced by what it alone has produced. `splice` says what the
output is from the regions and the fragments, and `Extends` carries it along the regions.
-/

namespace ModelWeaver

open Document

/-! ## Fragments in their places -/

/-- What the constructs among some regions produce, one after the other. -/
def dispatchAll (regions : List Region) : Action Session (List Fragment) :=
  (regions.filter Region.isEvaluated).mapM Session.dispatch

/-- The text of some regions with a fragment in place of each construct: its declarations,
and then its model text. -/
def splice : List Region → List Fragment → String
  | [], _ => ""
  | region :: regions, fragments =>
    if region.isEvaluated then
      match fragments with
      | fragment :: fragments => fragment.defs ++ fragment.model ++ splice regions fragments
      | [] => ""
    else region.text ++ splice regions fragments

variable {region : Region}

theorem splice_cons_copied (copied : region.isEvaluated = false) (regions : List Region)
    (fragments : List Fragment) :
    splice (region :: regions) fragments = region.text ++ splice regions fragments := by
  rw [splice.eq_def]
  exact if_neg (by simp [copied])

theorem splice_cons_evaluated (evaluated : region.isEvaluated = true) (regions : List Region)
    (fragment : Fragment) (fragments : List Fragment) :
    splice (region :: regions) (fragment :: fragments) =
      fragment.defs ++ fragment.model ++ splice regions fragments := by
  rw [splice.eq_def]
  exact if_pos evaluated

theorem splice_of_copied {regions : List Region}
    (copied : ∀ region ∈ regions, region.isEvaluated = false) (fragments : List Fragment) :
    splice regions fragments = String.join (regions.map Region.text) := by
  induction regions with
  | nil => rfl
  | cons region regions ih =>
    obtain ⟨first, others⟩ := List.forall_mem_cons.mp copied
    rw [splice_cons_copied first, ih others, List.map_cons, String.join_cons]

theorem dispatch_clears (region : Region) (session : Session) (buffers : Fragment) :
    Session.dispatch region { session with context := { session.context with buffers } } =
      Session.dispatch region session := rfl

/-! ## Assemblies that grow -/

namespace Document.Assembly

/-- A text was added to the output, and nothing else has changed. -/
structure Extends (first : Assembly) (text : String) (second : Assembly) : Prop where
  layout : second.layout = first.layout
  data : second.data = first.data
  output : second.output = first.output ++ text.toList

variable {first second third : Assembly} {text rest : String}

theorem Extends.refl (assembly : Assembly) : assembly.Extends "" assembly :=
  ⟨rfl, rfl, by simp⟩

theorem Extends.trans (start : first.Extends text second) (later : second.Extends rest third) :
    first.Extends (text ++ rest) third where
  layout := later.layout.trans start.layout
  data := later.data.trans start.data
  output := by rw [later.output, start.output, String.toList_append, List.append_assoc]

theorem output_cons (assembly : Assembly) (piece : Piece) :
    output { assembly with pieces := piece :: assembly.pieces } =
      assembly.output ++ piece.text := by
  simp [output]

theorem extends_code (assembly : Assembly) (text : String) :
    assembly.Extends text (assembly.code text) :=
  ⟨rfl, rfl, output_cons assembly _⟩

theorem extends_literal (assembly : Assembly) (text : String) :
    assembly.Extends text (assembly.literal text) :=
  ⟨rfl, rfl, output_cons assembly _⟩

theorem extends_blockComment {assembly : Assembly} (plain : assembly.layout.echo = false)
    (text : String) : assembly.Extends text (assembly.blockComment text) := by
  rw [blockComment, plain]
  exact extends_literal assembly text

theorem fragment_layout (assembly : Assembly) (source : String) (fragment : Fragment) :
    (assembly.fragment source fragment).layout = assembly.layout := by
  rw [Assembly.fragment]
  split
  · rfl
  · split <;> rfl

theorem extends_fragment {assembly : Assembly} (plain : assembly.layout.echo = false)
    (source : String) {fragment : Fragment} (dataless : fragment.data = "") :
    assembly.Extends (fragment.defs ++ fragment.model) (assembly.fragment source fragment) := by
  rw [Assembly.fragment, plain, dataless]
  have extended := extends_literal assembly ("" ++ fragment.defs ++ fragment.model)
  rw [String.empty_append] at extended
  exact extended

theorem Extends.finish_eq (extended : first.Extends text second) (empty : first.output = [])
    (dataless : first.data = "") : second.finish = text := by
  rw [finish, extended.data, dataless, extended.output, empty]
  exact String.ofList_toList

end Document.Assembly

/-! ## Regions of a document -/

section

variable {region : Region} {assembly : Assembly} (source : String)

/-- Text that is no construct is added as it stands. -/
theorem expandRegion_of_copied (copied : region.isEvaluated = false)
    (plain : assembly.layout.echo = false) :
    ∃ next, expandRegion source assembly region = pure next ∧
      assembly.Extends region.text next := by
  rw [expandRegion]
  rw [Region.isEvaluated] at copied
  generalize region.kind = kind at copied ⊢
  cases kind with
  | literal => exact ⟨_, rfl, Assembly.extends_code assembly region.text⟩
  | quoted => exact ⟨_, rfl, Assembly.extends_literal assembly region.text⟩
  | comment =>
    refine ⟨_, rfl, ?_⟩
    split
    · exact Assembly.extends_blockComment plain region.text
    · exact Assembly.extends_literal assembly region.text
  | inline | command => cases copied

theorem expandRegion_of_evaluated (evaluated : region.isEvaluated = true) :
    expandRegion source assembly region = (do
      let fragment ← located source region (Session.dispatch region)
      return assembly.fragment region.text fragment) := by
  rw [expandRegion]
  rw [Region.isEvaluated] at evaluated
  generalize region.kind = kind at evaluated ⊢
  cases kind with
  | inline | command => rfl
  | literal | quoted | comment => cases evaluated

end

theorem dispatchAll_cons_copied (copied : region.isEvaluated = false) (regions : List Region) :
    dispatchAll (region :: regions) = dispatchAll regions := by
  rw [dispatchAll, List.filter_cons_of_neg (by simp [copied]), dispatchAll]

theorem dispatchAll_cons_evaluated (evaluated : region.isEvaluated = true) (regions : List Region) :
    dispatchAll (region :: regions) = (do
      let fragment ← Session.dispatch region
      return fragment :: (← dispatchAll regions)) := by
  rw [dispatchAll, List.filter_cons_of_pos evaluated, List.mapM_cons, dispatchAll]

theorem length_dispatchAll {regions : List Region} {session : Session} {fragments : List Fragment}
    (run : outcome (dispatchAll regions) session = .ok fragments) :
    fragments.length = regions.countP Region.isEvaluated := by
  induction regions generalizing session fragments with
  | nil =>
    cases run
    rfl
  | cons region regions ih =>
    cases kind : region.isEvaluated with
    | false =>
      rw [dispatchAll_cons_copied kind] at run
      rw [List.countP_cons_of_neg (by simp [kind]), ih run]
    | true =>
      rw [dispatchAll_cons_evaluated kind] at run
      obtain ⟨fragment, middle, _, later⟩ := exists_of_outcome_bind run
      obtain ⟨others, final, dispatched, returned⟩ := exists_of_outcome_bind later
      cases returned
      rw [List.countP_cons_of_pos kind, List.length_cons, ih]
      rw [outcome, dispatched]

/-- A document is expanded if all of its constructs are, and then the session ends in the
same way. If no data arise, the regions add their text with the fragments in it. -/
theorem foldlM_expandRegion (source : String) (regions : List Region) (assembly : Assembly)
    (session : Session) (plain : assembly.layout.echo = false) :
    match dispatchAll regions session with
    | .ok fragments final =>
      ∃ expanded,
        regions.foldlM (expandRegion source) assembly session = .ok expanded final ∧
        ((∀ fragment ∈ fragments, fragment.data = "") →
          assembly.Extends (splice regions fragments) expanded)
    | .error _ final =>
      ∃ fault, regions.foldlM (expandRegion source) assembly session = .error fault final := by
  induction regions generalizing assembly session with
  | nil => exact ⟨assembly, rfl, fun _ => .refl assembly⟩
  | cons region regions ih =>
    rw [List.foldlM_cons]
    cases kind : region.isEvaluated with
    | false =>
      obtain ⟨next, step, extended⟩ := expandRegion_of_copied source kind plain
      rw [step, dispatchAll_cons_copied kind, pure_bind]
      have rest := ih next session (extended.layout ▸ plain)
      cases run : dispatchAll regions session with
      | error failure final =>
        rw [run] at rest
        exact rest
      | ok fragments final =>
        rw [run] at rest
        obtain ⟨expanded, folded, added⟩ := rest
        refine ⟨expanded, folded, fun dataless => ?_⟩
        rw [splice_cons_copied kind]
        exact extended.trans (added dataless)
    | true =>
      rw [expandRegion_of_evaluated source kind, dispatchAll_cons_evaluated kind]
      cases produced : Session.dispatch region session with
      | error failure final =>
        simp only [bind, EStateM.bind, located, produced]
        exact ⟨_, rfl⟩
      | ok fragment middle =>
        simp only [bind, EStateM.bind, located, produced]
        have rest := ih (assembly.fragment region.text fragment) middle
          (by rw [Assembly.fragment_layout, plain])
        cases run : dispatchAll regions middle with
        | error failure final =>
          rw [run] at rest
          exact rest
        | ok fragments final =>
          rw [run] at rest
          obtain ⟨expanded, folded, added⟩ := rest
          refine ⟨expanded, folded, fun dataless => ?_⟩
          obtain ⟨first, others⟩ := List.forall_mem_cons.mp dataless
          rw [splice_cons_evaluated kind]
          exact (Assembly.extends_fragment plain region.text first).trans (added others)

/-! ## Whole documents -/

theorem Document.Written.dollar_mem {start : Nat} {kind : Region.Kind} {piece : List Char}
    {source : Text.Excerpt} (written : Written start kind piece)
    (evaluated : Region.isEvaluated ⟨kind, source⟩ = true) : '$' ∈ piece := by
  cases written with
  | quoted | comment | literal => cases evaluated
  | inline | command | indexed => exact List.mem_cons_self

/-- A document without `$` is cut into regions, and none of them is a construct. -/
theorem Document.scan_without_dollar {source : String} (absent : '$' ∉ source.toList) :
    ∃ regions, scan source = .ok regions ∧
      ∀ region ∈ regions, region.isEvaluated = false := by
  have ends := scan_cuts source
  cases scanned : scan source with
  | error error =>
    rw [scanned] at ends
    obtain ⟨dollar, stands, _⟩ := ends
    exact absurd (stands.subset List.mem_cons_self) absent
  | ok regions =>
    rw [scanned] at ends
    refine ⟨regions, rfl, fun region mem => Bool.eq_false_iff.mpr fun evaluated => ?_⟩
    obtain ⟨kind, piece, start, rfl, _, written, stands⟩ := Cuts.exists_piece [] ends mem
    exact absent (stands.subset (written.dollar_mem evaluated))

namespace Engine

variable {layout : Layout} {source : String} {regions : List Region}

/-- What is expanded is finished if nothing fails. -/
theorem outcome_expand_eq (engine : Engine) (layout : Layout)
    (scanned : scan source = .ok regions) :
    outcome (expand layout source) engine =
      (outcome (regions.foldlM (expandRegion source) { layout }) engine.opening).map
        Assembly.finish := by
  have finished : expandRegions source layout regions engine.opening =
      EStateM.bind (regions.foldlM (expandRegion source) { layout })
        (fun assembly => pure assembly.finish) engine.opening := rfl
  simp only [outcome, expand_of_regions engine layout scanned, finished, EStateM.bind]
  cases regions.foldlM (expandRegion source) { layout } engine.opening with
  | ok assembly session => rfl
  | error fault session => rfl

/-- A document is expanded if its constructs are. If no data arise, its output is the text of
the regions with the fragments in it. -/
theorem outcome_expand_cases (engine : Engine) (plain : layout.echo = false)
    (scanned : scan source = .ok regions) :
    match outcome (dispatchAll regions) engine.opening with
    | .ok fragments =>
      ∃ output, outcome (expand layout source) engine = .ok output ∧
        ((∀ fragment ∈ fragments, fragment.data = "") → output = splice regions fragments)
    | .error _ => ∃ fault, outcome (expand layout source) engine = .error fault := by
  have run := foldlM_expandRegion source regions { layout } engine.opening plain
  rw [outcome_expand_eq engine layout scanned]
  simp only [outcome]
  cases dispatched : dispatchAll regions engine.opening with
  | error failure final =>
    rw [dispatched] at run
    obtain ⟨fault, folded⟩ := run
    refine ⟨fault, ?_⟩
    rw [folded]
    rfl
  | ok fragments final =>
    rw [dispatched] at run
    obtain ⟨expanded, folded, added⟩ := run
    refine ⟨expanded.finish, ?_, fun dataless => (added dataless).finish_eq rfl rfl⟩
    rw [folded]
    rfl

theorem expand_of_copied (engine : Engine) (plain : layout.echo = false)
    (scanned : scan source = .ok regions)
    (copied : ∀ region ∈ regions, region.isEvaluated = false) :
    outcome (expand layout source) engine = .ok source := by
  have nothing : outcome (dispatchAll regions) engine.opening = .ok [] := by
    rw [dispatchAll, List.filter_eq_nil_iff.mpr (by simpa using copied)]
    rfl
  have run := outcome_expand_cases engine plain scanned
  rw [nothing] at run
  obtain ⟨output, expanded, outputEq⟩ := run
  have cuts := scan_cuts source
  rw [scanned] at cuts
  rw [expanded, outputEq (by simp), splice_of_copied copied, Cuts.rebuilds cuts,
    String.ofList_toList]

/-- Model text is copied. The output of a document without data is the document with each
construct replaced by what it has produced, which does not depend on what was in the buffers.
A document without constructs, such as one without a `$`, is its own output. -/
theorem expand_copies_text (engine : Engine) {layout : Layout} (plain : layout.echo = false)
    (source : String) :
    (∀ output, outcome (expand layout source) engine = .ok output →
      ∃ regions fragments,
        scan source = .ok regions ∧ Partition source regions ∧
        outcome (dispatchAll regions) engine.opening = .ok fragments ∧
        fragments.length = regions.countP Region.isEvaluated ∧
        ((∀ fragment ∈ fragments, fragment.data = "") → output = splice regions fragments)) ∧
    (∀ region session buffers,
      Session.dispatch region { session with context := { session.context with buffers } } =
        Session.dispatch region session) ∧
    (∀ regions, scan source = .ok regions → (∀ region ∈ regions, region.isEvaluated = false) →
      outcome (expand layout source) engine = .ok source) ∧
    ('$' ∉ source.toList → outcome (expand layout source) engine = .ok source) := by
  refine ⟨?_, dispatch_clears, fun _ => expand_of_copied engine plain, ?_⟩
  · intro output expanded
    have ends := scan_cuts source
    cases scanned : scan source with
    | error error =>
      simp only [outcome, expand_of_error engine layout scanned] at expanded
      cases expanded
    | ok regions =>
      rw [scanned] at ends
      have run := outcome_expand_cases engine plain scanned
      cases dispatched : outcome (dispatchAll regions) engine.opening with
      | error failure =>
        rw [dispatched] at run
        obtain ⟨fault, failed⟩ := run
        rw [failed] at expanded
        cases expanded
      | ok fragments =>
        rw [dispatched] at run
        obtain ⟨_, succeeded, outputEq⟩ := run
        cases expanded.symm.trans succeeded
        exact ⟨regions, fragments, rfl, Cuts.partition ends, dispatched,
          length_dispatchAll dispatched, outputEq⟩
  · intro absent
    obtain ⟨regions, scanned, copied⟩ := scan_without_dollar absent
    exact expand_of_copied engine plain scanned copied

/-- An expression, a quoted one, and a quote that is not closed. -/
def sampleText : String := "var x\x7b1..$\x7bn + 1\x7d$\x7d, 'a$\x7bn\x7d$'; isn't"

theorem expand_copies_text_sampleText :
    (∃ regions fragments,
      scan sampleText = .ok regions ∧ Partition sampleText regions ∧
      outcome (dispatchAll regions) (bind {} "n" (.int 2)).opening = .ok fragments ∧
      (∀ fragment ∈ fragments, fragment.data = "") ∧
      splice regions fragments = "var x\x7b1..3\x7d, 'a$\x7bn\x7d$'; isn't") ∧
    outcome (expand {} "isn't /* a") {} = .ok "isn't /* a" := by
  constructor
  · have expanded : outcome (expand {} sampleText) (bind {} "n" (.int 2)) =
        .ok "var x\x7b1..3\x7d, 'a$\x7bn\x7d$'; isn't" := by decide +kernel
    have dataless : (match scan sampleText with
        | .ok regions =>
          match outcome (dispatchAll regions) (bind {} "n" (.int 2)).opening with
          | .ok fragments => fragments.all fun fragment => fragment.data = ""
          | .error _ => false
        | .error _ => false) = true := by decide +kernel
    obtain ⟨regions, fragments, scanned, partition, dispatched, _, outputEq⟩ :=
      (expand_copies_text (bind {} "n" (.int 2)) rfl sampleText).1 _ expanded
    rw [scanned] at dataless
    simp only [dispatched, List.all_eq_true, decide_eq_true_eq] at dataless
    exact ⟨regions, fragments, scanned, partition, dispatched, dataless,
      (outputEq dataless).symm⟩
  · exact (expand_copies_text {} rfl "isn't /* a").2.2.2 (by decide +kernel)

end Engine

end ModelWeaver
