import ModelWeaver.Proofs.Engine.Verbatim
import ModelWeaver.Proofs.Text.Trimming

/-!
# Comments that show constructs

On request every construct is shown in a comment in front of what it produced, and block comments
are marked as ignored. The text is trimmed at its ends and put between `/*` and `*/`, which makes a
comment as long as no `*/` is left inside.

None is left of a block comment, which ends with its first `*/`. A construct may have one anywhere
between its brackets, and trimming does not reach there.
-/

namespace ModelWeaver.Document

open Text

/-! ## Block comments -/

/-- What ends a block comment. -/
def terminator : List Char := ['*', '/']

/-- A text is a single block comment: the first terminator after the opening is its end. -/
def IsComment (text : List Char) : Prop :=
  ∃ rest, text = '/' :: '*' :: rest ∧ terminator <:+ rest ∧
    ∀ before after, rest = before ++ terminator ++ after → after = []

variable {text front : List Char} {c : Char}

/-- What the scanner takes up to the first terminator makes a comment. -/
theorem isComment_of_blockExtent? {extent : Nat} (found : blockExtent? text = some extent) :
    IsComment ('/' :: '*' :: text.take extent) := by
  suffices ends : terminator <:+ text.take extent ∧
      ∀ before after, text.take extent = before ++ terminator ++ after → after = [] from
    ⟨_, rfl, ends⟩
  induction text using blockExtent?.induct generalizing extent with
  | case1 rest =>
    cases found
    refine ⟨List.suffix_rfl, fun before after split => ?_⟩
    have lengths := congrArg List.length split
    simp only [terminator, List.length_append, List.take_succ_cons, List.take_zero,
      List.length_cons, List.length_nil] at lengths
    exact List.length_eq_zero_iff.mp (by omega)
  | case2 c rest different ih =>
    rw [blockExtent?] at found
    · obtain ⟨inner, foundInner, rfl⟩ := Option.map_eq_some_iff.mp found
      obtain ⟨ends, first⟩ := ih foundInner
      rw [List.take_succ_cons]
      refine ⟨ends.trans (List.suffix_cons _ _), fun before after split => ?_⟩
      cases before with
      | cons b before => exact first before after (List.cons.inj split).2
      | nil =>
        -- A terminator right here would have been found first.
        obtain ⟨rfl, restEq⟩ := List.cons.inj split
        have split := List.take_append_drop inner rest
        rw [restEq] at split
        exact (different _ rfl split.symm).elim
    · exact different
  | case3 => cases found

theorem pair_infix_of_append {a b : Char} (absent : a ∉ front) (found : [a, b] <:+: front ++ text) :
    [a, b] <:+: text := by
  induction front with
  | nil => exact found
  | cons c front ih =>
    rcases List.infix_cons_iff.mp found with starts | inside
    · have first : a = c := (List.cons_prefix_cons.mp starts).1
      exact absurd (first ▸ List.mem_cons_self) absent
    · exact ih (fun mem => absent (List.mem_cons_of_mem c mem)) inside

/-- Text without the characters of a terminator can be cut off from both ends. -/
theorem terminator_infix_iff {back : List Char} (noStar : '*' ∉ front) (noSlash : '/' ∉ back) :
    terminator <:+: front ++ text ++ back ↔ terminator <:+: text := by
  constructor
  · intro found
    rw [List.append_assoc] at found
    have behind : terminator <:+: text ++ back := pair_infix_of_append noStar found
    rw [← List.reverse_infix, List.reverse_append] at behind
    have reversed : ['/', '*'] <:+: text.reverse :=
      pair_infix_of_append (fun mem => noSlash (List.mem_reverse.mp mem)) behind
    exact List.reverse_infix.mp reversed
  · rintro ⟨before, after, rfl⟩
    exact ⟨front ++ before, after ++ back, by simp⟩

/-- A text between the delimiters of a comment makes a comment if it has no terminator. -/
theorem isComment_iff {body : List Char} :
    IsComment ('/' :: '*' :: (body ++ terminator)) ↔ ¬ terminator <:+: body := by
  constructor
  · rintro ⟨rest, textEq, _, first⟩ ⟨before, after, rfl⟩
    cases textEq
    have nothing := first before (after ++ terminator) (by simp)
    simp [terminator] at nothing
  · intro clean
    refine ⟨_, rfl, List.suffix_append _ _, fun before after split => ?_⟩
    by_contra more
    -- The terminator at the end is another one, and the two do not overlap.
    obtain ⟨after, slash, rfl⟩ := (List.eq_nil_or_concat' after).resolve_left more
    have snoc : body ++ ['*'] ++ ['/'] = before ++ terminator ++ after ++ [slash] := by
      simpa [terminator] using split
    have shorter := (List.append_inj' snoc rfl).1
    rcases List.eq_nil_or_concat' after with rfl | ⟨after, star, rfl⟩
    · have last := congrArg List.getLast? shorter
      simp [terminator] at last
    · rw [← List.append_assoc] at shorter
      exact clean ⟨before, after, (List.append_inj' shorter rfl).1.symm⟩

/-! ## Constructs as they are scanned -/

/-- A construct starts with `$` and a character that is not trimmed, and ends with a brace, a
gap and its mark. -/
def IsConstruct (text : List Char) : Prop :=
  ∃ front space last, text = '$' :: (front ++ '}' :: (space ++ [last])) ∧
    (∀ c ∈ front.head?, Assembly.isMarkerEdge c = false) ∧
    (∀ c ∈ space, isGap c = true) ∧ (last = ';' ∨ last = '$')

theorem ClosedAt.isConstruct {extent : Nat} (closed : ClosedAt (c :: text) extent)
    (stays : Assembly.isMarkerEdge c = false) : IsConstruct ('$' :: (c :: text).take extent) := by
  obtain ⟨front, space, last, rest, textEq, rfl, gap, mark⟩ := closed
  refine ⟨front, space, last, by rw [textEq, List.take_left], fun d first => ?_, gap, mark⟩
  cases front with
  | nil => cases first
  | cons d' front =>
    cases first
    rwa [← (List.cons.inj textEq).1]

theorem isMarkerEdge_iff :
    Assembly.isMarkerEdge c = true ↔
      c = '/' ∨ c = '*' ∨ c = '#' ∨ c = '$' ∨ c = ';' ∨ c = ' ' := by
  simp [Assembly.isMarkerEdge]

theorem isMarkerEdge_of_isNameStart (starts : isNameStart c = true) :
    Assembly.isMarkerEdge c = false := by
  by_contra edge
  rw [Bool.not_eq_false, isMarkerEdge_iff] at edge
  rcases edge with rfl | rfl | rfl | rfl | rfl | rfl <;> revert starts <;> decide

theorem isConstruct_of_scanConstruct {start : Nat} {found : Found}
    (scanned : scanConstruct start text = .ok (some found)) :
    IsConstruct ('$' :: text.take found.extent) := by
  have ends := scanConstruct_ends start text
  rw [scanned] at ends
  obtain ⟨-, closed, opens⟩ := ends found rfl
  cases text with
  | nil => cases scanned
  | cons c text =>
    refine closed.isConstruct ?_
    rcases opens c rfl with rfl | starts
    · decide
    · exact isMarkerEdge_of_isNameStart starts

/-! ## Regions as they are scanned -/

/-- What the text of a region can be. -/
def Shaped (kind : Region.Kind) (text : List Char) : Prop :=
  kind = .literal ∨ kind = .quoted ∨ (kind = .comment ∧ text.head? = some '#') ∨
    (kind = .comment ∧ IsComment text) ∨ IsConstruct text

theorem recognise_shaped {start : Nat} {found : Found}
    (recognised : recognise start c text = .ok (some found)) :
    Shaped found.kind (c :: text.take found.extent) := by
  unfold recognise at recognised
  split at recognised
  · obtain ⟨extent, _, rfl⟩ := Option.map_eq_some_iff.mp (Except.ok.inj recognised)
    exact .inr (.inl rfl)
  · split at recognised
    · rename_i isHash
      cases recognised
      exact .inr (.inr (.inl ⟨rfl, congrArg some isHash⟩))
    · split at recognised
      · rename_i isSlash
        subst isSlash
        split at recognised
        · obtain ⟨extent, blockEnd, rfl⟩ :=
            Option.map_eq_some_iff.mp (Except.ok.inj recognised)
          exact .inr (.inr (.inr (.inl ⟨rfl, isComment_of_blockExtent? blockEnd⟩)))
        · cases recognised
      · split at recognised
        · rename_i isDollar
          subst isDollar
          exact .inr (.inr (.inr (.inr (isConstruct_of_scanConstruct recognised))))
        · cases recognised

theorem flush_shaped {pending : List Char} {stop : Nat} {regions : List Region}
    (shaped : ∀ region ∈ regions, Shaped region.kind region.text.toList) :
    ∀ region ∈ flush pending stop regions, Shaped region.kind region.text.toList := by
  rw [flush]
  split
  · exact shaped
  · exact List.forall_mem_cons.mpr ⟨.inl rfl, shaped⟩

theorem scanFrom_shaped (offset : Nat) (pending text : List Char) :
    Ends (scanFrom offset pending text)
      (fun regions => ∀ region ∈ regions, Shaped region.kind region.text.toList)
      fun _ => True := by
  induction offset, pending, text using scanFrom.induct with
  | case1 offset pending =>
    rw [scanFrom]
    exact flush_shaped (List.forall_mem_nil _)
  | case2 offset pending c text error recognised =>
    rw [scanFrom, recognised]
    trivial
  | case3 offset pending c text recognised ih =>
    rw [scanFrom, recognised]
    exact ih
  | case4 offset pending c text found recognised taken ih =>
    rw [scanFrom, recognised]
    apply Ends.bind ih
    intro regions shaped
    refine flush_shaped (List.forall_mem_cons.mpr ⟨?_, shaped⟩)
    rw [Region.text, String.toList_ofList]
    exact recognise_shaped recognised

section

variable {source : String} {regions : List Region} {region : Region}

theorem shaped_of_scan (scanned : scan source = .ok regions) (mem : region ∈ regions) :
    Shaped region.kind region.text.toList := by
  have ends := scanFrom_shaped 0 [] source.toList
  rw [← scan, scanned] at ends
  exact ends region mem

/-- A block comment goes up to its first terminator. -/
theorem isComment_of_scan (scanned : scan source = .ok regions) (mem : region ∈ regions)
    (comment : region.kind = .comment) (block : isBlockComment region.text = true) :
    IsComment region.text.toList := by
  rw [isBlockComment] at block
  have shaped := shaped_of_scan scanned mem
  generalize region.text.toList = text at block shaped
  rcases shaped with kind | kind | ⟨-, hash⟩ | ⟨-, isComment⟩ | isConstruct
  · cases kind.symm.trans comment
  · cases kind.symm.trans comment
  · obtain ⟨rest, rfl⟩ := List.head?_eq_some_iff.mp hash
    cases block
  · exact isComment
  · obtain ⟨_, _, _, rfl, -⟩ := isConstruct
    cases block

theorem isConstruct_of_scan (scanned : scan source = .ok regions) (mem : region ∈ regions)
    (evaluated : region.isEvaluated = true) : IsConstruct region.text.toList := by
  rw [Region.isEvaluated] at evaluated
  have shaped := shaped_of_scan scanned mem
  generalize region.kind = kind at evaluated shaped
  rcases shaped with rfl | rfl | ⟨rfl, -⟩ | ⟨rfl, -⟩ | isConstruct
  · cases evaluated
  · cases evaluated
  · cases evaluated
  · cases evaluated
  · exact isConstruct

end

/-! ## What trimming leaves -/

theorem prefix_of_not_mem {rest before after : List Char}
    (same : front ++ rest = before ++ c :: after) (absent : c ∉ front) : front <+: before := by
  rcases List.append_eq_append_iff.mp same with ⟨between, beforeEq, -⟩ | ⟨between, rfl, restEq⟩
  · exact ⟨between, beforeEq.symm⟩
  · cases between with
    | nil => exact ⟨[], by simp⟩
    | cons d between =>
      cases restEq
      exact absurd (by simp) absent

/-- A comment is trimmed beyond its opening, and at least the end of its terminator is
trimmed off. -/
theorem IsComment.trimmed (comment : IsComment text) :
    ¬ terminator <:+: trimBy Assembly.isMarkerEdge text := by
  rintro ⟨before, after, inside⟩
  obtain ⟨rest, rfl, -, first⟩ := comment
  have slash : (before ++ terminator ++ after).getLast? ≠ some '/' := fun last =>
    absurd (trimBy_getLast? (inside ▸ last)) (by decide)
  have stays {c : Char} (head : (before ++ terminator ++ after).head? = some c) :
      Assembly.isMarkerEdge c = false := trimBy_head? (inside ▸ head)
  obtain ⟨front, back, textEq, -, -⟩ :=
    exists_trimBy Assembly.isMarkerEdge ('/' :: '*' :: rest)
  rw [← inside, List.append_assoc] at textEq
  have split : ∃ front, rest = front ++ (before ++ terminator ++ after ++ back) := by
    rcases List.append_eq_append_iff.mp (show ['/', '*'] ++ rest = _ from textEq) with
      ⟨front, -, restEq⟩ | ⟨opening, openingEq, restEq⟩
    · exact ⟨front, restEq⟩
    · cases opening with
      | nil => exact ⟨[], restEq.symm⟩
      | cons c opening =>
        -- The trimmed text would start with a character of the opening.
        have head : (before ++ terminator ++ after).head? = some c := by
          have heads := congrArg List.head? restEq
          rwa [List.head?_append_of_ne_nil _ (by simp [terminator])] at heads
        have opens : c ∈ ['/', '*'] := openingEq ▸ by simp
        have edge : Assembly.isMarkerEdge c = true :=
          isMarkerEdge_iff.mpr (by simp at opens; tauto)
        rw [stays head] at edge
        cases edge
  obtain ⟨front, restEq⟩ := split
  have nothing := first (front ++ before) (after ++ back) (by simpa using restEq)
  obtain ⟨rfl, -⟩ := List.append_eq_nil_iff.mp nothing
  exact slash (by simp [terminator])

/-- Trimming a construct takes off what marks its ends, and nothing that could be part of a
terminator. -/
theorem IsConstruct.trimmed_iff (isConstruct : IsConstruct text) :
    terminator <:+: trimBy Assembly.isMarkerEdge text ↔ terminator <:+: text := by
  obtain ⟨start, space, last, textEq, first, gap, mark⟩ := isConstruct
  obtain ⟨front, back, trimmedEq, frontDropped, backDropped⟩ :=
    exists_trimBy Assembly.isMarkerEdge text
  generalize trimBy Assembly.isMarkerEdge text = core at trimmedEq
  have absent {c : Char} {cs : List Char} (stays : Assembly.isMarkerEdge c = false)
      (dropped : ∀ c ∈ cs, Assembly.isMarkerEdge c = true) : c ∉ cs := fun mem => by
    rw [dropped c mem] at stays
    cases stays
  have brace : Assembly.isMarkerEdge '}' = false := by decide
  have noStar : '*' ∉ front := by
    obtain ⟨d, more, startEq, stays⟩ : ∃ d more, start ++ '}' :: (space ++ [last]) = d :: more ∧
        Assembly.isMarkerEdge d = false := by
      cases start with
      | nil => exact ⟨_, _, rfl, brace⟩
      | cons d start => exact ⟨_, _, rfl, first d rfl⟩
    have split : front ++ (core ++ back) = ['$'] ++ d :: more := by
      rw [← List.append_assoc, ← trimmedEq, textEq, startEq]
      rfl
    have opening := prefix_of_not_mem split (absent stays frontDropped)
    exact fun star => absurd (opening.subset star) (by decide)
  have noSlash : '/' ∉ back := by
    have split : back.reverse ++ (front ++ core).reverse =
        (space ++ [last]).reverse ++ '}' :: ('$' :: start).reverse := by
      rw [← List.reverse_append, ← trimmedEq, textEq]
      simp
    have closing := prefix_of_not_mem split
      (absent brace fun c mem => backDropped c (List.mem_reverse.mp mem))
    intro slash
    have mem := closing.subset (List.mem_reverse.mpr slash)
    rw [List.mem_reverse, List.mem_append, List.mem_singleton] at mem
    rcases mem with inGap | rfl
    · exact absurd (gap '/' inGap) (by decide)
    · exact absurd mark (by decide)
  rw [trimmedEq, terminator_infix_iff noStar noSlash]

/-! ## Markers -/

theorem isComment_marker_iff {title text : String} (noStar : '*' ∉ title.toList) :
    IsComment (Assembly.marker title text).toList ↔
      ¬ terminator <:+: trimBy Assembly.isMarkerEdge text.toList := by
  have markerEq : (Assembly.marker title text).toList =
      '/' :: '*' :: ((title.toList ++ [':'] ++
        trimBy Assembly.isMarkerEdge text.toList ++ []) ++ terminator) := by
    simp [Assembly.marker, terminator]
  rw [markerEq, isComment_iff, terminator_infix_iff _ List.not_mem_nil]
  simpa using noStar

namespace Assembly

/-- The same output in the making, with constructs shown or not. -/
def withEcho (assembly : Assembly) (echo : Bool) : Assembly :=
  { assembly with layout := { assembly.layout with echo } }

theorem withEcho_self {assembly : Assembly} {echo : Bool} (same : assembly.layout.echo = echo) :
    assembly.withEcho echo = assembly := by
  subst same
  rfl

/-- What a construct has produced is added in the same way with its marker and without. -/
theorem output_fragment (assembly : Assembly) (source : String) (produced : Fragment) :
    ∃ written, ∀ echo, ((assembly.withEcho echo).fragment source produced).output =
      assembly.output ++ (if echo then (marker "EVALUATED" source).toList else []) ++ written := by
  cases dataless : produced.data.isEmpty with
  | true =>
    refine ⟨produced.defs.toList ++ produced.model.toList, fun echo => ?_⟩
    cases echo <;> simp [withEcho, fragment, dataless, literal, output]
  | false =>
    cases mode : assembly.layout.dataMode with
    | inline =>
      refine ⟨produced.defs.toList ++ produced.model.toList ++
        (";data;" ++ produced.data ++ "model;").toList, fun echo => ?_⟩
      cases echo <;> simp [withEcho, fragment, dataless, mode, literal, output]
    | consolidated =>
      refine ⟨produced.defs.toList ++ produced.model.toList, fun echo => ?_⟩
      cases echo <;> simp [withEcho, fragment, dataless, mode, literal, output]

end Assembly

/-- Constructs that are shown leave the rest of the output as it is. The marker of a block
comment is always a comment, and that of a construct is one if and only if the construct has no
`*/` in it. -/
theorem echo_isComment_iff {source : String} {regions : List Region}
    (scanned : scan source = .ok regions) {region : Region} (member : region ∈ regions)
    {assembly : Assembly} (echo : assembly.layout.echo = true) :
    (region.kind = .comment → isBlockComment region.text = true →
      IsComment (Assembly.marker "IGNORED" region.text).toList ∧
      ∃ next, expandRegion source assembly region = pure next ∧
        assembly.Extends (Assembly.marker "IGNORED" region.text) next) ∧
    (region.isEvaluated = true →
      (IsComment (Assembly.marker "EVALUATED" region.text).toList ↔
        ¬ terminator <:+: region.text.toList) ∧
      ∀ session next after, expandRegion source assembly region session = .ok next after →
        ∃ quiet written,
          expandRegion source (assembly.withEcho false) region session = .ok quiet after ∧
          quiet.output = assembly.output ++ written ∧
          next.output =
            assembly.output ++ (Assembly.marker "EVALUATED" region.text).toList ++ written) := by
  refine ⟨fun comment block => ⟨?_, ?_⟩, fun evaluated => ⟨?_, ?_⟩⟩
  · rw [isComment_marker_iff (by decide)]
    exact (isComment_of_scan scanned member comment block).trimmed
  · refine ⟨assembly.blockComment region.text, ?_, ?_⟩
    · rw [expandRegion, comment]
      exact congrArg pure (if_pos block)
    · rw [Assembly.blockComment, if_pos echo]
      exact Assembly.extends_literal assembly _
  · rw [isComment_marker_iff (by decide),
      (isConstruct_of_scan scanned member evaluated).trimmed_iff]
  · intro session next after expanded
    rw [expandRegion_of_evaluated source evaluated] at expanded
    obtain ⟨produced, middle, dispatched, returned⟩ := exists_of_bind_eq_ok expanded
    cases returned
    obtain ⟨written, output⟩ := assembly.output_fragment region.text produced
    refine ⟨(assembly.withEcho false).fragment region.text produced, written, ?_, ?_, ?_⟩
    · rw [expandRegion_of_evaluated source evaluated]
      exact bind_of_eq_ok dispatched _
    · simpa using output false
    · have shown := output true
      rwa [assembly.withEcho_self echo, if_pos rfl] at shown

/-- A block comment with stars and slashes, right before a construct with a star in a
string. -/
def starred : String := "/**a/b**/$EXEC\x7bx = '*'\x7d;"

theorem echo_isComment_iff_starred :
    ∃ note call, scan starred = .ok [note, call] ∧
      Assembly.marker "IGNORED" note.text = "/*IGNORED:a/b*/" ∧
      IsComment (Assembly.marker "IGNORED" note.text).toList ∧
      Assembly.marker "EVALUATED" call.text = "/*EVALUATED:EXEC\x7bx = '*'\x7d*/" ∧
      IsComment (Assembly.marker "EVALUATED" call.text).toList := by
  let note : Region := ⟨.comment, ⟨"/**a/b**/", 0⟩⟩
  let call : Region := ⟨.command "EXEC" none ⟨"x = '*'", 15⟩, ⟨"$EXEC\x7bx = '*'\x7d;", 9⟩⟩
  have scanned : scan starred = .ok [note, call] := by decide +kernel
  let assembly : Assembly := { layout := { echo := true } }
  have echo : assembly.layout.echo = true := rfl
  have ofNote := (echo_isComment_iff scanned List.mem_cons_self echo).1
  have ofCall := (echo_isComment_iff scanned (.tail _ List.mem_cons_self) echo).2
  exact ⟨note, call, scanned, by decide +kernel, (ofNote rfl (by decide)).1, by decide +kernel,
    (ofCall rfl).1.mpr (by decide +kernel)⟩

/-- A construct that writes a comment of its own. -/
def annotated : String := "$STMT\x7b\"s.t. c: x <= 1; /* note */\"\x7d;"

/-- The marker of the construct ends with the note in it, and the rest of it is taken for
model text. -/
theorem echo_ends_early :
    ∃ region, scan annotated = .ok [region] ∧ region.isEvaluated = true ∧
      ¬ IsComment (Assembly.marker "EVALUATED" region.text).toList ∧
      outcome (Engine.expand { echo := true } annotated) {} = .ok
        "/*EVALUATED:STMT\x7b\"s.t. c: x <= 1; /* note */\"\x7d*/s.t. c: x <= 1; /* note */" := by
  refine ⟨⟨.command "STMT" none ⟨"\"s.t. c: x <= 1; /* note */\"", 6⟩, ⟨annotated, 0⟩⟩,
    by decide +kernel, rfl, ?_, by decide +kernel⟩
  rw [isComment_marker_iff (by decide), not_not]
  decide +kernel

end ModelWeaver.Document
