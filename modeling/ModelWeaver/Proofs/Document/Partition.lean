import ModelWeaver.Proofs.Document.Enclosure
import Mathlib.Data.List.Chain

/-!
# Regions partition a document

Scanning a document either fails at a `$` or cuts the document into regions that make it up again.
The scan keeps plain text back until the next region is found, so its invariant `Cuts` speaks about
the text that is still pending together with the text not yet read.

What a region looks like is stated once for each form of construct, by `Written`; the spans of its
parts are read off from there.
-/

namespace ModelWeaver.Document

open Text

/-! ## What a partition is -/

/-- Spans that follow one another without a gap from one offset to another. -/
def Tiles : Nat → List Span → Nat → Prop
  | start, [], stop => start = stop
  | start, span :: spans, stop => span.start = start ∧ Tiles span.stop spans stop

/-- An excerpt stands in the source right between two texts. -/
def Between (source left : List Char) (excerpt : Excerpt) (right : List Char) : Prop :=
  ∃ start, excerpt.start = start + byteLength left ∧
    StandsAt source (left ++ excerpt.text.toList ++ right) start

/-- The parts of a construct stand between their delimiters, in order and
strictly inside the region, which ends with the delimiter of the construct. -/
def Delimited (source : List Char) (region : Region) : Prop :=
  match region.kind with
  | .inline expression =>
    Between source ['$', '{'] expression ['}', '$'] ∧
      expression.span.start = region.span.start + 2 ∧
      region.span.stop = expression.span.stop + 2
  | .command name index body =>
    StandsAt source ('$' :: name.toList) region.span.start ∧
      (∀ excerpt ∈ index, Between source ['['] excerpt [']'] ∧
        region.span.start + 1 < excerpt.span.start ∧
        excerpt.span.stop + 1 < body.span.start) ∧
      Between source ['{'] body ['}'] ∧
      region.span.start + 1 < body.span.start ∧
      ∃ semicolon, body.span.stop < semicolon ∧
        StandsAt source [';'] semicolon ∧ region.span.stop = semicolon + 1
  | _ => True

/-- The regions partition the document. -/
structure Partition (source : String) (regions : List Region) : Prop where
  nonempty : ∀ region ∈ regions, region.span.start < region.span.stop
  tiles : Tiles 0 (regions.map Region.span) source.utf8ByteSize
  boundaries : ∀ region ∈ regions,
    String.Pos.Raw.IsValid source ⟨region.span.start⟩ ∧
      String.Pos.Raw.IsValid source ⟨region.span.stop⟩
  inPlace : ∀ region ∈ regions,
    StandsAt source.toList region.text.toList region.span.start
  apart : regions.IsChain fun first second =>
    ¬ (first.kind = .literal ∧ second.kind = .literal)
  rebuilds : String.join (regions.map Region.text) = source
  delimited : ∀ region ∈ regions, Delimited source.toList region

/-- An error concerns bytes of the document from a `$` on. -/
structure FaultWithin (source : List Char) (error : SyntaxError) : Prop where
  atDollar : StandsAt source ['$'] error.span.start
  ordered : error.span.start ≤ error.span.stop
  within : error.span.stop ≤ byteLength source

/-! ## Constructs as they are written -/

/-- How a region of a kind is written when it starts at byte `start`. -/
inductive Written (start : Nat) : Region.Kind → List Char → Prop
  | quoted (text : List Char) : Written start .quoted text
  | comment (text : List Char) : Written start .comment text
  | literal (text : List Char) : Written start .literal text
  | inline {inner : List Char} (parts : Parts inner) :
      Written start (.inline ⟨String.ofList inner, start + 2⟩)
        ('$' :: '{' :: (inner ++ ['}', '$']))
  | command (name gap : List Char) {inner : List Char} (parts : Parts inner)
      (space : List Char) :
      Written start
        (.command (String.ofList name) none
          ⟨String.ofList inner, start + 1 + byteLength (name ++ gap) + 1⟩)
        ('$' :: (name ++ gap ++ '{' :: (inner ++ '}' :: (space ++ [';']))))
  | indexed (name gap : List Char) {index : List Char} (indexParts : Parts index)
      (middle : List Char) {inner : List Char} (parts : Parts inner) (space : List Char) :
      Written start
        (.command (String.ofList name)
          (some ⟨String.ofList index, start + 1 + byteLength (name ++ gap) + 1⟩)
          ⟨String.ofList inner, start + 1 + byteLength (name ++ gap) + 1 + byteLength index + 1 +
            byteLength middle + 1⟩)
        ('$' :: (name ++ gap ++ '[' :: (index ++ ']' :: (middle ++
          '{' :: (inner ++ '}' :: (space ++ [';']))))))

variable {start offset : Nat} {α : Type} {result : Except SyntaxError α} {good : α → Prop}
  {bad : SyntaxError → Prop}

private theorem between_of_standsAt {source before left cs right after : List Char}
    (stands : StandsAt source (before ++ (left ++ cs ++ right) ++ after) start)
    (offsetEq : offset = start + byteLength before + byteLength left) :
    Between source left ⟨String.ofList cs, offset⟩ right := by
  refine ⟨start + byteLength before, offsetEq, ?_⟩
  rw [String.toList_ofList]
  exact stands.part

private theorem standsAt_name {source name after : List Char}
    (stands : StandsAt source ('$' :: (name ++ after)) start) :
    StandsAt source ('$' :: (String.ofList name).toList) start := by
  have split : StandsAt source ([] ++ ('$' :: name) ++ after) start := stands
  rw [String.toList_ofList]
  exact split.part

/-- The delimiters of a construct stand where its spans say. -/
theorem Written.delimited {source piece : List Char} {kind : Region.Kind}
    (written : Written start kind piece) (stands : StandsAt source piece start) :
    Delimited source ⟨kind, String.ofList piece, start⟩ := by
  cases written with
  | quoted | comment | literal => trivial
  | @inline inner =>
    have braced : StandsAt source ([] ++ (['$', '{'] ++ inner ++ ['}', '$']) ++ []) start := by
      simpa using stands
    refine ⟨between_of_standsAt braced rfl, rfl, ?_⟩
    simp (disch := decide) only [Region.span, span_ofList, byteLength_cons_of_ascii,
      byteLength_append, byteLength_nil]
    omega
  | @command name gap inner _ space =>
    have named : StandsAt source ('$' :: (name ++
        (gap ++ '{' :: (inner ++ '}' :: (space ++ [';']))))) start := by
      simpa using stands
    have braced : StandsAt source ('$' :: (name ++ gap) ++ (['{'] ++ inner ++ ['}']) ++
        (space ++ [';'])) start := by
      simpa using stands
    have ended : StandsAt source ('$' :: (name ++ gap ++ '{' :: (inner ++ '}' :: space)) ++
        [';'] ++ []) start := by
      simpa using stands
    refine ⟨standsAt_name named, by simp, between_of_standsAt braced ?_, ?_,
      _, ?_, ended.part, ?_⟩
    all_goals
      simp (disch := decide) only [Region.span, span_ofList, byteLength_cons_of_ascii,
        byteLength_append, byteLength_nil]
      omega
  | @indexed name gap index _ middle inner _ space =>
    have named : StandsAt source ('$' :: (name ++ (gap ++ '[' :: (index ++ ']' ::
        (middle ++ '{' :: (inner ++ '}' :: (space ++ [';']))))))) start := by
      simpa using stands
    have squared : StandsAt source ('$' :: (name ++ gap) ++ (['['] ++ index ++ [']']) ++
        (middle ++ '{' :: (inner ++ '}' :: (space ++ [';'])))) start := by
      simpa using stands
    have braced : StandsAt source ('$' :: (name ++ gap ++ '[' :: (index ++ ']' :: middle)) ++
        (['{'] ++ inner ++ ['}']) ++ (space ++ [';'])) start := by
      simpa using stands
    have ended : StandsAt source ('$' :: (name ++ gap ++ '[' :: (index ++ ']' :: (middle ++
        '{' :: (inner ++ '}' :: space)))) ++ [';'] ++ []) start := by
      simpa using stands
    refine ⟨standsAt_name named, ?_, between_of_standsAt braced ?_, ?_, _, ?_, ended.part, ?_⟩
    · rintro excerpt ⟨⟩
      refine ⟨between_of_standsAt squared ?_, ?_, ?_⟩
      all_goals
        simp (disch := decide) only [Region.span, span_ofList, byteLength_cons_of_ascii,
          byteLength_append, byteLength_nil]
        omega
    all_goals
      simp (disch := decide) only [Region.span, span_ofList, byteLength_cons_of_ascii,
        byteLength_append, byteLength_nil]
      omega

/-! ## Recognising constructs -/

/-- What a result satisfies when it is a success and when it is a failure. -/
def Ends {α : Type} (result : Except SyntaxError α) (good : α → Prop)
    (bad : SyntaxError → Prop) : Prop :=
  match result with
  | .ok value => good value
  | .error error => bad error

theorem Ends.bind {β : Type} {next : α → Except SyntaxError β} {goodNext : β → Prop}
    (first : Ends result good bad) (second : ∀ value, good value → Ends (next value) goodNext bad) :
    Ends (result >>= next) goodNext bad := by
  cases result with
  | error error => exact first
  | ok value => exact second value first

theorem Ends.weaken {worse : SyntaxError → Prop} (ends : Ends result good bad)
    (weaker : ∀ error, bad error → worse error) : Ends result good worse := by
  cases result with
  | error error => exact weaker error ends
  | ok value => exact ends

theorem Ends.imp {fair : α → Prop} (ends : Ends result good bad)
    (fairer : ∀ value, good value → fair value) : Ends result fair bad := by
  cases result with
  | error error => exact ends
  | ok value => exact fairer value ends

/-- An error that starts with the construct and ends before some offset. -/
def FaultAt (start limit : Nat) (error : SyntaxError) : Prop :=
  error.span.start = start ∧ start ≤ error.span.stop ∧ error.span.stop ≤ limit

theorem FaultAt.mono {limit further : Nat} {error : SyntaxError} (fault : FaultAt start limit error)
    (below : limit ≤ further) : FaultAt start further error :=
  ⟨fault.1, fault.2.1, Nat.le_trans fault.2.2 below⟩

theorem Ends.further {limit further : Nat} (ends : Ends result good (FaultAt start limit))
    (below : limit ≤ further) : Ends result good (FaultAt start further) :=
  ends.weaken fun _ fault => fault.mono below

/-- What is recognised after `first` is a region as it is written, and no plain
text. -/
def Recognised (start : Nat) (first : Char) (text : List Char) (found : Found) : Prop :=
  Written start found.kind (first :: text.take found.extent) ∧ found.kind ≠ .literal

/-- So many characters of a text end with a brace, a gap and the mark that closes a
construct. -/
def ClosedAt (text : List Char) (extent : Nat) : Prop :=
  ∃ front space last rest, text = (front ++ '}' :: (space ++ [last])) ++ rest ∧
    extent = (front ++ '}' :: (space ++ [last])).length ∧
    (∀ c ∈ space, isGap c = true) ∧ (last = ';' ∨ last = '$')

private theorem recognised_of_append {start : Nat} {first last : Char}
    {text piece : List Char} {found : Found} (front space rest : List Char)
    (written : Written start found.kind (first :: piece)) (notLiteral : found.kind ≠ .literal)
    (pieceEq : piece = front ++ '}' :: (space ++ [last])) (gap : ∀ c ∈ space, isGap c = true)
    (mark : last = ';' ∨ last = '$') (split : text = piece ++ rest)
    (extentEq : found.extent = piece.length) :
    Recognised start first text found ∧ ClosedAt text found.extent := by
  subst pieceEq
  refine ⟨⟨?_, notLiteral⟩, front, space, last, rest, split, extentEq, gap, mark⟩
  rw [split, extentEq, List.take_left]
  exact written

theorem enclosed_ends (before : start ≤ offset) (outer : Bracket) (text : List Char) :
    Ends (enclosed start offset outer text)
      (fun inner => ∃ rest, text = inner ++ outer.closer :: rest ∧ Parts inner)
      (FaultAt start (offset + byteLength text)) := by
  cases found : enclosed start offset outer text with
  | ok inner => exact enclosed_eq_ok_iff.mp found
  | error error =>
    obtain ⟨startEq, low, high, _⟩ := enclosed_eq_error found
    exact ⟨startEq, Nat.le_trans before low, high⟩

theorem scanInline_ends (start : Nat) (text : List Char) :
    Ends (scanInline start text)
      (fun found => Recognised start '$' ('{' :: text) found ∧ ClosedAt ('{' :: text) found.extent)
      (FaultAt start (start + 2 + byteLength text)) := by
  apply Ends.bind (enclosed_ends (Nat.le_add_right start 2) .curly text)
  rintro inner ⟨rest, rfl, parts⟩
  have closed : (inner ++ Bracket.curly.closer :: rest).drop (inner.length + 1) = rest := by
    simp
  rw [closed]
  split
  · rename_i rest
    refine recognised_of_append ('{' :: inner) [] rest (Written.inline parts) (by simp)
      rfl (List.forall_mem_nil _) (.inr rfl) ?_ ?_
    · simp [Bracket.closer]
    · simp
  · refine ⟨rfl, ?_, ?_⟩
    all_goals
      simp (disch := decide) only [byteLength_cons_of_ascii, byteLength_append, Bracket.closer]
      omega

private theorem exists_takeWhile_append (keep : Char → Bool) (text : List Char) :
    ∃ rest, text = text.takeWhile keep ++ rest ∧
      text.drop (text.takeWhile keep).length = rest :=
  ⟨_, (List.prefix_iff_eq_append.mp (List.takeWhile_prefix keep)).symm, rfl⟩

theorem scanBody_ends (before : start ≤ offset) (name : String) (index : Option Excerpt)
    (extent : Nat) (text : List Char) :
    Ends (scanBody start name index offset extent text)
      (fun found => ∃ inner space rest, text = inner ++ '}' :: (space ++ ';' :: rest) ∧
        Parts inner ∧ (∀ c ∈ space, isGap c = true) ∧
        found = ⟨.command name index ⟨String.ofList inner, offset⟩,
          extent + inner.length + 1 + space.length + 1⟩)
      (FaultAt start (offset + byteLength text)) := by
  apply Ends.bind (enclosed_ends before .curly text)
  rintro inner ⟨rest, rfl, parts⟩
  have closed : (inner ++ Bracket.curly.closer :: rest).drop (inner.length + 1) = rest := by
    simp
  obtain ⟨more, gapEq, moreEq⟩ := exists_takeWhile_append isGap rest
  simp only [closed, moreEq]
  split
  · rename_i afterBody
    exact ⟨inner, rest.takeWhile isGap, afterBody, by rw [← gapEq]; rfl, parts,
      List.all_eq_true.mp List.all_takeWhile, rfl⟩
  · refine ⟨rfl, ?_, ?_⟩
    all_goals
      simp (disch := decide) only [byteLength_cons_of_ascii, byteLength_append, Bracket.closer]
      omega

theorem scanCommand_ends (start : Nat) (text : List Char) :
    Ends (scanCommand start text)
      (fun found? => ∀ found ∈ found?,
        Recognised start '$' text found ∧ ClosedAt text found.extent)
      (FaultAt start (start + 1 + byteLength text)) := by
  obtain ⟨afterName, nameEq, afterNameEq⟩ := exists_takeWhile_append isNameRest text
  obtain ⟨afterGap, gapEq, afterGapEq⟩ := exists_takeWhile_append isGap afterName
  simp only [scanCommand, afterNameEq, afterGapEq]
  generalize text.takeWhile isNameRest = name at nameEq
  generalize afterName.takeWhile isGap = gap at gapEq
  subst gapEq
  subst nameEq
  split
  · -- The body follows the name.
    rename_i more
    have braced := scanBody_ends (show start ≤ start + 1 + byteLength (name ++ gap) + 1 by omega)
      (String.ofList name) none ((name ++ gap).length + 1) more
    apply Ends.bind (braced.further (by
      simp (disch := decide) only [byteLength_cons_of_ascii, byteLength_append]
      omega))
    rintro _ ⟨inner, space, rest, rfl, parts, isGap, rfl⟩ _ ⟨⟩
    refine recognised_of_append (name ++ gap ++ '{' :: inner) space rest
      (Written.command name gap parts space) (by simp) (by simp) isGap (.inl rfl) ?_ ?_
    · simp
    · simp
      omega
  · -- An index comes first.
    rename_i more
    have squared := enclosed_ends
      (show start ≤ start + 1 + byteLength (name ++ gap) + 1 by omega) .square more
    apply Ends.bind (squared.further (by
      simp (disch := decide) only [byteLength_cons_of_ascii, byteLength_append]
      omega))
    rintro index ⟨afterIndex, rfl, indexParts⟩
    have closed : (index ++ Bracket.square.closer :: afterIndex).drop (index.length + 1) =
        afterIndex := by
      simp
    obtain ⟨afterMiddle, middleEq, afterMiddleEq⟩ := exists_takeWhile_append isGap afterIndex
    simp only [closed, afterMiddleEq]
    generalize afterIndex.takeWhile isGap = middle at middleEq
    subst middleEq
    split
    · rename_i more
      have braced := scanBody_ends (show start ≤ start + 1 + byteLength (name ++ gap) + 1 +
          byteLength index + 1 + byteLength middle + 1 by omega) (String.ofList name)
        (some ⟨String.ofList index, start + 1 + byteLength (name ++ gap) + 1⟩)
        ((name ++ gap).length + 1 + index.length + 1 + middle.length + 1) more
      apply Ends.bind (braced.further (by
        simp (disch := decide) only [byteLength_cons_of_ascii, byteLength_append, Bracket.closer]
        omega))
      rintro _ ⟨inner, space, rest, rfl, parts, isGap, rfl⟩ _ ⟨⟩
      refine recognised_of_append
        (name ++ gap ++ '[' :: (index ++ ']' :: (middle ++ '{' :: inner))) space rest
        (Written.indexed name gap indexParts middle parts space) (by simp) (by simp) isGap
        (.inl rfl) ?_ ?_
      · simp [Bracket.closer]
      · simp
        omega
    · refine ⟨rfl, ?_, ?_⟩
      all_goals
        simp (disch := decide) only [byteLength_cons_of_ascii, byteLength_append, Bracket.closer]
        omega
  · rintro _ ⟨⟩

theorem scanConstruct_ends (start : Nat) (text : List Char) :
    Ends (scanConstruct start text)
      (fun found? => ∀ found ∈ found?,
        Recognised start '$' text found ∧ ClosedAt text found.extent ∧
          ∀ c ∈ text.head?, c = '{' ∨ isNameStart c = true)
      (FaultAt start (start + 1 + byteLength text)) := by
  unfold scanConstruct
  split
  · rename_i text
    have limit : start + 2 + byteLength text ≤ start + 1 + byteLength ('{' :: text) := by
      rw [byteLength_cons_of_ascii (by decide)]
      omega
    apply Ends.bind ((scanInline_ends start text).further limit)
    rintro found ⟨recognised, closed⟩ _ ⟨⟩
    exact ⟨recognised, closed, by simp⟩
  · rename_i c text _
    split
    · rename_i starts
      exact (scanCommand_ends start _).imp fun found? ends found mem =>
        ⟨(ends found mem).1, (ends found mem).2, by simp [starts]⟩
    · rintro found ⟨⟩
  · rintro found ⟨⟩

/-- What is recognised at a character is written as its kind says. Only a
construct, which starts with `$`, can fail. -/
theorem recognise_ends (start : Nat) (c : Char) (text : List Char) :
    Ends (recognise start c text) (fun found? => ∀ found ∈ found?, Recognised start c text found)
      (fun error => c = '$' ∧ FaultAt start (start + byteLength (c :: text)) error) := by
  unfold recognise
  split
  · rintro found mem
    obtain ⟨extent, _, rfl⟩ := Option.map_eq_some_iff.mp mem
    exact ⟨.quoted _, by simp⟩
  · split
    · rintro found ⟨⟩
      exact ⟨.comment _, by simp⟩
    · split
      · split
        · rintro found mem
          obtain ⟨extent, _, rfl⟩ := Option.map_eq_some_iff.mp mem
          exact ⟨.comment _, by simp⟩
        · rintro found ⟨⟩
      · split
        · subst c
          rw [byteLength_cons_of_ascii (by decide), Nat.add_comm (byteLength text),
            ← Nat.add_assoc]
          refine ((scanConstruct_ends start text).imp fun found? ends found mem => ?_).weaken
            fun _ fault => ⟨rfl, fault⟩
          exact (ends found mem).1
        · rintro found ⟨⟩

/-! ## Cutting the document -/

/-- The regions are cut from the text, which starts at byte `offset`. -/
inductive Cuts : Nat → List Char → List Region → Prop
  | nil (offset : Nat) : Cuts offset [] []
  | cons {offset : Nat} {kind : Region.Kind} {piece rest : List Char} {regions : List Region} :
      piece ≠ [] → Written offset kind piece →
      (kind = .literal → ∀ next ∈ regions.head?, next.kind ≠ .literal) →
      Cuts (offset + byteLength piece) rest regions →
        Cuts offset (piece ++ rest) (⟨kind, String.ofList piece, offset⟩ :: regions)

/-- Pending text may be put in front of regions that do not start with plain
text. -/
theorem Cuts.flush {pending text : List Char} {regions : List Region}
    (offsetEq : offset = start + byteLength pending) (cuts : Cuts offset text regions)
    (notLiteral : ∀ next ∈ regions.head?, next.kind ≠ .literal) :
    Cuts start (pending.reverse ++ text) (flush pending offset regions) := by
  subst offset
  cases pending with
  | nil => exact cuts
  | cons c pending =>
    have flushed : Document.flush (c :: pending) (start + byteLength (c :: pending)) regions =
        ⟨.literal, String.ofList (c :: pending).reverse, start⟩ :: regions := by
      simp only [Document.flush, List.isEmpty_cons, Nat.add_sub_cancel]
      rfl
    rw [flushed]
    refine Cuts.cons (by simp) (.literal _) (fun _ => notLiteral) ?_
    rw [byteLength_reverse]
    exact cuts

/-- An error concerns some `$` of the text, which starts at byte `offset`, and
ends with the text at the latest. -/
def FaultFrom (offset : Nat) (text : List Char) (error : SyntaxError) : Prop :=
  ∃ dollar, StandsAt text ['$'] dollar ∧
    FaultAt (offset + dollar) (offset + byteLength text) error

theorem FaultFrom.prepend {piece rest : List Char} {error : SyntaxError}
    (fault : FaultFrom (offset + byteLength piece) rest error) :
    FaultFrom offset (piece ++ rest) error := by
  obtain ⟨dollar, ⟨before, after, rfl, rfl⟩, fault⟩ := fault
  refine ⟨byteLength piece + byteLength before, ⟨piece ++ before, after, by simp, by simp⟩, ?_⟩
  rw [byteLength_append, ← Nat.add_assoc, ← Nat.add_assoc]
  exact fault

/-- The run of the scan: the regions are cut from the pending text and the text
still to be read, or an error concerns the latter. -/
theorem scanFrom_ends (offset : Nat) (pending text : List Char)
    (offsetEq : offset = start + byteLength pending) :
    Ends (scanFrom offset pending text) (Cuts start (pending.reverse ++ text))
      (FaultFrom offset text) := by
  induction offset, pending, text using scanFrom.induct generalizing start with
  | case1 offset pending =>
    rw [scanFrom]
    exact Cuts.flush offsetEq (.nil offset) (by simp)
  | case2 offset pending c text error recognised =>
    have ends := recognise_ends offset c text
    rw [recognised] at ends
    obtain ⟨rfl, fault⟩ := ends
    rw [scanFrom, recognised]
    exact ⟨0, ⟨[], text, rfl, rfl⟩, fault⟩
  | case3 offset pending c text recognised ih =>
    rw [scanFrom, recognised]
    have pendingEq : offset + c.utf8Size = start + byteLength (c :: pending) := by
      rw [offsetEq, byteLength_cons]
      omega
    have ends := ih pendingEq
    rw [List.reverse_cons, List.append_assoc] at ends
    refine ends.weaken fun error fault => ?_
    have single : offset + c.utf8Size = offset + byteLength [c] := by simp
    rw [single] at fault
    exact fault.prepend
  | case4 offset pending c text found recognised taken =>
    rename_i ih
    have ends := recognise_ends offset c text
    rw [recognised] at ends
    obtain ⟨written, notLiteral⟩ := ends found rfl
    have split : c :: text = (c :: text.take found.extent) ++ text.drop found.extent := by
      rw [List.cons_append, List.take_append_drop]
    rw [scanFrom, recognised, split]
    apply Ends.bind ((ih rfl).weaken fun error fault => fault.prepend)
    intro regions cuts
    apply Cuts.flush offsetEq
    · exact Cuts.cons (by simp) written (fun literal => absurd literal notLiteral) cuts
    · rintro next ⟨⟩
      exact notLiteral

/-! ## From cuts to a partition -/

namespace Cuts

variable {offset : Nat} {text : List Char} {regions : List Region}

theorem tiles (cuts : Cuts offset text regions) :
    Tiles offset (regions.map Region.span) (offset + byteLength text) := by
  induction cuts with
  | nil offset => rfl
  | cons nonempty written notLiteral cuts ih =>
    refine ⟨rfl, ?_⟩
    rw [byteLength_append, ← Nat.add_assoc]
    simpa [Region.span] using ih

theorem apart (cuts : Cuts offset text regions) :
    regions.IsChain fun first second => ¬ (first.kind = .literal ∧ second.kind = .literal) := by
  induction cuts with
  | nil offset => exact .nil
  | @cons offset kind piece rest regions nonempty written notLiteral cuts ih =>
    cases regions with
    | nil => exact .singleton _
    | cons next regions =>
      refine List.isChain_cons_cons.mpr ⟨?_, ih⟩
      rintro ⟨literal, nextLiteral⟩
      exact notLiteral literal next rfl nextLiteral

theorem rebuilds (cuts : Cuts offset text regions) :
    String.join (regions.map Region.text) = String.ofList text := by
  induction cuts with
  | nil offset => rfl
  | cons nonempty written notLiteral cuts ih =>
    rw [List.map_cons, String.join_cons, ih, String.ofList_append]
    rfl

/-- Each region is a non-empty piece of the text, written as its kind says, at
the place that its span gives. -/
theorem exists_piece (before : List Char) (cuts : Cuts (byteLength before) text regions)
    {region : Region} (mem : region ∈ regions) :
    ∃ kind piece start, region = ⟨kind, String.ofList piece, start⟩ ∧ piece ≠ [] ∧
      Written start kind piece ∧ StandsAt (before ++ text) piece start := by
  generalize offsetEq : byteLength before = offset at cuts
  induction cuts generalizing before with
  | nil offset => simp at mem
  | @cons offset kind piece rest regions nonempty written notLiteral cuts ih =>
    rcases List.mem_cons.mp mem with rfl | mem
    · exact ⟨kind, piece, offset, rfl, nonempty, written, before, rest, by simp, offsetEq⟩
    · have shifted : byteLength (before ++ piece) = offset + byteLength piece := by
        rw [byteLength_append, offsetEq]
      have found := ih (before ++ piece) mem shifted
      rwa [List.append_assoc] at found

end Cuts

/-- Regions that are cut from a whole document partition it. -/
theorem Cuts.partition {source : String} {regions : List Region}
    (cuts : Cuts 0 source.toList regions) : Partition source regions := by
  have pieces : ∀ region ∈ regions, ∃ kind piece start,
      region = ⟨kind, String.ofList piece, start⟩ ∧ piece ≠ [] ∧
        Written start kind piece ∧ StandsAt source.toList piece start := by
    intro region mem
    exact Cuts.exists_piece [] cuts mem
  refine ⟨?_, ?_, ?_, ?_, cuts.apart, ?_, ?_⟩
  · intro region mem
    obtain ⟨kind, piece, start, rfl, nonempty, _, _⟩ := pieces region mem
    have positive := byteLength_pos nonempty
    simp only [Region.span, span_ofList]
    omega
  · simpa [byteLength_toList] using cuts.tiles
  · intro region mem
    obtain ⟨kind, piece, start, rfl, _, _, stands⟩ := pieces region mem
    simp only [Region.span, span_ofList]
    exact ⟨stands.isValid_start, stands.isValid_stop⟩
  · intro region mem
    obtain ⟨kind, piece, start, rfl, _, _, stands⟩ := pieces region mem
    rw [Region.text, String.toList_ofList]
    exact stands
  · rw [cuts.rebuilds, String.ofList_toList]
  · intro region mem
    obtain ⟨kind, piece, start, rfl, _, written, stands⟩ := pieces region mem
    exact written.delimited stands

theorem scan_cuts (source : String) :
    Ends (scan source) (Cuts 0 source.toList) (FaultFrom 0 source.toList) :=
  scanFrom_ends 0 [] source.toList rfl

/-- Scanning a document gives regions that partition it, or an error that
concerns bytes of the document from a `$` on. -/
theorem scan_partitions (source : String) :
    Ends (scan source) (Partition source) (FaultWithin source.toList) := by
  have ends := scan_cuts source
  cases found : scan source with
  | error error =>
    rw [found] at ends
    obtain ⟨dollar, stands, startEq, ordered, within⟩ := ends
    rw [Nat.zero_add] at startEq ordered within
    exact ⟨startEq ▸ stands, startEq ▸ ordered, within⟩
  | ok regions =>
    rw [found] at ends
    exact Cuts.partition ends

end ModelWeaver.Document
