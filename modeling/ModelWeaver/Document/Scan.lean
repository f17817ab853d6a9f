import ModelWeaver.Document.Delimiter
import ModelWeaver.Document.Region
import ModelWeaver.SyntaxError

/-!
# Scanning a document

`scan` cuts a document into regions. Quoted strings and comments are recognised
before constructs, so a `$` inside them never starts one. A quote or `/*` that
is never closed, and a `$` that starts no construct, are plain text.

Every step takes the character at hand and a number of characters after it, so
the texts of the regions always make up the document again.
-/

namespace ModelWeaver.Document

open Text

/-! ## Strings and comments -/

/-- The number of characters up to and including the closing quote. -/
def quotedExtent? (quote : Char) : List Char → Option Nat
  | [] => none
  | ['\\'] => none
  | '\\' :: _ :: cs => (quotedExtent? quote cs).map (· + 2)
  | c :: cs => if c = quote then some 1 else (quotedExtent? quote cs).map (· + 1)

/-- The number of characters before the end of the line. -/
def lineExtent (cs : List Char) : Nat := (cs.takeWhile (· ≠ '\n')).length

/-- The number of characters up to and including the first `*/`. -/
def blockExtent? : List Char → Option Nat
  | '*' :: '/' :: _ => some 2
  | _ :: cs => (blockExtent? cs).map (· + 1)
  | [] => none

/-! ## Constructs -/

/-- Characters that may start a command name. -/
def isNameStart (c : Char) : Bool := c.isAlpha || c = '_'

/-- Characters that may continue a command name. -/
def isNameRest (c : Char) : Bool := c.isAlphanum || c = '_'

/-- Blanks allowed between the parts of a command. -/
def isGap (c : Char) : Bool :=
  c = ' ' || c = '\t' || c = '\n' || c = '\x0c' || c = '\x0d'

/-- A recognised region: its kind, and how many characters it takes after the
first. -/
structure Found where
  kind : Region.Kind
  extent : Nat

/-- The text enclosed by a bracket whose opener stands just before `offset`,
within a construct that starts at `start`. -/
def enclosed (start offset : Nat) (outer : Bracket) (text : List Char) :
    Except SyntaxError (List Char) :=
  match Delimiter.inside outer text with
  | .ok inner => .ok inner
  | .error (.mismatched found wanted taken) =>
    .error ⟨.mismatched found.closer wanted.closer, start, offset + byteLength taken⟩
  | .error .unterminated =>
    .error ⟨.unterminated outer.closer, start, offset + byteLength text⟩

/-- An inline expression, from the text after its opening brace. -/
def scanInline (start : Nat) (text : List Char) : Except SyntaxError Found := do
  let bodyStart := start + 2
  let inner ← enclosed start bodyStart .curly text
  let bodyStop := bodyStart + byteLength inner
  match text.drop (inner.length + 1) with
  | '$' :: _ =>
    return ⟨.inline ⟨String.ofList inner, bodyStart⟩, inner.length + 3⟩
  | _ => throw ⟨.inlineNotClosed, start, bodyStop + 1⟩

/-- The body of a command and the `;` after it. The opening brace stands just
before `offset`, `extent` characters after the `$`. -/
def scanBody (start : Nat) (name : String) (index : Option Excerpt) (offset extent : Nat)
    (text : List Char) : Except SyntaxError Found := do
  let inner ← enclosed start offset .curly text
  let rest := text.drop (inner.length + 1)
  let gap := rest.takeWhile isGap
  match rest.drop gap.length with
  | ';' :: _ =>
    let body : Excerpt := ⟨String.ofList inner, offset⟩
    return ⟨.command name index body, extent + inner.length + 1 + gap.length + 1⟩
  | _ => throw ⟨.commandNotClosed name, start, offset + byteLength inner + 1⟩

/-- A command, from the text after its `$`, which starts with a name. A name
that neither an index nor a body follows is no command. -/
def scanCommand (start : Nat) (text : List Char) : Except SyntaxError (Option Found) := do
  let name := text.takeWhile isNameRest
  let rest := text.drop name.length
  let gap := rest.takeWhile isGap
  let taken := name ++ gap
  let offset := start + 1 + byteLength taken
  match rest.drop gap.length with
  | '{' :: more =>
    let found ← scanBody start (String.ofList name) none (offset + 1) (taken.length + 1) more
    return some found
  | '[' :: more =>
    let inner ← enclosed start (offset + 1) .square more
    let index : Excerpt := ⟨String.ofList inner, offset + 1⟩
    let rest := more.drop (inner.length + 1)
    let gap := rest.takeWhile isGap
    let stop := offset + 1 + byteLength inner + 1 + byteLength gap
    match rest.drop gap.length with
    | '{' :: more =>
      let extent := taken.length + 1 + inner.length + 1 + gap.length + 1
      let found ← scanBody start (String.ofList name) (some index) (stop + 1) extent more
      return some found
    | _ => throw ⟨.bodyMissing (String.ofList name), start, stop⟩
  | _ => return none

/-- The construct that starts at a `$`, from the text after it. -/
def scanConstruct (start : Nat) : List Char → Except SyntaxError (Option Found)
  | '{' :: text => return some (← scanInline start text)
  | c :: text => if isNameStart c then scanCommand start (c :: text) else return none
  | [] => return none

/-! ## Regions -/

/-- The region, other than plain text, that starts with character `c` at byte
`start` and goes on with `text`. -/
def recognise (start : Nat) (c : Char) (text : List Char) :
    Except SyntaxError (Option Found) :=
  if isQuote c then
    return (quotedExtent? c text).map (⟨.quoted, ·⟩)
  else if c = '#' then
    return some ⟨.comment, lineExtent text⟩
  else if c = '/' then
    match text with
    | '*' :: more => return (blockExtent? more).map (⟨.comment, · + 1⟩)
    | _ => return none
  else if c = '$' then
    scanConstruct start text
  else
    return none

/-- Put pending plain text, last character first, in front of regions. `stop`
is the offset just past it. -/
def flush (pending : List Char) (stop : Nat) (regions : List Region) : List Region :=
  if pending.isEmpty then regions
  else ⟨.literal, String.ofList pending.reverse, stop - byteLength pending⟩ :: regions

/-- Cut the text from byte `offset` on, after plain text that is still
`pending`. -/
def scanFrom (offset : Nat) (pending : List Char) :
    List Char → Except SyntaxError (List Region)
  | [] => return flush pending offset []
  | c :: text =>
    match recognise offset c text with
    | .error error => .error error
    | .ok none => scanFrom (offset + c.utf8Size) (c :: pending) text
    | .ok (some found) => do
        let taken := c :: text.take found.extent
        let regions ← scanFrom (offset + byteLength taken) [] (text.drop found.extent)
        return flush pending offset (⟨found.kind, String.ofList taken, offset⟩ :: regions)
termination_by text => text.length
decreasing_by
  · simp
  · simp only [List.length_drop, List.length_cons]; omega

/-- The regions of a document, in order. -/
def scan (source : String) : Except SyntaxError (List Region) :=
  scanFrom 0 [] source.toList

end ModelWeaver.Document
