import ModelWeaver.Document.Assembly
import Mathlib.Data.List.TakeWhile

/-!
# The place of the data section

Data that wait for their place are put at the first statement `data;` of the model text, or
else at its first `end;`. What the first statement is can be said of the whole output: it
lies within one piece of model text, and no word goes on into it. The search finds it piece
by piece, and `Finds.or` puts together what it finds in a first part and in the rest.
-/

namespace ModelWeaver.Document

open Text

/-! ## ASCII characters -/

/-- White space among the ASCII characters. -/
def isSpace (c : Char) : Bool := c = ' ' || (9 ≤ c.toNat && c.toNat ≤ 13)

/-- Letters, digits and the underscore among the ASCII characters. -/
def isWordLetter (c : Char) : Bool := c.isAlphanum || c = '_'

def IsAscii (c : Char) : Prop := c.toNat < 128

instance (c : Char) : Decidable (IsAscii c) := inferInstanceAs (Decidable (c.toNat < 128))

theorem IsAscii.of_codes {c : Char} (ascii : IsAscii c) (holds : Char → Bool)
    (checked : ∀ code < 128, holds (Char.ofNat code) = true) : holds c = true := by
  have checkedHere := checked c.toNat ascii
  rwa [Char.ofNat_toNat] at checkedHere

namespace IsAscii

variable {c : Char}

theorem isBlank_eq (ascii : IsAscii c) : isBlank c = isSpace c := by
  simpa using ascii.of_codes (fun c => isBlank c == isSpace c) (by decide +kernel)

theorem isWordChar_eq (ascii : IsAscii c) : isWordChar c = isWordLetter c := by
  simpa using ascii.of_codes (fun c => isWordChar c == isWordLetter c) (by decide +kernel)

theorem joins_eq (ascii : IsAscii c) : Assembly.joins c = isWordLetter c := by
  simpa using ascii.of_codes (fun c => Assembly.joins c == isWordLetter c) (by decide +kernel)

end IsAscii

/-! ## First places -/

/-- A place with a start and a stop comes before all other such places. -/
def IsFirst (place : Nat → Nat → Prop) (start stop : Nat) : Prop :=
  place start stop ∧
    ∀ otherStart otherStop, place otherStart otherStop →
      start < otherStart ∨ (start = otherStart ∧ stop = otherStop)

/-- The result of a search is the first place, if there is any. -/
def Finds (place : Nat → Nat → Prop) : Option (Nat × Nat) → Prop
  | some (start, stop) => IsFirst place start stop
  | none => ∀ start stop, ¬ place start stop

namespace Finds

variable {place other : Nat → Nat → Prop} {found rest : Option (Nat × Nat)}

theorem congr (finds : Finds place found)
    (same : ∀ start stop, place start stop ↔ other start stop) : Finds other found := by
  have equal : place = other := funext fun start => funext fun stop => propext (same start stop)
  rwa [← equal]

/-- The first of two kinds of places, when those of the first kind come first. -/
theorem or (first : Finds place found) (second : Finds other rest)
    (before : ∀ {start stop otherStart otherStop}, place start stop →
      other otherStart otherStop → start < otherStart) :
    Finds (fun start stop => place start stop ∨ other start stop) (found.or rest) := by
  match found, rest with
  | some (start, stop), _ =>
    obtain ⟨holds, least⟩ := first
    refine ⟨.inl holds, ?_⟩
    rintro otherStart otherStop (early | late)
    · exact least otherStart otherStop early
    · exact .inl (before holds late)
  | none, some (start, stop) =>
    obtain ⟨holds, least⟩ := second
    refine ⟨.inr holds, ?_⟩
    rintro otherStart otherStop (early | late)
    · exact absurd early (first otherStart otherStop)
    · exact least otherStart otherStop late
  | none, none =>
    rintro start stop (early | late)
    · exact first start stop early
    · exact second start stop late

end Finds

/-! ## Statements -/

/-- A statement is a word, white space and a semicolon. -/
def IsStatement (word statement : List Char) : Prop :=
  ∃ spaces, (∀ c ∈ spaces, isSpace c = true) ∧ statement = word ++ spaces ++ [';']

/-- Whether a word goes on after a text. -/
def endsWord (text : List Char) : Bool := (text.getLast?.map isWordLetter).getD false

/-- A statement stands at the start of a text that comes after `before`. -/
def StatementNext (word before text : List Char) (start stop : Nat) : Prop :=
  ∃ statement right, text = statement ++ right ∧ IsStatement word statement ∧
    endsWord before = false ∧ start = before.length ∧ stop = start + statement.length

/-- A statement stands within a text that comes after `before`. -/
def StatementWithin (word before text : List Char) (start stop : Nat) : Prop :=
  ∃ left rest, text = left ++ rest ∧ StatementNext word (before ++ left) rest start stop

/-- A statement stands within one of some pieces of model text, which come after
`before`. -/
def StatementAmong (word before : List Char) (pieces : List Piece) (start stop : Nat) : Prop :=
  ∃ earlier piece later, pieces = earlier ++ piece :: later ∧ piece.isCode = true ∧
    StatementWithin word (before ++ earlier.flatMap Piece.text) piece.text start stop

theorem endsWord_append_singleton (before : List Char) (c : Char) :
    endsWord (before ++ [c]) = isWordLetter c := by
  simp [endsWord]

theorem endsWord_append {before text : List Char} (ascii : ∀ c ∈ text, IsAscii c) :
    endsWord (before ++ text) =
      (text.getLast?.map Assembly.joins).getD (endsWord before) := by
  rw [endsWord, List.getLast?_append]
  cases last : text.getLast? with
  | none => rfl
  | some c =>
    have joins_eq := (ascii c (List.mem_of_getLast? last)).joins_eq
    simp [joins_eq]

section

variable {word before text : List Char} {start stop : Nat}

theorem not_statementNext_nil : ¬ StatementNext word before [] start stop := by
  rintro ⟨statement, right, textEq, ⟨spaces, _, rfl⟩, _⟩
  simp at textEq

theorem not_statementWithin_nil : ¬ StatementWithin word before [] start stop := by
  rintro ⟨left, rest, textEq, next⟩
  obtain ⟨rfl, rfl⟩ := List.append_eq_nil_iff.mp textEq.symm
  exact not_statementNext_nil next

theorem statementWithin_cons {c : Char} :
    StatementNext word before (c :: text) start stop ∨
        StatementWithin word (before ++ [c]) text start stop ↔
      StatementWithin word before (c :: text) start stop := by
  constructor
  · rintro (next | ⟨left, rest, rfl, next⟩)
    · exact ⟨[], c :: text, rfl, by rwa [List.append_nil]⟩
    · refine ⟨c :: left, rest, rfl, ?_⟩
      rwa [List.append_assoc, List.singleton_append] at next
  · rintro ⟨left, rest, textEq, next⟩
    cases left with
    | nil =>
      rw [List.append_nil] at next
      exact .inl (textEq ▸ next)
    | cons first left =>
      obtain ⟨rfl, rfl⟩ := List.cons_eq_cons.mp textEq
      refine .inr ⟨left, rest, rfl, ?_⟩
      rwa [List.append_assoc, List.singleton_append]

theorem StatementWithin.le_start (within : StatementWithin word before text start stop) :
    before.length ≤ start := by
  obtain ⟨left, rest, rfl, _, _, _, _, _, rfl, _⟩ := within
  simp

theorem StatementWithin.start_lt (within : StatementWithin word before text start stop) :
    start < (before ++ text).length := by
  obtain ⟨left, rest, rfl, statement, right, rfl, ⟨spaces, _, rfl⟩, _, rfl, _⟩ := within
  simp only [List.length_append, List.length_singleton]
  omega

theorem not_statementAmong_nil : ¬ StatementAmong word before [] start stop := by
  rintro ⟨earlier, piece, later, piecesEq, _⟩
  simp at piecesEq

theorem statementAmong_cons {piece : Piece} {pieces : List Piece} :
    (piece.isCode = true ∧ StatementWithin word before piece.text start stop) ∨
        StatementAmong word (before ++ piece.text) pieces start stop ↔
      StatementAmong word before (piece :: pieces) start stop := by
  constructor
  · rintro (⟨isCode, within⟩ | ⟨earlier, other, later, rfl, isCode, within⟩)
    · exact ⟨[], piece, pieces, rfl, isCode, by rwa [List.flatMap_nil, List.append_nil]⟩
    · refine ⟨piece :: earlier, other, later, rfl, isCode, ?_⟩
      rwa [List.append_assoc] at within
  · rintro ⟨earlier, other, later, piecesEq, isCode, within⟩
    cases earlier with
    | nil =>
      obtain ⟨rfl, rfl⟩ := List.cons_eq_cons.mp piecesEq
      rw [List.flatMap_nil, List.append_nil] at within
      exact .inl ⟨isCode, within⟩
    | cons first earlier =>
      obtain ⟨rfl, rfl⟩ := List.cons_eq_cons.mp piecesEq
      refine .inr ⟨earlier, other, later, rfl, isCode, ?_⟩
      rwa [List.append_assoc]

theorem StatementAmong.le_start {pieces : List Piece}
    (among : StatementAmong word before pieces start stop) : before.length ≤ start := by
  obtain ⟨earlier, piece, later, rfl, _, within⟩ := among
  have bound := within.le_start
  rw [List.length_append] at bound
  omega

end

/-! ## Searching -/

theorem dropStart?_eq_some_iff {start text rest : List Char} :
    dropStart? start text = some rest ↔ text = start ++ rest := by
  induction start generalizing text with
  | nil => simp [dropStart?]
  | cons first start ih =>
    cases text with
    | nil => simp [dropStart?]
    | cons c text =>
      by_cases same : first = c
      · simp [dropStart?, same, ih]
      · simp [dropStart?, same, Ne.symm same]

namespace Assembly

theorem statementLength?_append (word rest : List Char) :
    statementLength? word (word ++ rest) =
      match rest.drop (rest.takeWhile isBlank).length with
      | ';' :: _ => some (word.length + (rest.takeWhile isBlank).length + 1)
      | _ => none := by
  rw [statementLength?, dropStart?_eq_some_iff.mpr rfl]
  rfl

section

variable {word before text : List Char}

/-- The length of a statement is found exactly if a text starts with one. -/
theorem statementLength?_eq_some_iff {length : Nat} (ascii : ∀ c ∈ text, IsAscii c) :
    statementLength? word text = some length ↔
      ∃ statement right, text = statement ++ right ∧ IsStatement word statement ∧
        length = statement.length := by
  constructor
  · intro found
    obtain ⟨rest, dropped, _⟩ := Option.bind_eq_some_iff.mp found
    obtain rfl := dropStart?_eq_some_iff.mp dropped
    have spaces : ∀ c ∈ rest.takeWhile isBlank, isSpace c = true := by
      intro c mem
      have memberRest := (List.takeWhile_prefix isBlank).subset mem
      rw [← (ascii c (List.mem_append_right word memberRest)).isBlank_eq]
      exact List.mem_takeWhile_imp mem
    have restEq : rest.takeWhile isBlank ++ rest.drop (rest.takeWhile isBlank).length = rest :=
      List.prefix_iff_eq_append.mp (List.takeWhile_prefix isBlank)
    rw [statementLength?_append] at found
    split at found
    · rename_i more ended
      cases found
      refine ⟨word ++ rest.takeWhile isBlank ++ [';'], more, ?_, ⟨_, spaces, rfl⟩, ?_⟩
      · rw [ended] at restEq
        simpa using restEq.symm
      · simp [Nat.add_assoc]
    · cases found
  · rintro ⟨_, right, rfl, ⟨spaces, areSpaces, rfl⟩, rfl⟩
    have blanks : ∀ c ∈ spaces, isBlank c = true := by
      intro c mem
      rw [(ascii c (by simp [mem])).isBlank_eq]
      exact areSpaces c mem
    have taken : (spaces ++ ';' :: right).takeWhile isBlank = spaces := by
      rw [List.takeWhile_append_of_pos blanks, List.takeWhile_cons_of_neg (by decide),
        List.append_nil]
    rw [List.append_assoc, List.append_assoc, List.singleton_append, statementLength?_append,
      taken, List.drop_left]
    simp [Nat.add_assoc]

theorem finds_statementNext (ascii : ∀ c ∈ text, IsAscii c) :
    Finds (StatementNext word before text)
      ((if endsWord before then none else statementLength? word text).map fun length =>
        (before.length, before.length + length)) := by
  cases joined : endsWord before with
  | true =>
    rintro start stop ⟨_, _, _, _, apart, _⟩
    rw [joined] at apart
    cases apart
  | false =>
    cases found : statementLength? word text with
    | none =>
      rintro start stop ⟨statement, right, textEq, isStatement, _⟩
      have some := (statementLength?_eq_some_iff ascii).mpr
        ⟨statement, right, textEq, isStatement, rfl⟩
      rw [found] at some
      cases some
    | some length =>
      constructor
      · obtain ⟨statement, right, textEq, isStatement, rfl⟩ :=
          (statementLength?_eq_some_iff ascii).mp found
        exact ⟨statement, right, textEq, isStatement, joined, rfl, rfl⟩
      · rintro _ _ ⟨statement, right, textEq, isStatement, _, rfl, rfl⟩
        have same := (statementLength?_eq_some_iff ascii).mpr
          ⟨statement, right, textEq, isStatement, rfl⟩
        rw [found] at same
        cases same
        exact .inr ⟨rfl, rfl⟩

theorem findStatement?_cons (word : List Char) (joined : Bool) (position : Nat) (c : Char)
    (text : List Char) :
    findStatement? word joined position (c :: text) =
      ((if joined then none else statementLength? word (c :: text)).map fun length =>
        (position, position + length)).or
        (findStatement? word (isWordChar c) (position + 1) text) := by
  rw [findStatement?]
  cases (if joined then none else statementLength? word (c :: text)) with
  | none => rfl
  | some length => rfl

/-- The search in a text, after `before`, finds the first statement. -/
theorem finds_findStatement? (word before : List Char) {text : List Char}
    (ascii : ∀ c ∈ text, IsAscii c) :
    Finds (StatementWithin word before text)
      (findStatement? word (endsWord before) before.length text) := by
  induction text generalizing before with
  | nil => exact fun _ _ => not_statementWithin_nil
  | cons c text ih =>
    obtain ⟨asciiHead, asciiTail⟩ := List.forall_mem_cons.mp ascii
    have later := ih (before ++ [c]) asciiTail
    rw [endsWord_append_singleton, List.length_append, List.length_singleton,
      ← asciiHead.isWordChar_eq] at later
    rw [findStatement?_cons]
    refine ((finds_statementNext ascii).or later ?_).congr fun _ _ => statementWithin_cons
    rintro start stop otherStart otherStop ⟨_, _, _, _, _, rfl, _⟩ within
    have bound := within.le_start
    rw [List.length_append, List.length_singleton] at bound
    omega

theorem findInPieces?_cons (word : List Char) (joined : Bool) (position : Nat) (piece : Piece)
    (pieces : List Piece) :
    findInPieces? word joined position (piece :: pieces) =
      (if piece.isCode then findStatement? word joined position piece.text else none).or
        (findInPieces? word ((piece.text.getLast?.map joins).getD joined)
          (position + piece.text.length) pieces) := by
  rw [findInPieces?]
  cases (if piece.isCode then findStatement? word joined position piece.text else none) with
  | none => rfl
  | some found => rfl

/-- The search in some pieces, after `before`, finds the first statement. -/
theorem finds_findInPieces? (word before : List Char) {pieces : List Piece}
    (ascii : ∀ piece ∈ pieces, ∀ c ∈ piece.text, IsAscii c) :
    Finds (StatementAmong word before pieces)
      (findInPieces? word (endsWord before) before.length pieces) := by
  induction pieces generalizing before with
  | nil => exact fun _ _ => not_statementAmong_nil
  | cons piece pieces ih =>
    obtain ⟨asciiHead, asciiTail⟩ := List.forall_mem_cons.mp ascii
    have here : Finds
        (fun start stop =>
          piece.isCode = true ∧ StatementWithin word before piece.text start stop)
        (if piece.isCode then
          findStatement? word (endsWord before) before.length piece.text else none) := by
      cases piece.isCode with
      | true =>
        exact (finds_findStatement? word before asciiHead).congr fun _ _ => by simp
      | false => simp [Finds]
    have later := ih (before ++ piece.text) asciiTail
    rw [endsWord_append asciiHead, List.length_append] at later
    rw [findInPieces?_cons]
    refine (here.or later ?_).congr fun _ _ => statementAmong_cons
    rintro start stop otherStart otherStop ⟨_, within⟩ among
    exact within.start_lt.trans_le among.le_start

end

end Assembly

/-! ## Outputs that are put together -/

/-- What can be added to an output. -/
inductive Addition where
  | code (text : String)
  | literal (text : String)
  | blockComment (text : String)
  | fragment (source : String) (fragment : Fragment)

namespace Addition

def piece (layout : Layout) : Addition → Piece
  | code text => ⟨text.toList, true⟩
  | literal text => ⟨text.toList, false⟩
  | blockComment text =>
    ⟨(if layout.echo then Assembly.marker "IGNORED" text else text).toList, false⟩
  | fragment source produced =>
    ⟨((if layout.echo then Assembly.marker "EVALUATED" source else "") ++
      produced.defs ++ produced.model).toList, false⟩

def data : Addition → String
  | fragment _ produced => produced.data
  | code _ | literal _ | blockComment _ => ""

end Addition

namespace Assembly

def add (assembly : Assembly) : Addition → Assembly
  | .code text => assembly.code text
  | .literal text => assembly.literal text
  | .blockComment text => assembly.blockComment text
  | .fragment source produced => assembly.fragment source produced

theorem add_eq {assembly : Assembly} (consolidated : assembly.layout.dataMode = .consolidated)
    (addition : Addition) :
    assembly.add addition =
      { layout := assembly.layout
        pieces := addition.piece assembly.layout :: assembly.pieces
        data := assembly.data ++ addition.data } := by
  cases addition with
  | code text | literal text | blockComment text =>
    rw [Addition.data, String.append_empty]
    rfl
  | fragment source produced =>
    rw [add, Assembly.fragment, Addition.data]
    split
    · rename_i empty
      rw [String.isEmpty_iff.mp empty, String.append_empty]
      rfl
    · simp only [literal, consolidated]
      rfl

/-- Additions put their pieces into the output one after the other, and their data wait. -/
theorem foldl_add (assembly : Assembly) (consolidated : assembly.layout.dataMode = .consolidated)
    (additions : List Addition) :
    additions.foldl add assembly =
      { layout := assembly.layout
        pieces := (additions.map (Addition.piece assembly.layout)).reverse ++ assembly.pieces
        data := assembly.data ++ String.join (additions.map Addition.data) } := by
  induction additions generalizing assembly with
  | nil => simp
  | cons addition additions ih =>
    rw [List.foldl_cons, add_eq consolidated, ih]
    · simp [String.append_assoc]
    · exact consolidated

/-- The text of some pieces with data at the place where they belong. -/
inductive Placed (pieces : List Piece) (data : List Char) : List Char → Prop
  /-- After the first `data;`, on a line of their own. -/
  | afterData {start stop : Nat}
      (first : IsFirst (StatementAmong "data".toList [] pieces) start stop) :
      Placed pieces data
        ((pieces.flatMap Piece.text).take stop ++ '\n' :: data ++
          (pieces.flatMap Piece.text).drop stop)
  /-- In a data section instead of the first `end;`. -/
  | beforeEnd (noData : ∀ start stop, ¬ StatementAmong "data".toList [] pieces start stop)
      {start stop : Nat} (first : IsFirst (StatementAmong "end".toList [] pieces) start stop) :
      Placed pieces data
        ((pieces.flatMap Piece.text).take start ++
          ("data;\n".toList ++ data ++ "\nend;".toList) ++
          (pieces.flatMap Piece.text).drop stop)
  /-- In a data section at the end. -/
  | atEnd (noData : ∀ start stop, ¬ StatementAmong "data".toList [] pieces start stop)
      (noEnd : ∀ start stop, ¬ StatementAmong "end".toList [] pieces start stop) :
      Placed pieces data
        (pieces.flatMap Piece.text ++ ("data;\n".toList ++ data ++ "\nend;".toList))

/-- The data of an output are put in their place. -/
theorem placed_withData (assembly : Assembly)
    (ascii : ∀ piece ∈ assembly.pieces.reverse, ∀ c ∈ piece.text, IsAscii c)
    (data : List Char) : Placed assembly.pieces.reverse data (assembly.withData data) := by
  have findsData : Finds (StatementAmong "data".toList [] assembly.pieces.reverse)
      (assembly.statement? "data") := finds_findInPieces? "data".toList [] ascii
  have findsEnd : Finds (StatementAmong "end".toList [] assembly.pieces.reverse)
      (assembly.statement? "end") := finds_findInPieces? "end".toList [] ascii
  rw [withData]
  cases dataFound : assembly.statement? "data" with
  | some place =>
    rw [dataFound] at findsData
    exact .afterData findsData
  | none =>
    rw [dataFound] at findsData
    cases endFound : assembly.statement? "end" with
    | some place =>
      rw [endFound] at findsEnd
      exact .beforeEnd findsData findsEnd
    | none =>
      rw [endFound] at findsEnd
      exact .atEnd findsData findsEnd

/-- Data are placed once, where they belong. Whatever is added to an output, its text is that
of the pieces in their order, and the data of all fragments stand in it together: after the
first `data;` of the model text, else at its first `end;`, else at the end. -/
theorem finish_places_data (layout : Layout) (consolidated : layout.dataMode = .consolidated)
    (additions : List Addition)
    (ascii : ∀ addition ∈ additions, ∀ c ∈ (addition.piece layout).text, IsAscii c) :
    let pieces := additions.map (Addition.piece layout)
    let data := String.join (additions.map Addition.data)
    let finished := (additions.foldl add { layout }).finish
    (data = "" → finished = String.ofList (pieces.flatMap Piece.text)) ∧
      (data ≠ "" → Placed pieces data.toList finished.toList) := by
  intro pieces data finished
  have built : additions.foldl add { layout } = { layout, pieces := pieces.reverse, data } := by
    rw [foldl_add { layout } consolidated, String.empty_append, List.append_nil]
  have asciiPieces : ∀ piece ∈ pieces.reverse.reverse, ∀ c ∈ piece.text, IsAscii c := by
    simpa [pieces] using ascii
  constructor
  · intro empty
    simp [finished, built, finish, output, empty]
  · intro nonempty
    have placed :=
      placed_withData { layout, pieces := pieces.reverse, data } asciiPieces data.toList
    rw [List.reverse_reverse] at placed
    have waits : data.isEmpty = false := by simpa using nonempty
    simpa [finished, built, finish, waits] using placed

/-- A comment and a longer word that are no `data;`, model text with an `end ;`, and two
fragments with data. -/
def sampleAdditions : List Addition :=
  [.code "var x; my", .blockComment "/* data; */", .fragment "" ⟨"", "meta", "d1\n"⟩,
    .code "data; end ;", .fragment "" ⟨"", "", "d2"⟩, .literal "end;"]

theorem finish_places_data_sampleAdditions :
    Placed (sampleAdditions.map (Addition.piece { dataMode := .consolidated })) "d1\nd2".toList
      "var x; my/* data; */metadata; data;\nd1\nd2\nend;end;".toList := by
  have ascii : (sampleAdditions.all fun addition =>
      (addition.piece { dataMode := .consolidated }).text.all fun c => decide (IsAscii c)) =
        true := by decide +kernel
  simp only [List.all_eq_true, decide_eq_true_eq] at ascii
  have placed := (finish_places_data { dataMode := .consolidated } rfl sampleAdditions ascii).2
    (by decide +kernel)
  have finished : (sampleAdditions.foldl add { layout := { dataMode := .consolidated } }).finish =
      "var x; my/* data; */metadata; data;\nd1\nd2\nend;end;" := by decide +kernel
  rw [finished] at placed
  exact placed

end Assembly

end ModelWeaver.Document
