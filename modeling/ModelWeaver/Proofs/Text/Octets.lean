import ModelWeaver.Text.Span

/-!
# The bytes of a text

Spans count bytes, while texts are read character by character: how many bytes some characters
take, which bytes they are, and what it means that a piece of text stands at a byte offset.

A byte is read as the character that has the same code, so that a grammar over characters also
speaks about bytes: an ASCII character is its own only byte, and every byte of another character
has a code of at least 128. The order of texts is also that of their bytes.
-/

namespace ModelWeaver.Text

/-! ## Byte lengths -/

private theorem foldl_utf8Size (total : Nat) (cs : List Char) :
    cs.foldl (fun total c => total + c.utf8Size) total = total + byteLength cs := by
  induction cs generalizing total with
  | nil => rfl
  | cons c cs ih =>
    change cs.foldl (fun total c => total + c.utf8Size) (total + c.utf8Size) =
      total + cs.foldl (fun total c => total + c.utf8Size) (0 + c.utf8Size)
    rw [ih, ih]
    omega

@[simp]
theorem byteLength_nil : byteLength [] = 0 :=
  rfl

@[simp]
theorem byteLength_cons (c : Char) (cs : List Char) :
    byteLength (c :: cs) = c.utf8Size + byteLength cs := by
  simpa [byteLength] using foldl_utf8Size c.utf8Size cs

@[simp]
theorem byteLength_append (first second : List Char) :
    byteLength (first ++ second) = byteLength first + byteLength second := by
  induction first with
  | nil => simp
  | cons c first ih => simp [ih, Nat.add_assoc]

@[simp]
theorem byteLength_reverse (cs : List Char) : byteLength cs.reverse = byteLength cs := by
  induction cs with
  | nil => rfl
  | cons c cs ih => simp [ih, Nat.add_comm]

@[simp]
theorem utf8ByteSize_ofList (cs : List Char) :
    (String.ofList cs).utf8ByteSize = byteLength cs := by
  induction cs with
  | nil => rfl
  | cons c cs ih => rw [String.ofList_cons, String.utf8ByteSize_append, ih]; simp

theorem byteLength_toList (source : String) :
    byteLength source.toList = source.utf8ByteSize := by
  rw [← utf8ByteSize_ofList, String.ofList_toList]

variable {c : Char} {cs : List Char}

theorem byteLength_cons_of_ascii (ascii : c.toNat < 128) (cs : List Char) :
    byteLength (c :: cs) = byteLength cs + 1 := by
  have small : c.val ≤ 0x7f := UInt32.le_iff_toNat_le.mpr (Nat.le_of_lt_succ ascii)
  have width : c.utf8Size = 1 := if_pos small
  rw [byteLength_cons, width, Nat.add_comm]

theorem byteLength_pos (nonempty : cs ≠ []) : 0 < byteLength cs := by
  cases cs with
  | nil => contradiction
  | cons c cs =>
    have width : 0 < c.utf8Size := c.utf8Size_pos
    rw [byteLength_cons]
    omega

@[simp]
theorem span_ofList (cs : List Char) (start : Nat) :
    Excerpt.span ⟨String.ofList cs, start⟩ = ⟨start, start + byteLength cs⟩ := by
  rw [Excerpt.span, utf8ByteSize_ofList]

/-! ## Octets -/

/-- The bytes of a character in UTF-8, each read as the character of its code. -/
def charOctets (c : Char) : List Char :=
  (String.utf8EncodeChar c).map Char.ofUInt8

/-- The bytes of a text in UTF-8, each read as the character of its code. -/
def octets (cs : List Char) : List Char :=
  cs.flatMap charOctets

@[simp]
theorem octets_nil : octets [] = [] :=
  rfl

@[simp]
theorem octets_cons (c : Char) (cs : List Char) :
    octets (c :: cs) = charOctets c ++ octets cs :=
  rfl

@[simp]
theorem octets_append (first second : List Char) :
    octets (first ++ second) = octets first ++ octets second := by
  simp [octets]

@[simp]
theorem length_octets (cs : List Char) : (octets cs).length = byteLength cs := by
  induction cs with
  | nil => rfl
  | cons c cs ih => simp [charOctets, ih]

theorem charOctets_of_ascii (ascii : c.toNat < 128) : charOctets c = [c] := by
  have small : c.val.toNat ≤ 127 := Nat.le_of_lt_succ ascii
  have encoded : String.utf8EncodeChar c = [UInt8.ofNat c.val.toNat] := if_pos small
  rw [charOctets, encoded, List.map_singleton, List.cons.injEq]
  refine ⟨Char.ext (UInt32.toNat_inj.mp ?_), rfl⟩
  change (UInt8.ofNat c.val.toNat).toUInt32.toNat = c.val.toNat
  rw [UInt8.toNat_toUInt32, UInt8.toNat_ofNat']
  omega

private theorem toNat_ofUInt8_ofNat (value : Nat) :
    (Char.ofUInt8 (UInt8.ofNat value)).toNat = value % 256 := by
  change (UInt8.ofNat value).toUInt32.toNat = value % 256
  rw [UInt8.toNat_toUInt32, UInt8.toNat_ofNat']

/-- No byte of a character outside ASCII is the code of an ASCII character. -/
theorem le_of_mem_charOctets {octet : Char} (wide : 128 ≤ c.toNat) (mem : octet ∈ charOctets c) :
    128 ≤ octet.toNat := by
  have large : ¬ c.val.toNat ≤ 127 := Nat.not_le.mpr wide
  rw [charOctets, String.utf8EncodeChar] at mem
  simp only [large, if_false] at mem
  split at mem
  · simp only [List.map_cons, List.map_nil, List.mem_cons, List.not_mem_nil, or_false] at mem
    rcases mem with rfl | rfl <;> rw [toNat_ofUInt8_ofNat] <;> omega
  · split at mem
    · simp only [List.map_cons, List.map_nil, List.mem_cons, List.not_mem_nil, or_false] at mem
      rcases mem with rfl | rfl | rfl <;> rw [toNat_ofUInt8_ofNat] <;> omega
    · simp only [List.map_cons, List.map_nil, List.mem_cons, List.not_mem_nil, or_false] at mem
      rcases mem with rfl | rfl | rfl | rfl <;> rw [toNat_ofUInt8_ofNat] <;> omega

/-- An ASCII byte of a text is a character of it. What stands before and after
the byte are the bytes of what stands before and after the character. -/
theorem exists_of_octets_eq_append_cons {left right : List Char} (ascii : c.toNat < 128)
    (split : octets cs = left ++ c :: right) :
    ∃ before after, cs = before ++ c :: after ∧
      octets before = left ∧ octets after = right := by
  induction cs generalizing left with
  | nil => simp at split
  | cons first cs ih =>
    rw [octets_cons] at split
    by_cases firstAscii : first.toNat < 128
    · rw [charOctets_of_ascii firstAscii] at split
      cases left with
      | nil =>
        simp only [List.cons_append, List.nil_append, List.cons.injEq] at split
        exact ⟨[], cs, by simp [split.1], rfl, split.2⟩
      | cons octet left =>
        simp only [List.cons_append, List.nil_append, List.cons.injEq] at split
        obtain ⟨before, after, rfl, beforeEq, afterEq⟩ := ih split.2
        refine ⟨first :: before, after, rfl, ?_, afterEq⟩
        rw [octets_cons, charOctets_of_ascii firstAscii, beforeEq, split.1]
        rfl
    · -- The byte lies past those of a wide character, which are all large.
      have apart : c ∉ charOctets first := by
        intro mem
        have := le_of_mem_charOctets (Nat.le_of_not_lt firstAscii) mem
        omega
      rcases List.append_eq_append_iff.mp split with
        ⟨middle, leftEq, restEq⟩ | ⟨middle, firstEq, restEq⟩
      · obtain ⟨before, after, rfl, beforeEq, afterEq⟩ := ih restEq
        refine ⟨first :: before, after, rfl, ?_, afterEq⟩
        rw [octets_cons, beforeEq, leftEq]
      · cases middle with
        | nil =>
          have restOctets : octets cs = [] ++ c :: right := by simpa using restEq.symm
          obtain ⟨before, after, rfl, beforeEq, afterEq⟩ := ih restOctets
          refine ⟨first :: before, after, rfl, ?_, afterEq⟩
          rw [octets_cons, beforeEq, firstEq]
          simp
        | cons octet middle =>
          simp only [List.cons_append, List.cons.injEq] at restEq
          rw [firstEq, restEq.1] at apart
          simp at apart

theorem exists_of_octets_getElem {offset : Nat} (ascii : c.toNat < 128)
    (holds : (octets cs)[offset]? = some c) :
    ∃ before after, cs = before ++ c :: after ∧ byteLength before = offset := by
  obtain ⟨inBounds, getEq⟩ := List.getElem?_eq_some_iff.mp holds
  have split : octets cs = (octets cs).take offset ++ c :: (octets cs).drop (offset + 1) := by
    rw [← getEq, ← List.drop_eq_getElem_cons inBounds, List.take_append_drop]
  obtain ⟨before, after, csEq, beforeEq, _⟩ := exists_of_octets_eq_append_cons ascii split
  refine ⟨before, after, csEq, ?_⟩
  rw [← length_octets, beforeEq, List.length_take]
  omega

/-! ## The order of bytes -/

/-- The bytes of a text in UTF-8. -/
def bytes (text : String) : List UInt8 := text.toByteArray.data.toList

theorem bytes_eq_flatMap (text : String) :
    bytes text = text.toList.flatMap String.utf8EncodeChar := by
  rw [← String.ofList_toList (s := text), bytes, String.toByteArray_ofList, List.utf8Encode,
    List.data_toByteArray, String.toList_ofList]

theorem ofNat_cons_lt_iff {a b : Nat} (a_lt : a < 256) (b_lt : b < 256) {as bs : List UInt8} :
    UInt8.ofNat a :: as < UInt8.ofNat b :: bs ↔ a < b ∨ a = b ∧ as < bs := by
  rw [List.cons_lt_cons_iff, UInt8.lt_iff_toNat_lt, ← UInt8.toNat_inj,
    UInt8.toNat_ofNat_of_lt' a_lt, UInt8.toNat_ofNat_of_lt' b_lt]

theorem utf8EncodeChar_append_lt {d : Char} (less : c < d) (rest rest' : List UInt8) :
    String.utf8EncodeChar c ++ rest < String.utf8EncodeChar d ++ rest' := by
  have codes_lt : c.val.toNat < d.val.toNat := less
  have code_lt : d.val.toNat < 2097152 := by
    rcases d.valid with low | high
    · exact Nat.lt_trans low (by decide)
    · exact Nat.lt_trans high.2 (by decide)
  simp only [String.utf8EncodeChar]
  generalize c.val.toNat = v at *
  generalize d.val.toNat = w at *
  -- Characters of different widths differ in the first byte, others in a digit of the code.
  repeat' split
  all_goals
    simp (disch := omega) only [List.cons_append, ofNat_cons_lt_iff, Nat.mod_eq_of_lt]
    omega

theorem flatMap_utf8EncodeChar_lt {ds : List Char} (less : cs < ds) :
    cs.flatMap String.utf8EncodeChar < ds.flatMap String.utf8EncodeChar := by
  induction less with
  | @nil d ds =>
    rw [List.flatMap_nil, List.flatMap_cons]
    cases encoded : String.utf8EncodeChar d with
    | nil => exact absurd encoded String.utf8EncodeChar_ne_nil
    | cons => exact List.Lex.nil
  | rel less => exact utf8EncodeChar_append_lt less _ _
  | cons _ ih => exact List.append_left_lt ih

theorem bytes_lt_bytes {first second : String} (less : first < second) :
    bytes first < bytes second := by
  rw [bytes_eq_flatMap, bytes_eq_flatMap]
  exact flatMap_utf8EncodeChar_lt less

/-! ## Pieces of a text -/

/-- `piece` stands in `source` at byte `offset`. -/
def StandsAt (source piece : List Char) (offset : Nat) : Prop :=
  ∃ before after, source = before ++ piece ++ after ∧ byteLength before = offset

namespace StandsAt

variable {source piece : List Char} {offset : Nat}

theorem isValid_start {source : String} (stands : StandsAt source.toList piece offset) :
    String.Pos.Raw.IsValid source ⟨offset⟩ := by
  obtain ⟨before, after, sourceEq, rfl⟩ := stands
  rw [String.Pos.Raw.isValid_iff_exists_append]
  refine ⟨String.ofList before, String.ofList (piece ++ after), ?_, ?_⟩
  · rw [← String.ofList_append, ← List.append_assoc, ← sourceEq, String.ofList_toList]
  · simp [String.rawEndPos]

theorem part {before after : List Char}
    (stands : StandsAt source (before ++ piece ++ after) offset) :
    StandsAt source piece (offset + byteLength before) := by
  obtain ⟨outerBefore, outerAfter, rfl, rfl⟩ := stands
  exact ⟨outerBefore ++ before, after ++ outerAfter, by simp, by simp⟩

theorem subset (stands : StandsAt source piece offset) : piece ⊆ source := by
  obtain ⟨before, after, rfl, _⟩ := stands
  intro c mem
  simp [mem]

theorem isValid_stop {source : String} (stands : StandsAt source.toList piece offset) :
    String.Pos.Raw.IsValid source ⟨offset + byteLength piece⟩ := by
  have atEnd : StandsAt source.toList (piece ++ [] ++ []) offset := by simpa using stands
  exact isValid_start atEnd.part

end StandsAt

end ModelWeaver.Text
