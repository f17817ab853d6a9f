import Mathlib.Data.List.TakeWhile
import ModelWeaver.Proofs.Text.Digits
import ModelWeaver.Snippet.Format
import ModelWeaver.Text.Letter

/-!
# Templates and what fills them

A template is written by doubling the characters that start a field in its literal texts, and by
putting fields between these. Both ways to fill in a template give back the literal texts, with
the texts of the values between them, wherever the doubled characters stand. Values that are
missing are refused; values that are left over are refused by conversions only.
-/

namespace ModelWeaver.Snippet.Format

open Number
open Text

/-! ## Writing templates -/

/-- A literal text in a template: characters that would start or end a field are doubled. -/
def escaped (isMark : Char → Bool) (literal : String) : List Char :=
  literal.toList.flatMap fun c => if isMark c then [c, c] else [c]

/-- A literal text, and fields with the literal texts behind them. -/
def written (isMark : Char → Bool) (first : String) (fields : List (List Char × String)) :
    String :=
  String.ofList
    (escaped isMark first ++ fields.flatMap fun field => field.1 ++ escaped isMark field.2)

def isBrace (c : Char) : Bool := c = '{' || c = '}'

def isPercent (c : Char) : Bool := c = '%'

/-- A template with a replacement field of the given key before each but the first literal. -/
def braceTemplate (first : String) (keys literals : List String) : String :=
  written isBrace first
    ((keys.zip literals).map fun field => ('{' :: field.1.toList ++ ['}'], field.2))

/-- A template with a conversion before each but the first literal. -/
def percentTemplate (first : String) (literals : List String) : String :=
  written isPercent first (literals.map fun literal => (['%', 's'], literal))

/-- Literal texts with the texts of values between them. -/
def filled (first : String) (values : List Value) (literals : List String) : String :=
  (values.zip literals).foldl (fun done field => done ++ field.1.text ++ field.2) first

/-- The name of a keyword argument, as it is read. -/
def IsIdentifier (name : String) : Prop :=
  ∃ c cs, name.toList = c :: cs ∧ (isAlphabetic c || c = '_') = true ∧
    ∀ d ∈ cs, (isAlphanumeric d || d = '_') = true

/-! ## Literal texts -/

theorem append_ofList_cons (done : String) (c : Char) (cs : List Char) :
    done ++ String.ofList (c :: cs) = done.push c ++ String.ofList cs := by
  rw [← String.toList_inj]
  simp

/-- If every character is read back, on its own or doubled, then so are literal texts. -/
theorem foldlM_escaped {σ : Type} {step : σ → Char → Except Failure σ} {isMark : Char → Bool}
    (state : String → σ)
    (single : ∀ done c, (if isMark c then [c, c] else [c]).foldlM step (state done) =
      .ok (state (done.push c)))
    (literal : String) (done : String) :
    (escaped isMark literal).foldlM step (state done) = .ok (state (done ++ literal)) := by
  rw [escaped]
  conv => rhs; rw [← String.ofList_toList (s := literal)]
  induction literal.toList generalizing done with
  | nil =>
    rw [String.ofList_nil, String.append_empty]
    rfl
  | cons c cs ih =>
    rw [List.flatMap_cons, List.foldlM_append, single, append_ofList_cons]
    exact ih (done.push c)

theorem apply_eq_text {spec : Spec} {value : Value} (noWidth : spec.width = 0)
    (body : spec.body value = .ok value.text) : spec.apply value = .ok value.text := by
  rw [Spec.apply, body, noWidth]
  change (if 0 - value.text.length = 0 then Except.ok value.text else _) = _
  exact if_pos (Nat.zero_sub _)

/-! ## Replacement fields -/

section Braces

variable {positional : List Value} {keyword : List (String × Value)}

theorem foldlM_escaped_brace (literal : String) (next : Nat) (done : String) :
    (escaped isBrace literal).foldlM (Filling.step positional keyword) ⟨.literal, next, done⟩ =
      .ok ⟨.literal, next, done ++ literal⟩ := by
  refine foldlM_escaped (Filling.mk .literal next) (fun done c => ?_) literal done
  by_cases opener : c = '{'
  · subst opener
    rfl
  · by_cases closer : c = '}'
    · subst closer
      rfl
    · have plain : isBrace c = false := by
        simp [isBrace, opener, closer]
      rw [plain]
      change Filling.step positional keyword ⟨.literal, next, done⟩ c >>= pure = _
      rw [bind_pure, Filling.step]
      change (if c = '{' then _ else if c = '}' then _ else _) = _
      rw [if_neg opener, if_neg closer]

/-- What can stand between the braces of a field: nothing that ends the key or the field. -/
def IsKey (key : List Char) : Prop := ∀ c ∈ key, c ≠ '{' ∧ c ≠ '}' ∧ c ≠ ':'

/-- A field with its key is read up to its closing brace. -/
theorem foldlM_field {key : List Char} (isKey : IsKey key) (next : Nat) (done : String) :
    ('{' :: key ++ ['}']).foldlM (Filling.step positional keyword) ⟨.literal, next, done⟩ =
      Filling.close ⟨.literal, next, done⟩ positional keyword key := by
  have inside (read key : List Char) (noCloser : ∀ c ∈ key, c ≠ '}') :
      (key ++ ['}']).foldlM (Filling.step positional keyword) ⟨.field read, next, done⟩ =
        Filling.close ⟨.literal, next, done⟩ positional keyword (read.reverse ++ key) := by
    induction key generalizing read with
    | nil =>
      rw [List.append_nil]
      exact bind_pure _
    | cons c key ih =>
      obtain ⟨first, others⟩ := List.forall_mem_cons.mp noCloser
      have goesOn : Filling.step positional keyword ⟨.field read, next, done⟩ c =
          .ok ⟨.field (c :: read), next, done⟩ := if_neg first
      rw [List.cons_append, List.foldlM_cons, goesOn]
      change (key ++ ['}']).foldlM _ _ = _
      rw [ih (c :: read) others, List.reverse_cons, List.append_assoc,
        List.singleton_append]
  cases key with
  | nil => exact bind_pure (Filling.close ⟨.literal, next, done⟩ positional keyword [])
  | cons c key =>
    obtain ⟨first, others⟩ := List.forall_mem_cons.mp isKey
    have starts : Filling.step positional keyword ⟨.opened, next, done⟩ c =
        .ok ⟨.field [c], next, done⟩ := (if_neg first.1).trans (if_neg first.2.1)
    change Filling.step positional keyword ⟨.opened, next, done⟩ c >>= _ = _
    rw [starts]
    exact inside [c] key fun d mem => (others d mem).2.1

theorem close_of_isKey {key : List Char} (isKey : IsKey key) (next : Nat) (done : String) :
    Filling.close ⟨.literal, next, done⟩ positional keyword key =
      match fieldValue? positional keyword next key with
      | none => .error (.outOfRange (.replacementField (String.ofList key)))
      | some value =>
        .ok ⟨.literal, if key.isEmpty then next + 1 else next, done ++ value.text⟩ := by
  have whole : key.takeWhile (· ≠ ':') = key :=
    List.takeWhile_eq_self_iff.mpr fun c mem => decide_eq_true (isKey c mem).2.2
  rw [Filling.close, fieldText, whole, List.drop_eq_nil_of_le (Nat.le_succ _)]
  cases fieldValue? positional keyword next key with
  | none => rfl
  | some value =>
    change (Spec.apply {} value >>= fun text => _) = _
    rw [apply_eq_text rfl rfl]
    rfl

/-- The fields of a template with the literal texts behind them. -/
def braceFields (keys literals : List String) : List Char :=
  (keys.zip literals).flatMap fun field =>
    '{' :: field.1.toList ++ ['}'] ++ escaped isBrace field.2

theorem braceFields_cons (key : String) (keys : List String) (literal : String)
    (literals : List String) :
    braceFields (key :: keys) (literal :: literals) =
      '{' :: key.toList ++ ['}'] ++ (escaped isBrace literal ++ braceFields keys literals) := by
  rw [braceFields, List.zip_cons_cons, List.flatMap_cons, List.append_assoc]
  rfl

/-- One field and the literal text behind it. -/
theorem foldlM_braceFields_cons {key : String} (isKey : IsKey key.toList) (next : Nat)
    (done : String) (keys : List String) (literal : String) (literals : List String) :
    (braceFields (key :: keys) (literal :: literals)).foldlM (Filling.step positional keyword)
        ⟨.literal, next, done⟩ =
      match fieldValue? positional keyword next key.toList with
      | none => .error (.outOfRange (.replacementField key))
      | some value =>
        (braceFields keys literals).foldlM (Filling.step positional keyword)
          ⟨.literal, if key.toList.isEmpty then next + 1 else next,
            done ++ value.text ++ literal⟩ := by
  rw [braceFields_cons, List.foldlM_append, foldlM_field isKey, close_of_isKey isKey]
  cases fieldValue? positional keyword next key.toList with
  | none =>
    rw [String.ofList_toList]
    rfl
  | some value =>
    change (escaped isBrace literal ++ _).foldlM _ _ = _
    rw [List.foldlM_append, foldlM_escaped_brace]
    rfl

/-- What the fields with the given keys ask for, if `next` fields without a key came before. -/
inductive Asks (positional : List Value) (keyword : List (String × Value)) :
    Nat → List String → List (Option Value) → Prop where
  | nil (next : Nat) : Asks positional keyword next [] []
  | cons {next : Nat} {key : String} {keys : List String} {found : List (Option Value)}
      (isKey : IsKey key.toList)
      (asks : Asks positional keyword (if key.toList.isEmpty then next + 1 else next) keys found) :
      Asks positional keyword next (key :: keys)
        (fieldValue? positional keyword next key.toList :: found)

section Runs

variable {next : Nat} {keys literals : List String} {found : List (Option Value)}

/-- Fields whose values are all there are filled in. -/
theorem Asks.foldlM_of_found (asks : Asks positional keyword next keys found)
    {values : List Value} (found_eq : found = values.map some)
    (lengths : keys.length = literals.length) (done : String) :
    ∃ next', (braceFields keys literals).foldlM (Filling.step positional keyword)
        ⟨.literal, next, done⟩ = .ok ⟨.literal, next', filled done values literals⟩ := by
  induction asks generalizing values literals done with
  | nil next =>
    obtain rfl : values = [] := List.map_eq_nil_iff.mp found_eq.symm
    exact ⟨next, rfl⟩
  | cons isKey asks ih =>
    obtain ⟨value, values, rfl, value_eq, values_eq⟩ := List.map_eq_cons_iff.mp found_eq.symm
    obtain ⟨literal, literals, rfl⟩ :=
      List.exists_cons_of_length_eq_add_one lengths.symm
    rw [foldlM_braceFields_cons isKey, ← value_eq]
    exact ih values_eq.symm (Nat.succ.inj lengths) _

/-- A field without a value stops the template. -/
theorem Asks.foldlM_of_missing (asks : Asks positional keyword next keys found)
    (missing : none ∈ found) (lengths : keys.length = literals.length) (done : String) :
    ∃ failure, (braceFields keys literals).foldlM (Filling.step positional keyword)
        ⟨.literal, next, done⟩ = .error failure := by
  induction asks generalizing literals done with
  | nil next => cases missing
  | @cons next key keys found isKey asks ih =>
    obtain ⟨literal, literals, rfl⟩ :=
      List.exists_cons_of_length_eq_add_one lengths.symm
    rw [foldlM_braceFields_cons isKey]
    cases lookup : fieldValue? positional keyword next key.toList with
    | none => exact ⟨_, rfl⟩
    | some value =>
      rw [lookup, List.mem_cons] at missing
      exact ih (missing.resolve_left nofun) (Nat.succ.inj lengths) _

theorem foldlM_braceTemplate (first : String) (keys literals : List String) :
    (braceTemplate first keys literals).toList.foldlM (Filling.step positional keyword) {} =
      (braceFields keys literals).foldlM (Filling.step positional keyword)
        ⟨.literal, 0, first⟩ := by
  rw [braceTemplate, written, String.toList_ofList, List.foldlM_append, List.flatMap_map]
  rw [foldlM_escaped_brace, String.empty_append]
  rfl

/-- A template is filled in if all its fields find their values, and refused otherwise. -/
theorem Asks.filling (asks : Asks positional keyword 0 keys found)
    (lengths : keys.length = literals.length) (first : String) :
    (∀ values, found = values.map some →
      template (braceTemplate first keys literals) positional keyword =
        .ok (filled first values literals)) ∧
    (none ∈ found →
      ∃ failure, template (braceTemplate first keys literals) positional keyword =
        .error failure) := by
  rw [template, foldlM_braceTemplate]
  constructor
  · intro values found_eq
    obtain ⟨next, run⟩ := asks.foldlM_of_found found_eq lengths first
    rw [run]
    rfl
  · intro missing
    obtain ⟨failure, run⟩ := asks.foldlM_of_missing missing lengths first
    rw [run]
    exact ⟨failure, rfl⟩

end Runs

/-! ### Keys -/

theorem asks_next (positional : List Value) (keyword : List (String × Value)) (next count : Nat) :
    Asks positional keyword next (List.replicate count "")
      ((List.range' next count).map (positional[·]?)) := by
  induction count generalizing next with
  | zero => exact .nil next
  | succ count ih =>
    exact .cons (List.forall_mem_nil _) (ih (next + 1))

/-- Keys that are not empty ask for the same values wherever they stand. -/
theorem asks_keys (positional : List Value) (keyword : List (String × Value)) {keys : List String}
    (areKeys : ∀ key ∈ keys, key.toList.isEmpty = false ∧ IsKey key.toList) :
    Asks positional keyword 0 keys
      (keys.map fun key => fieldValue? positional keyword 0 key.toList) := by
  induction keys with
  | nil => exact .nil 0
  | cons key keys ih =>
    obtain ⟨⟨nonempty, isKey⟩, others⟩ := List.forall_mem_cons.mp areKeys
    refine .cons isKey ?_
    rw [nonempty]
    exact ih others

theorem readIndex?_cons {c : Char} (noPlus : c ≠ '+') (cs : List Char) :
    readIndex? (c :: cs) =
      (readNat? (c :: cs)).bind fun n => if n < UInt64.size then some n else none := by
  rw [readIndex?]
  · rfl
  · rintro rest ⟨⟩
    exact noPlus rfl

/-- The digits of a number ask for the value at that position. -/
theorem fieldValue?_repr {i : Nat} (small : i < UInt64.size) (next : Nat) :
    fieldValue? positional keyword next (toString i).toList = positional[i]? := by
  have digits : (toString i).toList = Nat.toDigits 10 i := Nat.toList_repr
  have areDigits : ∀ c ∈ Nat.toDigits 10 i, c.isDigit = true := fun c mem =>
    Nat.isDigit_of_mem_toDigits (by decide) (by decide) mem
  have value : digitsValue (Nat.toDigits 10 i) = i := Nat.ofDigitChars_ten_toDigits
  rw [digits, fieldValue?]
  cases text : Nat.toDigits 10 i with
  | nil => exact absurd text Nat.toDigits_ne_nil
  | cons c cs =>
    rw [text] at areDigits value
    have noPlus : c ≠ '+' := by
      rintro rfl
      exact absurd (areDigits '+' List.mem_cons_self) (by decide)
    have read : readNat? (c :: cs) = some i := by
      rw [readNat?, List.all_eq_true.mpr areDigits, value]
      rfl
    rw [readIndex?_cons noPlus, read, Option.bind_some, if_pos small]
    rfl

theorem isAlphabetic_eq_false_of_isDigit {c : Char} (isDigit : c.isDigit = true) :
    isAlphabetic c = false := by
  have codes : ∀ code < 58, 48 ≤ code → isAlphabetic (Char.ofNat code) = false := by
    decide +kernel
  obtain ⟨above, below⟩ := Char.isDigit_iff_toNat.mp isDigit
  rw [← Char.ofNat_toNat c]
  exact codes c.toNat (Nat.lt_succ_of_le below) above

theorem IsIdentifier.fieldValue? {name : String} (identifier : IsIdentifier name) (next : Nat) :
    fieldValue? positional keyword next name.toList = keyword.lookup name := by
  obtain ⟨c, cs, text, starts, -⟩ := identifier
  have noPlus : c ≠ '+' := by
    rintro rfl
    exact absurd starts (by decide +kernel)
  have noDigit : c.isDigit = false := by
    by_contra isDigit
    rw [Bool.not_eq_false] at isDigit
    rw [isAlphabetic_eq_false_of_isDigit isDigit, Bool.false_or, decide_eq_true_eq] at starts
    rw [starts] at isDigit
    cases isDigit
  have unread : readNat? (c :: cs) = none := by
    rw [readNat?, List.all_cons, noDigit]
    rfl
  rw [Format.fieldValue?, text, readIndex?_cons noPlus, unread, ← text, String.ofList_toList]
  rw [text]
  rfl

theorem IsIdentifier.isKey {name : String} (identifier : IsIdentifier name) :
    name.toList.isEmpty = false ∧ IsKey name.toList := by
  obtain ⟨c, cs, text, starts, more⟩ := identifier
  rw [text]
  refine ⟨rfl, List.forall_mem_cons.mpr ⟨?_, fun d mem => ?_⟩⟩
  · refine ⟨?_, ?_, ?_⟩ <;>
    · rintro rfl
      exact absurd starts (by decide +kernel)
  · have part := more d mem
    refine ⟨?_, ?_, ?_⟩ <;>
    · rintro rfl
      exact absurd part (by decide +kernel)

theorem isKey_repr (i : Nat) :
    (toString i).toList.isEmpty = false ∧ IsKey (toString i).toList := by
  have digits : (toString i).toList = Nat.toDigits 10 i := Nat.toList_repr
  rw [digits]
  refine ⟨List.isEmpty_eq_false_iff.mpr Nat.toDigits_ne_nil, fun c mem => ?_⟩
  have isDigit : c.isDigit = true := Nat.isDigit_of_mem_toDigits (by decide) (by decide) mem
  refine ⟨?_, ?_, ?_⟩ <;>
  · rintro rfl
    exact absurd isDigit (by decide)

end Braces

/-! ## Conversions -/

section Percents

variable {whole : String}

theorem foldlM_escaped_percent (literal : String) (values : List Value) (done : String) :
    (escaped isPercent literal).foldlM (Converting.step whole) ⟨.literal, values, done⟩ =
      .ok ⟨.literal, values, done ++ literal⟩ := by
  refine foldlM_escaped (Converting.mk .literal values) (fun done c => ?_) literal done
  by_cases mark : c = '%'
  · subst mark
    rfl
  · have plain : isPercent c = false := decide_eq_false mark
    rw [plain]
    change Converting.step whole ⟨.literal, values, done⟩ c >>= pure = _
    rw [bind_pure]
    exact if_neg mark

/-- The conversions of a template with the literal texts behind them. -/
def percentFields (literals : List String) : List Char :=
  literals.flatMap fun literal => '%' :: 's' :: escaped isPercent literal

theorem foldlM_percentFields_cons (value : Value) (values : List Value) (literal : String)
    (literals : List String) (done : String) :
    (percentFields (literal :: literals)).foldlM (Converting.step whole)
        ⟨.literal, value :: values, done⟩ =
      (percentFields literals).foldlM (Converting.step whole)
        ⟨.literal, values, done ++ value.text ++ literal⟩ := by
  have shown : Spec.apply { kind := some 's' } value = .ok value.text := apply_eq_text rfl rfl
  rw [percentFields, List.flatMap_cons, List.cons_append, List.cons_append]
  change (Spec.apply { kind := some 's' } value >>= fun text => Except.ok _) >>=
    (escaped isPercent literal ++ percentFields literals).foldlM (Converting.step whole) = _
  rw [shown]
  change (escaped isPercent literal ++ _).foldlM _ (Converting.mk .literal values _) = _
  rw [List.foldlM_append, foldlM_escaped_percent]
  rfl

/-- As many conversions as there are literal texts take their values, or fail for want of one. -/
theorem foldlM_percentFields (whole : String) (literals : List String) (values : List Value)
    (done : String) :
    (literals.length ≤ values.length →
      (percentFields literals).foldlM (Converting.step whole) ⟨.literal, values, done⟩ =
        .ok ⟨.literal, values.drop literals.length, filled done values literals⟩) ∧
    (values.length < literals.length →
      (percentFields literals).foldlM (Converting.step whole) ⟨.literal, values, done⟩ =
        .error (.badArgument .notEnoughValues)) := by
  induction literals generalizing values done with
  | nil =>
    have nothing : filled done values [] = done := by
      rw [filled, List.zip_nil_right]
      rfl
    rw [nothing]
    exact ⟨fun _ => rfl, fun below => absurd below (Nat.not_lt_zero _)⟩
  | cons literal literals ih =>
    cases values with
    | nil => exact ⟨fun within => absurd within (Nat.not_succ_le_zero _), fun _ => rfl⟩
    | cons value values =>
      rw [foldlM_percentFields_cons]
      obtain ⟨enough, tooFew⟩ := ih values (done ++ value.text ++ literal)
      exact ⟨fun within => enough (Nat.le_of_succ_le_succ within),
        fun below => tooFew (Nat.lt_of_succ_lt_succ below)⟩

theorem foldlM_percentTemplate (first : String) (literals : List String) (values : List Value) :
    (percentTemplate first literals).toList.foldlM (Converting.step whole) { values } =
      (percentFields literals).foldlM (Converting.step whole) ⟨.literal, values, first⟩ := by
  rw [percentTemplate, written, String.toList_ofList, List.foldlM_append, List.flatMap_map,
    foldlM_escaped_percent, String.empty_append]
  rfl

/-- Conversions need as many values as there are. -/
theorem percent_percentTemplate (first : String) (literals : List String) (values : List Value) :
    (values.length = literals.length →
      percent (percentTemplate first literals) (.tuple values) =
        .ok (filled first values literals)) ∧
    (values.length ≠ literals.length → ∃ failure,
      percent (percentTemplate first literals) (.tuple values) = .error failure) := by
  obtain ⟨enough, tooFew⟩ :=
    foldlM_percentFields (percentTemplate first literals) literals values first
  rw [percent, foldlM_percentTemplate]
  constructor
  · intro same
    rw [enough same.ge, ← same, List.drop_length]
    rfl
  · intro different
    rcases Nat.lt_or_gt_of_ne different with below | above
    · rw [tooFew below]
      exact ⟨_, rfl⟩
    · rw [enough above.le]
      cases left : values.drop literals.length with
      | nil => exact absurd (List.drop_eq_nil_iff.mp left) (Nat.not_le_of_lt above)
      | cons value values => exact ⟨_, rfl⟩

end Percents

/-! ## Filling in -/

/-- Values are put between literal texts, as many as there are places for them, unless there are
too few. -/
structure Fills (first : String) (literals : List String) (values : List Value)
    (result : Except Failure String) : Prop where
  enough : literals.length ≤ values.length → result = .ok (filled first values literals)
  tooFew : values.length < literals.length → ∃ failure, result = .error failure

section Fills

variable {first : String} {literals names : List String} {values : List Value}

theorem filled_take (first : String) (values : List Value) (literals : List String) :
    filled first (values.take literals.length) literals = filled first values literals := by
  induction literals generalizing first values with
  | nil => rw [filled, filled, List.zip_nil_right, List.zip_nil_right]
  | cons literal literals ih =>
    cases values with
    | nil => rfl
    | cons value values => exact ih (first ++ value.text ++ literal) values

theorem Asks.fills {positional : List Value} {keyword : List (String × Value)}
    {keys : List String} {found : List (Option Value)}
    (asks : Asks positional keyword 0 keys found) (lengths : keys.length = literals.length)
    (enough : literals.length ≤ values.length →
      found = (values.take literals.length).map some)
    (tooFew : values.length < literals.length → none ∈ found) (first : String) :
    Fills first literals values
      (template (braceTemplate first keys literals) positional keyword) := by
  obtain ⟨ofFound, ofMissing⟩ := asks.filling lengths first
  refine ⟨fun within => ?_, fun below => ofMissing (tooFew below)⟩
  rw [ofFound _ (enough within), filled_take]

theorem map_getElem?_range {count : Nat} (within : count ≤ values.length) :
    (List.range count).map (values[·]?) = (values.take count).map some := by
  induction count with
  | zero => rfl
  | succ count ih =>
    rw [List.range_succ, List.map_append, ih (Nat.le_of_succ_le within),
      List.take_succ_eq_append_getElem within, List.map_append, List.map_singleton,
      List.map_singleton, List.getElem?_eq_getElem within]

theorem none_mem_map_getElem? {count : Nat} (below : values.length < count) :
    none ∈ (List.range count).map (values[·]?) :=
  List.mem_map.mpr ⟨values.length, List.mem_range.mpr below, List.getElem?_eq_none le_rfl⟩

theorem map_lookup_cons {name : String} (distinct : name ∉ names) (value : Value)
    (entries : List (String × Value)) :
    (name :: names).map (fun other => ((name, value) :: entries).lookup other) =
      some value :: names.map fun other => entries.lookup other := by
  rw [List.map_cons, List.lookup_cons_self]
  congr 1
  refine List.map_congr_left fun other mem => ?_
  have different : (other == name) = false := by
    rw [beq_eq_false_iff_ne]
    rintro rfl
    exact distinct mem
  rw [List.lookup_cons, different]

theorem map_lookup_zip (distinct : names.Nodup) (within : names.length ≤ values.length)
    (extra : List (String × Value)) :
    names.map (fun name => (names.zip values ++ extra).lookup name) =
      (values.take names.length).map some := by
  induction names generalizing values with
  | nil => rfl
  | cons name names ih =>
    obtain ⟨new, distinct⟩ := List.nodup_cons.mp distinct
    cases values with
    | nil => exact absurd within (Nat.not_succ_le_zero _)
    | cons value values =>
      rw [List.zip_cons_cons, List.cons_append, map_lookup_cons new,
        ih distinct (Nat.le_of_succ_le_succ within)]
      rfl

theorem none_mem_map_lookup_zip (distinct : names.Nodup) (below : values.length < names.length)
    {extra : List (String × Value)} (others : ∀ entry ∈ extra, entry.1 ∉ names) :
    none ∈ names.map fun name => (names.zip values ++ extra).lookup name := by
  induction names generalizing values with
  | nil => exact absurd below (Nat.not_lt_zero _)
  | cons name names ih =>
    obtain ⟨new, distinct⟩ := List.nodup_cons.mp distinct
    cases values with
    | nil =>
      have absent : extra.lookup name = none := List.lookup_eq_none_iff.mpr fun entry mem =>
        bne_iff_ne.mpr fun same => others entry mem (same ▸ List.mem_cons_self)
      rw [List.zip_nil_right, List.nil_append, List.map_cons, absent]
      exact List.mem_cons_self
    | cons value values =>
      rw [List.zip_cons_cons, List.cons_append, map_lookup_cons new]
      refine List.mem_cons_of_mem _
        (ih distinct (Nat.lt_of_succ_lt_succ below) ?_)
      exact fun entry mem inside => others entry mem (List.mem_cons_of_mem name inside)

end Fills

/-- Literal texts are escaped so that both formatters give them back, with the texts of the values
between them: replacement fields without a key, with the positions of the values, and with their
names, and conversions. Too few values are refused by all of them, and too many by conversions. -/
theorem formatters_agree (first : String) (literals : List String) (values : List Value) :
    (∀ keyword, Fills first literals values
      (template (braceTemplate first (List.replicate literals.length "") literals) values
        keyword)) ∧
    (literals.length ≤ UInt64.size → ∀ keyword, Fills first literals values
      (template (braceTemplate first ((List.range literals.length).map toString) literals) values
        keyword)) ∧
    (∀ names : List String, names.length = literals.length → names.Nodup →
      (∀ name ∈ names, IsIdentifier name) →
      ∀ positional extra, (∀ entry ∈ extra, entry.1 ∉ names) → Fills first literals values
        (template (braceTemplate first names literals) positional (names.zip values ++ extra))) ∧
    (values.length = literals.length →
      percent (percentTemplate first literals) (.tuple values) =
        .ok (filled first values literals)) ∧
    (values.length ≠ literals.length → ∃ failure,
      percent (percentTemplate first literals) (.tuple values) = .error failure) := by
  refine ⟨fun keyword => ?_, fun small keyword => ?_, ?_, percent_percentTemplate ..⟩
  · have asks := asks_next values keyword 0 literals.length
    rw [← List.range_eq_range'] at asks
    exact asks.fills List.length_replicate map_getElem?_range none_mem_map_getElem? first
  · have areKeys : ∀ key ∈ (List.range literals.length).map toString,
        key.toList.isEmpty = false ∧ IsKey key.toList :=
      List.forall_mem_map.mpr fun i _ => isKey_repr i
    have asks := asks_keys values keyword areKeys
    have lookups : (List.range literals.length).map
        (fun i => fieldValue? values keyword 0 (toString i).toList) =
          (List.range literals.length).map (values[·]?) :=
      List.map_congr_left fun i mem =>
        fieldValue?_repr (Nat.lt_of_lt_of_le (List.mem_range.mp mem) small) 0
    rw [List.map_map] at asks
    change Asks _ _ _ _ ((List.range literals.length).map
      fun i => fieldValue? values keyword 0 (toString i).toList) at asks
    rw [lookups] at asks
    exact asks.fills (by simp) map_getElem?_range none_mem_map_getElem? first
  · intro names lengths distinct identifiers positional extra others
    have asks := asks_keys positional (names.zip values ++ extra)
      fun name mem => (identifiers name mem).isKey
    rw [List.map_congr_left fun name mem => (identifiers name mem).fieldValue? 0] at asks
    refine asks.fills lengths (fun within => ?_) (fun below => ?_) first
    · rw [← lengths] at within ⊢
      exact map_lookup_zip distinct within extra
    · rw [← lengths] at below
      exact none_mem_map_lookup_zip distinct below others

/-- Marks at the ends of the literal texts and in a value. -/
theorem formatters_agree_runsOfMarks :
    template "\x7b\x7b%\x7bx\x7d\x7d\x7d%%\x7bé_2\x7d\x7b\x7b" []
        [("x", .int 7), ("é_2", .str "%s\x7b\x7d")] = .ok "\x7b%7\x7d%%%s\x7b\x7d\x7b" ∧
      percent "\x7b%%%s\x7d%%%%%s\x7b" (.tuple [.int 7, .str "%s\x7b\x7d"]) =
        .ok "\x7b%7\x7d%%%s\x7b\x7d\x7b" := by
  obtain ⟨-, -, names, conversions, -⟩ :=
    formatters_agree "\x7b%" ["\x7d%%", "\x7b"] [.int 7, .str "%s\x7b\x7d"]
  have identifiers : ∀ name ∈ ["x", "é_2"], IsIdentifier name := List.forall_mem_cons.mpr
    ⟨⟨'x', [], rfl, by decide +kernel, List.forall_mem_nil _⟩, List.forall_mem_singleton.mpr
      ⟨'é', ['_', '2'], by decide +kernel, by decide +kernel, List.forall_mem_cons.mpr
        ⟨by decide +kernel, List.forall_mem_singleton.mpr (by decide +kernel)⟩⟩⟩
  have named := (names ["x", "é_2"] rfl (by decide) identifiers [] []
    (List.forall_mem_nil _)).enough (by decide)
  have converted := conversions rfl
  have result : filled "\x7b%" [.int 7, .str "%s\x7b\x7d"] ["\x7d%%", "\x7b"] =
      "\x7b%7\x7d%%%s\x7b\x7d\x7b" := by
    decide +kernel
  have braces : braceTemplate "\x7b%" ["x", "é_2"] ["\x7d%%", "\x7b"] =
      "\x7b\x7b%\x7bx\x7d\x7d\x7d%%\x7bé_2\x7d\x7b\x7b" := by
    decide +kernel
  have percents : percentTemplate "\x7b%" ["\x7d%%", "\x7b"] = "\x7b%%%s\x7d%%%%%s\x7b" := by
    decide +kernel
  rw [result, braces] at named
  rw [result, percents] at converted
  exact ⟨named, converted⟩

end ModelWeaver.Snippet.Format
