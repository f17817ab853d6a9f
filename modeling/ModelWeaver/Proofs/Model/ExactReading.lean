import ModelWeaver.Model.Program
import ModelWeaver.Proofs.Model.Contributions
import ModelWeaver.Proofs.Number.FloatOrder

/-!
# Linear programs read exactly

Read exactly, a constraint is an inequality or equation between rational multiples of variables,
and a bound is a rational number. If each variable occurs once in a relation between finite
numbers, then the constraint made from it says the same, except that coefficients up to the
tolerance count as zero. A relation over integers states an inequality by itself, and so does the
constraint made from it, if its numbers are small enough for a float.

What is written of a program says less: variables that look like elements of an indexed variable,
and hidden ones, are not declared, and so their bounds are missing.
-/

namespace ModelWeaver.Model

open Number Float.Model

variable {K : Type} [Field K] {contributions : List Contribution} {x : Float} {c : Int}

/-! ## Operands -/

namespace Operand

mutual

/-- What an operand adds up: multiples of variables, and constants, which have no name. -/
def entries : Operand Int → List (Option String × Int)
  | constant value => [(none, value)]
  | product a b => [(none, a * b)]
  | single name => [(some (stripMark name), 1)]
  | term name coefficient => [(some (stripMark name), coefficient)]
  | sum items => allEntries items
termination_by structural operand => operand

/-- What operands add up, one after the other. -/
def allEntries : List (Operand Int) → List (Option String × Int)
  | [] => []
  | item :: items => entries item ++ allEntries items
termination_by structural items => items

end

/-- The number that an entry stands for. -/
def entryValue (values : String → K) (entry : Option String × Int) : K :=
  entry.2 * entry.1.elim 1 values

/-- The number that an operand stands for. -/
def value (values : String → K) (operand : Operand Int) : K :=
  (operand.entries.map (entryValue values)).sum

variable {values : String → K}

theorem allEntries_eq_flatMap (items : List (Operand Int)) :
    allEntries items = items.flatMap entries := by
  induction items with
  | nil => rfl
  | cons item items ih =>
    rw [allEntries, ih, List.flatMap_cons]

@[simp]
theorem value_constant (c : Int) : (constant c).value values = c := by
  simp [value, entries, entryValue]

@[simp]
theorem value_single (name : String) : (single name).value values = values (stripMark name) := by
  simp [value, entries, entryValue]

@[simp]
theorem value_term (name : String) (c : Int) :
    (term name c).value values = c * values (stripMark name) := by
  simp [value, entries, entryValue]

theorem value_sum (items : List (Operand Int)) :
    (sum items).value values = (items.map (value values)).sum := by
  induction items with
  | nil => rfl
  | cons item items ih =>
    rw [List.map_cons, List.sum_cons, ← ih]
    simp only [value, entries, allEntries, List.map_append, List.sum_append]

@[simp]
theorem value_ofNames (names : List String) :
    (ofNames names).value values = (names.map fun name => values (stripMark name)).sum := by
  rw [ofNames, value_sum, List.map_map]
  congr 1
  apply List.map_congr_left
  intro name _
  exact value_single name

end Operand

/-! ## Readings -/

/-- The sum of multiples of variables. There is none if a multiple is not finite. -/
def exactSum? (values : String → K) : List (String × Float) → Option K
  | [] => some 0
  | (name, x) :: terms => do return (← exactValue? x) * values name + (← exactSum? values terms)

section Holds

variable [LinearOrder K]

/-- Whether two numbers compare as a sense says. -/
def Sense.Holds : Sense → K → K → Prop
  | le, a, b => a ≤ b
  | ge, a, b => b ≤ a
  | eq, a, b => a = b

/-- Values satisfy a relation between integer multiples of variables. -/
def Relation.Holds (values : String → K) (relation : Relation Int) : Prop :=
  relation.sense.Holds (relation.left.value values) (relation.right.value values)

/-- Values satisfy a constraint with finite numbers. -/
def Constraint.Holds (values : String → K) (constraint : Constraint) : Prop :=
  ∃ lhs rhs, exactSum? values constraint.terms.entries = some lhs ∧
    exactValue? constraint.rhs = some rhs ∧ constraint.sense.Holds lhs (rhs : K)

/-- A value is within the bounds of a variable and of its type. -/
def Variable.Admits (v : Variable) (value : K) : Prop :=
  (∀ x ∈ v.lower, ∃ bound, exactValue? x = some bound ∧ (bound : K) ≤ value) ∧
    (∀ x ∈ v.upper, ∃ bound, exactValue? x = some bound ∧ value ≤ (bound : K)) ∧
    match v.type with
    | .continuous => True
    | .integer => ∃ n : Int, value = n
    | .binary => value = 0 ∨ value = 1

/-- Values satisfy all constraints and bounds of a program. -/
def Program.Holds (values : String → K) (program : Program) : Prop :=
  (∀ v ∈ program.vars, v.Admits (values (stripMark v.name))) ∧
    ∀ entry ∈ program.constraints, entry.2.Holds values

/-- Values satisfy what is written of a program if nothing is declared before: its constraints,
and the bounds of the variables that are declared with it. -/
def Program.HoldsWritten (values : String → K) (program : Program) : Prop :=
  (∀ v ∈ program.vars, isDeclaredHere [] v = true → v.Admits (values (stripMark v.name))) ∧
    ∀ entry ∈ program.constraints, entry.2.Holds values

theorem Sense.holds_congr [IsStrictOrderedRing K] {sense : Sense} {a b c d : K}
    (same : a - b = c - d) : sense.Holds a b ↔ sense.Holds c d := by
  cases sense with
  | le => rw [Holds, Holds, ← sub_nonpos, same, sub_nonpos]
  | ge => rw [Holds, Holds, ← sub_nonneg, same, sub_nonneg]
  | eq => rw [Holds, Holds, ← sub_eq_zero, same, sub_eq_zero]

end Holds

/-! ## Gathering terms -/

theorem insertEntryWith_perm {α : Type} {combine : α → α → α} {name : String} {value : α}
    {entries : List (String × α)} (absent : name ∉ entries.map Prod.fst) :
    (NameMap.insertEntryWith combine name value entries).Perm ((name, value) :: entries) := by
  induction entries with
  | nil => exact List.Perm.refl _
  | cons entry entries ih =>
    rcases entry with ⟨other, old⟩
    rw [List.map_cons, List.mem_cons, not_or] at absent
    rw [NameMap.insertEntryWith, if_neg absent.1]
    split
    · exact List.Perm.refl _
    · exact ((ih absent.2).cons _).trans (List.Perm.swap _ _ _)

def Contribution.term? : Contribution → Option (String × Float)
  | toVariable name coefficient => some (name, coefficient)
  | toConstant _ => none

def Contribution.constant? : Contribution → Option Float
  | toVariable _ _ => none
  | toConstant value => some value

/-- If no variable occurs twice, its multiple is gathered as it is. -/
theorem gatherTerms_perm
    (distinct : ((contributions.filterMap Contribution.term?).map Prod.fst).Nodup) :
    (gatherTerms contributions).entries.Perm (contributions.filterMap Contribution.term?) := by
  induction contributions using List.reverseRecOn with
  | nil => exact List.Perm.refl _
  | append_singleton contributions last ih =>
    rw [List.filterMap_append, List.map_append] at distinct
    have gathered := ih (List.Nodup.of_append_left distinct)
    rw [gatherTerms, List.foldl_append, List.filterMap_append]
    change ((match last with
      | .toVariable name coefficient =>
        (gatherTerms contributions).insertWith (· + ·) name coefficient
      | .toConstant _ => gatherTerms contributions).entries).Perm _
    cases last with
    | toVariable name coefficient =>
      have absent : name ∉ (gatherTerms contributions).entries.map Prod.fst := by
        rw [(gathered.map Prod.fst).mem_iff]
        intro present
        exact List.disjoint_of_nodup_append distinct present (by simp [Contribution.term?])
      refine (insertEntryWith_perm absent).trans ?_
      refine (gathered.cons _).trans ?_
      exact (List.perm_append_singleton _ _).symm
    | toConstant value =>
      have nothing : [Contribution.toConstant value].filterMap Contribution.term? = [] := rfl
      rw [nothing, List.append_nil]
      exact gathered

theorem gatherConstant_eq (contributions : List Contribution) :
    gatherConstant contributions =
      (contributions.filterMap Contribution.constant?).foldl (· + ·) 0.0 := by
  rw [gatherConstant, List.foldl_filterMap]
  congr 1
  funext total contribution
  cases contribution <;> rfl

/-! ## Constraints of relations -/

/-- The number that a float stands for, if it is finite. -/
def exactNumber (x : Float) : K := ((exactValue? x).getD 0 : ℚ)

/-- The number that a coefficient counts as: zero up to the tolerance. -/
def effective (x : Float) : K := if isSignificant x then exactNumber x else 0

theorem isSignificant_neg (x : Float) : isSignificant (-x) = isSignificant x := by
  have abs_eq : (-x).abs = x.abs := by
    rw [← packed_unpacked (-x).abs, ← packed_unpacked x.abs, unpacked_abs, unpacked_abs,
      unpacked_neg]
    cases unpacked x <;> rfl
  rw [isSignificant, abs_eq, isSignificant]

theorem exactValue?_zero : exactValue? 0.0 = some 0 := by decide +kernel

theorem exactValue?_one : exactValue? 1.0 = some 1 := by decide +kernel

theorem exactValue?_zeroTolerance :
    exactValue? zeroTolerance = some (4951760157141521 / 2 ^ 92) := by
  decide +kernel

theorem isSignificant_iff {q : ℚ} (exact_eq : exactValue? x = some q) :
    isSignificant x = true ↔ 4951760157141521 / 2 ^ 92 < |q| := by
  rw [isSignificant, decide_eq_true_iff,
    lt_iff_exactValue? exactValue?_zeroTolerance (exactValue?_abs exact_eq)]

theorem isSignificant_of_one_le {q : ℚ} (exact_eq : exactValue? x = some q) (large : 1 ≤ |q|) :
    isSignificant x = true := by
  rw [isSignificant_iff exact_eq]
  exact lt_of_lt_of_le (by norm_num) large

theorem exactNumber_of_exactValue? {q : ℚ} (exact_eq : exactValue? x = some q) :
    (exactNumber x : K) = q := by
  rw [exactNumber, exact_eq, Option.getD_some]

theorem exactNumber_neg (x : Float) : (exactNumber (-x) : K) = -exactNumber x := by
  rw [exactNumber, exactNumber, exactValue?_neg]
  cases exactValue? x with
  | none => simp
  | some q => simp

theorem effective_neg (x : Float) : (effective (-x) : K) = -effective x := by
  rw [effective, effective, isSignificant_neg, exactNumber_neg]
  split
  · rfl
  · rw [neg_zero]

theorem effective_of_one_le {q : ℚ} (exact_eq : exactValue? x = some q) (large : 1 ≤ |q|) :
    (effective x : K) = q := by
  rw [effective, if_pos (isSignificant_of_one_le exact_eq large),
    exactNumber_of_exactValue? exact_eq]

theorem exactSum?_of_finite (values : String → K) {terms : List (String × Float)}
    (finite : ∀ term ∈ terms, (exactValue? term.2).isSome) :
    exactSum? values terms =
      some (terms.map fun term => exactNumber term.2 * values term.1).sum := by
  induction terms with
  | nil => rfl
  | cons term terms ih =>
    rcases List.forall_mem_cons.mp finite with ⟨here, later⟩
    rcases term with ⟨name, x⟩
    rcases Option.isSome_iff_exists.mp here with ⟨q, exact_eq⟩
    rw [exactSum?, ih later, exact_eq]
    simp [exactNumber_of_exactValue? exact_eq]

theorem sum_map_filter {α : Type} {f : α → K} {keep : α → Bool} {xs : List α}
    (dropped : ∀ x ∈ xs, keep x = false → f x = 0) :
    ((xs.filter keep).map f).sum = (xs.map f).sum := by
  induction xs with
  | nil => rfl
  | cons x xs ih =>
    rcases List.forall_mem_cons.mp dropped with ⟨here, later⟩
    rw [List.filter_cons, List.map_cons, List.sum_cons, ← ih later]
    by_cases kept : keep x = true
    · rw [if_pos kept, List.map_cons, List.sum_cons]
    · rw [if_neg kept, here (Bool.eq_false_iff.mpr kept), zero_add]

theorem cleanTerms_eq_self {terms : NameMap Float}
    (significant : ∀ term ∈ terms.entries, isSignificant term.2 = true)
    (nonempty : terms.entries ≠ []) : cleanTerms terms = terms := by
  rcases List.exists_mem_of_ne_nil _ nonempty with ⟨term, mem⟩
  rw [cleanTerms, List.filter_eq_self.mpr significant]
  exact if_pos (List.any_eq_true.mpr ⟨term, mem, significant term mem⟩)

/-- The coefficients that are kept add up what all count as. -/
theorem exactSum?_cleanTerms (values : String → K) {terms : NameMap Float}
    (finite : ∀ term ∈ terms.entries, (exactValue? term.2).isSome) :
    exactSum? values (cleanTerms terms).entries =
      some (terms.entries.map fun term => effective term.2 * values term.1).sum := by
  have dropped : ∀ term : String × Float, isSignificant term.2 = false →
      (effective term.2 * values term.1 : K) = 0 := by
    intro term insignificant
    rw [effective, insignificant, if_neg Bool.false_ne_true, zero_mul]
  rw [cleanTerms]
  split
  · rw [exactSum?_of_finite values fun term mem => finite term (List.mem_of_mem_filter mem),
      ← sum_map_filter fun term _ => dropped term]
    congr 2
    apply List.map_congr_left
    intro term kept
    rw [effective, if_pos (List.mem_filter.mp kept).2]
  · next none_significant =>
      have zeros : ∀ term ∈ (terms.mapValues fun _ => (0.0 : Float)).entries,
          exactValue? term.2 = some 0 := by
        intro term mem
        rcases List.mem_map.mp mem with ⟨_, _, rfl⟩
        exact exactValue?_zero
      rw [exactSum?_of_finite values fun term mem => by rw [zeros term mem]; rfl,
        List.sum_eq_zero, List.sum_eq_zero]
      · intro number mem
        rcases List.mem_map.mp mem with ⟨term, term_member, rfl⟩
        apply dropped
        by_contra significant
        apply none_significant
        exact List.any_eq_true.mpr ⟨term, term_member, (Bool.not_eq_false _).mp significant⟩
      · intro number mem
        rcases List.mem_map.mp mem with ⟨term, term_member, rfl⟩
        rw [exactNumber_of_exactValue? (zeros term term_member), Rat.cast_zero, zero_mul]

namespace Contribution

def Finite : Contribution → Prop
  | toVariable _ coefficient => (exactValue? coefficient).isSome
  | toConstant constant => (exactValue? constant).isSome

/-- What a contribution adds up to, given the values of the variables. -/
def value (values : String → K) : Contribution → K
  | toVariable name coefficient => effective coefficient * values name
  | toConstant constant => exactNumber constant

theorem Finite.negate {contribution : Contribution} (finite : contribution.Finite) :
    contribution.negate.Finite := by
  cases contribution with
  | toVariable name x | toConstant x =>
    rw [Contribution.negate, Finite, exactValue?_neg, Option.isSome_map]
    exact finite

theorem value_negate (values : String → K) (contribution : Contribution) :
    contribution.negate.value values = -contribution.value values := by
  cases contribution with
  | toVariable name coefficient => rw [negate, value, value, effective_neg, neg_mul]
  | toConstant constant => rw [negate, value, value, exactNumber_neg]

end Contribution

theorem finite_terms (finite : ∀ contribution ∈ contributions, contribution.Finite) :
    ∀ term ∈ contributions.filterMap Contribution.term?, (exactValue? term.2).isSome := by
  intro term mem
  rcases List.mem_filterMap.mp mem with ⟨contribution, found, term_eq⟩
  cases contribution with
  | toVariable name coefficient =>
    cases term_eq
    exact finite _ found
  | toConstant constant => cases term_eq

theorem finite_constants (finite : ∀ contribution ∈ contributions, contribution.Finite) :
    ∀ x ∈ contributions.filterMap Contribution.constant?, (exactValue? x).isSome := by
  intro x mem
  rcases List.mem_filterMap.mp mem with ⟨contribution, found, constant_eq⟩
  cases contribution with
  | toVariable name coefficient => cases constant_eq
  | toConstant constant =>
    cases constant_eq
    exact finite _ found

/-- Contributions add up multiples of variables, and constants. -/
theorem sum_value (values : String → K) (contributions : List Contribution) :
    (contributions.map (Contribution.value values)).sum =
      ((contributions.filterMap Contribution.term?).map fun term =>
        effective term.2 * values term.1).sum +
        ((contributions.filterMap Contribution.constant?).map exactNumber).sum := by
  induction contributions with
  | nil => simp
  | cons contribution contributions ih =>
    rw [List.map_cons, List.sum_cons, ih]
    cases contribution with
    | toVariable name coefficient =>
      simp only [Contribution.value, List.filterMap_cons, Contribution.term?,
        Contribution.constant?, List.map_cons, List.sum_cons]
      ring
    | toConstant constant =>
      simp only [Contribution.value, List.filterMap_cons, Contribution.term?,
        Contribution.constant?, List.map_cons, List.sum_cons]
      ring

/-- A single constant is gathered exactly. -/
theorem exactValue?_gatherConstant (finite : ∀ contribution ∈ contributions, contribution.Finite)
    (single : (contributions.filterMap Contribution.constant?).length ≤ 1) :
    exactValue? (gatherConstant contributions) =
      some ((contributions.filterMap Contribution.constant?).map exactNumber).sum := by
  rw [gatherConstant_eq]
  have constants := finite_constants finite
  cases constants_eq : contributions.filterMap Contribution.constant? with
  | nil => decide +kernel
  | cons x rest =>
    rw [constants_eq] at single constants
    obtain rfl : rest = [] := by
      cases rest with
      | nil => rfl
      | cons => simp at single
    rcases Option.isSome_iff_exists.mp (constants x (List.mem_singleton.mpr rfl)) with
      ⟨q, exact_eq⟩
    rw [List.foldl_cons, List.foldl_nil, exactValue?_zero_add, exact_eq]
    simp [exactNumber_of_exactValue? exact_eq]

theorem cast_sum_exactNumber [CharZero K] (xs : List Float) :
    (((xs.map exactNumber).sum : ℚ) : K) = (xs.map exactNumber).sum := by
  induction xs with
  | nil => simp
  | cons x xs ih =>
    simp only [List.map_cons, List.sum_cons, Rat.cast_add, ih]
    simp [exactNumber]

/-- What operands with floats stand for, where coefficients up to the tolerance count as zero. -/
def Operand.reading (values : String → K) (operand : Operand Float) : K :=
  (operand.contributions.map (Contribution.value values)).sum

namespace Relation

/-- Values satisfy a relation as it is read. -/
def HoldsAsRead [LinearOrder K] (values : String → K) (relation : Relation Float) : Prop :=
  relation.sense.Holds (relation.left.reading values) (relation.right.reading values)

/-- A relation whose constraint can be read: its numbers are finite, no variable occurs twice,
and there is at most one constant. -/
structure Readable (relation : Relation Float) : Prop where
  finite : ∀ contribution ∈ relation.contributions, contribution.Finite
  named : relation.contributions.filterMap Contribution.term? ≠ []
  distinct : ((relation.contributions.filterMap Contribution.term?).map Prod.fst).Nodup
  constants : (relation.contributions.filterMap Contribution.constant?).length ≤ 1

theorem sum_value_contributions (values : String → K) (relation : Relation Float) :
    (relation.contributions.map (Contribution.value values)).sum =
      relation.left.reading values - relation.right.reading values := by
  have negated : (Contribution.value values) ∘ Contribution.negate =
      fun contribution => -contribution.value values :=
    funext fun contribution => contribution.value_negate values
  rw [contributions, List.map_append, List.sum_append, List.map_map, negated, sub_eq_add_neg,
    Operand.reading, Operand.reading, List.sum_neg, List.map_map]
  rfl

/-- The constraint of a relation says what is read. -/
theorem Readable.constraint [LinearOrder K] [IsStrictOrderedRing K] {relation : Relation Float}
    (readable : relation.Readable) :
    ∃ constraint, Constraint.ofRelation relation = .ok constraint ∧
      ∀ values : String → K, constraint.Holds values ↔ relation.HoldsAsRead values := by
  have gathered := gatherTerms_perm readable.distinct
  have nonempty : ¬ (gatherTerms relation.contributions).entries.isEmpty := by
    intro empty
    apply readable.named
    rw [List.isEmpty_iff.mp empty] at gathered
    exact gathered.nil_eq.symm
  refine ⟨_, if_neg nonempty, ?_⟩
  intro values
  have lhs_eq := exactSum?_cleanTerms values fun term mem =>
    finite_terms readable.finite term (gathered.mem_iff.mp mem)
  rw [(gathered.map _).sum_eq] at lhs_eq
  have rhs_eq := exactValue?_gatherConstant readable.finite readable.constants
  have total := sum_value values relation.contributions
  change (∃ lhs rhs, exactSum? values (cleanTerms _).entries = some lhs ∧
    exactValue? (-gatherConstant _) = some rhs ∧ relation.sense.Holds lhs (rhs : K)) ↔ _
  rw [lhs_eq, exactValue?_neg, rhs_eq]
  simp only [Option.map_some, Option.some.injEq, exists_eq_left', exists_and_left]
  apply Sense.holds_congr
  rw [Rat.cast_neg, cast_sum_exactNumber, sub_neg_eq_add, ← total, sum_value_contributions]

end Relation

/-! ## Whole numbers -/

/-- A float is a whole number, and counts as zero only if it is zero. -/
structure Whole (x : Float) (c : Int) : Prop where
  value : exactValue? x = some (c : ℚ)
  significant : isSignificant x = true ↔ c ≠ 0

theorem whole_of_exactValue? (exact_eq : exactValue? x = some (c : ℚ)) : Whole x c := by
  refine ⟨exact_eq, fun significant zero => ?_, fun nonzero => ?_⟩
  · rw [isSignificant_iff exact_eq, zero, Int.cast_zero, abs_zero] at significant
    exact absurd significant (by norm_num)
  · apply isSignificant_of_one_le exact_eq
    exact_mod_cast Int.one_le_abs nonzero

theorem whole_ofInt (small : c.natAbs < 2 ^ 53) : Whole (Float.ofInt c) c :=
  whole_of_exactValue? (exactValue?_ofInt small)

theorem whole_one : Whole 1.0 1 := whole_of_exactValue? exactValue?_one

theorem Whole.exactNumber_eq (whole : Whole x c) : (exactNumber x : K) = c := by
  rw [exactNumber_of_exactValue? whole.value, Rat.cast_intCast]

theorem Whole.effective_eq (whole : Whole x c) : (effective x : K) = c := by
  rw [effective, whole.exactNumber_eq]
  split
  · rfl
  · next insignificant =>
      rw [whole.significant, not_not] at insignificant
      rw [insignificant, Int.cast_zero]

/-! ## Multiples of variables -/

namespace Operand

section Reading

variable (values : String → K)

theorem effective_one : (effective 1.0 : K) = 1 := by
  rw [whole_one.effective_eq, Int.cast_one]

@[simp]
theorem reading_constant (x : Float) : (constant x).reading values = exactNumber x :=
  List.sum_singleton

@[simp]
theorem reading_single (name : String) :
    (single name).reading values = values (stripMark name) := by
  change List.sum [effective 1.0 * values (stripMark name)] = _
  rw [List.sum_singleton, effective_one, one_mul]

@[simp]
theorem reading_term (name : String) (x : Float) :
    (term name x).reading values = effective x * values (stripMark name) :=
  List.sum_singleton

@[simp]
theorem reading_sum (items : List (Operand Float)) :
    (sum items).reading values = (items.map (reading values)).sum := by
  rw [reading, contributions_sum]
  induction items with
  | nil => rfl
  | cons item items ih =>
    rw [List.flatMap_cons, List.map_append, List.sum_append, ih]
    rfl

theorem reading_ofNames (list : List String) :
    (ofNames list : Operand Float).reading values =
      (list.map fun name => values (stripMark name)).sum := by
  rw [ofNames, reading_sum, List.map_map]
  congr 1
  exact List.map_congr_left fun name _ => reading_single values name

end Reading

/-- An operand adds up finite multiples of variables with given names. -/
structure Multiples (operand : Operand Float) (list : List String) : Prop where
  finite : ∀ contribution ∈ operand.contributions, contribution.Finite
  names_eq : (operand.contributions.filterMap Contribution.term?).map Prod.fst = list
  constants_eq : operand.contributions.filterMap Contribution.constant? = []

theorem multiples_single (name : String) : (single name).Multiples [stripMark name] where
  finite := List.forall_mem_singleton.mpr (by rw [Contribution.Finite, exactValue?_one]; rfl)
  names_eq := rfl
  constants_eq := rfl

theorem multiples_term (name : String) {x : Float} (finite : (exactValue? x).isSome) :
    (term name x).Multiples [stripMark name] where
  finite := List.forall_mem_singleton.mpr finite
  names_eq := rfl
  constants_eq := rfl

theorem multiples_sum {α : Type} {item : α → Operand Float} {own : α → List String}
    {xs : List α} (multiples : ∀ x ∈ xs, (item x).Multiples (own x)) :
    (sum (xs.map item)).Multiples (xs.flatMap own) := by
  constructor
  · intro contribution mem
    rw [contributions_sum, List.flatMap_map, List.mem_flatMap] at mem
    rcases mem with ⟨x, x_mem, inside⟩
    exact (multiples x x_mem).finite contribution inside
  · rw [contributions_sum, List.flatMap_map, List.filterMap_flatMap, List.map_flatMap]
    exact List.flatMap_congr fun x mem => (multiples x mem).names_eq
  · rw [contributions_sum, List.flatMap_map, List.filterMap_flatMap, List.flatMap_eq_nil_iff]
    exact fun x mem => (multiples x mem).constants_eq

theorem multiples_ofNames (list : List String) :
    (ofNames list : Operand Float).Multiples (list.map stripMark) := by
  rw [List.map_eq_flatMap]
  exact multiples_sum fun name _ => multiples_single name

end Operand

namespace Relation

variable {left right : Operand Float} {list list' : List String}

theorem names_contributions (relation : Relation Float) :
    (relation.contributions.filterMap Contribution.term?).map Prod.fst =
      (relation.left.contributions.filterMap Contribution.term?).map Prod.fst ++
        (relation.right.contributions.filterMap Contribution.term?).map Prod.fst := by
  have negated : ∀ contribution : Contribution, contribution.negate.term?.map Prod.fst =
      contribution.term?.map Prod.fst := by
    intro contribution
    cases contribution <;> rfl
  simp only [contributions, List.filterMap_append, List.map_append, List.map_filterMap,
    List.filterMap_map, Function.comp_def, negated]

theorem length_constants_contributions (relation : Relation Float) :
    (relation.contributions.filterMap Contribution.constant?).length =
      (relation.left.contributions.filterMap Contribution.constant?).length +
        (relation.right.contributions.filterMap Contribution.constant?).length := by
  have negated : ∀ contribution : Contribution, contribution.negate.constant? =
      contribution.constant?.map (-·) := by
    intro contribution
    cases contribution <;> rfl
  simp only [contributions, List.filterMap_append, List.length_append, List.filterMap_map,
    Function.comp_def, negated, ← List.map_filterMap, List.length_map]

theorem readable_of_left {relation : Relation Float} (multiples : relation.left.Multiples list)
    (finite : ∀ contribution ∈ relation.right.contributions, contribution.Finite)
    (names_eq : (relation.right.contributions.filterMap Contribution.term?).map Prod.fst = list')
    (constants : (relation.right.contributions.filterMap Contribution.constant?).length ≤ 1)
    (named : list ++ list' ≠ []) (distinct : (list ++ list').Nodup) : relation.Readable := by
  have all_names : (relation.contributions.filterMap Contribution.term?).map Prod.fst =
      list ++ list' := by
    rw [names_contributions, multiples.names_eq, names_eq]
  refine ⟨?_, ?_, all_names ▸ distinct, ?_⟩
  · refine List.forall_mem_append.mpr ⟨multiples.finite, List.forall_mem_map.mpr ?_⟩
    exact fun contribution mem => (finite contribution mem).negate
  · intro empty
    apply named
    rw [← all_names, empty, List.map_nil]
  · rwa [length_constants_contributions, multiples.constants_eq, List.length_nil, Nat.zero_add]

theorem readable_of_multiples {sense : Sense} (left_multiples : left.Multiples list)
    (right_multiples : right.Multiples list') (named : list ++ list' ≠ [])
    (distinct : (list ++ list').Nodup) : Readable ⟨left, sense, right⟩ :=
  readable_of_left left_multiples right_multiples.finite right_multiples.names_eq
    (by rw [right_multiples.constants_eq]; exact Nat.zero_le 1) named distinct

theorem readable_of_constant {sense : Sense} {x : Float} (multiples : left.Multiples list)
    (finite : (exactValue? x).isSome) (named : list ≠ []) (distinct : list.Nodup) :
    Readable ⟨left, sense, .constant x⟩ :=
  readable_of_left multiples (List.forall_mem_singleton.mpr finite) rfl (Nat.le_refl 1)
    (List.append_ne_nil_of_left_ne_nil named _) ((List.append_nil list).symm ▸ distinct)

end Relation

/-! ## Relations over integers -/

namespace Operand

def names (operand : Operand Int) : List String := operand.entries.filterMap Prod.fst

theorem names_sum (items : List (Operand Int)) : (sum items).names = items.flatMap names := by
  rw [names, entries, allEntries_eq_flatMap, List.filterMap_flatMap]
  rfl

theorem names_ofNames (list : List String) :
    (ofNames list : Operand Int).names = list.map stripMark := by
  rw [ofNames, names_sum, List.flatMap_map, List.map_eq_flatMap]
  rfl

theorem map_sum (change : Int → Float) (items : List (Operand Int)) :
    (sum items).map change = sum (items.map (map change)) := by
  rw [map]
  congr 1
  induction items with
  | nil => rfl
  | cons item items ih => rw [mapAll, ih, List.map_cons]

/-- An operand adds up small multiples of variables, so that floats stand for them exactly. -/
structure Linear (operand : Operand Int) : Prop where
  multiples : (operand.map Float.ofInt).Multiples operand.names
  reading_eq : ∀ {K : Type} [Field K] (values : String → K),
    (operand.map Float.ofInt).reading values = operand.value values

theorem linear_single (name : String) : (single name : Operand Int).Linear where
  multiples := multiples_single name
  reading_eq values := (reading_single values name).trans (value_single name).symm

theorem linear_term {name : String} {c : Int} (small : c.natAbs < 2 ^ 53) :
    (term name c).Linear where
  multiples := multiples_term name (by rw [exactValue?_ofInt small]; rfl)
  reading_eq values := by
    rw [map, reading_term, (whole_ofInt small).effective_eq, value_term]

theorem linear_sum {items : List (Operand Int)} (linear : ∀ item ∈ items, item.Linear) :
    (sum items).Linear where
  multiples := by
    rw [map_sum, names_sum]
    exact multiples_sum fun item mem => (linear item mem).multiples
  reading_eq values := by
    rw [map_sum, reading_sum, List.map_map, value_sum]
    congr 1
    exact List.map_congr_left fun item mem => (linear item mem).reading_eq values

theorem linear_ofNames (list : List String) : (ofNames list : Operand Int).Linear := by
  apply linear_sum
  intro item mem
  rcases List.mem_map.mp mem with ⟨name, _, rfl⟩
  exact linear_single name

end Operand

namespace Relation

/-- A relation that a constraint can state exactly. -/
structure Legible (relation : Relation Int) : Prop where
  readable : (relation.map Float.ofInt).Readable
  holds_iff : ∀ {K : Type} [Field K] [LinearOrder K] (values : String → K),
    (relation.map Float.ofInt).HoldsAsRead values ↔ relation.Holds values

theorem Legible.constraint [LinearOrder K] [IsStrictOrderedRing K] {relation : Relation Int}
    (legible : relation.Legible) :
    ∃ constraint, Constraint.ofRelation (relation.map Float.ofInt) = .ok constraint ∧
      ∀ values : String → K, constraint.Holds values ↔ relation.Holds values := by
  rcases legible.readable.constraint (K := K) with ⟨constraint, made, reads⟩
  exact ⟨constraint, made, fun values => (reads values).trans (legible.holds_iff values)⟩

variable {left right : Operand Int}

theorem legible_of_linear {sense : Sense} (left_linear : left.Linear) (right_linear : right.Linear)
    (named : left.names ++ right.names ≠ []) (distinct : (left.names ++ right.names).Nodup) :
    Legible ⟨left, sense, right⟩ where
  readable := readable_of_multiples left_linear.multiples right_linear.multiples named distinct
  holds_iff values := by
    rw [HoldsAsRead, map, left_linear.reading_eq, right_linear.reading_eq]
    rfl

theorem legible_of_constant {sense : Sense} {c : Int} (linear : left.Linear)
    (small : c.natAbs < 2 ^ 53) (named : left.names ≠ []) (distinct : left.names.Nodup) :
    Legible ⟨left, sense, .constant c⟩ where
  readable :=
    readable_of_constant linear.multiples (by rw [exactValue?_ofInt small]; rfl) named distinct
  holds_iff values := by
    rw [HoldsAsRead, map, linear.reading_eq, Operand.map, Operand.reading_constant,
      (whole_ofInt small).exactNumber_eq, Holds, Operand.value_constant]

end Relation

/-! ## Bounds -/

namespace Variable

variable [LinearOrder K] {name : String} {value : K}

theorem admits_nonnegative_iff :
    Variable.Admits { name, lower := some 0.0 } value ↔ 0 ≤ value := by
  simp [Variable.Admits, exactValue?_zero]

theorem admits_unit_iff :
    Variable.Admits { name, lower := some 0.0, upper := some 1.0 } value ↔
      0 ≤ value ∧ value ≤ 1 := by
  simp [Variable.Admits, exactValue?_zero, whole_one.value]

theorem admits_binary_iff [IsStrictOrderedRing K] :
    Variable.Admits { name, lower := some 0.0, upper := some 1.0, type := .binary } value ↔
      value = 0 ∨ value = 1 := by
  simp only [Variable.Admits, Option.mem_some_iff, forall_eq', exactValue?_zero, whole_one.value,
    Option.some.injEq, exists_eq_left']
  constructor
  · exact fun admits => admits.2.2
  · rintro (rfl | rfl)
    · simp
    · simp

end Variable

/-! ## Programs of relations -/

namespace Program

variable [LinearOrder K] [IsStrictOrderedRing K] {relations : List (Relation Float)}

theorem vars_addVariables (program : Program) (vs : List Variable) :
    program.addVariables vs = { program with vars := program.vars ++ vs.toArray } := by
  rw [addVariables]
  induction vs generalizing program with
  | nil => simp
  | cons v vs ih =>
    rw [List.foldl_cons, ih]
    simp [addVariable]

/-- Adding relations adds what is read. -/
theorem foldlM_addRelation (readable : ∀ relation ∈ relations, relation.Readable)
    (program : Program) :
    ∃ result, relations.foldlM addRelation program = .ok result ∧
      result.vars = program.vars ∧
        ∀ values : String → K, (∀ entry ∈ result.constraints, entry.2.Holds values) ↔
          (∀ entry ∈ program.constraints, entry.2.Holds values) ∧
            ∀ relation ∈ relations, relation.HoldsAsRead values := by
  induction relations generalizing program with
  | nil => exact ⟨program, rfl, rfl, by simp⟩
  | cons relation relations ih =>
    rcases List.forall_mem_cons.mp readable with ⟨here, later⟩
    rcases here.constraint (K := K) with ⟨constraint, made, reads⟩
    let next : Program := { program with
      constraints := program.constraints.push (program.nextConstraintName, constraint) }
    have added : program.addRelation relation = .ok next := by
      rw [addRelation, made]
      rfl
    rcases ih later next with ⟨result, run, vars_eq, holds⟩
    refine ⟨result, ?_, vars_eq, ?_⟩
    · rw [List.foldlM_cons, added]
      exact run
    · intro values
      rw [holds, List.forall_mem_cons, ← reads values, ← and_assoc]
      apply and_congr_left'
      simp only [next, Array.mem_push, or_imp, forall_and, forall_eq]

omit [IsStrictOrderedRing K] in
/-- A program has just some variables, and its constraints say that values have a property. -/
structure States (program : Program) (vs : List Variable) (Property : (String → K) → Prop) :
    Prop where
  vars_eq : program.vars = vs.toArray
  constraints_iff : ∀ values, (∀ entry ∈ program.constraints, entry.2.Holds values) ↔
    Property values

section States

variable {program : Program} {vs : List Variable} {Property : (String → K) → Prop}
  (states : program.States vs Property)
include states

omit [IsStrictOrderedRing K]

theorem States.holds_iff (values : String → K) :
    program.Holds values ↔ (∀ v ∈ vs, v.Admits (values (stripMark v.name))) ∧ Property values := by
  simp only [Holds, states.vars_eq, states.constraints_iff, List.mem_toArray]

theorem States.holdsWritten_iff (values : String → K) :
    program.HoldsWritten values ↔
      (∀ v ∈ vs, isDeclaredHere [] v = true → v.Admits (values (stripMark v.name))) ∧
        Property values := by
  simp only [HoldsWritten, states.vars_eq, states.constraints_iff, List.mem_toArray]

end States

theorem exists_build_of_readable (vs : List Variable)
    (readable : ∀ relation ∈ relations, relation.Readable) :
    ∃ program, build vs relations = .ok program ∧
      program.States vs fun values : String → K =>
        ∀ relation ∈ relations, relation.HoldsAsRead values := by
  rcases foldlM_addRelation (K := K) readable (addVariables {} vs) with
    ⟨program, run, vars_eq, holds⟩
  refine ⟨program, run, ?_, fun values => ?_⟩
  · rw [vars_eq, vars_addVariables]
    simp
  · rw [holds, vars_addVariables]
    simp

/-- The program of some variables and of relations that can be stated exactly. -/
theorem exists_build (vs : List Variable) {relations : List (Relation Int)}
    (legible : ∀ relation ∈ relations, relation.Legible) :
    ∃ program, build vs (relations.map (Relation.map Float.ofInt)) = .ok program ∧
      program.States vs fun values : String → K =>
        ∀ relation ∈ relations, relation.Holds values := by
  have readable : ∀ relation ∈ relations.map (Relation.map Float.ofInt), relation.Readable :=
    List.forall_mem_map.mpr fun relation mem => (legible relation mem).readable
  rcases exists_build_of_readable (K := K) vs readable with ⟨program, built, states⟩
  refine ⟨program, built, states.vars_eq, fun values => ?_⟩
  rw [states.constraints_iff, List.forall_mem_map]
  exact forall₂_congr fun relation mem => (legible relation mem).holds_iff values

omit [LinearOrder K] [IsStrictOrderedRing K] in
/-- A program keeps its variables and has a constraint for each relation. -/
theorem mem_of_foldlM_addRelation {program result : Program}
    (run : relations.foldlM addRelation program = .ok result) :
    result.vars = program.vars ∧ (∀ entry ∈ program.constraints, entry ∈ result.constraints) ∧
      ∀ relation ∈ relations, ∃ entry ∈ result.constraints,
        Constraint.ofRelation relation = .ok entry.2 := by
  induction relations generalizing program with
  | nil =>
    cases run
    exact ⟨rfl, fun _ mem => mem, List.forall_mem_nil _⟩
  | cons relation relations ih =>
    rw [List.foldlM_cons, addRelation] at run
    cases made : Constraint.ofRelation relation with
    | error failure =>
      rw [made] at run
      cases run
    | ok constraint =>
      rw [made] at run
      rcases ih run with ⟨vars_eq, kept, stated⟩
      refine ⟨vars_eq, fun entry mem => kept entry (Array.mem_push_of_mem _ mem), ?_⟩
      exact List.forall_mem_cons.mpr ⟨⟨_, kept _ Array.mem_push_self, made⟩, stated⟩

/-- A program says at least what its relations say that can be stated exactly. -/
theorem relations_hold_of_build {vs : List Variable} {relations : List (Relation Int)}
    {program : Program}
    (built : build vs (relations.map (Relation.map Float.ofInt)) = .ok program)
    {values : String → K} (holds : ∀ entry ∈ program.constraints, entry.2.Holds values) :
    program.vars = vs.toArray ∧
      ∀ relation ∈ relations, relation.Legible → relation.Holds values := by
  rcases mem_of_foldlM_addRelation built with ⟨vars_eq, -, stated⟩
  constructor
  · rw [vars_eq, vars_addVariables]
    simp
  · intro relation mem legible
    rcases legible.constraint (K := K) with ⟨constraint, made, reads⟩
    rcases stated _ (List.mem_map_of_mem mem) with ⟨entry, entry_mem, made'⟩
    cases made.symm.trans made'
    exact (reads values).mp (holds entry entry_mem)

/-! ## Declared variables -/

/-- A start of names that are declared where they are written. -/
def PlainStem (stem : String) : Prop := stem.toList.head? = some '_' ∧ '[' ∉ stem.toList

omit [LinearOrder K] [IsStrictOrderedRing K] in
theorem isDeclaredHere_of_plainStem {stem : String} (plain : PlainStem stem) {v : Variable}
    (rest : List Char) (name_eq : v.name.toList = stem.toList ++ rest) (bracketless : '[' ∉ rest) :
    isDeclaredHere [] v = true := by
  have first : (stem.toList ++ rest).head? = some '_' := by
    rw [List.head?_append, plain.1, Option.some_or]
  rw [isDeclaredHere, name_eq, first]
  simpa using ⟨by decide, plain.2, bracketless⟩

end Program

end ModelWeaver.Model
