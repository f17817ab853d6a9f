import ModelWeaver.Proofs.Model.Contributions
import ModelWeaver.Proofs.Text.Octets

/-!
# The variables of a constraint

A relation states a constraint exactly if it mentions a variable. The constraint then has a
variable too, so its left side is never empty: either the variables whose coefficients count,
or, if none does, all variables with coefficient zero. They stand under their names without
marks, in the order of the bytes of these names.
-/

namespace ModelWeaver.Model

/-! ## Mentioned variables -/

inductive Operand.Mentions {κ : Type} : Operand κ → String → Prop
  | single (name : String) : Mentions (single name) name
  | term (name : String) (coefficient : κ) : Mentions (term name coefficient) name
  | sum {items : List (Operand κ)} {item : Operand κ} {name : String} :
      item ∈ items → Mentions item name → Mentions (sum items) name

def Relation.Mentions {κ : Type} (relation : Relation κ) (name : String) : Prop :=
  relation.left.Mentions name ∨ relation.right.Mentions name

namespace Operand

theorem Mentions.exists_contribution {operand : Operand Float} {name : String}
    (mentions : operand.Mentions name) :
    ∃ contribution ∈ operand.contributions, contribution.key = some (stripMark name) := by
  induction mentions with
  | single name => exact ⟨_, List.mem_singleton_self _, rfl⟩
  | term name coefficient => exact ⟨_, List.mem_singleton_self _, rfl⟩
  | sum mem _ ih =>
    rcases ih with ⟨contribution, inside, key_eq⟩
    rw [contributions_sum]
    exact ⟨contribution, List.mem_flatMap.mpr ⟨_, mem, inside⟩, key_eq⟩

mutual

/-- Only variables that are mentioned get contributions. -/
theorem exists_mentions_of_contribution (operand : Operand Float) {contribution : Contribution}
    (mem : contribution ∈ operand.contributions) {name : String}
    (key_eq : contribution.key = some name) :
    ∃ mentioned, operand.Mentions mentioned ∧ stripMark mentioned = name := by
  cases operand with
  | constant value | product a b =>
    cases List.mem_singleton.mp mem
    cases key_eq
  | single mentioned =>
    cases List.mem_singleton.mp mem
    exact ⟨mentioned, .single mentioned, Option.some.inj key_eq⟩
  | term mentioned coefficient =>
    cases List.mem_singleton.mp mem
    exact ⟨mentioned, .term mentioned coefficient, Option.some.inj key_eq⟩
  | sum items =>
    rcases exists_mentions_of_contributions items mem key_eq with
      ⟨item, item_mem, mentioned, mentions, strip_eq⟩
    exact ⟨mentioned, .sum item_mem mentions, strip_eq⟩
termination_by structural operand

theorem exists_mentions_of_contributions (items : List (Operand Float))
    {contribution : Contribution} (mem : contribution ∈ allContributions items)
    {name : String} (key_eq : contribution.key = some name) :
    ∃ item ∈ items, ∃ mentioned, item.Mentions mentioned ∧ stripMark mentioned = name := by
  cases items with
  | nil => cases mem
  | cons item items =>
    rcases List.mem_append.mp mem with here | later
    · exact ⟨item, List.mem_cons_self, exists_mentions_of_contribution item here key_eq⟩
    · rcases exists_mentions_of_contributions items later key_eq with
        ⟨other, other_mem, mentioned⟩
      exact ⟨other, List.mem_cons_of_mem item other_mem, mentioned⟩
termination_by structural items

end

end Operand

variable {name : String}

/-- The variables that get contributions are those that are mentioned. -/
theorem Relation.exists_contribution_iff {relation : Relation Float} :
    (∃ contribution ∈ relation.contributions, contribution.key = some name) ↔
      ∃ mentioned, relation.Mentions mentioned ∧ stripMark mentioned = name := by
  constructor
  · rintro ⟨contribution, mem, key_eq⟩
    rcases List.mem_append.mp mem with onLeft | onRight
    · rcases relation.left.exists_mentions_of_contribution onLeft key_eq with
        ⟨mentioned, mentions, strip_eq⟩
      exact ⟨mentioned, .inl mentions, strip_eq⟩
    · rcases List.mem_map.mp onRight with ⟨opposite, opposite_mem, rfl⟩
      rw [Contribution.key_negate] at key_eq
      rcases relation.right.exists_mentions_of_contribution opposite_mem key_eq with
        ⟨mentioned, mentions, strip_eq⟩
      exact ⟨mentioned, .inr mentions, strip_eq⟩
  · rintro ⟨mentioned, onLeft | onRight, rfl⟩
    · rcases onLeft.exists_contribution with ⟨contribution, mem, key_eq⟩
      exact ⟨contribution, List.mem_append_left _ mem, key_eq⟩
    · rcases onRight.exists_contribution with ⟨contribution, mem, key_eq⟩
      refine ⟨contribution.negate, ?_, contribution.key_negate.trans key_eq⟩
      exact List.mem_append_right _ (List.mem_map_of_mem mem)

/-! ## Gathered variables -/

theorem mem_names_addTerm {terms : NameMap Float} {contribution : Contribution} :
    name ∈ (addTerm terms contribution).names ↔
      contribution.key = some name ∨ name ∈ terms.names := by
  cases contribution with
  | toVariable held coefficient =>
    rw [Contribution.key, Option.some_inj, eq_comm]
    exact NameMap.mem_map_fst_insertEntryWith
  | toConstant value => simp [addTerm, Contribution.key]

theorem mem_names_gatherTerms {contributions : List Contribution} :
    name ∈ (gatherTerms contributions).names ↔
      ∃ contribution ∈ contributions, contribution.key = some name := by
  have folded : ∀ terms, name ∈ (contributions.foldl addTerm terms).names ↔
      (∃ contribution ∈ contributions, contribution.key = some name) ∨ name ∈ terms.names := by
    induction contributions with
    | nil => simp
    | cons contribution contributions ih =>
      intro terms
      rw [List.foldl_cons, ih, mem_names_addTerm, List.exists_mem_cons_iff,
        ← or_assoc, or_comm (a := contribution.key = some name)]
  rw [gatherTerms_eq_foldl, folded]
  simp [NameMap.names, NameMap.empty]

theorem Relation.mem_names_gatherTerms_iff {relation : Relation Float} :
    name ∈ (gatherTerms relation.contributions).names ↔
      ∃ mentioned, relation.Mentions mentioned ∧ stripMark mentioned = name := by
  rw [mem_names_gatherTerms, exists_contribution_iff]

/-! ## Kept variables -/

theorem names_cleanTerms_sublist (terms : NameMap Float) :
    (cleanTerms terms).names.Sublist terms.names := by
  rw [cleanTerms]
  split
  · exact List.filter_sublist.map Prod.fst
  · rw [NameMap.names, NameMap.mapValues, List.map_map]
    exact List.Sublist.refl _

/-- What is kept are the coefficients that count, or else a zero for each variable. -/
theorem cleanTerms_cases (terms : NameMap Float) :
    ((∀ term ∈ (cleanTerms terms).entries, isSignificant term.2 = true) ∧
      (cleanTerms terms).names ≠ []) ∨
    (∀ term ∈ (cleanTerms terms).entries, term.2 = 0.0) ∧
      (cleanTerms terms).names = terms.names := by
  rw [cleanTerms]
  split
  · next some_counts =>
      rcases List.any_eq_true.mp some_counts with ⟨term, mem, counts⟩
      refine .inl ⟨fun term kept => (List.mem_filter.mp kept).2, ?_⟩
      exact List.ne_nil_of_mem (List.mem_map_of_mem (List.mem_filter.mpr ⟨mem, counts⟩))
  · refine .inr ⟨?_, ?_⟩
    · intro term mem
      rcases List.mem_map.mp mem with ⟨gathered, _, rfl⟩
      rfl
    · rw [NameMap.names, NameMap.mapValues, List.map_map]
      rfl

theorem ofRelation_eq (relation : Relation Float) :
    Constraint.ofRelation relation =
      if (gatherTerms relation.contributions).names = [] then .error (.badArgument .noVariable)
      else .ok ⟨cleanTerms (gatherTerms relation.contributions), relation.sense,
        -gatherConstant relation.contributions⟩ := by
  simp only [Constraint.ofRelation, NameMap.names, List.map_eq_nil_iff, List.isEmpty_iff]

theorem head?_stripMark (name : String) : (stripMark name).toList.head? ≠ some hiddenMark := by
  rw [stripMark, String.toList_ofList]
  intro marked
  have unmarked := List.head?_dropWhile_not (fun c => decide (c = hiddenMark)) name.toList
  rw [marked] at unmarked
  simp at unmarked

namespace Constraint

/-- A relation fails to state a constraint exactly if it mentions no variable. Otherwise the
left side of the constraint is not empty, and has variables of the relation, without marks and
in the order of their bytes: those whose coefficients count, or all with coefficient zero. -/
theorem ofRelation_keeps_mentioned (relation : Relation Float) :
    (∀ failure, ofRelation relation = .error failure ↔
      failure = .badArgument .noVariable ∧ ∀ name, ¬relation.Mentions name) ∧
    ∀ constraint, ofRelation relation = .ok constraint →
      constraint.terms.names ≠ [] ∧
      (constraint.terms.names.map Text.bytes).Pairwise (· < ·) ∧
      (∀ name ∈ constraint.terms.names, name.toList.head? ≠ some '^' ∧
        ∃ mentioned, relation.Mentions mentioned ∧ stripMark mentioned = name) ∧
      ((∀ term ∈ constraint.terms.entries, 1e-12 < term.2.abs) ∨
        (∀ term ∈ constraint.terms.entries, term.2 = 0.0) ∧
          ∀ name, relation.Mentions name → stripMark name ∈ constraint.terms.names) := by
  have gathered_iff : ∀ name, name ∈ (gatherTerms relation.contributions).names ↔
      ∃ mentioned, relation.Mentions mentioned ∧ stripMark mentioned = name :=
    fun _ => relation.mem_names_gatherTerms_iff
  have empty_iff : (gatherTerms relation.contributions).names = [] ↔
      ∀ name, ¬relation.Mentions name := by
    simp only [List.eq_nil_iff_forall_not_mem, gathered_iff]
    exact ⟨fun none name mentions => none _ ⟨name, mentions, rfl⟩,
      fun none _ ⟨mentioned, mentions, _⟩ => none mentioned mentions⟩
  have ordered : (gatherTerms relation.contributions).names.Pairwise (· < ·) :=
    List.pairwise_map.mpr (ordered_gatherTerms relation.contributions)
  rw [ofRelation_eq]
  generalize gatherTerms relation.contributions = terms at *
  split
  · next empty =>
      constructor
      · intro failure
        rw [and_iff_left (empty_iff.mp empty), Except.error.injEq, eq_comm]
      · intro constraint made
        cases made
  · next filled =>
      constructor
      · intro failure
        constructor
        · intro made
          cases made
        · rintro ⟨_, none⟩
          exact absurd (empty_iff.mpr none) filled
      · intro constraint made
        cases made
        have kept := names_cleanTerms_sublist terms
        refine ⟨?_, ?_, ?_, ?_⟩
        · rcases cleanTerms_cases terms with ⟨_, nonempty⟩ | ⟨_, same⟩
          · exact nonempty
          · exact same ▸ filled
        · exact List.pairwise_map.mpr ((ordered.sublist kept).imp Text.bytes_lt_bytes)
        · intro name mem
          rcases (gathered_iff name).mp (kept.subset mem) with ⟨mentioned, mentions, rfl⟩
          exact ⟨head?_stripMark mentioned, mentioned, mentions, rfl⟩
        · rcases cleanTerms_cases terms with ⟨counts, _⟩ | ⟨zero, same⟩
          · exact .inl fun term mem => of_decide_eq_true (counts term mem)
          · refine .inr ⟨zero, fun name mentions => ?_⟩
            change stripMark name ∈ (cleanTerms terms).names
            rw [same, gathered_iff]
            exact ⟨name, mentions, rfl⟩

/-- The relation `[(^x, inf), [y, (z, nan)]] <= ^y`. -/
def infiniteRelation : Relation Float :=
  ⟨.sum [.term "^x" (1.0 / 0.0), .sum [.single "y", .term "z" (0.0 / 0.0)]], .le, .single "^y"⟩

theorem ofRelation_keeps_mentioned_infiniteRelation :
    ∃ constraint, ofRelation infiniteRelation = .ok constraint ∧
      constraint.terms.names = ["x"] ∧
      ∀ name ∈ constraint.terms.names, name.toList.head? ≠ some '^' ∧
        ∃ mentioned, infiniteRelation.Mentions mentioned ∧ stripMark mentioned = name :=
  ⟨_, rfl, by decide +kernel, ((ofRelation_keeps_mentioned infiniteRelation).2 _ rfl).2.2.1⟩

end Constraint

end ModelWeaver.Model
