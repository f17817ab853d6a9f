import ModelWeaver.Proofs.Model.AutomaticNames
import ModelWeaver.Proofs.Model.KeptVariables

/-!
# Constraints with other names

A constraint adds its terms up in the order of their names, and a renamed constraint stores
them anew under their new names. A renaming that keeps the order of names keeps every term and
the order in which they are added, so that the left side takes the very value that it had when
each variable is looked up under its new name. Putting a text in front of all names is such a
renaming. No law of the arithmetic of floats is used.

That the terms are in order holds of every constraint of a program.
-/

namespace ModelWeaver.Model

/-! ## Terms in order -/

theorem ordered_iff_pairwise_names {terms : NameMap Float} :
    terms.Ordered ↔ terms.names.Pairwise (· < ·) :=
  List.pairwise_map.symm

theorem ordered_cleanTerms {terms : NameMap Float} (ordered : terms.Ordered) :
    (cleanTerms terms).Ordered := by
  rw [ordered_iff_pairwise_names] at ordered ⊢
  exact ordered.sublist (names_cleanTerms_sublist terms)

theorem Constraint.ordered_of_ofRelation {relation : Relation Float} {constraint : Constraint}
    (stated : ofRelation relation = .ok constraint) : constraint.terms.Ordered := by
  rw [ofRelation_eq] at stated
  split at stated
  · cases stated
  · cases stated
    exact ordered_cleanTerms (ordered_gatherTerms relation.contributions)

theorem Constraint.ordered_rename (constraint : Constraint) (newName : String → String) :
    (constraint.rename newName).terms.Ordered :=
  NameMap.ordered_ofList _

namespace Program

/-- In all constraints of a program the terms are in the order of their names. -/
def Ordered (program : Program) : Prop :=
  ∀ entry ∈ program.constraints, entry.2.terms.Ordered

theorem Ordered.apply {program : Program} (ordered : program.Ordered) (edit : Edit) :
    (edit.apply program).Ordered := by
  cases edit with
  | addVariable name lower upper type => exact ordered
  | addRelation relation =>
    rcases program.apply_addRelation relation with same | ⟨constraint, stated, added⟩
    · rwa [same]
    · rw [added]
      intro entry mem
      rcases Array.mem_push.mp mem with before | rfl
      · exact ordered entry before
      · exact Constraint.ordered_of_ofRelation stated
  | renameVariables start =>
    intro entry mem
    obtain ⟨before, -, rfl⟩ := Array.mem_map.mp mem
    exact before.2.ordered_rename _
  | renameConstraints start =>
    intro entry mem
    obtain ⟨before, inProgram, rfl⟩ := Array.mem_map.mp mem
    exact ordered before inProgram

theorem ordered_built (edits : List Edit) : (built edits).Ordered := by
  induction edits using List.reverseRecOn with
  | nil => exact fun entry mem => absurd mem (Array.not_mem_empty entry)
  | append_singleton edits edit ih =>
    rw [built_snoc]
    exact ih.apply edit

end Program

/-! ## Renamings that keep the order -/

/-- A renaming that keeps the order of names. -/
def Increasing (newName : String → String) : Prop :=
  ∀ ⦃first second : String⦄, first < second → newName first < newName second

theorem increasing_append (front : String) : Increasing (front ++ ·) := by
  intro first second less
  have less' : (front ++ first).toList < (front ++ second).toList := by
    rw [String.toList_append, String.toList_append]
    exact List.append_left_lt less
  exact less'

namespace Constraint

section Increasing

variable {constraint : Constraint} {newName : String → String}
  (ordered : constraint.terms.Ordered) (increasing : Increasing newName)
include ordered increasing

theorem entries_rename :
    (constraint.rename newName).terms.entries =
      constraint.terms.entries.map fun term => (newName term.1, term.2) := by
  have inOrder : (constraint.terms.entries.map fun term => (newName term.1, term.2)).Pairwise
      fun first second => first.1 < second.1 :=
    List.pairwise_map.mpr (ordered.imp fun less => increasing less)
  exact congrArg NameMap.entries (NameMap.ofList_of_pairwise inOrder)

theorem lhsValue_rename (values : String → Float) :
    (constraint.rename newName).lhsValue values =
      constraint.lhsValue fun name => values (newName name) := by
  rw [lhsValue, entries_rename ordered increasing, List.foldl_map]
  rfl

theorem isViolated_rename (values : String → Float) (tolerance : Float) :
    (constraint.rename newName).isViolated values tolerance =
      constraint.isViolated (fun name => values (newName name)) tolerance := by
  simp only [isViolated, lhsValue_rename ordered increasing]
  rfl

end Increasing

/-- A text in front of all names keeps the sense, the right side and the coefficients in their
order, and evaluating the constraint then looks every variable up under its longer name. -/
theorem evaluation_follows_renaming (constraint : Constraint)
    (ordered : constraint.terms.Ordered) (front : String) (values : String → Float)
    (tolerance : Float) :
    let renamed := constraint.rename (front ++ ·)
    let renamedValues := fun name => values (front ++ name)
    renamed.sense = constraint.sense ∧ renamed.rhs = constraint.rhs ∧
      renamed.terms.Ordered ∧
      renamed.terms.names = constraint.terms.names.map (front ++ ·) ∧
      renamed.terms.entries.length = constraint.terms.entries.length ∧
      renamed.terms.entries.map Prod.snd = constraint.terms.entries.map Prod.snd ∧
      renamed.lhsValue values = constraint.lhsValue renamedValues ∧
      renamed.isViolated values tolerance = constraint.isViolated renamedValues tolerance := by
  intro renamed renamedValues
  have increasing := increasing_append front
  have entries : renamed.terms.entries = _ := entries_rename ordered increasing
  refine ⟨rfl, rfl, constraint.ordered_rename _, ?_, ?_, ?_,
    lhsValue_rename ordered increasing values,
    isViolated_rename ordered increasing values tolerance⟩
  · rw [NameMap.names, entries, NameMap.names, List.map_map, List.map_map]
    rfl
  · rw [entries, List.length_map]
  · rw [entries, List.map_map]
    rfl

/-- Names of which one begins with another, and one that is not ASCII. -/
theorem evaluation_follows_renaming_at_sample :
    let constraint : Constraint :=
      ⟨⟨[("x", 2.0), ("x1", -1.0), ("x10", 0.5), ("é", 1.0)]⟩, .le, 3.0⟩
    constraint.terms.Ordered ∧
      (constraint.rename ("_sos10_" ++ ·)).lhsValue (fun name => Float.ofNat name.length) =
        constraint.lhsValue fun name => Float.ofNat ("_sos10_" ++ name).length := by
  intro constraint
  have ordered : constraint.terms.Ordered := by
    rw [ordered_iff_pairwise_names]
    decide
  obtain ⟨-, -, -, -, -, -, value, -⟩ := evaluation_follows_renaming constraint ordered "_sos10_"
    (fun name => Float.ofNat name.length) 1e-6
  exact ⟨ordered, value⟩

end Constraint

end ModelWeaver.Model
