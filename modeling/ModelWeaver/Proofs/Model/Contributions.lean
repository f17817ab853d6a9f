import Mathlib.Data.List.Forall2
import Mathlib.Logic.Relation
import ModelWeaver.Model.Linear
import ModelWeaver.Proofs.NameMap

/-!
# Constraints and contributions

The constraint of a relation depends only on what each variable, and the constant, gets from
the two operands, in order. Contributions to different variables may thus be exchanged, sums
may be nested or flattened, and names may be marked as hidden, without a change of the
constraint. No law of the arithmetic of floats is used.
-/

namespace ModelWeaver.Model

/-! ## Contributions to one variable -/

/-- What a contribution is added to: a variable, or else the constant. -/
def Contribution.key : Contribution → Option String
  | toVariable name _ => some name
  | toConstant _ => none

/-- The contributions to one variable or to the constant, in order. -/
def ownContributions (key : Option String) (contributions : List Contribution) :
    List Contribution :=
  contributions.filter (·.key = key)

theorem ownContributions_append (key : Option String) (first second : List Contribution) :
    ownContributions key (first ++ second) =
      ownContributions key first ++ ownContributions key second :=
  List.filter_append first second

theorem Contribution.key_negate (contribution : Contribution) :
    contribution.negate.key = contribution.key := by
  cases contribution <;> rfl

theorem ownContributions_map_negate (key : Option String) (contributions : List Contribution) :
    ownContributions key (contributions.map Contribution.negate) =
      (ownContributions key contributions).map Contribution.negate := by
  rw [ownContributions, List.filter_map]
  congr 2
  funext contribution
  exact congrArg (fun other => decide (other = key)) contribution.key_negate

/-! ## Gathering -/

/-- Add a contribution to the coefficients. -/
def addTerm (terms : NameMap Float) (contribution : Contribution) : NameMap Float :=
  match contribution with
  | .toVariable name coefficient => terms.insertWith (· + ·) name coefficient
  | .toConstant _ => terms

theorem gatherTerms_eq_foldl (contributions : List Contribution) :
    gatherTerms contributions = contributions.foldl addTerm .empty := rfl

variable {terms : NameMap Float}

theorem ordered_addTerm (ordered : terms.Ordered) (contribution : Contribution) :
    (addTerm terms contribution).Ordered := by
  cases contribution with
  | toVariable name coefficient => exact NameMap.pairwise_insertEntryWith _ name coefficient ordered
  | toConstant value => exact ordered

theorem ordered_foldl_addTerm (ordered : terms.Ordered) (contributions : List Contribution) :
    (contributions.foldl addTerm terms).Ordered := by
  induction contributions generalizing terms with
  | nil => exact ordered
  | cons contribution contributions ih => exact ih (ordered_addTerm ordered contribution)

theorem ordered_gatherTerms (contributions : List Contribution) :
    (gatherTerms contributions).Ordered :=
  ordered_foldl_addTerm List.Pairwise.nil contributions

theorem get?_addTerm_of_ne (ordered : terms.Ordered) {contribution : Contribution} {name : String}
    (other : contribution.key ≠ some name) :
    (addTerm terms contribution).get? name = terms.get? name := by
  cases contribution with
  | toVariable held coefficient =>
    rw [addTerm, NameMap.get?_insertWith ordered, if_neg]
    rintro rfl
    exact other rfl
  | toConstant value => rfl

theorem get?_addTerm_congr {terms' : NameMap Float} (ordered : terms.Ordered)
    (ordered' : terms'.Ordered) {name : String} (same : terms.get? name = terms'.get? name)
    (contribution : Contribution) :
    (addTerm terms contribution).get? name = (addTerm terms' contribution).get? name := by
  cases contribution with
  | toVariable held coefficient =>
    rw [addTerm, addTerm, NameMap.get?_insertWith ordered, NameMap.get?_insertWith ordered']
    split
    · next found => rw [← found, same]
    · exact same
  | toConstant value => exact same

/-- For the coefficient of a variable only its own contributions count. -/
theorem get?_foldl_addTerm (name : String) (contributions : List Contribution)
    {terms' : NameMap Float} (ordered : terms.Ordered) (ordered' : terms'.Ordered)
    (same : terms.get? name = terms'.get? name) :
    (contributions.foldl addTerm terms).get? name =
      ((ownContributions (some name) contributions).foldl addTerm terms').get? name := by
  induction contributions generalizing terms terms' with
  | nil => exact same
  | cons contribution contributions ih =>
    by_cases own : contribution.key = some name
    · rw [ownContributions, List.filter_cons_of_pos (by simpa using own)]
      exact ih (ordered_addTerm ordered contribution) (ordered_addTerm ordered' contribution)
        (get?_addTerm_congr ordered ordered' same contribution)
    · rw [ownContributions, List.filter_cons_of_neg (by simpa using own)]
      exact ih (ordered_addTerm ordered contribution) ordered'
        ((get?_addTerm_of_ne ordered own).trans same)

theorem gatherConstant_ownContributions (contributions : List Contribution) :
    gatherConstant (ownContributions none contributions) = gatherConstant contributions := by
  rw [gatherConstant, gatherConstant, ownContributions, List.foldl_filter]
  congr 1
  funext total contribution
  cases contribution <;> rfl

section Congr

variable {contributions contributions' : List Contribution}
  (agree : ∀ key, ownContributions key contributions = ownContributions key contributions')
include agree

theorem gatherTerms_congr : gatherTerms contributions = gatherTerms contributions' := by
  refine (ordered_gatherTerms contributions).eq_of_get?_eq (ordered_gatherTerms contributions') ?_
  intro name
  have empty : (NameMap.empty : NameMap Float).Ordered := List.Pairwise.nil
  rw [gatherTerms_eq_foldl, gatherTerms_eq_foldl,
    get?_foldl_addTerm name contributions empty empty rfl, agree,
    ← get?_foldl_addTerm name contributions' empty empty rfl]

theorem gatherConstant_congr : gatherConstant contributions = gatherConstant contributions' := by
  rw [← gatherConstant_ownContributions, agree, gatherConstant_ownContributions]

end Congr

theorem Constraint.ofRelation_congr {relation other : Relation Float}
    (sense : relation.sense = other.sense)
    (agree : ∀ key, ownContributions key relation.contributions =
      ownContributions key other.contributions) :
    ofRelation relation = ofRelation other := by
  simp only [ofRelation, gatherTerms_congr agree, gatherConstant_congr agree, sense]

/-! ## Ways to write the same operand -/

theorem stripMark_append {letter : Char} (unmarked : letter ≠ hiddenMark)
    (stem rest : List Char) : stripMark (String.ofList (stem ++ letter :: rest)) =
      String.ofList (stem.dropWhile (· = hiddenMark) ++ letter :: rest) := by
  rw [stripMark, String.toList_ofList, List.dropWhile_append]
  split
  · next empty =>
      rw [List.isEmpty_iff.mp empty, List.dropWhile_cons_of_neg (by simpa using unmarked)]
      rfl
  · rfl

namespace Operand

variable {first second : Operand Float}

theorem contributions_sum (items : List (Operand Float)) :
    (sum items).contributions = items.flatMap contributions := by
  change allContributions items = _
  induction items with
  | nil => rfl
  | cons item items ih => exact congrArg (item.contributions ++ ·) ih

/-- Two operands contribute to different variables, and not both to the constant. -/
def Apart (first second : Operand Float) : Prop :=
  ∀ contribution ∈ first.contributions, ∀ other ∈ second.contributions,
    contribution.key ≠ other.key

/-- One change of how an operand is written. -/
inductive Rewrites : Operand Float → Operand Float → Prop
  /-- Neighbours in a sum change places. -/
  | exchange (before : List (Operand Float)) {first second : Operand Float}
      (after : List (Operand Float)) (apart : Apart first second) :
      Rewrites (sum (before ++ first :: second :: after))
        (sum (before ++ second :: first :: after))
  /-- A sum within a sum is written out. -/
  | flatten (before items after : List (Operand Float)) :
      Rewrites (sum (before ++ sum items :: after)) (sum (before ++ (items ++ after)))
  /-- A sum of one item becomes that item. -/
  | unwrap (item : Operand Float) : Rewrites (sum [item]) item
  /-- The name of a variable is marked as hidden. -/
  | markSingle (name : String) : Rewrites (single name) (single (hiddenMark.toString ++ name))
  | markTerm (name : String) (coefficient : Float) :
      Rewrites (term name coefficient) (term (hiddenMark.toString ++ name) coefficient)
  /-- An item of a sum is changed. -/
  | inside (before : List (Operand Float)) {item changed : Operand Float}
      (after : List (Operand Float)) (rewrites : Rewrites item changed) :
      Rewrites (sum (before ++ item :: after)) (sum (before ++ changed :: after))

/-- Two operands differ by such changes, made in either direction. -/
def Alike : Operand Float → Operand Float → Prop := Relation.EqvGen Rewrites

theorem stripMark_mark (name : String) :
    stripMark (hiddenMark.toString ++ name) = stripMark name := by
  simp [stripMark, hiddenMark]

/-- Of two operands that are apart, at most one contributes to a given variable. -/
theorem Apart.append_comm (apart : Apart first second) (key : Option String) :
    ownContributions key first.contributions ++ ownContributions key second.contributions =
      ownContributions key second.contributions ++ ownContributions key first.contributions := by
  cases owned : ownContributions key first.contributions with
  | nil => rw [List.nil_append, List.append_nil]
  | cons contribution more =>
    have mem : contribution ∈ ownContributions key first.contributions :=
      owned ▸ List.mem_cons_self
    obtain ⟨contributes, own⟩ := List.mem_filter.mp mem
    have none : ownContributions key second.contributions = [] := by
      refine List.filter_eq_nil_iff.mpr fun other contributes' own' => ?_
      exact apart contribution contributes other contributes'
        ((of_decide_eq_true own).trans (of_decide_eq_true own').symm)
    rw [none, List.nil_append, List.append_nil]

theorem Rewrites.ownContributions_eq (rewrites : Rewrites first second) (key : Option String) :
    ownContributions key first.contributions = ownContributions key second.contributions := by
  induction rewrites with
  | exchange before after apart =>
    simp only [contributions_sum, List.flatMap_append, List.flatMap_cons,
      ownContributions_append]
    congr 1
    rw [← List.append_assoc, apart.append_comm key, List.append_assoc]
  | flatten before items after =>
    simp only [contributions_sum, List.flatMap_append, List.flatMap_cons]
  | unwrap item =>
    rw [contributions_sum, List.flatMap_singleton]
  | markSingle name | markTerm name coefficient =>
    simp only [contributions, stripMark_mark]
  | inside before after _ ih =>
    simp only [contributions_sum, List.flatMap_append, List.flatMap_cons,
      ownContributions_append, ih]

theorem Alike.ownContributions_eq (alike : Alike first second) (key : Option String) :
    ownContributions key first.contributions = ownContributions key second.contributions := by
  induction alike with
  | rel first second rewrites => exact rewrites.ownContributions_eq key
  | refl operand => rfl
  | symm first second _ ih => exact ih.symm
  | trans first second third _ _ ih ih' => exact ih.trans ih'

/-! ## Pairs -/

/-- Two values differ at most in the order of the name and the coefficient in pairs. -/
inductive Turned : Value → Value → Prop
  | same (value : Value) : Turned value value
  | nameFirst (name : String) (coefficient : Value) :
      Turned (.tuple [.str name, coefficient]) (.tuple [coefficient, .str name])
  | nameLast (name : String) (coefficient : Value) :
      Turned (.tuple [coefficient, .str name]) (.tuple [.str name, coefficient])
  | items {items items' : List Value} :
      List.Forall₂ Turned items items' → Turned (.list items) (.list items')

theorem ofEntry_turned (name : String) (coefficient : Value) :
    ofEntry (.tuple [.str name, coefficient]) = ofEntry (.tuple [coefficient, .str name]) := by
  cases coefficient <;> rfl

theorem Turned.ofEntry_eq {value value' : Value} (turned : Turned value value') :
    ofEntry value = ofEntry value' := by
  cases turned with
  | same => rfl
  | nameFirst name coefficient => exact ofEntry_turned name coefficient
  | nameLast name coefficient => exact (ofEntry_turned name coefficient).symm
  | items _ => rfl

theorem Turned.ofValue_eq {value value' : Value} (turned : Turned value value') :
    ofValue value = ofValue value' := by
  cases turned with
  | same => rfl
  | nameFirst name coefficient => exact ofEntry_turned name coefficient
  | nameLast name coefficient => exact (ofEntry_turned name coefficient).symm
  | @items items items' turned =>
    have entries : items.mapM ofEntry = items'.mapM ofEntry := by
      induction turned with
      | nil => rfl
      | cons first _ ih => rw [List.mapM_cons, List.mapM_cons, first.ofEntry_eq, ih]
    simp only [ofValue, entries]

end Operand

/-! ## Constraints -/

namespace Constraint

open Operand

/-- The constraint of a relation, its absence and its text depend only on the contributions to
each single variable and to the constant. So it does not matter in which order different
variables stand in an operand, how its sums are nested, whether its names are marked as hidden,
and which part of a pair comes first. -/
theorem ofRelation_depends_on_ownContributions :
    (∀ relation other : Relation Float, relation.sense = other.sense →
      (∀ key, ownContributions key relation.contributions =
        ownContributions key other.contributions) →
      ofRelation relation = ofRelation other ∧
        ∀ name, (ofRelation relation).map (·.statement name) =
          (ofRelation other).map (·.statement name)) ∧
    (∀ left left' right right' sense, Alike left left' → Alike right right' →
      ofRelation ⟨left, sense, right⟩ = ofRelation ⟨left', sense, right'⟩) ∧
    ∀ left left' right right' sign, Turned left left' → Turned right right' →
      ofValues left sign right = ofValues left' sign right' := by
  refine ⟨?_, ?_, ?_⟩
  · intro relation other sense agree
    have same := ofRelation_congr sense agree
    exact ⟨same, fun name => congrArg _ same⟩
  · intro left left' right right' sense alikeLeft alikeRight
    refine ofRelation_congr rfl fun key => ?_
    rw [Relation.contributions, Relation.contributions, ownContributions_append,
      ownContributions_append, ownContributions_map_negate, ownContributions_map_negate,
      alikeLeft.ownContributions_eq, alikeRight.ownContributions_eq]
  · intro left left' right right' sign turnedLeft turnedRight
    rw [ofValues, ofValues, turnedLeft.ofValue_eq, turnedRight.ofValue_eq]

/-- The relation `[x, (y, 2), 3] <= x`. -/
def sampleRelation : Relation Float :=
  ⟨.sum [.single "x", .term "y" 2.0, .constant 3.0], .le, .single "x"⟩

/-- The relation `[3, [(^y, 2), ^x]] <= ^^x`. -/
def rewrittenRelation : Relation Float :=
  ⟨.sum [.constant 3.0, .sum [.term "^y" 2.0, .single "^x"]], .le, .single "^^x"⟩

theorem sampleRelation_agrees (key : Option String) :
    ownContributions key sampleRelation.contributions =
      ownContributions key rewrittenRelation.contributions := by
  have first : sampleRelation.contributions =
      [.toVariable "x" 1.0, .toVariable "y" 2.0, .toConstant 3.0, .toVariable "x" (-1.0)] := rfl
  have second : rewrittenRelation.contributions =
      [.toConstant 3.0, .toVariable "y" 2.0, .toVariable "x" 1.0, .toVariable "x" (-1.0)] := rfl
  rw [first, second]
  cases key with
  | none => rfl
  | some name =>
    by_cases isX : "x" = name
    · subst isX
      rfl
    · by_cases isY : "y" = name
      · subst isY
        rfl
      · simp [ownContributions, Contribution.key, isX, isY]

theorem ofRelation_depends_on_ownContributions_sampleRelation :
    (ofRelation rewrittenRelation).map (·.statement "c") = .ok "s.t. c: +2*y <= -3;" ∧
      ofRelation ⟨.sum [.single "x", .term "y" 2.0], .ge, .constant 4.0⟩ =
        ofRelation ⟨.sum [.term "y" 2.0, .single "^x"], .ge, .sum [.constant 4.0]⟩ ∧
      ofValues (.list [.tuple [.str "y", .int 2]]) "<=" (.int 1) =
        ofValues (.list [.tuple [.int 2, .str "y"]]) "<=" (.int 1) := by
  obtain ⟨general, rewriting, turning⟩ := ofRelation_depends_on_ownContributions
  refine ⟨?_, rewriting _ _ _ _ _ ?_ ?_, turning _ _ _ _ _ ?_ (.same _)⟩
  · rw [← (general sampleRelation rewrittenRelation rfl sampleRelation_agrees).2 "c"]
    rfl
  · have apart : Apart (.single "x") (.term "y" 2.0) := by
      simp [Apart, contributions, Contribution.key, stripMark, hiddenMark]
    exact .trans _ _ _ (.rel _ _ (.exchange [] [] apart))
      (.rel _ _ (.inside [.term "y" 2.0] [] (.markSingle "x")))
  · exact .symm _ _ (.rel _ _ (.unwrap _))
  · exact .items (.cons (.nameFirst "y" (.int 2)) .nil)

end Constraint

end ModelWeaver.Model
