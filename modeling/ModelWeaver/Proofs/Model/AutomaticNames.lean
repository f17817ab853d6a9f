import Mathlib.Data.List.Nodup
import ModelWeaver.Model.Program
import ModelWeaver.Proofs.Text.Digits

/-!
# Names that are made up

A program makes a name up for every constraint and for each variable that is added without one: a
letter and the number of those that are there already. Renaming puts a text in front of all names.
A name that is made up later differs from these, since it consists of its letter and of digits.

Names that are given may be anything, also the one that is made up next.
-/

namespace ModelWeaver.Model

namespace Program

/-! ## Putting a program together -/

/-- A step in which a program is put together. -/
inductive Edit where
  | addVariable (name : Option String) (lower upper : Option Float) (type : VarType)
  | addRelation (relation : Relation Float)
  /-- Put a text in front of the names of the variables. -/
  | renameVariables (start : String)
  /-- Put a text in front of the names of the constraints. -/
  | renameConstraints (start : String)

/-- The program after a step. A relation without a constraint changes nothing. -/
def Edit.apply (program : Program) : Edit → Program
  | addVariable name lower upper type =>
    program.addVariable { name := name.getD program.nextVariableName, lower, upper, type }
  | addRelation relation => (program.addRelation relation).toOption.getD program
  | renameVariables start => program.renameVariables (start ++ ·)
  | renameConstraints start => program.renameConstraints (start ++ ·)

/-- The name that a variable is given, if the step adds one. -/
def Edit.givenName? : Edit → Option (Option String)
  | addVariable name _ _ _ => some name
  | _ => none

/-- The program that some steps put together. -/
def built (edits : List Edit) : Program := edits.foldl Edit.apply {}

/-- The names that the variables were given, in the order in which they were added. -/
def givenNames (edits : List Edit) : List (Option String) := edits.filterMap Edit.givenName?

def variableNames (program : Program) : List String := program.vars.toList.map Variable.name

def constraintNames (program : Program) : List String := program.constraints.toList.map Prod.fst

theorem built_snoc (edits : List Edit) (edit : Edit) :
    built (edits ++ [edit]) = edit.apply (built edits) := by
  rw [built, List.foldl_append]
  rfl

theorem givenNames_snoc (edits : List Edit) (edit : Edit) :
    givenNames (edits ++ [edit]) = givenNames edits ++ edit.givenName?.toList := by
  rw [givenNames, List.filterMap_append]
  cases given : edit.givenName? <;> simp [givenNames, given]

/-! ## Letters and numbers -/

/-- A name ends in a letter and a number. -/
def EndsIn (letter : Char) (number : Nat) (name : String) : Prop :=
  ∃ start, name.toList = start ++ letter :: Nat.toDigits 10 number

/-- Under any renaming, a name that was made up differs from those with larger numbers. -/
theorem EndsIn.number_eq {letter : Char} {i j : Nat} {name : String}
    (noDigit : letter.isDigit = false) (ends : EndsIn letter i name)
    (made : name.toList = letter :: Nat.toDigits 10 j) : i = j := by
  obtain ⟨start, nameEq⟩ := ends
  rw [made] at nameEq
  cases start with
  | nil => exact (toDigits_injective (List.cons.inj nameEq).2).symm
  | cons c start =>
    -- The letter would be among the digits.
    have mem : letter ∈ Nat.toDigits 10 j := by
      rw [(List.cons.inj nameEq).2]
      simp
    have digit := Nat.isDigit_of_mem_toDigits (by decide) (by decide) mem
    rw [noDigit] at digit
    cases digit

/-- Names that were made up end in their letter and their position. -/
structure Follows (letter : Char) (given : List (Option String)) (names : List String) :
    Prop where
  length_eq : names.length = given.length
  ends : ∀ {i name}, names[i]? = some name → given[i]? = some none → EndsIn letter i name

namespace Follows

variable {letter : Char} {given : List (Option String)} {names : List String}

theorem rename (follows : Follows letter given names) (start : String) :
    Follows letter given (names.map (start ++ ·)) where
  length_eq := by rw [List.length_map, follows.length_eq]
  ends {i name} found automatic := by
    rw [List.getElem?_map, Option.map_eq_some_iff] at found
    obtain ⟨old, found, rfl⟩ := found
    obtain ⟨front, oldEq⟩ := follows.ends found automatic
    exact ⟨start.toList ++ front, by rw [String.toList_append, oldEq, List.append_assoc]⟩

/-- The next name is made up unless it is given. -/
theorem snoc (follows : Follows letter given names) {made : String}
    (madeEq : made.toList = letter :: Nat.toDigits 10 names.length) (name : Option String) :
    Follows letter (given ++ [name]) (names ++ [name.getD made]) where
  length_eq := by rw [List.length_append, List.length_append, follows.length_eq]; rfl
  ends {i current} found automatic := by
    by_cases old : i < names.length
    · rw [List.getElem?_append_left old] at found
      rw [List.getElem?_append_left (follows.length_eq ▸ old)] at automatic
      exact follows.ends found automatic
    · rw [List.getElem?_append_right (Nat.le_of_not_lt old)] at found
      rw [List.getElem?_append_right (follows.length_eq ▸ Nat.le_of_not_lt old)] at automatic
      simp only [List.getElem?_singleton, Option.ite_none_right_eq_some, Option.some.injEq]
        at found automatic
      obtain ⟨atEnd, rfl⟩ := found
      obtain ⟨_, rfl⟩ := automatic
      have position : i = names.length := by omega
      exact ⟨[], position ▸ madeEq⟩

/-- The name that is made up next is at most that of a variable that was given one. -/
theorem exists_given (follows : Follows letter given names) (noDigit : letter.isDigit = false)
    {made : String} (madeEq : made.toList = letter :: Nat.toDigits 10 names.length) {i : Nat}
    (found : names[i]? = some made) : ∃ name, given[i]? = some (some name) := by
  obtain ⟨inside, _⟩ := List.getElem?_eq_some_iff.mp found
  have known : i < given.length := follows.length_eq ▸ inside
  cases origin : given[i] with
  | some name => exact ⟨name, List.getElem?_eq_some_iff.mpr ⟨known, origin⟩⟩
  | none =>
    have automatic : given[i]? = some none := List.getElem?_eq_some_iff.mpr ⟨known, origin⟩
    have same := (follows.ends found automatic).number_eq noDigit madeEq
    omega

end Follows

/-! ## Programs -/

theorem toList_nextVariableName (program : Program) :
    program.nextVariableName.toList = 'x' :: Nat.toDigits 10 program.variableNames.length := by
  rw [nextVariableName, variableNames, List.length_map, Array.length_toList]
  simp only [String.toList_append, Nat.toString_eq_repr, Nat.toList_repr]
  rfl

theorem toList_nextConstraintName (program : Program) :
    program.nextConstraintName.toList =
      'c' :: Nat.toDigits 10 program.constraintNames.length := by
  rw [nextConstraintName, constraintNames, List.length_map, Array.length_toList]
  simp only [String.toList_append, Nat.toString_eq_repr, Nat.toList_repr]
  rfl

section Steps

variable (program : Program)

theorem variableNames_addVariable (v : Variable) :
    (program.addVariable v).variableNames = program.variableNames ++ [v.name] := by
  rw [variableNames, addVariable, Array.toList_push, List.map_append]
  rfl

theorem variableNames_renameVariables (newName : String → String) :
    (program.renameVariables newName).variableNames = program.variableNames.map newName := by
  rw [variableNames, renameVariables, Array.toList_map, List.map_map, variableNames, List.map_map]
  rfl

theorem constraintNames_renameVariables (newName : String → String) :
    (program.renameVariables newName).constraintNames = program.constraintNames := by
  rw [constraintNames, renameVariables, Array.toList_map, List.map_map]
  rfl

theorem constraintNames_renameConstraints (newName : String → String) :
    (program.renameConstraints newName).constraintNames = program.constraintNames.map newName := by
  rw [constraintNames, renameConstraints, Array.toList_map, List.map_map, constraintNames,
    List.map_map]
  rfl

/-- A relation changes nothing, or its constraint gets the name that is made up next. -/
theorem apply_addRelation (relation : Relation Float) :
    Edit.apply program (.addRelation relation) = program ∨
      ∃ constraint, Constraint.ofRelation relation = .ok constraint ∧
        Edit.apply program (.addRelation relation) = { program with
          constraints := program.constraints.push (program.nextConstraintName, constraint) } := by
  rw [Edit.apply, addRelation]
  cases Constraint.ofRelation relation with
  | error failure => exact .inl rfl
  | ok constraint => exact .inr ⟨constraint, rfl, rfl⟩

end Steps

/-- What the names of a program are like when its variables were given certain names. -/
structure Named (given : List (Option String)) (program : Program) : Prop where
  vars : Follows 'x' given program.variableNames
  constraints : ∃ made, Follows 'c' (List.replicate made none) program.constraintNames
  distinct : program.constraintNames.Nodup

namespace Named

variable {given : List (Option String)} {program : Program}

theorem empty : Named [] {} where
  vars := ⟨rfl, fun found => nomatch found⟩
  constraints := ⟨0, rfl, fun found => nomatch found⟩
  distinct := .nil

theorem nextConstraintName_notMem (named : Named given program) :
    program.nextConstraintName ∉ program.constraintNames := by
  intro mem
  obtain ⟨made, follows⟩ := named.constraints
  obtain ⟨i, found⟩ := List.mem_iff_getElem?.mp mem
  obtain ⟨name, known⟩ := follows.exists_given rfl program.toList_nextConstraintName found
  have automatic := List.eq_of_mem_replicate (List.mem_of_getElem? known)
  cases automatic

theorem addRelation (named : Named given program) (relation : Relation Float) :
    Named given (Edit.apply program (.addRelation relation)) := by
  rcases program.apply_addRelation relation with same | ⟨constraint, -, added⟩
  · rwa [same]
  · rw [added]
    obtain ⟨made, follows⟩ := named.constraints
    refine ⟨named.vars, ⟨made + 1, ?_⟩, ?_⟩ <;>
      rw [constraintNames, Array.toList_push, List.map_append]
    · rw [List.replicate_succ']
      exact follows.snoc program.toList_nextConstraintName none
    · rw [List.map_singleton, ← List.concat_eq_append]
      exact named.distinct.concat named.nextConstraintName_notMem

/-- Every step keeps names apart that were made up. -/
theorem apply (named : Named given program) (edit : Edit) :
    Named (given ++ edit.givenName?.toList) (edit.apply program) := by
  cases edit with
  | addVariable name lower upper type =>
    refine ⟨?_, named.constraints, named.distinct⟩
    change Follows 'x' (given ++ [name]) (program.addVariable _).variableNames
    rw [variableNames_addVariable]
    exact named.vars.snoc program.toList_nextVariableName name
  | addRelation relation =>
    change Named (given ++ []) _
    rw [List.append_nil]
    exact named.addRelation relation
  | renameVariables start =>
    change Named (given ++ []) (program.renameVariables _)
    rw [List.append_nil]
    refine ⟨?_, ?_, ?_⟩
    · rw [variableNames_renameVariables]
      exact named.vars.rename start
    · rw [constraintNames_renameVariables]
      exact named.constraints
    · rw [constraintNames_renameVariables]
      exact named.distinct
  | renameConstraints start =>
    change Named (given ++ []) (program.renameConstraints _)
    rw [List.append_nil]
    obtain ⟨made, follows⟩ := named.constraints
    refine ⟨named.vars, ⟨made, ?_⟩, ?_⟩
    · rw [constraintNames_renameConstraints]
      exact follows.rename start
    · rw [constraintNames_renameConstraints]
      exact named.distinct.map fun first second same => String.append_right_inj start |>.mp same

end Named

theorem named_built (edits : List Edit) : Named (givenNames edits) (built edits) := by
  induction edits using List.reverseRecOn with
  | nil => exact .empty
  | append_singleton edits edit ih =>
    rw [built_snoc, givenNames_snoc]
    exact ih.apply edit

/-- A variable that is added without a name gets one that no other such variable has, however
the variables were renamed: only a variable that was given a name can have it. The constraints
always have different names. -/
theorem made_up_names_fresh (edits : List Edit) :
    (built edits).variableNames.length = (givenNames edits).length ∧
    (∀ lower upper type, ∃ name,
      (built (edits ++ [.addVariable none lower upper type])).vars =
        (built edits).vars.push { name, lower, upper, type } ∧
      ∀ i : Nat, (built edits).variableNames[i]? = some name →
        ∃ given, (givenNames edits)[i]? = some (some given)) ∧
    (built edits).constraintNames.Nodup := by
  have named := named_built edits
  refine ⟨named.vars.length_eq, ?_, named.distinct⟩
  intro lower upper type
  refine ⟨(built edits).nextVariableName, by rw [built_snoc]; rfl, fun i found => ?_⟩
  exact named.vars.exists_given rfl (toList_nextVariableName _) found

/-- The name that is made up for the second variable may be the one that the first was
given. -/
theorem given_name_made_up_again :
    (built [.addVariable (some "x1") none none .continuous,
      .addVariable none none none .continuous]).variableNames = ["x1", "x1"] := by
  decide

end Program

end ModelWeaver.Model
