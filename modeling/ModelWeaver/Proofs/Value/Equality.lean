import Mathlib.Data.List.Forall2
import ModelWeaver.Proofs.Value.Parts

/-!
# Equality of values

Equality is an equivalence on values without floats and methods whose dicts have different
keys. Two dicts are equal if each entry of the first is found in the second; that this does
not depend on the direction takes a count of the entries. As dicts may hold dicts, also as
keys, the laws are shown for larger and larger nesting, all three at a time.
-/

namespace ModelWeaver.Value

variable {a b value : Value} {entries : Entries}

/-! ## Both directions -/

section Directions

variable {as bs : List Value} {entries others : Entries}

theorem allEqualRev_eq (flips : ∀ a ∈ as, ∀ b ∈ bs, a.equalsRev b = b.equals a) :
    allEqualRev as bs = allEqual bs as := by
  induction as generalizing bs with
  | nil =>
    cases bs with
    | nil => rfl
    | cons b bs => rfl
  | cons a as ih =>
    cases bs with
    | nil => rfl
    | cons b bs =>
      have head := flips a List.mem_cons_self b List.mem_cons_self
      have tail := ih fun x mem y mem' =>
        flips x (List.mem_cons_of_mem a mem) y (List.mem_cons_of_mem b mem')
      change (a.equalsRev b && allEqualRev as bs) = (b.equals a && allEqual bs as)
      rw [head, tail]

theorem find?_equalsRev_eq_foundIn (key value : Value)
    (flips : ∀ entry ∈ others,
      key.equalsRev entry.1 = entry.1.equals key ∧ value.equalsRev entry.2 = entry.2.equals value) :
    (match others.find? fun entry => key.equalsRev entry.1 with
      | some entry => value.equalsRev entry.2
      | Option.none => false) = foundIn others key value := by
  induction others with
  | nil => rfl
  | cons entry others ih =>
    obtain ⟨⟨sameKey, sameValue⟩, later⟩ := List.forall_mem_cons.mp flips
    rw [List.find?_cons, sameKey]
    change _ = if entry.1.equals key then entry.2.equals value else foundIn others key value
    cases entry.1.equals key with
    | true => exact sameValue
    | false => exact ih later

theorem allFoundIn_eq
    (flips : ∀ entry ∈ entries, ∀ other ∈ others,
      entry.1.equalsRev other.1 = other.1.equals entry.1 ∧
        entry.2.equalsRev other.2 = other.2.equals entry.2) :
    allFoundIn entries others = entries.all fun entry => foundIn others entry.1 entry.2 := by
  induction entries with
  | nil => rfl
  | cons entry entries ih =>
    obtain ⟨here, later⟩ := List.forall_mem_cons.mp flips
    change ((match others.find? fun other => entry.1.equalsRev other.1 with
      | some other => entry.2.equalsRev other.2
      | Option.none => false) && allFoundIn entries others) = _
    rw [find?_equalsRev_eq_foundIn entry.1 entry.2 here, ih later, List.all_cons]

end Directions

/-- `equalsRev` is equality with its sides exchanged, for a value on either side. -/
theorem equalsRev_flips (a : Value) :
    (∀ b, a.equalsRev b = b.equals a) ∧ ∀ b, b.equalsRev a = a.equals b := by
  induction everywhere_of_forall (fun _ => trivial : ∀ _ : Value, True) a with
  | @mk a _ _ ih =>
    cases a with
    | list items | tuple items =>
      constructor
      all_goals
        intro b
        cases b with
        | list others | tuple others =>
          first
          | rfl
          | exact allEqualRev_eq fun x mem y _ => (ih x mem).1 y
          | exact allEqualRev_eq fun y _ x mem => (ih x mem).2 y
        | _ => rfl
    | dict entries =>
      have flips := forall_mem_parts_dict.mp ih
      constructor
      · intro b
        cases b with
        | dict others =>
          refine congrArg (others.length == entries.length && ·) (allFoundIn_eq ?_).symm
          exact fun other _ entry mem =>
            ⟨(flips entry mem).1.2 other.1, (flips entry mem).2.2 other.2⟩
        | _ => rfl
      · intro b
        cases b with
        | dict others =>
          refine congrArg (entries.length == others.length && ·) (allFoundIn_eq ?_).symm
          exact fun entry mem other _ =>
            ⟨(flips entry mem).1.1 other.1, (flips entry mem).2.1 other.2⟩
        | _ => rfl
    | _ =>
      constructor
      · intro b
        cases b <;> rfl
      · intro b
        cases b <;> rfl

theorem equals_dict (entries others : Entries) :
    (dict entries).equals (dict others) =
      (entries.length == others.length &&
        entries.all fun entry => foundIn others entry.1 entry.2) := by
  refine congrArg (entries.length == others.length && ·) (allFoundIn_eq ?_)
  exact fun entry _ other _ =>
    ⟨(equalsRev_flips entry.1).1 other.1, (equalsRev_flips entry.2).1 other.2⟩

/-! ## Discrete values -/

/-- A value is neither a float nor a method, and the keys of a dict differ. -/
def DiscreteHere : Value → Prop
  | float _ | method _ _ => False
  | dict entries => KeysDiffer entries
  | _ => True

instance : DecidablePred DiscreteHere
  | float _ | method _ _ => .isFalse id
  | dict entries => inferInstanceAs (Decidable (KeysDiffer entries))
  | none | bool _ | int _ | str _ | list _ | tuple _ | builtin _ | command _ _ => .isTrue trivial

/-- Values without floats and methods, whose dicts have different keys. -/
def Discrete (value : Value) : Prop :=
  value.Everywhere DiscreteHere

instance (value : Value) : Decidable value.Discrete :=
  inferInstanceAs (Decidable (value.Everywhere DiscreteHere))

/-- The ways in which two discrete values can be equal. -/
inductive Corresponds : Value → Value → Prop
  | none : Corresponds none none
  | str (text : String) : Corresponds (str text) (str text)
  | list {items others : List Value} :
      List.Forall₂ (fun a b => a == b) items others → Corresponds (list items) (list others)
  | tuple {items others : List Value} :
      List.Forall₂ (fun a b => a == b) items others → Corresponds (tuple items) (tuple others)
  | dict {entries others : Entries} :
      entries.length = others.length →
      (∀ entry ∈ entries, foundIn others entry.1 entry.2 = true) →
      Corresponds (dict entries) (dict others)
  | builtin (function : Builtin) : Corresponds (builtin function) (builtin function)
  | command (name : String) (index : Option String) :
      Corresponds (command name index) (command name index)
  | number {a b : Value} {n : Int64} : a.int? = some n → b.int? = some n → Corresponds a b

theorem allEqual_iff {items others : List Value} :
    allEqual items others = true ↔ List.Forall₂ (fun a b => a == b) items others := by
  induction items generalizing others with
  | nil =>
    cases others with
    | nil => exact iff_of_true rfl .nil
    | cons other others => exact iff_of_false nofun nofun
  | cons item items ih =>
    cases others with
    | nil => exact iff_of_false nofun nofun
    | cons other others =>
      change (item.equals other && allEqual items others) = true ↔ _
      rw [Bool.and_eq_true, ih, List.forall₂_cons]
      rfl

theorem equals_of_int? {m n : Int64} (first : a.int? = some m) (second : b.int? = some n) :
    a.equals b = (m == n) := by
  have numbers : numberEquals a b = (m == n) := by rw [numberEquals, first, second]
  cases a with
  | bool _ | int _ => exact numbers
  | _ => cases first

theorem not_discrete_float {x : Float} : ¬(float x).Discrete :=
  fun discrete => (everywhere_iff.mp discrete).1

theorem not_discrete_method {receiver : Value} {name : String} :
    ¬(method receiver name).Discrete :=
  fun discrete => (everywhere_iff.mp discrete).1

theorem corresponds_of_equals (discrete : a.Discrete) (discrete' : b.Discrete)
    (equal : (a == b) = true) : Corresponds a b := by
  cases a with
  | none =>
    cases b with
    | none => exact .none
    | _ => exact absurd equal Bool.false_ne_true
  | bool _ | int _ =>
    cases b with
    | bool _ | int _ => exact .number rfl (congrArg some (eq_of_beq (α := Int64) equal).symm)
    | float _ => exact absurd discrete' not_discrete_float
    | _ => exact absurd equal Bool.false_ne_true
  | float _ => exact absurd discrete not_discrete_float
  | str text =>
    cases b with
    | str other =>
      obtain rfl : text = other := eq_of_beq equal
      exact .str text
    | _ => exact absurd equal Bool.false_ne_true
  | list items =>
    cases b with
    | list others => exact .list (allEqual_iff.mp equal)
    | _ => exact absurd equal Bool.false_ne_true
  | tuple items =>
    cases b with
    | tuple others => exact .tuple (allEqual_iff.mp equal)
    | _ => exact absurd equal Bool.false_ne_true
  | dict entries =>
    cases b with
    | dict others =>
      change (dict entries).equals (dict others) = true at equal
      rw [equals_dict, Bool.and_eq_true, List.all_eq_true] at equal
      exact .dict (eq_of_beq equal.1) equal.2
    | _ => exact absurd equal Bool.false_ne_true
  | builtin function =>
    cases b with
    | builtin other =>
      obtain rfl : function = other := eq_of_beq equal
      exact .builtin function
    | _ => exact absurd equal Bool.false_ne_true
  | method _ _ => exact absurd discrete not_discrete_method
  | command name index =>
    cases b with
    | command other index' =>
      obtain ⟨sameName, sameIndex⟩ := Bool.and_eq_true_iff.mp equal
      obtain rfl : name = other := eq_of_beq sameName
      obtain rfl : index = index' := eq_of_beq sameIndex
      exact .command name index
    | _ => exact absurd equal Bool.false_ne_true

theorem Corresponds.equals (corresponds : Corresponds a b) : (a == b) = true := by
  cases corresponds with
  | none => rfl
  | number first second => exact (equals_of_int? first second).trans (beq_self_eq_true _)
  | str text => exact beq_self_eq_true text
  | list equal => exact allEqual_iff.mpr equal
  | tuple equal => exact allEqual_iff.mpr equal
  | @dict entries others length found =>
    change (Value.dict entries).equals (Value.dict others) = true
    rw [equals_dict, Bool.and_eq_true, List.all_eq_true]
    exact ⟨beq_iff_eq.mpr length, found⟩
  | builtin function => exact beq_self_eq_true function
  | command name index =>
    exact Bool.and_eq_true_iff.mpr ⟨beq_self_eq_true name, beq_self_eq_true index⟩

/-! ## Dicts -/

/-- Equality is an equivalence between some values. -/
structure EquivalenceOn (Good : Value → Prop) : Prop where
  refl {a : Value} : Good a → (a == a) = true
  symm {a b : Value} : Good a → Good b → (a == b) = true → (b == a) = true
  trans {a b c : Value} : Good a → Good b → Good c →
    (a == b) = true → (b == c) = true → (a == c) = true

theorem exists_of_foundIn {key : Value} (found : foundIn entries key value = true) :
    ∃ entry ∈ entries, (entry.1 == key) = true ∧ (entry.2 == value) = true := by
  induction entries with
  | nil => cases found
  | cons entry entries ih =>
    change (if entry.1 == key then entry.2 == value else foundIn entries key value) = true
      at found
    split at found
    · next same => exact ⟨entry, List.mem_cons_self, same, found⟩
    · obtain ⟨other, mem, same⟩ := ih found
      exact ⟨other, List.mem_cons_of_mem _ mem, same⟩

/-- If the items of one list are matched by items of a list that is not longer, and no two of
them by the same item, then every item of the second list matches one. -/
theorem exists_matched {α β : Type} {Matches : α → β → Prop} {items : List α} {others : List β}
    (short : others.length ≤ items.length)
    (matched : ∀ item ∈ items, ∃ other ∈ others, Matches item other)
    (apart : items.Pairwise fun first second =>
      ∀ other ∈ others, Matches first other → ¬Matches second other) :
    ∀ other ∈ others, ∃ item ∈ items, Matches item other := by
  induction items generalizing others with
  | nil =>
    rw [List.length_eq_zero_iff.mp (Nat.le_zero.mp short)]
    exact List.forall_mem_nil _
  | cons item items ih =>
    obtain ⟨⟨here, mem, matches_here⟩, later⟩ := List.forall_mem_cons.mp matched
    obtain ⟨alone, rest⟩ := List.pairwise_cons.mp apart
    obtain ⟨before, after, rfl⟩ := List.append_of_mem mem
    -- the item that matches the first one is taken out
    have shorter : (before ++ after).length ≤ items.length := by
      simp only [List.length_append, List.length_cons] at short ⊢
      omega
    have inWhole {other : β} (inRest : other ∈ before ++ after) :
        other ∈ before ++ here :: after := by
      rcases List.mem_append.mp inRest with first | second
      · exact List.mem_append_left _ first
      · exact List.mem_append_right _ (List.mem_cons_of_mem _ second)
    have others_matched := ih shorter (fun other inItems => by
      obtain ⟨match_, inWhole, matches_⟩ := later other inItems
      refine ⟨match_, ?_, matches_⟩
      rcases List.mem_append.mp inWhole with first | second
      · exact List.mem_append_left _ first
      · rcases List.mem_cons.mp second with rfl | second
        · exact absurd matches_ (alone other inItems match_ inWhole matches_here)
        · exact List.mem_append_right _ second)
      (rest.imp fun apart other inRest => apart other (inWhole inRest))
    intro other inOthers
    rcases List.mem_append.mp inOthers with first | second
    · obtain ⟨match_, inItems, matches_⟩ := others_matched other (List.mem_append_left _ first)
      exact ⟨match_, List.mem_cons_of_mem _ inItems, matches_⟩
    · rcases List.mem_cons.mp second with rfl | second
      · exact ⟨item, List.mem_cons_self, matches_here⟩
      · obtain ⟨match_, inItems, matches_⟩ :=
          others_matched other (List.mem_append_right _ second)
        exact ⟨match_, List.mem_cons_of_mem _ inItems, matches_⟩

theorem Discrete.keysDiffer {entries : Entries} (discrete : (dict entries).Discrete) :
    KeysDiffer entries :=
  (everywhere_iff.mp discrete).1

/-- A discrete value with good parts. -/
def DiscreteOver (Good : Value → Prop) (value : Value) : Prop :=
  value.Discrete ∧ ∀ part ∈ value.parts, Good part

section Equivalence

variable {Good : Value → Prop} {entries others : Entries} {a b c : Value}
  (equivalence : EquivalenceOn Good)
include equivalence

theorem EquivalenceOn.foundIn_of_mem (good : ∀ entry ∈ entries, Good entry.1)
    (differ : KeysDiffer entries) {entry : Value × Value} (mem : entry ∈ entries)
    {key value : Value} (goodKey : Good key)
    (sameKey : (entry.1 == key) = true) (same : (entry.2 == value) = true) :
    foundIn entries key value = true := by
  induction entries with
  | nil => cases mem
  | cons first entries ih =>
    obtain ⟨goodFirst, goodRest⟩ := List.forall_mem_cons.mp good
    obtain ⟨apart, differ⟩ := List.pairwise_cons.mp differ
    change (if first.1 == key then first.2 == value else foundIn entries key value) = true
    rcases List.mem_cons.mp mem with rfl | mem
    · rw [if_pos sameKey]
      exact same
    · rw [if_neg]
      · exact ih goodRest differ mem
      · -- two keys equal to the wanted one would equal each other
        intro firstKey
        have goodEntry := goodRest entry mem
        have back := equivalence.symm goodEntry goodKey sameKey
        exact Bool.false_ne_true ((apart entry mem).symm.trans
          (equivalence.trans goodFirst goodKey goodEntry firstKey back))

theorem EquivalenceOn.dict_equals (good : ∀ entry ∈ entries, Good entry.1)
    (good' : ∀ other ∈ others, Good other.1) (differ : KeysDiffer others)
    (length : entries.length = others.length)
    (matched : ∀ entry ∈ entries,
      ∃ other ∈ others, (other.1 == entry.1) = true ∧ (other.2 == entry.2) = true) :
    (dict entries == dict others) = true :=
  Corresponds.equals <| .dict length fun entry mem => by
    obtain ⟨other, inOthers, sameKey, same⟩ := matched entry mem
    exact equivalence.foundIn_of_mem good' differ inOthers (good entry mem) sameKey same

theorem EquivalenceOn.dict_equals_symm
    (good : ∀ entry ∈ entries, Good entry.1 ∧ Good entry.2)
    (good' : ∀ other ∈ others, Good other.1 ∧ Good other.2) (differ : KeysDiffer entries)
    (length : entries.length = others.length)
    (matched : ∀ entry ∈ entries, foundIn others entry.1 entry.2 = true) :
    (dict others == dict entries) = true := by
  have met : ∀ other ∈ others,
      ∃ entry ∈ entries, (other.1 == entry.1) = true ∧ (other.2 == entry.2) = true := by
    refine exists_matched (Nat.le_of_eq length.symm)
      (fun entry mem => exists_of_foundIn (matched entry mem)) ?_
    refine List.Pairwise.imp_of_mem (fun {first second} inFirst inSecond apart other inOthers => ?_)
      differ
    rintro ⟨sameFirst, -⟩ ⟨sameSecond, -⟩
    have goodFirst := (good first inFirst).1
    have goodOther := (good' other inOthers).1
    have back := equivalence.symm goodOther goodFirst sameFirst
    exact Bool.false_ne_true (apart.symm.trans
      (equivalence.trans goodFirst goodOther (good second inSecond).1 back sameSecond))
  refine equivalence.dict_equals (fun other mem => (good' other mem).1)
    (fun entry mem => (good entry mem).1) differ length.symm fun other mem => ?_
  obtain ⟨entry, inEntries, sameKey, same⟩ := met other mem
  have goodOther := good' other mem
  have goodEntry := good entry inEntries
  exact ⟨entry, inEntries, equivalence.symm goodOther.1 goodEntry.1 sameKey,
    equivalence.symm goodOther.2 goodEntry.2 same⟩

/-! ## Equality is an equivalence -/

theorem EquivalenceOn.forall₂_symm {items others : List Value}
    (good : ∀ item ∈ items, Good item) (good' : ∀ other ∈ others, Good other)
    (equal : List.Forall₂ (fun a b => a == b) items others) :
    List.Forall₂ (fun a b => a == b) others items := by
  induction equal with
  | nil => exact .nil
  | cons same _ ih =>
    obtain ⟨here, later⟩ := List.forall_mem_cons.mp good
    obtain ⟨here', later'⟩ := List.forall_mem_cons.mp good'
    exact .cons (equivalence.symm here here' same) (ih later later')

theorem EquivalenceOn.forall₂_trans {items others thirds : List Value}
    (good : ∀ item ∈ items, Good item) (good' : ∀ other ∈ others, Good other)
    (good'' : ∀ third ∈ thirds, Good third)
    (first : List.Forall₂ (fun a b => a == b) items others)
    (second : List.Forall₂ (fun a b => a == b) others thirds) :
    List.Forall₂ (fun a b => a == b) items thirds := by
  induction first generalizing thirds with
  | nil => exact second
  | cons same _ ih =>
    cases second with
    | cons same' second =>
      obtain ⟨here, later⟩ := List.forall_mem_cons.mp good
      obtain ⟨here', later'⟩ := List.forall_mem_cons.mp good'
      obtain ⟨here'', later''⟩ := List.forall_mem_cons.mp good''
      exact .cons (equivalence.trans here here' here'' same same') (ih later later' later'' second)

theorem EquivalenceOn.refl_of_parts (whole : DiscreteOver Good a) : (a == a) = true := by
  obtain ⟨discrete, good⟩ := whole
  apply Corresponds.equals
  cases a with
  | bool _ | int _ => exact .number rfl rfl
  | float _ => exact absurd discrete not_discrete_float
  | list items | tuple items =>
    constructor
    exact List.forall₂_same.mpr fun item mem => equivalence.refl (good item mem)
  | dict entries =>
    have good := forall_mem_parts_dict.mp good
    refine .dict rfl fun entry mem => ?_
    have goodEntry := good entry mem
    exact equivalence.foundIn_of_mem (fun other mem => (good other mem).1)
      discrete.keysDiffer mem goodEntry.1 (equivalence.refl goodEntry.1)
      (equivalence.refl goodEntry.2)
  | method _ _ => exact absurd discrete not_discrete_method
  | none | str _ | builtin _ | command _ _ => constructor

theorem EquivalenceOn.symm_of_parts (whole : DiscreteOver Good a) (whole' : DiscreteOver Good b)
    (equal : (a == b) = true) : (b == a) = true := by
  cases corresponds_of_equals whole.1 whole'.1 equal with
  | list items | tuple items =>
    apply Corresponds.equals
    constructor
    exact equivalence.forall₂_symm whole.2 whole'.2 items
  | dict length found =>
    exact equivalence.dict_equals_symm (forall_mem_parts_dict.mp whole.2)
      (forall_mem_parts_dict.mp whole'.2) whole.1.keysDiffer length found
  | number first second => exact (Corresponds.number second first).equals
  | none | str _ | builtin _ | command _ _ => exact equal

/-- Dicts are compared by way of the dict between the two. -/
theorem EquivalenceOn.dict_equals_trans {thirds : Entries}
    (whole : DiscreteOver Good (dict entries)) (whole' : DiscreteOver Good (dict others))
    (whole'' : DiscreteOver Good (dict thirds)) (length : entries.length = thirds.length)
    (found : ∀ entry ∈ entries, foundIn others entry.1 entry.2 = true)
    (found' : ∀ other ∈ others, foundIn thirds other.1 other.2 = true) :
    (dict entries == dict thirds) = true := by
  have good := forall_mem_parts_dict.mp whole.2
  have good' := forall_mem_parts_dict.mp whole'.2
  have good'' := forall_mem_parts_dict.mp whole''.2
  refine equivalence.dict_equals (fun entry mem => (good entry mem).1)
    (fun third mem => (good'' third mem).1) whole''.1.keysDiffer length fun entry mem => ?_
  obtain ⟨other, inOthers, sameKey, same⟩ := exists_of_foundIn (found entry mem)
  obtain ⟨third, inThirds, sameKey', same'⟩ := exists_of_foundIn (found' other inOthers)
  obtain ⟨goodKey, goodValue⟩ := good entry mem
  obtain ⟨goodKey', goodValue'⟩ := good' other inOthers
  obtain ⟨goodKey'', goodValue''⟩ := good'' third inThirds
  exact ⟨third, inThirds, equivalence.trans goodKey'' goodKey' goodKey sameKey' sameKey,
    equivalence.trans goodValue'' goodValue' goodValue same' same⟩

theorem EquivalenceOn.trans_of_parts (whole : DiscreteOver Good a) (whole' : DiscreteOver Good b)
    (whole'' : DiscreteOver Good c) (equal : (a == b) = true) (equal' : (b == c) = true) :
    (a == c) = true := by
  have second := corresponds_of_equals whole'.1 whole''.1 equal'
  cases corresponds_of_equals whole.1 whole'.1 equal with
  | list items =>
    cases second with
    | number inB _ => cases inB
    | list items' =>
      have joined := equivalence.forall₂_trans whole.2 whole'.2 whole''.2 items items'
      exact (Corresponds.list joined).equals
  | tuple items =>
    cases second with
    | number inB _ => cases inB
    | tuple items' =>
      have joined := equivalence.forall₂_trans whole.2 whole'.2 whole''.2 items items'
      exact (Corresponds.tuple joined).equals
  | dict length found =>
    cases second with
    | number inB _ => cases inB
    | dict length' found' =>
      exact equivalence.dict_equals_trans whole whole' whole'' (length.trans length') found found'
  | number inA inB =>
    cases second with
    | number inB' inC =>
      cases inB.symm.trans inB'
      exact (Corresponds.number inA inC).equals
    | _ => cases inB
  | none | str _ | builtin _ | command _ _ => exact equal'

theorem EquivalenceOn.of_parts : EquivalenceOn (DiscreteOver Good) :=
  ⟨equivalence.refl_of_parts, equivalence.symm_of_parts, equivalence.trans_of_parts⟩

theorem EquivalenceOn.mono {Better : Value → Prop}
    (implies : ∀ value, Better value → Good value) : EquivalenceOn Better where
  refl better := equivalence.refl (implies _ better)
  symm better better' := equivalence.symm (implies _ better) (implies _ better')
  trans better better' better'' :=
    equivalence.trans (implies _ better) (implies _ better') (implies _ better'')

end Equivalence

theorem Discrete.parts (discrete : value.Discrete) : ∀ part ∈ value.parts, part.Discrete :=
  (everywhere_iff.mp discrete).2

theorem Discrete.nesting_lt {part : Value} (discrete : value.Discrete)
    (mem : part ∈ value.parts) : part.nesting < value.nesting := by
  refine nesting_lt_of_mem_parts mem ?_
  rintro receiver name rfl
  exact not_discrete_method discrete

/-- Equality is an equivalence between discrete values. -/
theorem equivalenceOn_discrete : EquivalenceOn Discrete := by
  -- by induction on a bound for the nesting of the values that are compared
  have bounded : ∀ levels, EquivalenceOn fun value => value.Discrete ∧ value.nesting < levels := by
    intro levels
    induction levels with
    | zero => exact ⟨nofun, nofun, nofun⟩
    | succ levels ih =>
      refine ih.of_parts.mono fun value ⟨discrete, fits⟩ => ⟨discrete, fun part mem => ?_⟩
      have smaller := discrete.nesting_lt mem
      exact ⟨discrete.parts part mem, by omega⟩
  constructor
  · exact fun {a} discrete => (bounded _).refl ⟨discrete, Nat.lt_succ_self a.nesting⟩
  · intro a b discrete discrete'
    exact (bounded (max a.nesting b.nesting + 1)).symm ⟨discrete, by omega⟩ ⟨discrete', by omega⟩
  · intro a b c discrete discrete' discrete''
    exact (bounded (max (max a.nesting b.nesting) c.nesting + 1)).trans ⟨discrete, by omega⟩
      ⟨discrete', by omega⟩ ⟨discrete'', by omega⟩

theorem equals_self (discrete : a.Discrete) : (a == a) = true :=
  equivalenceOn_discrete.refl discrete

theorem equals_comm (discrete : a.Discrete) (discrete' : b.Discrete) : (a == b) = (b == a) :=
  Bool.eq_iff_iff.mpr ⟨equivalenceOn_discrete.symm discrete discrete',
    equivalenceOn_discrete.symm discrete' discrete⟩

theorem equals_congr {c : Value} (discrete : a.Discrete) (discrete' : b.Discrete)
    (discrete'' : c.Discrete) (equal : (a == b) = true) : (a == c) = (b == c) := by
  have back := equivalenceOn_discrete.symm discrete discrete' equal
  exact Bool.eq_iff_iff.mpr ⟨equivalenceOn_discrete.trans discrete' discrete discrete'' back,
    equivalenceOn_discrete.trans discrete discrete' discrete'' equal⟩

/-! ## The order of entries -/

theorem Discrete.perm {shuffled : Entries} (discrete : (dict entries).Discrete)
    (perm : entries.Perm shuffled) : (dict shuffled).Discrete := by
  obtain ⟨differ, within⟩ := everywhere_dict.mp discrete
  refine everywhere_dict.mpr ⟨?_, fun entry mem => within entry (perm.mem_iff.mpr mem)⟩
  -- that two keys differ is symmetric only between keys of this dict
  have apart : entries.Pairwise fun first second =>
      first.1.Discrete ∧ second.1.Discrete ∧ (first.1 == second.1) = false :=
    differ.imp_of_mem fun inFirst inSecond apart =>
      ⟨(within _ inFirst).1, (within _ inSecond).1, apart⟩
  refine ((perm.pairwise_iff ?_).mp apart).imp fun apart => apart.2.2
  exact fun ⟨first, second, apart⟩ => ⟨second, first, (equals_comm second first).trans apart⟩

theorem equals_of_perm {shuffled : Entries} (discrete : (dict entries).Discrete)
    (perm : entries.Perm shuffled) : (dict entries == dict shuffled) = true := by
  have within := (everywhere_dict.mp discrete).2
  have within' := (everywhere_dict.mp (discrete.perm perm)).2
  refine equivalenceOn_discrete.dict_equals (fun entry mem => (within entry mem).1)
    (fun entry mem => (within' entry mem).1) (discrete.perm perm).keysDiffer
    perm.length_eq fun entry mem => ?_
  exact ⟨entry, perm.mem_iff.mp mem, equals_self (within entry mem).1,
    equals_self (within entry mem).2⟩

end ModelWeaver.Value
