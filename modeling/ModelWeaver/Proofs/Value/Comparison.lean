import ModelWeaver.Proofs.Value.Equality

/-!
# Equality and order agree

Values can be compared if they are numbers, texts or sequences of one kind that can be compared up
to the first place where they differ. Between discrete values the order is total where it is
defined: it turns around with its sides, is transitive, and gives `eq` exactly for equal values
among those that can be compared. The first two need no more than that there are no floats.
-/

namespace ModelWeaver.Value

variable {a b : Value} {first ordering second : Ordering} {items others : List Value}

/-! ## Comparable values -/

/-- The ways in which two values without floats can be ordered. -/
inductive Ranked : Value → Value → Ordering → Prop
  | number {a b : Value} {m n : Int64} :
      a.int? = some m → b.int? = some n → Ranked a b (compare m n)
  | str (text other : String) : Ranked (str text) (str other) (compare text other)
  | list {items others : List Value} {ordering : Ordering} :
      orderAll items others = .ok ordering → Ranked (list items) (list others) ordering
  | tuple {items others : List Value} {ordering : Ordering} :
      orderAll items others = .ok ordering → Ranked (tuple items) (tuple others) ordering

theorem ranked_of_order (free : a.FloatFree) (free' : b.FloatFree)
    (ordered : order a b = .ok ordering) : Ranked a b ordering := by
  cases a with
  | bool _ | int _ =>
    cases b with
    | bool _ | int _ =>
      obtain rfl := Except.ok.inj ordered
      exact .number rfl rfl
    | float _ => exact absurd free' not_floatFree_float
    | _ => cases ordered
  | float _ => exact absurd free not_floatFree_float
  | str text =>
    cases b with
    | str other =>
      obtain rfl := Except.ok.inj ordered
      exact .str text other
    | _ => cases ordered
  | list items =>
    cases b with
    | list others => exact .list ordered
    | _ => cases ordered
  | tuple items =>
    cases b with
    | tuple others => exact .tuple ordered
    | _ => cases ordered
  | _ => cases ordered

theorem Ranked.order (ranked : Ranked a b ordering) : order a b = .ok ordering := by
  cases ranked with
  | @number a b m n first second =>
    have numbers : compareNumbers a b = .ok (compare m n) := by
      rw [compareNumbers, first, second]
    cases a with
    | bool _ | int _ => exact numbers
    | _ => cases first
  | str text other => rfl
  | list ordered | tuple ordered => exact ordered

theorem orderAll_cons_cons (a b : Value) (as bs : List Value) :
    orderAll (a :: as) (b :: bs) =
      match order a b with
      | .ok .eq => orderAll as bs
      | result => result :=
  rfl

theorem orderAll_cons_eq_ok_iff {as bs : List Value} :
    orderAll (a :: as) (b :: bs) = .ok ordering ↔
      (order a b = .ok .eq ∧ orderAll as bs = .ok ordering) ∨
        (order a b = .ok ordering ∧ ordering ≠ .eq) := by
  rw [orderAll_cons_cons]
  rcases order a b with failure | first
  · simp
  · cases first <;> cases ordering <;> simp

theorem Discrete.floatFree {value : Value} (discrete : value.Discrete) : value.FloatFree := by
  refine discrete.mono fun value here => ?_
  cases value with
  | float _ => exact here
  | _ => trivial

/-- An induction over discrete values that reaches the parts of a value before the value. -/
theorem Discrete.induction {motive : (value : Value) → value.Discrete → Prop}
    (step : ∀ value, (discrete : value.Discrete) →
      (∀ part, (mem : part ∈ value.parts) → motive part (discrete.parts part mem)) →
      motive value discrete)
    {value : Value} (discrete : value.Discrete) : motive value discrete := by
  have reached : value.Everywhere fun _ => True := everywhere_of_forall (fun _ => trivial) value
  induction reached with
  | mk _ _ ih => exact step _ discrete fun part mem => ih part mem _

/-! ## Turning around -/

theorem orderAll_swap
    (swaps : ∀ a ∈ items, ∀ b ∈ others, ∀ {ordering}, order a b = .ok ordering →
      order b a = .ok ordering.swap)
    (ordered : orderAll items others = .ok ordering) :
    orderAll others items = .ok ordering.swap := by
  induction items generalizing others with
  | nil =>
    cases others <;> cases ordered <;> rfl
  | cons a items ih =>
    cases others with
    | nil => cases ordered; rfl
    | cons b others =>
      have first := @swaps a List.mem_cons_self b List.mem_cons_self
      rw [orderAll_cons_eq_ok_iff] at ordered ⊢
      rcases ordered with ⟨same, ordered⟩ | ⟨ordered, differ⟩
      · refine .inl ⟨first same, ih (fun x inItems y inOthers => ?_) ordered⟩
        exact swaps x (List.mem_cons_of_mem _ inItems) y (List.mem_cons_of_mem _ inOthers)
      · refine .inr ⟨first ordered, ?_⟩
        cases ordering <;> trivial

theorem FloatFree.order_swap (free : a.FloatFree) (free' : b.FloatFree)
    (ordered : order a b = .ok ordering) : order b a = .ok ordering.swap := by
  induction free generalizing b ordering with
  | mk here parts ih =>
    have within := (everywhere_iff.mp free').2
    cases ranked_of_order ⟨here, parts⟩ free' ordered with
    | number first second =>
      rw [← Std.OrientedOrd.eq_swap]
      exact (Ranked.number second first).order
    | str text other =>
      rw [← Std.OrientedOrd.eq_swap]
      rfl
    | list ordered | tuple ordered =>
      exact orderAll_swap (fun x inItems y inOthers => ih x inItems (within y inOthers)) ordered

theorem order_swap (discrete : a.Discrete) (discrete' : b.Discrete)
    (ordered : order a b = .ok ordering) : order b a = .ok ordering.swap :=
  discrete.floatFree.order_swap discrete'.floatFree ordered

/-! ## Passing through a value between -/

theorem compare_trans {α : Type} [Ord α] [Std.TransOrd α] {x y z : α}
    (first : compare x y ≠ .gt) (second : compare y z ≠ .gt) :
    compare x z = (compare x y).then (compare y z) := by
  cases compared : compare x y with
  | lt => exact Std.TransCmp.lt_of_lt_of_isLE compared (Ordering.isLE_iff_ne_gt.mpr second)
  | eq => exact Std.TransCmp.congr_left compared
  | gt => exact absurd compared first

theorem orderAll_trans {thirds : List Value}
    (trans : ∀ a ∈ items, ∀ b ∈ others, ∀ c ∈ thirds, ∀ {first second},
      order a b = .ok first → order b c = .ok second → first ≠ .gt → second ≠ .gt →
        order a c = .ok (first.then second))
    (ordered : orderAll items others = .ok first) (ordered' : orderAll others thirds = .ok second)
    (notAbove : first ≠ .gt) (notAbove' : second ≠ .gt) :
    orderAll items thirds = .ok (first.then second) := by
  induction items generalizing others thirds with
  | nil =>
    cases others with
    | nil => cases ordered; exact ordered'
    | cons b others =>
      cases ordered
      cases thirds with
      | nil => cases ordered'; exact absurd rfl notAbove'
      | cons c thirds => rfl
  | cons a items ih =>
    cases others with
    | nil => cases ordered; exact absurd rfl notAbove
    | cons b others =>
      cases thirds with
      | nil => cases ordered'; exact absurd rfl notAbove'
      | cons c thirds =>
        have here := @trans a List.mem_cons_self b List.mem_cons_self c List.mem_cons_self
        rw [orderAll_cons_eq_ok_iff] at ordered ordered' ⊢
        rcases ordered with ⟨same, ordered⟩ | ⟨ordered, differ⟩
        · rcases ordered' with ⟨same', ordered'⟩ | ⟨ordered', differ'⟩
          · refine .inl ⟨here same same' nofun nofun, ih ?_ ordered ordered'⟩
            intro x inItems y inOthers z inThirds
            exact trans x (List.mem_cons_of_mem _ inItems) y
              (List.mem_cons_of_mem _ inOthers) z (List.mem_cons_of_mem _ inThirds)
          · obtain rfl : second = .lt := by cases second <;> trivial
            have below : first.then .lt = .lt := by cases first <;> trivial
            rw [below]
            exact .inr ⟨(here same ordered' nofun nofun :), nofun⟩
        · obtain rfl : first = .lt := by cases first <;> trivial
          rcases ordered' with ⟨same', -⟩ | ⟨ordered', -⟩
          · exact .inr ⟨(here ordered same' nofun nofun :), nofun⟩
          · exact .inr ⟨here ordered ordered' nofun notAbove', nofun⟩

/-- If one value is not above a second and that one not above a third, then the first can be
compared with the third and is not above it. -/
theorem FloatFree.order_trans {c : Value} (free : a.FloatFree) (free' : b.FloatFree)
    (free'' : c.FloatFree) (ordered : order a b = .ok first) (ordered' : order b c = .ok second)
    (notAbove : first ≠ .gt) (notAbove' : second ≠ .gt) : order a c = .ok (first.then second) := by
  induction free generalizing b c first second with
  | mk here parts ih =>
    have within := (everywhere_iff.mp free').2
    have within' := (everywhere_iff.mp free'').2
    have ranked := ranked_of_order free' free'' ordered'
    cases ranked_of_order ⟨here, parts⟩ free' ordered with
    | number inA inB =>
      cases ranked with
      | number inB' inC =>
        rw [inB] at inB'
        cases inB'
        rw [← compare_trans notAbove notAbove']
        exact (Ranked.number inA inC).order
      | _ => cases inB
    | str text other =>
      cases ranked with
      | number inB _ => cases inB
      | str _ third => exact congrArg Except.ok (compare_trans notAbove notAbove')
    | list items | tuple items =>
      cases ranked with
      | number inB _ => cases inB
      | _ =>
        rename_i items'
        exact orderAll_trans (fun x inItems y inOthers z inThirds =>
          ih x inItems (within y inOthers) (within' z inThirds)) items items' notAbove notAbove'

theorem order_trans {c : Value} (discrete : a.Discrete) (discrete' : b.Discrete)
    (discrete'' : c.Discrete) (ordered : order a b = .ok first)
    (ordered' : order b c = .ok second) (notAbove : first ≠ .gt) (notAbove' : second ≠ .gt) :
    order a c = .ok (first.then second) :=
  discrete.floatFree.order_trans discrete'.floatFree discrete''.floatFree ordered ordered' notAbove
    notAbove'

/-! ## Equal values -/

theorem forall₂_of_orderAll
    (equals : ∀ a ∈ items, ∀ b ∈ others, order a b = .ok .eq → (a == b) = true)
    (ordered : orderAll items others = .ok .eq) :
    List.Forall₂ (fun a b => a == b) items others := by
  induction items generalizing others with
  | nil =>
    cases others with
    | nil => exact .nil
    | cons _ _ => cases ordered
  | cons a items ih =>
    cases others with
    | nil => cases ordered
    | cons b others =>
      rcases orderAll_cons_eq_ok_iff.mp ordered with ⟨same, ordered⟩ | ⟨_, differ⟩
      · refine .cons (equals a List.mem_cons_self b List.mem_cons_self same)
          (ih (fun x inItems y inOthers => ?_) ordered)
        exact equals x (List.mem_cons_of_mem _ inItems) y (List.mem_cons_of_mem _ inOthers)
      · exact absurd rfl differ

theorem equals_of_order (discrete : a.Discrete) (discrete' : b.Discrete)
    (ordered : order a b = .ok .eq) : (a == b) = true := by
  induction discrete using Discrete.induction generalizing b with
  | step a discrete ih =>
    have within := discrete'.parts
    generalize result : Ordering.eq = ordering at ordered
    cases ranked_of_order discrete.floatFree discrete'.floatFree ordered with
    | number inA inB =>
      rw [← Std.LawfulEqOrd.eq_of_compare result.symm] at inB
      exact (Corresponds.number inA inB).equals
    | str text other =>
      rw [← Std.LawfulEqOrd.eq_of_compare result.symm]
      exact (Corresponds.str text).equals
    | list items | tuple items =>
      subst result
      exact allEqual_iff.mpr (forall₂_of_orderAll (fun x inItems y inOthers =>
        ih x inItems (within y inOthers)) items)

theorem orderAll_of_forall₂
    (agrees : ∀ a ∈ items, ∀ b ∈ others, (a == b) = true → ∀ {ordering},
      order a b = .ok ordering → ordering = .eq)
    (equal : List.Forall₂ (fun a b => a == b) items others)
    (ordered : orderAll items others = .ok ordering) : ordering = .eq := by
  induction equal with
  | nil => cases ordered; rfl
  | cons same _ ih =>
    rcases orderAll_cons_eq_ok_iff.mp ordered with ⟨_, ordered⟩ | ⟨ordered, _⟩
    · refine ih (fun x inItems y inOthers => ?_) ordered
      exact agrees x (List.mem_cons_of_mem _ inItems) y (List.mem_cons_of_mem _ inOthers)
    · exact agrees _ List.mem_cons_self _ List.mem_cons_self same ordered

theorem order_of_equals (discrete : a.Discrete) (discrete' : b.Discrete) (equal : (a == b) = true)
    {ordering : Ordering} (ordered : order a b = .ok ordering) : ordering = .eq := by
  induction discrete using Discrete.induction generalizing b ordering with
  | step a discrete ih =>
    have within := discrete'.parts
    have corresponds := corresponds_of_equals discrete discrete' equal
    cases ranked_of_order discrete.floatFree discrete'.floatFree ordered with
    | number inA inB =>
      cases corresponds with
      | number inA' inB' =>
        rw [inA] at inA'
        rw [inB] at inB'
        cases inA'
        cases inB'
        exact Std.ReflOrd.compare_self
      | _ => cases inA
    | str text other =>
      cases corresponds with
      | number inA _ => cases inA
      | str _ => exact Std.ReflOrd.compare_self
    | list items | tuple items =>
      cases corresponds with
      | number inA _ => cases inA
      | _ =>
        rename_i itemsEqual
        exact orderAll_of_forall₂ (fun x inItems y inOthers =>
          ih x inItems (within y inOthers)) itemsEqual items

/-- Between values without floats and methods, whose dicts have different keys, equality is an
equivalence that does not see the order of entries, and the order is a preorder where it is
defined, whose equal values are those that equality joins. -/
theorem equality_order_coherent :
    (∀ a : Value, a.Discrete → (a == a) = true) ∧
    (∀ a b : Value, a.Discrete → b.Discrete → (a == b) = true → (b == a) = true) ∧
    (∀ a b c : Value, a.Discrete → b.Discrete → c.Discrete →
      (a == b) = true → (b == c) = true → (a == c) = true) ∧
    (∀ (entries shuffled : Entries) (other : Value),
      (dict entries).Discrete → other.Discrete → entries.Perm shuffled →
      (dict entries == other) = (dict shuffled == other) ∧
        (other == dict entries) = (other == dict shuffled)) ∧
    (∀ (a b : Value) (ordering : Ordering), a.Discrete → b.Discrete →
      (order a b = .ok ordering ↔ order b a = .ok ordering.swap)) ∧
    (∀ (a b c : Value) (first second : Ordering), a.Discrete → b.Discrete → c.Discrete →
      order a b = .ok first → order b c = .ok second → first ≠ .gt → second ≠ .gt →
      ∃ third, order a c = .ok third ∧ third ≠ .gt ∧ (first = .lt ∨ second = .lt → third = .lt)) ∧
    (∀ a b : Value, a.Discrete → b.Discrete → order a b = .ok .eq → (a == b) = true) ∧
    (∀ (a b : Value) (ordering : Ordering), a.Discrete → b.Discrete →
      (a == b) = true → order a b = .ok ordering → ordering = .eq) := by
  refine ⟨fun a => equals_self, fun a b => equivalenceOn_discrete.symm,
    fun a b c => equivalenceOn_discrete.trans, ?_, ?_, ?_, fun a b => equals_of_order,
    fun a b ordering discrete discrete' equal => order_of_equals discrete discrete' equal⟩
  · intro entries shuffled other discrete discrete' perm
    have same := equals_congr discrete (discrete.perm perm) discrete' (equals_of_perm discrete perm)
    refine ⟨same, ?_⟩
    rw [equals_comm discrete' discrete, same, equals_comm (discrete.perm perm) discrete']
  · intro a b ordering discrete discrete'
    refine ⟨order_swap discrete discrete', fun ordered => ?_⟩
    have turned := order_swap discrete' discrete ordered
    rwa [Ordering.swap_swap] at turned
  · intro a b c first second discrete discrete' discrete'' ordered ordered' notAbove notAbove'
    refine ⟨_, order_trans discrete discrete' discrete'' ordered ordered' notAbove notAbove', ?_⟩
    cases first <;> cases second <;> trivial

/-- Two dicts that hold `1` and `True` as the same key, and three lists of which the second lies
between the others although only their first items can be compared. -/
theorem equality_order_coherent_at_samples :
    let entries := [(bool true, str "a"), (none, list [])]
    let other := dict [(none, list []), (int 1, str "a")]
    let low := list [int 0, none]
    let middle := list [bool true, str "a"]
    let high := list [int 2]
    ((dict entries).Discrete ∧ other.Discrete ∧
      (dict entries == other) = (dict entries.reverse == other) ∧
      (other == dict entries) = (other == dict entries.reverse)) ∧
    (low.Discrete ∧ middle.Discrete ∧ high.Discrete ∧ order low high = .ok .lt) := by
  intro entries other low middle high
  obtain ⟨-, -, -, shuffled, -, between, -, -⟩ := equality_order_coherent
  have discrete : (dict entries).Discrete ∧ other.Discrete := by decide
  have discrete' : low.Discrete ∧ middle.Discrete ∧ high.Discrete := by decide
  refine ⟨⟨discrete.1, discrete.2, ?_⟩, discrete'.1, discrete'.2.1, discrete'.2.2, ?_⟩
  · exact shuffled entries entries.reverse other discrete.1 discrete.2
      (List.reverse_perm entries).symm
  · obtain ⟨third, ordered, -, below⟩ := between low middle high .lt .lt discrete'.1
      discrete'.2.1 discrete'.2.2 rfl rfl nofun nofun
    exact below (.inl rfl) ▸ ordered

end ModelWeaver.Value
