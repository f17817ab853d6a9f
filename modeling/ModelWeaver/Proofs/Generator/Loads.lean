import ModelWeaver.Proofs.Generator.Walks
import Mathlib.Algebra.Order.BigOperators.Group.List
import Mathlib.Data.List.GetD
import Mathlib.Tactic.Linarith
import Mathlib.Tactic.Ring

/-!
# Loads and fillings

Loads are 64-bit words: a load with copies of an item added is computed before it is compared
with the capacity, and where it has more than 64 bits there is no graph. `Filling` are the copies
of the first items that fit into the bin together. A node stands for a filling if its load is
what the filling weighs (`Represents`).

If one more copy on top of a filling always weighs something of 64 bits (`StaysInRange`), then all
loads that are tried can be computed, and the arcs out of such a node lead to the fillings of one
item more, and nowhere else.
-/

namespace ModelWeaver

def Load.component (load : Load) (j : Nat) : Int := (load.getD j 0).toInt

namespace FlowGraph

open Number

variable {k : Nat} {load weight : Load}

/-! ## Loads as integers -/

theorem component_of_length_le {j : Nat} (beyond : load.length ≤ j) : load.component j = 0 := by
  rw [Load.component, List.getD_eq_default _ _ beyond]
  rfl

theorem component_lt (load : Load) (j : Nat) : load.component j < 2 ^ 63 :=
  Int64.toInt_lt _

/-- A product and a sum of words are computed if they are words. -/
theorem pack_word_eq_ok_iff {l w n : Int64} :
    (do let added ← Failure.orPanic .multiplication (int64? ((Int64.ofNat k).toInt * w.toInt))
        Failure.orPanic .addition (addInt64? l added)) = .ok n ↔
      FitsInt64 ((Int64.ofNat k).toInt * w.toInt) ∧
        n.toInt = l.toInt + (Int64.ofNat k).toInt * w.toInt := by
  simp only [bind_eq_ok_iff, orPanic_eq_ok_iff, addInt64?_eq_int64?, int64?_eq_some_iff]
  constructor
  · rintro ⟨added, product_eq, sum_eq⟩
    rw [← product_eq]
    exact ⟨⟨added.le_toInt, added.toInt_lt⟩, sum_eq⟩
  · rintro ⟨fits, sum_eq⟩
    have product_eq := Int64.toInt_ofInt_of_le fits.1 fits.2
    exact ⟨_, product_eq, by rw [product_eq, sum_eq]⟩

theorem pack_eq_ok_iff {packed : Load} (same : weight.length = load.length) :
    load.pack k weight = .ok packed ↔ packed.length = load.length ∧
      ∀ j, FitsInt64 ((Int64.ofNat k).toInt * weight.component j) ∧
        packed.component j = load.component j + (Int64.ofNat k).toInt * weight.component j := by
  rw [Load.pack, mapM_eq_ok_iff]
  induction load generalizing weight packed with
  | nil =>
    obtain rfl := List.length_eq_zero_iff.mp same
    cases packed <;> simp [Load.component, FitsInt64]
  | cons l load ih =>
    cases weight with
    | nil => simp at same
    | cons w weight =>
      cases packed with
      | nil => simp
      | cons n packed =>
        rw [List.zip_cons_cons, List.map_cons, List.map_cons, List.cons.injEq,
          pack_word_eq_ok_iff, ih (Nat.succ.inj same), List.length_cons, List.length_cons,
          Nat.add_right_cancel_iff, and_left_comm]
        refine and_congr_right fun _ => ⟨?_, fun all => ?_⟩
        · rintro ⟨first, others⟩ j
          cases j with
          | zero => exact first
          | succ j => exact others j
        · exact ⟨all 0, fun j => all (j + 1)⟩

theorem toInt_ofNat_mul {w : Int} (small : k < 2 ^ 63 ∨ w = 0) :
    (Int64.ofNat k).toInt * w = k * w := by
  rcases small with small | rfl
  · rw [Int64.toInt_ofNat_of_lt small]
  · rw [Int.mul_zero, Int.mul_zero]

theorem component_of_pack {packed : Load} {j : Nat} (same : weight.length = load.length)
    (packs : load.pack k weight = .ok packed) (small : k < 2 ^ 63 ∨ weight.component j = 0) :
    packed.component j = load.component j + k * weight.component j := by
  rw [(((pack_eq_ok_iff same).mp packs).2 j).2, toInt_ofNat_mul small]

/-- A load can be computed if it has 64 bits. -/
theorem exists_pack (same : weight.length = load.length) (load_nonneg : ∀ j, 0 ≤ load.component j)
    (weight_nonneg : ∀ j, 0 ≤ weight.component j)
    (in_range : ∀ j, load.component j + k * weight.component j < 2 ^ 63) :
    ∃ packed, load.pack k weight = .ok packed ∧ packed.length = load.length ∧
      ∀ j, packed.component j = load.component j + k * weight.component j := by
  have small : ∀ j, k < 2 ^ 63 ∨ weight.component j = 0 := by
    intro j
    rcases Int.lt_or_eq_of_le (weight_nonneg j) with positive | zero
    · have more : (k : Int) * 1 ≤ k * weight.component j :=
        Int.mul_le_mul_of_nonneg_left positive (Int.natCast_nonneg k)
      have := load_nonneg j
      have := in_range j
      exact .inl (by omega)
    · exact .inr zero.symm
  have computed : ∃ packed, load.pack k weight = .ok packed := by
    refine exists_mapM_eq_ok_iff.mpr fun entry mem => ?_
    obtain ⟨j, bound, rfl⟩ := List.mem_iff_getElem.mp mem
    rw [List.length_zip, lt_min_iff] at bound
    have sum := in_range j
    have product := toInt_ofNat_mul (small j)
    have first := load_nonneg j
    have nonneg := Int.mul_nonneg (Int.natCast_nonneg k) (weight_nonneg j)
    simp only [Load.component, List.getD_eq_getElem _ _ bound.1, List.getD_eq_getElem _ _ bound.2]
      at sum product first nonneg
    simp only [List.getElem_zip]
    refine ⟨Int64.ofInt _, pack_word_eq_ok_iff.mpr ⟨?_, Int64.toInt_ofInt_of_le ?_ ?_⟩⟩
    · exact ⟨by omega, by omega⟩
    · omega
    · omega
  obtain ⟨packed, packs⟩ := computed
  exact ⟨packed, packs, ((pack_eq_ok_iff same).mp packs).1,
    fun j => component_of_pack same packs (small j)⟩

theorem exceeds_eq_false_iff {capacity : Load} (same : load.length = capacity.length) :
    load.exceeds capacity = false ↔ ∀ j, load.component j ≤ capacity.component j := by
  induction load generalizing capacity with
  | nil =>
    rw [List.length_nil, eq_comm, List.length_eq_zero_iff] at same
    simp [same, Load.exceeds]
  | cons l load ih =>
    cases capacity with
    | nil => simp at same
    | cons c capacity =>
      have rest : Load.exceeds load capacity = false ↔
          ∀ j, Load.component load j ≤ Load.component capacity j :=
        ih (by simpa using same)
      have split_zero : (∀ j, Load.component (l :: load) j ≤ Load.component (c :: capacity) j) ↔
          l.toInt ≤ c.toInt ∧ ∀ j, Load.component load j ≤ Load.component capacity j := by
        constructor
        · intro all
          exact ⟨all 0, fun j => all (j + 1)⟩
        · rintro ⟨here, later⟩ (_ | j)
          · exact here
          · exact later j
      rw [split_zero, ← rest]
      simp [Load.exceeds, Int64.not_lt, Int64.le_iff_toInt_le]

theorem component_nonneg (nonneg : ∀ c ∈ load, 0 ≤ c.toInt) (j : Nat) : 0 ≤ load.component j := by
  rcases Nat.lt_or_ge j load.length with inside | beyond
  · rw [Load.component, List.getD_eq_getElem _ _ inside]
    exact nonneg _ (List.getElem_mem inside)
  · exact Int.le_of_eq (component_of_length_le beyond).symm

theorem component_replicate_zero (n j : Nat) : Load.component (List.replicate n 0) j = 0 := by
  rcases Nat.lt_or_ge j n with inside | beyond
  · rw [Load.component, List.getD_eq_getElem _ _ (by simpa using inside), List.getElem_replicate]
    rfl
  · exact component_of_length_le (by simpa using beyond)

variable {capacity load weight : Load} {items : List Item} {ks : List Nat} {item : Item}
  {node head : FlowNode} {packing : Option Packing} {k j : Nat}

/-! ## Fillings -/

/-- What copies of items weigh in a dimension. -/
def totalWeight (j : Nat) (items : List Item) (ks : List Nat) : Int :=
  (List.zipWith (fun (item : Item) (k : Nat) => (k : Int) * item.weight.component j) items ks).sum

theorem totalWeight_snoc (here : items[ks.length]? = some item) (k j : Nat) :
    totalWeight j items (ks ++ [k]) = totalWeight j items ks + k * item.weight.component j := by
  induction ks generalizing items with
  | nil =>
    cases items with
    | nil => cases here
    | cons first items =>
      cases here
      simp [totalWeight]
  | cons first ks ih =>
    cases items with
    | nil => cases here
    | cons other items =>
      have found : items[ks.length]? = some item := here
      have rest := ih found
      simp only [totalWeight, List.cons_append, List.zipWith_cons_cons, List.sum_cons] at rest ⊢
      omega

/-- A bin and items of one dimension, none negative. -/
structure Measured (capacity : Load) (items : List Item) : Prop where
  capacity_nonneg : ∀ j, 0 ≤ capacity.component j
  dimension : ∀ item ∈ items, item.weight.length = capacity.length
  weight_nonneg : ∀ item ∈ items, ∀ j, 0 ≤ item.weight.component j

/-- Copies of the first items, within their limits, that fit into the bin together. -/
structure Filling (capacity : Load) (items : List Item) (ks : List Nat) : Prop where
  length_le : ks.length ≤ items.length
  limits : ∀ (i k : Nat) (item : Item), ks[i]? = some k → items[i]? = some item → k ≤ item.copies
  within : ∀ j, totalWeight j items ks ≤ capacity.component j

/-- One more copy of an item on top of a filling has a load of 64 bits in all dimensions. -/
def StaysInRange (capacity : Load) (items : List Item) : Prop :=
  ∀ (ks : List Nat) (k : Nat) (item : Item), items[ks.length]? = some item → k < item.copies →
    Filling capacity items (ks ++ [k]) → ∀ j, totalWeight j items (ks ++ [k + 1]) < 2 ^ 63

theorem staysInRange_of_small
    (small : ∀ item ∈ items, ∀ j, capacity.component j + item.weight.component j < 2 ^ 63) :
    StaysInRange capacity items := by
  intro ks k item here _ filling j
  have below := filling.within j
  have in_range := small item (List.mem_of_getElem? here) j
  rw [totalWeight_snoc here] at below ⊢
  push_cast
  linarith

section Measured

variable (measured : Measured capacity items)
include measured

theorem totalWeight_nonneg (ks : List Nat) (j : Nat) : 0 ≤ totalWeight j items ks := by
  apply List.sum_nonneg
  intro weight mem
  rcases List.mem_iff_getElem.mp mem with ⟨i, bound, rfl⟩
  rw [List.getElem_zipWith]
  exact Int.mul_nonneg (Int.natCast_nonneg _) (measured.weight_nonneg _ (List.getElem_mem _) j)

theorem totalWeight_mono (here : items[ks.length]? = some item) {i : Nat} (below : i ≤ k)
    (j : Nat) : totalWeight j items (ks ++ [i]) ≤ totalWeight j items (ks ++ [k]) := by
  have fewer : (i : Int) * item.weight.component j ≤ k * item.weight.component j :=
    Int.mul_le_mul_of_nonneg_right (Int.ofNat_le.mpr below)
      (measured.weight_nonneg item (List.mem_of_getElem? here) j)
  rw [totalWeight_snoc here, totalWeight_snoc here]
  omega

theorem filling_nil : Filling capacity items [] where
  length_le := Nat.zero_le _
  limits _ _ _ found := by cases found
  within := by simpa [totalWeight] using measured.capacity_nonneg

theorem filling_snoc_iff (here : items[ks.length]? = some item) :
    Filling capacity items (ks ++ [k]) ↔ Filling capacity items ks ∧ k ≤ item.copies ∧
      ∀ j, totalWeight j items (ks ++ [k]) ≤ capacity.component j := by
  have shorter := (List.getElem?_eq_some_iff.mp here).1
  constructor
  · rintro ⟨_, limits, within⟩
    refine ⟨⟨Nat.le_of_lt shorter, ?_, ?_⟩, ?_, within⟩
    · intro i copies other found
      have bound := (List.getElem?_eq_some_iff.mp found).1
      exact limits i copies other ((List.getElem?_append_left bound).trans found)
    · intro j
      have fewer := totalWeight_mono measured here (Nat.zero_le k) j
      rw [totalWeight_snoc here 0, Int.natCast_zero, Int.zero_mul, Int.add_zero] at fewer
      exact fewer.trans (within j)
    · exact limits ks.length k item List.getElem?_concat_length here
  · rintro ⟨filling, limit, room⟩
    refine ⟨?_, ?_, room⟩
    · rw [List.length_append, List.length_singleton]
      exact shorter
    · intro i copies other found there
      rcases Nat.lt_or_ge i ks.length with before | after
      · rw [List.getElem?_append_left before] at found
        exact filling.limits i copies other found there
      · have bound := (List.getElem?_eq_some_iff.mp found).1
        have last : i = ks.length := by
          rw [List.length_append, List.length_singleton] at bound
          omega
        subst last
        rw [List.getElem?_concat_length] at found
        cases found
        cases here.symm.trans there
        exact limit

theorem Filling.fewer (here : items[ks.length]? = some item)
    (filling : Filling capacity items (ks ++ [k])) {i : Nat} (below : i ≤ k) :
    Filling capacity items (ks ++ [i]) := by
  obtain ⟨before, limit, room⟩ := (filling_snoc_iff measured here).mp filling
  refine (filling_snoc_iff measured here).mpr ⟨before, Nat.le_trans below limit, fun j => ?_⟩
  exact (totalWeight_mono measured here below j).trans (room j)

end Measured

/-! ## Nodes that stand for fillings -/

/-- A node stands for a filling, and its load is what the filling weighs. -/
structure Represents (capacity : Load) (items : List Item) (node : FlowNode) (ks : List Nat) :
    Prop where
  filling : Filling capacity items ks
  layer : node.layer = ks.length
  dimension : node.load.length = capacity.length
  load : ∀ j, node.load.component j = totalWeight j items ks

theorem represents_empty (measured : Measured capacity items) :
    Represents capacity items ⟨List.replicate capacity.length 0, 0⟩ [] where
  filling := filling_nil measured
  layer := rfl
  dimension := List.length_replicate
  load j := by simp [component_replicate_zero, totalWeight]

section Represents

variable (represents : Represents capacity items node ks) (measured : Measured capacity items)
  (here : items[ks.length]? = some item)
include represents measured here

theorem Represents.same_length : item.weight.length = node.load.length :=
  (measured.dimension item (List.mem_of_getElem? here)).trans represents.dimension.symm

theorem Represents.pass :
    Represents capacity items ⟨node.load, node.layer + 1⟩ (ks ++ [0]) := by
  have same_weight : ∀ j, totalWeight j items (ks ++ [0]) = totalWeight j items ks := by
    intro j
    rw [totalWeight_snoc here, Int.natCast_zero, Int.zero_mul, Int.add_zero]
  refine ⟨(filling_snoc_iff measured here).mpr ⟨represents.filling, Nat.zero_le _, fun j => ?_⟩,
    ?_, represents.dimension, fun j => ?_⟩
  · rw [same_weight]
    exact represents.filling.within j
  · rw [represents.layer, List.length_append, List.length_singleton]
  · rw [same_weight]
    exact represents.load j

/-- The load with copies of the next item is what the copies weigh, if that has 64 bits. -/
theorem Represents.exists_pack (in_range : ∀ j, totalWeight j items (ks ++ [k]) < 2 ^ 63) :
    ∃ packed, node.load.pack k item.weight = .ok packed ∧ packed.length = capacity.length ∧
      ∀ j, packed.component j = totalWeight j items (ks ++ [k]) := by
  have load_nonneg : ∀ j, 0 ≤ node.load.component j := fun j =>
    represents.load j ▸ totalWeight_nonneg measured ks j
  have sum_eq : ∀ j, node.load.component j + k * item.weight.component j =
      totalWeight j items (ks ++ [k]) := fun j => by
    rw [represents.load, totalWeight_snoc here]
  simp only [← represents.dimension, ← sum_eq] at in_range ⊢
  exact FlowGraph.exists_pack (represents.same_length measured here) load_nonneg
    (measured.weight_nonneg item (List.mem_of_getElem? here)) in_range

theorem Represents.of_fits {next : Load} (limit : k ≤ item.copies)
    (in_range : ∀ j, totalWeight j items (ks ++ [k]) < 2 ^ 63)
    (fits : Fits capacity item node.load k next) :
    Represents capacity items ⟨next, node.layer + 1⟩ (ks ++ [k]) := by
  obtain ⟨packed, packs, length_eq, load_eq⟩ := represents.exists_pack measured here in_range
  cases packs.symm.trans fits.1
  refine ⟨(filling_snoc_iff measured here).mpr ⟨represents.filling, limit, fun j => ?_⟩, ?_,
    length_eq, load_eq⟩
  · rw [← load_eq]
    exact (exceeds_eq_false_iff length_eq).mp fits.2 j
  · rw [represents.layer, List.length_append, List.length_singleton]

theorem Represents.exists_fits (filling : Filling capacity items (ks ++ [k])) :
    ∃ next, Fits capacity item node.load k next ∧
      Represents capacity items ⟨next, node.layer + 1⟩ (ks ++ [k]) := by
  have in_range : ∀ j, totalWeight j items (ks ++ [k]) < 2 ^ 63 := fun j =>
    (filling.within j).trans_lt (component_lt capacity j)
  obtain ⟨next, packs, length_eq, load_eq⟩ := represents.exists_pack measured here in_range
  have fits : Fits capacity item node.load k next := by
    refine ⟨packs, (exceeds_eq_false_iff length_eq).mpr fun j => ?_⟩
    rw [load_eq]
    exact filling.within j
  have limit := ((filling_snoc_iff measured here).mp filling).2.1
  exact ⟨next, fits, represents.of_fits measured here limit in_range fits⟩

theorem Represents.tried_succ (limit : k < item.copies)
    (filling : Filling capacity items (ks ++ [k])) :
    Tried capacity item node.load (k + 1) where
  positive := Nat.succ_pos k
  limit := limit
  fewer_fit _ _ less := by
    obtain ⟨next, fits, -⟩ := represents.exists_fits measured here
      (filling.fewer measured here (Nat.le_of_lt_succ less))
    exact ⟨next, fits⟩

theorem Represents.exists_leads (filling : Filling capacity items (ks ++ [k])) :
    ∃ next, Leads capacity items node (packingOf node.layer k) ⟨next, node.layer + 1⟩ ∧
      Represents capacity items ⟨next, node.layer + 1⟩ (ks ++ [k]) := by
  have found : items[node.layer]? = some item := represents.layer ▸ here
  cases k with
  | zero =>
    exact ⟨node.load, (leads_item found).mpr ⟨rfl, .inl ⟨rfl, rfl⟩⟩,
      represents.pass measured here⟩
  | succ k =>
    have limit := ((filling_snoc_iff measured here).mp filling).2.1
    obtain ⟨next, fits, represents'⟩ := represents.exists_fits measured here filling
    have tried := represents.tried_succ measured here limit
      (filling.fewer measured here (Nat.le_succ k))
    exact ⟨next, (leads_item found).mpr ⟨rfl, .inr ⟨k + 1, tried, fits, rfl⟩⟩, represents'⟩

section StaysInRange

variable (stays : StaysInRange capacity items)
include stays

/-- One copy less than what is tried is a filling. -/
theorem Represents.filling_of_tried (tried : Tried capacity item node.load (k + 1)) :
    Filling capacity items (ks ++ [k]) := by
  induction k with
  | zero => exact (represents.pass measured here).filling
  | succ k ih =>
    have limit := Nat.le_of_succ_le tried.limit
    have fewer : Tried capacity item node.load (k + 1) :=
      ⟨Nat.succ_pos k, limit, fun i above less => tried.fewer_fit i above (Nat.lt_succ_of_lt less)⟩
    obtain ⟨next, fits⟩ := tried.fewer_fit (k + 1) (Nat.succ_pos k) (Nat.lt_succ_self _)
    have in_range := stays ks k item here limit (ih fewer)
    exact (represents.of_fits measured here limit in_range fits).filling

theorem Represents.in_range_of_tried (tried : Tried capacity item node.load k) (j : Nat) :
    totalWeight j items (ks ++ [k]) < 2 ^ 63 := by
  obtain ⟨k, rfl⟩ := Nat.exists_eq_succ_of_ne_zero (Nat.ne_of_gt tried.positive)
  exact stays ks k item here tried.limit (represents.filling_of_tried measured here stays tried) j

theorem Represents.of_leads (allowed : Leads capacity items node packing head) :
    ∃ k, Represents capacity items head (ks ++ [k]) ∧ packing = packingOf node.layer k := by
  rcases head with ⟨next, layer⟩
  obtain ⟨rfl, ⟨rfl, rfl⟩ | ⟨k, tried, fits, rfl⟩⟩ :=
    (leads_item (represents.layer ▸ here)).mp allowed
  · exact ⟨0, represents.pass measured here, rfl⟩
  · have in_range := represents.in_range_of_tried measured here stays tried
    exact ⟨k, represents.of_fits measured here tried.limit in_range fits,
      (if_neg (Nat.ne_of_gt tried.positive)).symm⟩

end StaysInRange

end Represents

/-! ## Graphs that can be built -/

section Build

variable (measured : Measured capacity items) (stays : StaysInRange capacity items)
include measured stays

theorem exists_choices {index : Nat} (here : items[index]? = some item)
    (represented : ∃ ks, Represents capacity items ⟨load, index⟩ ks) :
    ∃ entries, choices capacity item index load = .ok entries := by
  obtain ⟨ks, represents⟩ := represented
  have found : items[ks.length]? = some item := represents.layer ▸ here
  refine exists_choices_iff.mpr fun k tried => ?_
  obtain ⟨packed, packs, -⟩ := represents.exists_pack measured found
    (represents.in_range_of_tried measured found stays tried)
  exact ⟨packed, packs⟩

theorem exists_addLayers {done rest : List Item} {index base : Nat} {loads : List Load}
    {graph : FlowGraph} (all_eq : items = done ++ rest) (index_eq : index = done.length)
    (represented : ∀ load ∈ loads, ∃ ks, Represents capacity items ⟨load, index⟩ ks) :
    ∃ result, addLayers capacity index base loads graph rest = .ok result := by
  induction rest generalizing done index base loads graph with
  | nil => exact ⟨_, rfl⟩
  | cons item rest ih =>
    have here : items[index]? = some item := by simp [all_eq, index_eq]
    obtain ⟨results, decided⟩ := exists_mapM_eq_ok_iff.mpr fun load mem =>
      exists_choices measured stays here (represented load mem)
    obtain ⟨chosen, rfl, computed⟩ := exists_of_mapM_eq_ok decided
    have all_eq' : items = (done ++ [item]) ++ rest := by simp [all_eq]
    have index_eq' : index + 1 = (done ++ [item]).length := by simp [index_eq]
    have represented' : ∀ next ∈ (Layer.after base (loads.map chosen)).loads,
        ∃ ks, Represents capacity items ⟨next, index + 1⟩ ks := by
      intro next mem
      obtain ⟨load, load_mem, packing, chooses⟩ := mem_loads_after.mp mem
      obtain ⟨ks, represents⟩ := represented load load_mem
      have allowed : Leads capacity items ⟨load, index⟩ packing ⟨next, index + 1⟩ :=
        (leads_item here).mpr ⟨rfl, (mem_choices_iff (computed load load_mem)).mp chooses⟩
      have found : items[ks.length]? = some item := represents.layer ▸ here
      obtain ⟨k, represents', -⟩ := represents.of_leads measured found stays allowed
      exact ⟨_, represents'⟩
    obtain ⟨result, added⟩ := ih all_eq' index_eq' represented'
    exact ⟨result, bind_eq_ok_iff.mpr ⟨_, decided, added⟩⟩

/-- If no load that is tried is out of range, then there is a graph. -/
theorem exists_build : ∃ graph, build capacity items = .ok graph := by
  have all_eq : items = [] ++ items := rfl
  refine exists_addLayers measured stays all_eq rfl fun load mem => ?_
  obtain rfl := List.mem_singleton.mp mem
  exact ⟨[], represents_empty measured⟩

end Build

/-! ## Bins and items -/

/-- A bin and items of one dimension, none negative, whose loads have 64 bits. -/
structure Packable (capacity : Load) (items : List Item) : Prop where
  capacity_nonneg : ∀ c ∈ capacity, 0 ≤ c.toInt
  dimension : ∀ item ∈ items, item.weight.length = capacity.length
  weight_nonneg : ∀ item ∈ items, ∀ w ∈ item.weight, 0 ≤ w.toInt
  in_range : ∀ item ∈ items, ∀ j < capacity.length,
    capacity.component j + item.weight.component j < 2 ^ 63

theorem Packable.measured (packable : Packable capacity items) : Measured capacity items where
  capacity_nonneg := component_nonneg packable.capacity_nonneg
  dimension := packable.dimension
  weight_nonneg item mem := component_nonneg (packable.weight_nonneg item mem)

theorem Packable.staysInRange (packable : Packable capacity items) :
    StaysInRange capacity items := by
  refine staysInRange_of_small fun item mem j => ?_
  rcases Nat.lt_or_ge j capacity.length with inside | beyond
  · exact packable.in_range item mem j inside
  · have beyond' : item.weight.length ≤ j := packable.dimension item mem ▸ beyond
    rw [component_of_length_le beyond, component_of_length_le beyond']
    decide

end FlowGraph

end ModelWeaver
