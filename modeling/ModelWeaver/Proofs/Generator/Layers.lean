import ModelWeaver.Generator.ArcFlow
import ModelWeaver.Proofs.Guarantee
import Mathlib.Data.List.Basic
import Mathlib.Tactic.Tauto

/-!
# Layers of an arc-flow graph

The graph of the ways to fill a bin grows layer by layer. `Leads` says what an arc may do,
without reference to the construction: it decides on the item of its layer, or goes from the last
layer into the sink. By the invariant `Layered`, all nodes but those of the last layer have
exactly the arcs out of them that `Leads` allows, each one once. The layers of the items and the
sink are added by one lemma.

A load that is no 64-bit word ends the construction, so all loads that were tried for the nodes
of a graph have been computed (`Computed`).
-/

namespace ModelWeaver.FlowGraph

variable {entries : List (Nat × Load)} {packing : Option Packing}

/-! ## What an arc may do -/

/-- The load with copies of an item is computed and does not exceed the capacity. -/
def Fits (capacity : Load) (item : Item) (load : Load) (k : Nat) (packed : Load) : Prop :=
  load.pack k item.weight = .ok packed ∧ packed.exceeds capacity = false

/-- The numbers of copies for which a load is computed: all up to the first that exceeds the
capacity. -/
structure Tried (capacity : Load) (item : Item) (load : Load) (k : Nat) : Prop where
  positive : 0 < k
  limit : k ≤ item.copies
  fewer_fit : ∀ i, 0 < i → i < k → ∃ packed, Fits capacity item load i packed

/-- An item is passed over, or copies of it are packed that fit. -/
def Chosen (capacity : Load) (item : Item) (index : Nat) (load : Load) (packing : Option Packing)
    (next : Load) : Prop :=
  (packing = none ∧ next = load) ∨
    ∃ k, Tried capacity item load k ∧ Fits capacity item load k next ∧ packing = some ⟨index, k⟩

/-- An arc may lead from one node to another and pack something on its way. -/
def Leads (capacity : Load) (items : List Item) (tail : FlowNode)
    (packing : Option Packing) (head : FlowNode) : Prop :=
  head.layer = tail.layer + 1 ∧
    match items[tail.layer]? with
    | some item => Chosen capacity item tail.layer tail.load packing head.load
    | none => tail.layer = items.length ∧ packing = none ∧ head.load = []

variable {capacity weight load : Load} {items : List Item} {item : Item} {loads : Array Load}
  {limit copies k index : Nat}

theorem leads_item {tail head : FlowNode} (here : items[tail.layer]? = some item) :
    Leads capacity items tail packing head ↔
      head.layer = tail.layer + 1 ∧
        Chosen capacity item tail.layer tail.load packing head.load := by
  simp only [Leads, here]

theorem leads_sink {tail head : FlowNode} (last : tail.layer = items.length) :
    Leads capacity items tail packing head ↔
      packing = none ∧ head = ⟨[], items.length + 1⟩ := by
  rcases head with ⟨load, layer⟩
  simp only [Leads, last, List.getElem?_length, true_and, FlowNode.mk.injEq]
  tauto

/-! ## Copies that are tried -/

theorem packings_succ_eq_ok_iff :
    packings capacity weight load (limit + 1) copies = .ok entries ↔
      ∃ packed, load.pack (copies + 1) weight = .ok packed ∧
        (packed.exceeds capacity = true ∧ entries = [] ∨
          packed.exceeds capacity = false ∧
            ∃ others, packings capacity weight load limit (copies + 1) = .ok others ∧
              entries = (copies + 1, packed) :: others) := by
  rw [packings, bind_eq_ok_iff]
  refine exists_congr fun packed => and_congr_right fun _ => ?_
  cases packed.exceeds capacity with
  | true => simp [pure, Except.pure, eq_comm]
  | false =>
    simp only [Bool.false_eq_true, if_false, false_and, false_or, true_and, bind_eq_ok_iff]
    refine exists_congr fun others => and_congr_right fun _ => ?_
    exact ⟨fun returned => (Except.ok.inj returned).symm, fun equal => equal ▸ rfl⟩

theorem mem_packings_iff {next : Load}
    (computed : packings capacity item.weight load limit copies = .ok entries) :
    (k, next) ∈ entries ↔
      copies < k ∧ k ≤ copies + limit ∧ Fits capacity item load k next ∧
        ∀ i, copies < i → i < k → ∃ packed, Fits capacity item load i packed := by
  induction limit generalizing copies entries with
  | zero =>
    cases computed
    refine iff_of_false List.not_mem_nil ?_
    rintro ⟨more, fewer, -⟩
    omega
  | succ limit ih =>
    obtain ⟨packed, packs, ⟨exceeds, rfl⟩ | ⟨fits, others, computed', rfl⟩⟩ :=
      packings_succ_eq_ok_iff.mp computed
    · refine iff_of_false List.not_mem_nil ?_
      rintro ⟨more, -, last_fits, fewer_fit⟩
      have first_fits : ∃ packed, Fits capacity item load (copies + 1) packed := by
        rcases Nat.lt_or_eq_of_le more with later | rfl
        · exact fewer_fit _ (Nat.lt_succ_self copies) later
        · exact ⟨next, last_fits⟩
      obtain ⟨packed', packs', fits⟩ := first_fits
      cases packs.symm.trans packs'
      cases exceeds.symm.trans fits
    · rw [List.mem_cons, Prod.mk.injEq, ih computed']
      constructor
      · rintro (⟨rfl, rfl⟩ | ⟨more, below, last_fits, fewer_fit⟩)
        · exact ⟨by omega, by omega, ⟨packs, fits⟩, fun i above less => by omega⟩
        · refine ⟨by omega, by omega, last_fits, fun i above less => ?_⟩
          rcases Nat.lt_or_eq_of_le above with later | rfl
          · exact fewer_fit i later less
          · exact ⟨packed, packs, fits⟩
      · rintro ⟨more, below, last_fits, fewer_fit⟩
        rcases Nat.lt_or_eq_of_le more with later | rfl
        · exact .inr ⟨later, by omega, last_fits, fun i above => fewer_fit i (by omega)⟩
        · cases packs.symm.trans last_fits.1
          exact .inl ⟨rfl, rfl⟩

theorem pairwise_packings
    (computed : packings capacity item.weight load limit copies = .ok entries) :
    entries.Pairwise fun first second => first.1 < second.1 := by
  induction limit generalizing copies entries with
  | zero =>
    cases computed
    exact List.Pairwise.nil
  | succ limit ih =>
    obtain ⟨packed, -, ⟨-, rfl⟩ | ⟨-, others, computed', rfl⟩⟩ :=
      packings_succ_eq_ok_iff.mp computed
    · exact List.Pairwise.nil
    · exact List.Pairwise.cons (fun _ later => ((mem_packings_iff computed').mp later).1)
        (ih computed')

/-- The copies of an item are decided on if all loads that are tried can be computed. -/
theorem exists_packings_iff :
    (∃ entries, packings capacity item.weight load limit copies = .ok entries) ↔
      ∀ k, copies < k → k ≤ copies + limit →
        (∀ i, copies < i → i < k → ∃ packed, Fits capacity item load i packed) →
          ∃ packed, load.pack k item.weight = .ok packed := by
  induction limit generalizing copies with
  | zero => exact iff_of_true ⟨[], rfl⟩ fun k more below => by omega
  | succ limit ih =>
    simp only [packings_succ_eq_ok_iff]
    constructor
    · rintro ⟨_, packed, packs, ends⟩ k more below fewer_fit
      rcases Nat.lt_or_eq_of_le more with later | rfl
      · rcases ends with ⟨exceeds, -⟩ | ⟨-, others, computed, -⟩
        · obtain ⟨packed', packs', fits⟩ := fewer_fit _ (Nat.lt_succ_self copies) later
          cases packs.symm.trans packs'
          cases exceeds.symm.trans fits
        · exact ih.mp ⟨others, computed⟩ k later (by omega) fun i above => fewer_fit i (by omega)
      · exact ⟨packed, packs⟩
    · intro computed
      obtain ⟨packed, packs⟩ := computed (copies + 1) (by omega) (by omega)
        fun i above less => by omega
      cases fits : packed.exceeds capacity with
      | true => exact ⟨[], packed, packs, .inl ⟨fits, rfl⟩⟩
      | false =>
        obtain ⟨others, packings_eq⟩ := (@ih (copies + 1)).mpr fun k more below fewer_fit => by
          refine computed k (by omega) (by omega) fun i above less => ?_
          rcases Nat.lt_or_eq_of_le above with later | rfl
          · exact fewer_fit i later less
          · exact ⟨packed, packs, fits⟩
        exact ⟨_, packed, packs, .inr ⟨fits, others, packings_eq, rfl⟩⟩

/-! ## Choices -/

theorem choices_eq_ok_iff {entries : List (Option Packing × Load)} :
    choices capacity item index load = .ok entries ↔
      ∃ packed, packings capacity item.weight load item.copies 0 = .ok packed ∧
        entries = (packed.map fun (k, next) => (some ⟨index, k⟩, next)) ++ [(none, load)] := by
  rw [choices, bind_eq_ok_iff]
  refine exists_congr fun packed => and_congr_right fun _ => ?_
  exact ⟨fun returned => (Except.ok.inj returned).symm, fun equal => equal ▸ rfl⟩

theorem exists_choices_iff :
    (∃ entries, choices capacity item index load = .ok entries) ↔
      ∀ k, Tried capacity item load k → ∃ packed, load.pack k item.weight = .ok packed := by
  have decided : (∃ entries, choices capacity item index load = .ok entries) ↔
      ∃ entries, packings capacity item.weight load item.copies 0 = .ok entries := by
    simp only [choices_eq_ok_iff, exists_and_left, exists_eq, and_true, exists_comm]
  rw [decided, exists_packings_iff]
  refine forall_congr' fun k => ⟨fun computed tried => ?_, fun computed positive limit fewer => ?_⟩
  · exact computed tried.positive (by simpa using tried.limit) tried.fewer_fit
  · exact computed ⟨positive, by simpa using limit, fewer⟩

theorem mem_choices_iff {entries : List (Option Packing × Load)} {next : Load}
    (computed : choices capacity item index load = .ok entries) :
    (packing, next) ∈ entries ↔ Chosen capacity item index load packing next := by
  obtain ⟨packed, packings_eq, rfl⟩ := choices_eq_ok_iff.mp computed
  simp only [List.mem_append, List.mem_map, List.mem_singleton, Prod.mk.injEq, Prod.exists,
    mem_packings_iff packings_eq, Nat.zero_add]
  constructor
  · rintro (⟨k, _, ⟨positive, limit, fits, fewer_fit⟩, rfl, rfl⟩ | passed)
    · exact .inr ⟨k, ⟨positive, limit, fewer_fit⟩, fits, rfl⟩
    · exact .inl passed
  · rintro (passed | ⟨k, tried, fits, rfl⟩)
    · exact .inr passed
    · exact .inl ⟨k, next, ⟨tried.positive, tried.limit, fits, tried.fewer_fit⟩, rfl, rfl⟩

theorem pairwise_choices {entries : List (Option Packing × Load)}
    (computed : choices capacity item index load = .ok entries) :
    entries.Pairwise fun first second => first.1 ≠ second.1 := by
  obtain ⟨packed, packings_eq, rfl⟩ := choices_eq_ok_iff.mp computed
  rw [List.pairwise_append]
  refine ⟨?_, List.pairwise_singleton _ _, ?_⟩
  · apply (pairwise_packings packings_eq).map
    intro first second less equal
    simp only [Option.some.injEq, Packing.mk.injEq, true_and] at equal
    exact Nat.ne_of_lt less equal
  · intro first packed second passed equal
    rcases List.mem_map.mp packed with ⟨entry, _, rfl⟩
    rcases List.mem_singleton.mp passed with rfl
    simp at equal

/-! ## The layer after some loads -/

section After

variable {base : Nat} {loads : List Load} {chosen : Load → List (Option Packing × Load)}
  {next : Load}

theorem nodup_loads_after : (Layer.after base (loads.map chosen)).loads.Nodup :=
  nodup_eraseDups _

theorem mem_loads_after : next ∈ (Layer.after base (loads.map chosen)).loads ↔
    ∃ load ∈ loads, ∃ packing, (packing, next) ∈ chosen load := by
  simp [Layer.after]

theorem mem_arcs_after {arc : FlowArc} :
    arc ∈ (Layer.after base (loads.map chosen)).arcs ↔ ∃ i load next, loads[i]? = some load ∧
      (arc.packing, next) ∈ chosen load ∧ arc.tail = base + i ∧ arc.head =
        base + loads.length + (Layer.after base (loads.map chosen)).loads.idxOf next := by
  rcases arc with ⟨tail, head, packing⟩
  simp only [Layer.after, List.mem_flatMap, List.mem_map, Prod.exists, FlowArc.mk.injEq,
    List.mem_zipIdx_iff_getElem?, List.getElem?_map, Option.map_eq_some_iff, List.length_map]
  constructor
  · rintro ⟨_, i, ⟨load, found, rfl⟩, _, next, mem, rfl, rfl, rfl⟩
    exact ⟨i, load, next, found, mem, rfl, rfl⟩
  · rintro ⟨i, load, next, found, mem, rfl, rfl⟩
    exact ⟨_, i, ⟨load, found, rfl⟩, packing, next, mem, rfl, rfl, rfl⟩

theorem pairwise_arcs_after
    (differ : ∀ load ∈ loads, (chosen load).Pairwise fun first second => first.1 ≠ second.1) :
    (Layer.after base (loads.map chosen)).arcs.Pairwise fun first second =>
      first.tail = second.tail → first.packing ≠ second.packing := by
  rw [Layer.after, List.pairwise_flatMap]
  constructor
  · intro entry mem
    obtain ⟨load, load_mem, chosen_eq⟩ := List.mem_map.mp (List.fst_mem_of_mem_zipIdx mem)
    apply (chosen_eq ▸ differ load load_mem).map
    intro first second differ _
    exact differ
  · have indices : (loads.map chosen).zipIdx.Pairwise fun first second => first.2 ≠ second.2 := by
      have nodup := List.nodup_range' (s := 0) (n := (loads.map chosen).length)
      rw [← List.zipIdx_map_snd 0 (loads.map chosen)] at nodup
      exact List.pairwise_map.mp nodup
    apply indices.imp
    intro first second differ x x_mem y y_mem tails_eq
    rcases List.mem_map.mp x_mem with ⟨_, _, rfl⟩
    rcases List.mem_map.mp y_mem with ⟨_, _, rfl⟩
    exact absurd (Nat.add_left_cancel tails_eq) differ

theorem loads_after_sink (nonempty : loads ≠ []) :
    (Layer.after base (loads.map fun _ => [(none, [])])).loads = [[]] := by
  cases loads with
  | nil => exact absurd rfl nonempty
  | cons load loads => simp [Layer.after, List.eraseDups_cons]

end After

/-! ## Growing a layered graph -/

/-- A graph that is complete up to a layer: the nodes from `base` on are those of
layer `depth` and have no arcs out of them yet; all others are settled and have the arcs
that `leads` allows, each once. -/
structure Layered (leads : FlowNode → Option Packing → FlowNode → Prop)
    (Settled : FlowNode → Prop) (base depth : Nat) (nodes : Array FlowNode)
    (arcs : Array FlowArc) : Prop where
  base_lt : base < nodes.size
  depth_le : depth ≤ base
  nodup : nodes.toList.Nodup
  early : ∀ ⦃v node⦄, nodes[v]? = some node → v < base → node.layer < depth
  late : ∀ ⦃v node⦄, nodes[v]? = some node → base ≤ v → node.layer = depth
  first : ∀ ⦃v node⦄, nodes[v]? = some node → node.layer = 0 → v = 0
  arcs_lead : ∀ arc ∈ arcs, ∃ tail head, nodes[arc.tail]? = some tail ∧
    nodes[arc.head]? = some head ∧ leads tail arc.packing head
  arcs_differ : arcs.toList.Pairwise fun first second =>
    first.tail = second.tail → first.packing ≠ second.packing
  leaves : ∀ ⦃v tail⦄, nodes[v]? = some tail → v < base → ∀ ⦃packing head⦄,
    leads tail packing head →
      ∃ arc ∈ arcs, arc.tail = v ∧ arc.packing = packing ∧ nodes[arc.head]? = some head
  enters : ∀ ⦃v⦄, 0 < v → v < nodes.size → ∃ arc ∈ arcs, arc.head = v
  settled : ∀ ⦃v node⦄, nodes[v]? = some node → v < base → Settled node

theorem getElem?_append_of_eq_some {α : Type} {xs ys : Array α} {i : Nat} {x : α}
    (found : xs[i]? = some x) : (xs ++ ys)[i]? = some x := by
  obtain ⟨bound, _⟩ := Array.getElem?_eq_some_iff.mp found
  rw [Array.getElem?_append, if_pos bound, found]

/-- What a new layer brings: its nodes, and the arcs to them from the nodes that had
none out of them. -/
structure NewLayer (leads : FlowNode → Option Packing → FlowNode → Prop)
    (Settled : FlowNode → Prop) (base depth : Nat) (nodes newNodes : Array FlowNode)
    (newArcs : Array FlowArc) : Prop where
  nonempty : 0 < newNodes.size
  nodup : newNodes.toList.Nodup
  layer : ∀ node ∈ newNodes, node.layer = depth + 1
  lead : ∀ arc ∈ newArcs, base ≤ arc.tail ∧ ∃ tail head, nodes[arc.tail]? = some tail ∧
    (nodes ++ newNodes)[arc.head]? = some head ∧ leads tail arc.packing head
  differ : newArcs.toList.Pairwise fun first second =>
    first.tail = second.tail → first.packing ≠ second.packing
  complete : ∀ ⦃v tail⦄, nodes[v]? = some tail → base ≤ v → ∀ ⦃packing head⦄,
    leads tail packing head → ∃ arc ∈ newArcs, arc.tail = v ∧ arc.packing = packing ∧
      (nodes ++ newNodes)[arc.head]? = some head
  enter : ∀ i < newNodes.size, ∃ arc ∈ newArcs, arc.head = nodes.size + i
  settle : ∀ ⦃v node⦄, nodes[v]? = some node → base ≤ v → Settled node

variable {leads : FlowNode → Option Packing → FlowNode → Prop} {Settled : FlowNode → Prop}
  {base depth : Nat}
  {nodes newNodes : Array FlowNode} {arcs newArcs : Array FlowArc}

theorem Layered.layer_le (layered : Layered leads Settled base depth nodes arcs) {v : Nat}
    {node : FlowNode} (found : nodes[v]? = some node) : node.layer ≤ depth := by
  rcases Nat.lt_or_ge v base with before | after
  · exact Nat.le_of_lt (layered.early found before)
  · exact Nat.le_of_eq (layered.late found after)

theorem Layered.tail_lt (layered : Layered leads Settled base depth nodes arcs)
    (up : ∀ ⦃tail packing head⦄, leads tail packing head → head.layer = tail.layer + 1)
    {arc : FlowArc} (mem : arc ∈ arcs) : arc.tail < base := by
  rcases layered.arcs_lead arc mem with ⟨tail, head, tail_at, head_at, allowed⟩
  by_contra notLess
  have tail_layer := layered.late tail_at (Nat.le_of_not_lt notLess)
  have head_layer := up allowed
  have := layered.layer_le head_at
  omega

/-- A layered graph grows by a layer. -/
theorem Layered.grow (layered : Layered leads Settled base depth nodes arcs)
    (up : ∀ ⦃tail packing head⦄, leads tail packing head → head.layer = tail.layer + 1)
    (new : NewLayer leads Settled base depth nodes newNodes newArcs) :
    Layered leads Settled nodes.size (depth + 1) (nodes ++ newNodes) (arcs ++ newArcs) where
  base_lt := by
    rw [Array.size_append]
    exact Nat.lt_add_of_pos_right new.nonempty
  depth_le := Nat.lt_of_le_of_lt layered.depth_le layered.base_lt
  nodup := by
    rw [Array.toList_append, List.nodup_append]
    refine ⟨layered.nodup, new.nodup, ?_⟩
    rintro node old _ fresh rfl
    have fresh_layer := new.layer node (Array.mem_toList_iff.mp fresh)
    obtain ⟨v, found⟩ := Array.getElem?_of_mem (Array.mem_toList_iff.mp old)
    have := layered.layer_le found
    omega
  early := by
    intro v node found before
    rw [Array.getElem?_append, if_pos before] at found
    exact Nat.lt_succ_of_le (layered.layer_le found)
  late := by
    intro v node found after
    rw [Array.getElem?_append, if_neg (Nat.not_lt.mpr after)] at found
    exact new.layer node (Array.mem_of_getElem? found)
  first := by
    intro v node found bottom
    rw [Array.getElem?_append] at found
    split at found
    · exact layered.first found bottom
    · have := new.layer node (Array.mem_of_getElem? found)
      omega
  arcs_lead := by
    intro arc mem
    rcases Array.mem_append.mp mem with old | fresh
    · rcases layered.arcs_lead arc old with ⟨tail, head, tail_at, head_at, allowed⟩
      exact ⟨tail, head, getElem?_append_of_eq_some tail_at,
        getElem?_append_of_eq_some head_at, allowed⟩
    · rcases new.lead arc fresh with ⟨_, tail, head, tail_at, head_at, allowed⟩
      exact ⟨tail, head, getElem?_append_of_eq_some tail_at, head_at, allowed⟩
  arcs_differ := by
    rw [Array.toList_append, List.pairwise_append]
    refine ⟨layered.arcs_differ, new.differ, ?_⟩
    intro old old_mem fresh fresh_mem tails_eq
    have old_lt := layered.tail_lt up (Array.mem_toList_iff.mp old_mem)
    have fresh_ge := (new.lead fresh (Array.mem_toList_iff.mp fresh_mem)).1
    omega
  leaves := by
    intro v tail found bound packing head allowed
    rw [Array.getElem?_append, if_pos bound] at found
    rcases Nat.lt_or_ge v base with before | after
    · rcases layered.leaves found before allowed with ⟨arc, mem, rfl, rfl, head_at⟩
      exact ⟨arc, Array.mem_append.mpr (Or.inl mem), rfl, rfl,
        getElem?_append_of_eq_some head_at⟩
    · rcases new.complete found after allowed with ⟨arc, mem, rfl, rfl, head_at⟩
      exact ⟨arc, Array.mem_append.mpr (Or.inr mem), rfl, rfl, head_at⟩
  enters := by
    intro v positive bound
    rcases Nat.lt_or_ge v nodes.size with before | after
    · rcases layered.enters positive before with ⟨arc, mem, rfl⟩
      exact ⟨arc, Array.mem_append.mpr (Or.inl mem), rfl⟩
    · rw [Array.size_append] at bound
      rcases new.enter (v - nodes.size) (by omega) with ⟨arc, mem, head_eq⟩
      exact ⟨arc, Array.mem_append.mpr (Or.inr mem), by omega⟩
  settled := by
    intro v node found bound
    rw [Array.getElem?_append, if_pos bound] at found
    rcases Nat.lt_or_ge v base with before | after
    · exact layered.settled found before
    · exact new.settle found after

/-! ## The layers of a built graph -/

/-- All loads that are tried at a node are computed. -/
def Computed (capacity : Load) (items : List Item) (node : FlowNode) : Prop :=
  ∀ item, items[node.layer]? = some item → ∀ k, Tried capacity item node.load k →
    ∃ packed, node.load.pack k item.weight = .ok packed

/-- What is chosen at the loads of a layer is what arcs out of it may do. -/
structure Decides (leads : FlowNode → Option Packing → FlowNode → Prop)
    (Settled : FlowNode → Prop) (depth : Nat) (loads : List Load)
    (chosen : Load → List (Option Packing × Load)) : Prop where
  nonempty : ∀ load ∈ loads, chosen load ≠ []
  differ : ∀ load ∈ loads, (chosen load).Pairwise fun first second => first.1 ≠ second.1
  leads_iff : ∀ load ∈ loads, ∀ packing head, leads ⟨load, depth⟩ packing head ↔
    head.layer = depth + 1 ∧ (packing, head.load) ∈ chosen load
  settled : ∀ load ∈ loads, Settled ⟨load, depth⟩

section Decides

variable {earlier : Array FlowNode} {loads : List Load}
  {chosen : Load → List (Option Packing × Load)}

theorem getElem?_append_nodesAt (found : loads[k]? = some load) :
    (earlier ++ nodesAt depth loads)[earlier.size + k]? = some ⟨load, depth⟩ := by
  rw [Array.getElem?_append_right (Nat.le_add_right _ _), Nat.add_sub_cancel_left, nodesAt,
    List.getElem?_toArray, List.getElem?_map, found]
  rfl

theorem exists_load {v : Nat} {node : FlowNode} (late : earlier.size ≤ v)
    (found : (earlier ++ nodesAt depth loads)[v]? = some node) :
    ∃ load, loads[v - earlier.size]? = some load ∧ ⟨load, depth⟩ = node := by
  rw [Array.getElem?_append_right late, nodesAt, List.getElem?_toArray, List.getElem?_map] at found
  exact Option.map_eq_some_iff.mp found

theorem size_nodesAt : (nodesAt depth loads).size = loads.length := by
  simp [nodesAt]

theorem size_append_nodesAt :
    (earlier ++ nodesAt depth loads).size = earlier.size + loads.length := by
  rw [Array.size_append, size_nodesAt]

theorem Decides.newLayer (decides : Decides leads Settled depth loads chosen)
    (nonempty : loads ≠ []) :
    NewLayer leads Settled earlier.size depth (earlier ++ nodesAt depth loads)
      (nodesAt (depth + 1) (Layer.after earlier.size (loads.map chosen)).loads)
      (Layer.after earlier.size (loads.map chosen)).arcs.toArray := by
  have head_at {load next : Load} {packing : Option Packing} (mem : load ∈ loads)
      (chooses : (packing, next) ∈ chosen load) :
      (earlier ++ nodesAt depth loads ++
        nodesAt (depth + 1) (Layer.after earlier.size (loads.map chosen)).loads)[
          earlier.size + loads.length +
            (Layer.after earlier.size (loads.map chosen)).loads.idxOf next]? =
        some ⟨next, depth + 1⟩ := by
    rw [← size_append_nodesAt]
    exact getElem?_append_nodesAt
      (List.getElem?_idxOf (mem_loads_after.mpr ⟨load, mem, packing, chooses⟩))
  constructor
  case nonempty =>
    obtain ⟨load, mem⟩ := List.exists_mem_of_ne_nil _ nonempty
    obtain ⟨⟨packing, next⟩, chooses⟩ := List.exists_mem_of_ne_nil _ (decides.nonempty load mem)
    rw [size_nodesAt]
    exact List.length_pos_of_mem (mem_loads_after.mpr ⟨load, mem, packing, chooses⟩)
  case nodup =>
    exact nodup_loads_after.map fun first second equal => congrArg FlowNode.load equal
  case layer => simp [nodesAt]
  case lead =>
    intro arc mem
    obtain ⟨i, load, next, found, chooses, tail_eq, head_eq⟩ :=
      mem_arcs_after.mp (List.mem_toArray.mp mem)
    have load_mem := List.mem_of_getElem? found
    rw [tail_eq, head_eq]
    exact ⟨Nat.le_add_right _ _, _, _, getElem?_append_nodesAt found, head_at load_mem chooses,
      (decides.leads_iff load load_mem _ _).mpr ⟨rfl, chooses⟩⟩
  case differ => exact pairwise_arcs_after decides.differ
  case complete =>
    intro v tail tail_at late packing head allowed
    obtain ⟨load, found, rfl⟩ := exists_load late tail_at
    have load_mem := List.mem_of_getElem? found
    obtain ⟨above, chooses⟩ := (decides.leads_iff load load_mem packing head).mp allowed
    rcases head with ⟨next, layer⟩
    subst above
    exact ⟨⟨v, _, packing⟩, List.mem_toArray.mpr (mem_arcs_after.mpr
      ⟨_, load, next, found, chooses, (Nat.add_sub_cancel' late).symm, rfl⟩), rfl, rfl,
      head_at load_mem chooses⟩
  case enter =>
    intro i bound
    rw [size_nodesAt] at bound
    obtain ⟨load, load_mem, packing, chooses⟩ := mem_loads_after.mp (List.getElem_mem bound)
    obtain ⟨n, found⟩ := List.getElem?_of_mem load_mem
    refine ⟨⟨_, _, packing⟩, List.mem_toArray.mpr
      (mem_arcs_after.mpr ⟨n, load, _, found, chooses, rfl, rfl⟩), ?_⟩
    rw [size_append_nodesAt, nodup_loads_after.idxOf_getElem]
  case settle =>
    intro v node node_at late
    obtain ⟨load, found, rfl⟩ := exists_load late node_at
    exact decides.settled load (List.mem_of_getElem? found)

theorem decides_choices {item : Item} (here : items[depth]? = some item)
    (computed : ∀ load ∈ loads, choices capacity item depth load = .ok (chosen load)) :
    Decides (Leads capacity items) (Computed capacity items) depth loads chosen where
  nonempty load mem := by
    obtain ⟨packed, -, chosen_eq⟩ := choices_eq_ok_iff.mp (computed load mem)
    simp [chosen_eq]
  differ load mem := pairwise_choices (computed load mem)
  leads_iff load mem packing head := by
    rw [leads_item here, mem_choices_iff (computed load mem)]
  settled load mem other there := by
    cases here.symm.trans there
    exact exists_choices_iff.mp ⟨_, computed load mem⟩

theorem decides_sink (capacity : Load) (items : List Item) (loads : List Load) :
    Decides (Leads capacity items) (Computed capacity items) items.length loads
      fun _ => [(none, [])] where
  nonempty _ _ := List.cons_ne_nil _ _
  differ _ _ := List.pairwise_singleton _ _
  leads_iff load _ packing head := by
    rcases head with ⟨next, layer⟩
    simp only [leads_sink, FlowNode.mk.injEq, List.mem_singleton, Prod.mk.injEq]
    tauto
  settled load _ item here := by simp at here

end Decides

/-- What is known of a built graph: it is layered, and its last layer is the sink. -/
structure Built (capacity : Load) (items : List Item) (graph : FlowGraph) : Prop where
  layered : Layered (Leads capacity items) (Computed capacity items) graph.sink
    (items.length + 1) graph.nodes graph.arcs
  sink_last : graph.nodes.size = graph.sink + 1
  sink_at : graph.nodes[graph.sink]? = some ⟨[], items.length + 1⟩
  source_first : graph.source = 0
  source_at : graph.nodes[graph.source]? = some ⟨List.replicate capacity.length 0, 0⟩

theorem addLayers_built {all done : List Item} {index base : Nat} {loads : List Load}
    {graph result : FlowGraph} {earlier : Array FlowNode} (all_eq : all = done ++ items)
    (index_eq : index = done.length) (base_eq : base = earlier.size) (nonempty : loads ≠ [])
    (nodes_eq : graph.nodes = earlier ++ nodesAt index loads)
    (layered : Layered (Leads capacity all) (Computed capacity all) base index graph.nodes
      graph.arcs)
    (source_first : graph.source = 0)
    (source_at : graph.nodes[graph.source]? = some ⟨List.replicate capacity.length 0, 0⟩)
    (added : addLayers capacity index base loads graph items = .ok result) :
    Built capacity all result := by
  have up : ∀ ⦃tail packing head⦄, Leads capacity all tail packing head →
      head.layer = tail.layer + 1 := fun _ _ _ allowed => allowed.1
  induction items generalizing done index base graph earlier loads with
  | nil =>
    have last : index = all.length := by simp [all_eq, index_eq]
    subst last base_eq
    cases added
    have new := @Decides.newLayer _ _ _ earlier _ _ (decides_sink capacity all loads) nonempty
    rw [← nodes_eq] at new
    have added_eq : nodesAt (all.length + 1)
        (Layer.after earlier.size (loads.map fun _ => [(none, [])])).loads =
        #[⟨[], all.length + 1⟩] := by
      rw [loads_after_sink nonempty]
      rfl
    exact
      { layered := layered.grow up new
        sink_last := by simp only [addLayer, added_eq, Array.size_append]; rfl
        sink_at := by
          simp only [addLayer, added_eq, Array.getElem?_append_right (Nat.le_refl _)]
          simp
        source_first := source_first
        source_at := getElem?_append_of_eq_some source_at }
  | cons item items ih =>
    have here : all[index]? = some item := by simp [all_eq, index_eq]
    subst base_eq
    obtain ⟨results, decided, added⟩ := bind_eq_ok_iff.mp added
    obtain ⟨chosen, rfl, computed⟩ := exists_of_mapM_eq_ok decided
    have new := @Decides.newLayer _ _ _ earlier _ _ (decides_choices here computed) nonempty
    rw [← nodes_eq] at new
    have grown := layered.grow up new
    have all_eq' : all = (done ++ [item]) ++ items := by simp [all_eq]
    have index_eq' : index + 1 = (done ++ [item]).length := by simp [index_eq]
    have base_eq' : earlier.size + loads.length = graph.nodes.size := by
      rw [nodes_eq, size_append_nodesAt]
    have nonempty' := List.length_pos_iff.mp (size_nodesAt ▸ new.nonempty)
    refine ih all_eq' index_eq' base_eq' nonempty' ?_ ?_ ?_ ?_ added
    · rfl
    · rw [base_eq']
      exact grown
    · exact source_first
    · exact getElem?_append_of_eq_some source_at

/-- Every built graph is layered from its source to its sink. -/
theorem build_built {graph : FlowGraph} (built : build capacity items = .ok graph) :
    Built capacity items graph := by
  have all_eq : items = [] ++ items := rfl
  have base_eq : 0 = (#[] : Array FlowNode).size := rfl
  refine addLayers_built all_eq rfl base_eq (by simp) (by simp [nodesAt]) ?_ rfl rfl built
  have only : ∀ ⦃v node⦄, #[(⟨List.replicate capacity.length 0, 0⟩ : FlowNode)][v]? = some node →
      v = 0 ∧ node.layer = 0 := by
    intro v node found
    obtain ⟨bound, rfl⟩ := Array.getElem?_eq_some_iff.mp found
    have v_eq : v = 0 := by simpa using bound
    subst v_eq
    exact ⟨rfl, rfl⟩
  constructor
  case base_lt => simp
  case depth_le => exact Nat.le_refl 0
  case nodup => simp
  case early => intro v node _ before; simp at before
  case late => intro v node found _; exact (only found).2
  case first => intro v node found _; exact (only found).1
  case arcs_lead => simp
  case arcs_differ => simp
  case leaves => intro v tail _ before; simp at before
  case enters => intro v positive bound; simp at bound; omega
  case settled => intro v node _ before; simp at before

end ModelWeaver.FlowGraph
