import ModelWeaver.Proofs.Generator.TourFormulations
import ModelWeaver.Proofs.Model.Literals

/-!
# Names of a tour's variables

The variables that a formulation makes up are named by a letter for their kind and the labels of
the nodes that they are about, with underscores between. Labels may hold underscores as well, and
different nodes may have the same label, so two variables can get the same name. Where all labels
are different and hold equally many underscores, as with integers, no two names are the same.
-/

namespace ModelWeaver.Tour

open Model

/-! ## Texts with underscores between -/

/-- Texts with equally many underscores are told apart by what stands in front of one more. -/
theorem append_underscore_inj {first second rest rest' : List Char}
    (alike : first.count '_' = second.count '_')
    (same : first ++ '_' :: rest = second ++ '_' :: rest') : first = second ∧ rest = rest' := by
  have nothing_between : ∀ {short between rest rest' : List Char},
      short.count '_' = (short ++ between).count '_' → '_' :: rest = between ++ '_' :: rest' →
        between = [] := by
    intro short between rest rest' alike same
    cases between with
    | nil => rfl
    | cons c cs =>
      obtain ⟨rfl, -⟩ := List.cons.inj same
      rw [List.count_append, List.count_cons_self] at alike
      omega
  rcases List.append_eq_append_iff.mp same with
    ⟨between, rfl, same_rest⟩ | ⟨between, rfl, same_rest⟩
  · obtain rfl := nothing_between alike same_rest
    rw [List.append_nil]
    exact ⟨rfl, (List.cons.inj same_rest).2⟩
  · obtain rfl := nothing_between alike.symm same_rest
    rw [List.append_nil]
    exact ⟨rfl, (List.cons.inj same_rest).2.symm⟩

theorem ne_intercalate_of_count {text first second : List Char} {texts : List (List Char)}
    (alike : text.count '_' = first.count '_') :
    text ≠ ['_'].intercalate (first :: second :: texts) := by
  intro same
  have counts := congrArg (List.count '_') same
  rw [List.intercalate_cons_cons, List.append_assoc, List.count_append, List.count_append,
    List.count_singleton_self] at counts
  omega

/-- Texts with equally many underscores in each can be read off the text that they are joined
to. -/
theorem intercalate_underscore_inj {texts texts' : List (List Char)} {count : Nat}
    (some_text : texts ≠ []) (some_text' : texts' ≠ [])
    (alike : ∀ text ∈ texts, text.count '_' = count)
    (alike' : ∀ text ∈ texts', text.count '_' = count)
    (same : ['_'].intercalate texts = ['_'].intercalate texts') : texts = texts' := by
  induction texts generalizing texts' with
  | nil => exact absurd rfl some_text
  | cons text texts ih =>
    cases texts' with
    | nil => exact absurd rfl some_text'
    | cons text' texts' =>
      rcases List.forall_mem_cons.mp alike with ⟨here, later⟩
      rcases List.forall_mem_cons.mp alike' with ⟨here', later'⟩
      have both : text.count '_' = text'.count '_' := here.trans here'.symm
      cases texts with
      | nil =>
        rw [List.intercalate_singleton] at same
        cases texts' with
        | nil => rw [same, List.intercalate_singleton]
        | cons next' texts' => exact absurd same (ne_intercalate_of_count both)
      | cons next texts =>
        cases texts' with
        | nil =>
          rw [List.intercalate_singleton] at same
          exact absurd same.symm (ne_intercalate_of_count both.symm)
        | cons next' texts' =>
          rw [List.intercalate_cons_cons, List.intercalate_cons_cons, List.append_assoc,
            List.append_assoc] at same
          rcases append_underscore_inj both same with ⟨rfl, same_rest⟩
          rw [ih (List.cons_ne_nil _ _) (List.cons_ne_nil _ _) later later'
            same_rest]

/-! ## Names -/

section Names

variable {tour : Tour}

/-- The quantities whose variables a formulation makes up. -/
def madeUp (tour : Tour) (formulation : Formulation) : List tour.Quantity :=
  tour.ownQuantities formulation ++ tour.pairs.map .pair

/-- The names of the variables that a formulation makes up. -/
def madeUpNames (tour : Tour) (formulation : Formulation) : List String :=
  (formulation.vars tour ++ tour.pairVariables).map Variable.name

theorem map_name_madeUp (formulation : Formulation) :
    (tour.madeUp formulation).map Quantity.name = tour.madeUpNames formulation := by
  rw [madeUp, madeUpNames, vars_eq_map_ownQuantities, pairVariables]
  simp only [List.map_append, List.map_map]
  rfl

variable {formulation : Formulation} {quantity other : tour.Quantity}

/-- The letter for the quantities by which a formulation forbids smaller circuits. -/
def Formulation.letter : Formulation → Char
  | potentials => 'u'
  | singleFlow => 'y'
  | manyFlows => 'y'

theorem letter_of_mem_own (mem : quantity ∈ tour.ownQuantities formulation) :
    quantity.letter = some formulation.letter := by
  cases formulation with
  | potentials | singleFlow =>
    rcases List.mem_map.mp mem with ⟨_, _, rfl⟩
    rfl
  | manyFlows =>
    rcases List.mem_flatMap.mp mem with ⟨arc, _, inner⟩
    rcases List.mem_map.mp inner with ⟨commodity, _, rfl⟩
    rfl

theorem letter_ne_pair (formulation : Formulation) : formulation.letter ≠ 'c' := by
  cases formulation <;> decide

theorem mem_madeUp : quantity ∈ tour.madeUp formulation ↔
    quantity ∈ tour.ownQuantities formulation ∨ ∃ pair ∈ tour.pairs, .pair pair = quantity := by
  rw [madeUp, List.mem_append, List.mem_map]

theorem exists_letter (mem : quantity ∈ tour.madeUp formulation) :
    ∃ letter, quantity.letter = some letter := by
  rcases mem_madeUp.mp mem with own | ⟨pair, _, rfl⟩
  · exact ⟨_, letter_of_mem_own own⟩
  · exact ⟨_, rfl⟩

theorem name_eq_iff (mem : quantity ∈ tour.madeUp formulation)
    (mem' : other ∈ tour.madeUp formulation) :
    quantity.name = other.name ↔
      quantity.letter = other.letter ∧ quantity.joined = other.joined := by
  rcases exists_letter mem with ⟨letter, kind⟩
  rcases exists_letter mem' with ⟨letter', kind'⟩
  rw [← String.toList_inj, toList_name kind, toList_name kind', kind, kind',
    List.append_cancel_left_eq, List.cons.injEq, List.cons.injEq, String.toList_inj]
  simp

section Simple

variable (simple : (tour.arcs.map fun arc => (arc.tail, arc.head)).Nodup)

include simple

theorem nodup_ownQuantities (formulation : Formulation) :
    (tour.ownQuantities formulation).Nodup := by
  have arcs_nodup : tour.arcs.Nodup := List.Nodup.of_map _ simple
  have commodities_nodup : tour.commodities.Nodup := (List.nodup_finRange _).filter _
  cases formulation with
  | potentials => exact commodities_nodup.map fun _ _ => Quantity.potential.inj
  | singleFlow => exact arcs_nodup.map fun _ _ => Quantity.flow.inj
  | manyFlows =>
    have product_eq : tour.ownQuantities .manyFlows =
        (tour.arcs ×ˢ tour.commodities).map fun both => .flowTo both.2 both.1 := by
      change _ = (tour.arcs.flatMap fun arc => tour.commodities.map (Prod.mk arc)).map _
      rw [ownQuantities, List.map_flatMap]
      simp only [List.map_map]
      rfl
    rw [product_eq]
    apply (arcs_nodup.product commodities_nodup).map
    intro both both' same
    rcases Quantity.flowTo.inj same with ⟨commodities, arcs⟩
    exact Prod.ext arcs commodities

theorem nodup_madeUp (formulation : Formulation) : (tour.madeUp formulation).Nodup := by
  rw [madeUp, List.nodup_append']
  refine ⟨nodup_ownQuantities simple formulation,
    tour.nodup_pairs.map fun _ _ => Quantity.pair.inj, ?_⟩
  intro quantity own paired
  rcases List.mem_map.mp paired with ⟨pair, _, rfl⟩
  exact letter_ne_pair formulation (Option.some.inj (letter_of_mem_own own)).symm

theorem arc_eq_of_ends {arc arc' : tour.Arc} (mem : arc ∈ tour.arcs)
    (mem' : arc' ∈ tour.arcs) (tails : arc.tail = arc'.tail) (heads : arc.head = arc'.head) :
    arc = arc' :=
  List.inj_on_of_nodup_map simple mem mem' (Prod.ext tails heads)

/-- A quantity is known by its kind and the nodes that it is about. -/
theorem eq_of_nodes_eq (mem : quantity ∈ tour.madeUp formulation)
    (mem' : other ∈ tour.madeUp formulation) (kinds : quantity.letter = other.letter)
    (nodes_eq : quantity.nodes = other.nodes) : quantity = other := by
  rcases mem_madeUp.mp mem with own | ⟨pair, _, rfl⟩
  · rcases mem_madeUp.mp mem' with own' | ⟨pair', _, rfl⟩
    · cases formulation with
      | potentials =>
        rcases List.mem_map.mp own with ⟨node, _, rfl⟩
        rcases List.mem_map.mp own' with ⟨node', _, rfl⟩
        rw [List.singleton_inj.mp nodes_eq]
      | singleFlow =>
        rcases List.mem_map.mp own with ⟨arc, arc_mem, rfl⟩
        rcases List.mem_map.mp own' with ⟨arc', arc_mem', rfl⟩
        simp only [Quantity.nodes, List.cons.injEq] at nodes_eq
        rw [arc_eq_of_ends simple arc_mem arc_mem' nodes_eq.1 nodes_eq.2.1]
      | manyFlows =>
        rcases List.mem_flatMap.mp own with ⟨arc, arc_mem, inner⟩
        rcases List.mem_map.mp inner with ⟨commodity, _, rfl⟩
        rcases List.mem_flatMap.mp own' with ⟨arc', arc_mem', inner'⟩
        rcases List.mem_map.mp inner' with ⟨commodity', _, rfl⟩
        simp only [Quantity.nodes, List.cons.injEq] at nodes_eq
        rw [arc_eq_of_ends simple arc_mem arc_mem' nodes_eq.1 nodes_eq.2.1, nodes_eq.2.2.1]
    · rw [letter_of_mem_own own] at kinds
      exact absurd (Option.some.inj kinds) (letter_ne_pair formulation)
  · rcases mem_madeUp.mp mem' with own' | ⟨pair', _, rfl⟩
    · rw [letter_of_mem_own own'] at kinds
      exact absurd (Option.some.inj kinds).symm (letter_ne_pair formulation)
    · simp only [Quantity.nodes, List.cons.injEq] at nodes_eq
      rw [Prod.ext nodes_eq.1 nodes_eq.2.1]

end Simple

theorem vars_of_program {lifted : Bool} {program : Program}
    (made : tour.program formulation lifted = .ok program) :
    program.vars.toList = tour.vars formulation := by
  rw [Tour.program] at made
  split at made
  · cases made
  · rw [(Program.mem_of_foldlM_addRelation made).1, Program.vars_addVariables]
    simp

/-! ## Distinct names -/

/-- Within each kind, the joined labels tell the quantities of a formulation apart. -/
def LabelsSeparate (tour : Tour) (formulation : Formulation) : Prop :=
  ∀ quantity ∈ tour.madeUp formulation, ∀ other ∈ tour.madeUp formulation,
    quantity.letter = other.letter → quantity.joined = other.joined → quantity = other

/-- All nodes have different labels, with equally many underscores in each. -/
structure LabelsAlike (tour : Tour) : Prop where
  apart : Function.Injective tour.label
  alike : ∀ i j, (tour.label i).toList.count '_' = (tour.label j).toList.count '_'

theorem nodes_ne_nil (quantity : tour.Quantity) : quantity.nodes ≠ [] := by
  cases quantity <;> exact List.cons_ne_nil _ _

theorem LabelsAlike.nodes_eq (alike : tour.LabelsAlike)
    (same : quantity.joined = other.joined) : quantity.nodes = other.nodes := by
  have apart : Function.Injective fun node => (tour.label node).toList :=
    fun _ _ equal => alike.apart (String.toList_inj.mp equal)
  have counted (nodes : List tour.Node) :
      ∀ text ∈ nodes.map fun node => (tour.label node).toList,
        text.count '_' = (tour.label tour.start).toList.count '_' :=
    List.forall_mem_map.mpr fun node _ => alike.alike node tour.start
  have some_text (quantity : tour.Quantity) :
      (quantity.nodes.map fun node => (tour.label node).toList) ≠ [] :=
    fun empty => nodes_ne_nil quantity (List.map_eq_nil_iff.mp empty)
  apply List.map_injective_iff.mpr apart
  apply intercalate_underscore_inj (some_text _) (some_text _) (counted _) (counted _)
  simpa [Quantity.joined, ← String.toList_inj, List.map_map, Function.comp_def] using same

theorem LabelsAlike.labelsSeparate (alike : tour.LabelsAlike)
    (simple : (tour.arcs.map fun arc => (arc.tail, arc.head)).Nodup) (formulation : Formulation) :
    tour.LabelsSeparate formulation := by
  intro quantity mem other mem' kinds same
  exact eq_of_nodes_eq simple mem mem' kinds (alike.nodes_eq same)

/-- Integers have different labels without underscores. -/
theorem labelsAlike_of_integers
    (unequal : ∀ i j : tour.Node, (tour.nodes[i] == tour.nodes[j]) = true → i = j)
    (integers : ∀ i : tour.Node, tour.nodes[i].typeName = "int") : tour.LabelsAlike := by
  have exists_int (i : tour.Node) : ∃ n, tour.nodes[i] = .int n := by
    have integer := integers i
    cases node_eq : tour.nodes[i] with
    | int n => exact ⟨n, rfl⟩
    | _ =>
      rw [node_eq] at integer
      simp [Value.typeName] at integer
  have label_eq {i : tour.Node} {n : Int64} (integer : tour.nodes[i] = .int n) :
      tour.label i = toString n.toInt := by
    rw [label, integer]
    rfl
  constructor
  · intro i j same
    rcases exists_int i with ⟨m, first⟩
    rcases exists_int j with ⟨n, second⟩
    rw [label_eq first, label_eq second] at same
    apply unequal
    rw [first, second, Int64.toInt_inj.mp (toString_injective (congrArg String.toList same))]
    exact beq_self_eq_true (α := Int64) n
  · have none_held (i : tour.Node) : (tour.label i).toList.count '_' = 0 := by
      rcases exists_int i with ⟨n, integer⟩
      rw [label_eq integer, List.count_eq_zero]
      intro held
      exact absurd (isNumeral_of_mem_toString held) (by decide)
    intro i j
    rw [none_held, none_held]

end Names

/-- The variables that a formulation makes up have different names exactly if the labels of their
nodes, joined by underscores, tell apart those of one kind. This is so if all labels are different
and hold equally many underscores, and hence for nodes that are different integers. -/
theorem names_distinct_iff (tour : Tour)
    (simple : (tour.arcs.map fun arc => (arc.tail, arc.head)).Nodup) (formulation : Formulation) :
    (∀ lifted program, tour.program formulation lifted = .ok program →
      program.vars.toList.map Variable.name =
        tour.arcs.map TourArc.name ++ tour.madeUpNames formulation) ∧
    ((tour.madeUpNames formulation).Nodup ↔ tour.LabelsSeparate formulation) ∧
    (tour.LabelsAlike → (tour.madeUpNames formulation).Nodup) ∧
    ((∀ i j : tour.Node, (tour.nodes[i] == tour.nodes[j]) = true → i = j) →
      (∀ i : tour.Node, tour.nodes[i].typeName = "int") →
        (tour.madeUpNames formulation).Nodup) := by
  have nodup_iff : (tour.madeUpNames formulation).Nodup ↔ tour.LabelsSeparate formulation := by
    rw [← map_name_madeUp, List.nodup_map_iff_inj_on (nodup_madeUp simple formulation)]
    apply forall₄_congr
    intro quantity mem other mem'
    rw [name_eq_iff mem mem', and_imp]
  have nodup_of_alike (alike : tour.LabelsAlike) : (tour.madeUpNames formulation).Nodup :=
    nodup_iff.mpr (alike.labelsSeparate simple formulation)
  refine ⟨fun lifted program made => ?_, nodup_iff, nodup_of_alike, fun unequal integers =>
    nodup_of_alike (labelsAlike_of_integers unequal integers)⟩
  rw [vars_of_program made, vars, madeUpNames, List.append_assoc, List.map_append, arcVariables,
    List.map_map]
  rfl

/-- Three corners of a grid, with arcs between any two. -/
def corners : Tour where
  arcVariable := "x"
  stem := "_t_"
  nodes := #[.tuple [.int 1, .int 1], .tuple [.int 1, .int 11], .tuple [.int 11, .int 1]]
  arcs := [⟨0, 1, "x[(1,1),(1,11)]"⟩, ⟨1, 0, "x[(1,11),(1,1)]"⟩, ⟨0, 2, "x[(1,1),(11,1)]"⟩,
    ⟨2, 0, "x[(11,1),(1,1)]"⟩, ⟨1, 2, "x[(1,11),(11,1)]"⟩, ⟨2, 1, "x[(11,1),(1,11)]"⟩]
  start := 0

theorem names_distinct_iff_corners :
    (∀ formulation, (corners.madeUpNames formulation).Nodup) ∧
    ∀ formulation, (ring.madeUpNames formulation).Nodup := by
  constructor
  · intro formulation
    have alike : corners.LabelsAlike := ⟨by decide +kernel, by decide +kernel⟩
    exact (names_distinct_iff corners (by decide) formulation).2.2.1 alike
  · intro formulation
    exact (names_distinct_iff ring (by decide) formulation).2.2.2 (by decide) (by decide)

/-- A number and the text of its digits have the same label. -/
def twins : Tour where
  arcVariable := "x"
  stem := "_atsp_mtz0_"
  nodes := #[.int 0, .int 1, .str "1"]
  arcs := [⟨0, 1, "x[0,1]"⟩, ⟨1, 2, "x[1,'1']"⟩, ⟨2, 0, "x['1',0]"⟩]
  start := 0

/-- The graph is accepted and its program is written in every formulation, although the pairs of
the first node with the two others get the same variable. -/
theorem names_repeat_twins :
    ofValues "x" "_atsp_mtz0_" #[.int 0, .int 1, .str "1"]
      [.tuple [.int 0, .int 1], .tuple [.int 1, .str "1"], .tuple [.str "1", .int 0]] none =
        .ok twins ∧
    (∀ i j : Fin twins.size, (twins.nodes[i] == twins.nodes[j]) = true → i = j) ∧
    (twins.arcs.map fun arc => (arc.tail, arc.head)).Nodup ∧
    ∀ formulation, (twins.program formulation false).isOk = true ∧
      ¬ (twins.madeUpNames formulation).Nodup := by
  refine ⟨by with_unfolding_all rfl, by decide, by decide, ?_⟩
  intro formulation
  cases formulation <;> decide +kernel

end ModelWeaver.Tour
