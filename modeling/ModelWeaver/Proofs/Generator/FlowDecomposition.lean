import Mathlib.Algebra.BigOperators.Group.Finset.Piecewise
import Mathlib.Algebra.GroupWithZero.Nat
import Mathlib.Algebra.Order.BigOperators.Group.Finset
import ModelWeaver.Proofs.Generator.Walks

/-!
# Decoding a flow

A flow is decoded by taking paths off it, each along the first arcs that have flow left. `Finds`
and `Peels` describe this search and its rounds without any bound on their number; since they hold
of what is computed, the decoding ends by itself.

A flow is the sum of the paths taken off and of what remains of it. If it is conserved, so is what
remains, and the search can only get stuck when nothing remains.
-/

namespace ModelWeaver.FlowGraph

/-! ## Rounds without a bound -/

/-- Where the way from a node along first usable arcs ends: at the sink, with these
arcs, or nowhere. -/
inductive Finds (graph : FlowGraph) (flows : Array Nat) : Nat → Option (List Nat) → Prop
  | arrived : Finds graph flows graph.sink (some [])
  | stuck {node : Nat} (underway : node ≠ graph.sink)
      (unusable : graph.usableArc? flows node = none) : Finds graph flows node none
  | step {node a : Nat} {arc : FlowArc} {rest : Option (List Nat)}
      (underway : node ≠ graph.sink) (usable : graph.usableArc? flows node = some a)
      (found : graph.arcs[a]? = some arc) (onwards : Finds graph flows arc.head rest) :
      Finds graph flows node (rest.map (a :: ·))

/-- The rounds that use up to `left` units of a flow and count what they find. In each
round the arcs of the path differ and have as much flow left as is taken off. -/
inductive Peels (graph : FlowGraph) :
    Array Nat → Nat → Patterns → Patterns → Prop
  | done {flows : Array Nat} {patterns : Patterns} :
      Peels graph flows 0 patterns patterns
  | stuck {flows : Array Nat} {left : Nat} {patterns : Patterns}
      (more : 0 < left) (nowhere : graph.Finds flows graph.source none) :
      Peels graph flows left patterns patterns
  | idle {flows : Array Nat} {left : Nat} {patterns : Patterns}
      (more : 0 < left) (there : graph.Finds flows graph.source (some [])) :
      Peels graph flows left patterns patterns
  | round {flows : Array Nat} {left amount : Nat} {path : List Nat}
      {patterns result : Patterns}
      (more : 0 < left) (finds : graph.Finds flows graph.source (some path))
      (proper : path ≠ [])
      (amount_eq : amount = (path.map fun a => flows.getD a 0).foldl min left)
      (distinct : path.Nodup) (covered : ∀ a ∈ path, amount ≤ flows.getD a 0)
      (within : amount ≤ left)
      (rest : Peels graph (takeOff amount path flows) (left - amount)
        (countPattern amount (graph.pattern path) patterns) result) :
      Peels graph flows left patterns result

theorem usableArc?_eq_some {graph : FlowGraph} {flows : Array Nat} {node a : Nat}
    (usable : graph.usableArc? flows node = some a) :
    ∃ arc, graph.arcs[a]? = some arc ∧ arc.tail = node ∧ 0 < flows.getD a 0 := by
  have holds := List.find?_some usable
  simp only [Bool.and_eq_true, Option.any_eq_true, decide_eq_true_eq] at holds
  rcases holds with ⟨⟨arc, found, tail_eq⟩, positive⟩
  exact ⟨arc, found, tail_eq, positive⟩

/-- A way to the sink is a walk on which every arc has flow left. -/
theorem Finds.walk {graph : FlowGraph} {flows : Array Nat} {node : Nat} {path : List Nat}
    (finds : graph.Finds flows node (some path)) :
    graph.Walk node path graph.sink ∧ ∀ a ∈ path, 0 < flows.getD a 0 := by
  generalize outcome_eq : some path = outcome at finds
  induction finds generalizing path with
  | arrived =>
    cases outcome_eq
    exact ⟨rfl, by simp⟩
  | stuck => cases outcome_eq
  | @step node a arc rest _ usable found _ ih =>
    rcases Option.map_eq_some_iff.mp outcome_eq.symm with ⟨later, rfl, rfl⟩
    rcases ih rfl with ⟨walk, positive⟩
    rcases usableArc?_eq_some usable with ⟨arc', found', tail_eq, positive_here⟩
    rw [found] at found'
    cases found'
    constructor
    · exact ⟨arc, found, tail_eq, walk⟩
    · intro b mem
      rcases List.mem_cons.mp mem with rfl | later_mem
      · exact positive_here
      · exact positive b later_mem

section Built

variable {capacity : Load} {items : List Item} {graph : FlowGraph} {flows : Array Nat}
  {path : List Nat}

/-- The bounded search finds what the search without a bound does, if the bound is
above the layers still to climb. -/
theorem Built.finds_path? (built : Built capacity items graph) (flows : Array Nat)
    {steps v : Nat} {node : FlowNode} (found : graph.nodes[v]? = some node)
    (enough : items.length + 2 ≤ node.layer + steps) :
    graph.Finds flows v (graph.path? flows steps v) := by
  induction steps generalizing v node with
  | zero =>
    have := built.layer_le found
    omega
  | succ steps ih =>
    by_cases at_sink : v = graph.sink
    · rw [path?, if_pos at_sink, at_sink]
      exact Finds.arrived
    · cases usable : graph.usableArc? flows v with
      | none =>
        simp only [path?, if_neg at_sink, usable]
        exact Finds.stuck at_sink usable
      | some a =>
        rcases usableArc?_eq_some usable with ⟨arc, arc_at, rfl, _⟩
        rcases built.lead arc_at with ⟨tail, head, tail_at, head_at, allowed⟩
        rw [tail_at] at found
        cases found
        have climbs := allowed.1
        have onwards := ih head_at (by omega)
        have path_eq : graph.path? flows (steps + 1) arc.tail =
            (graph.path? flows steps arc.head).map (a :: ·) := by
          simp only [path?, if_neg at_sink, usable, Option.bind_eq_bind, Option.bind_some,
            arc_at]
          cases graph.path? flows steps arc.head <;> rfl
        rw [path_eq]
        exact Finds.step at_sink usable arc_at onwards

/-! ## Taking a path off -/

/-- The flow on all arcs with a property. -/
def flowOn (graph : FlowGraph) (flows : Array Nat) (property : FlowArc → Bool) : Nat :=
  ∑ a ∈ Finset.range graph.arcs.size, if graph.onArc property a then flows.getD a 0 else 0

theorem flowOn_pos {property : FlowArc → Bool} {a : Nat} {arc : FlowArc}
    (found : graph.arcs[a]? = some arc) (holds : property arc = true)
    (positive : 0 < flows.getD a 0) : 0 < graph.flowOn flows property := by
  obtain ⟨bound, _⟩ := Array.getElem?_eq_some_iff.mp found
  apply Finset.sum_pos' (fun _ _ => Nat.zero_le _)
  refine ⟨a, Finset.mem_range.mpr bound, ?_⟩
  rw [onArc_of_eq_some found, holds]
  exact positive

theorem flowOn_eq_zero_of_usableArc?_eq_none {node : Nat}
    (unusable : graph.usableArc? flows node = none) :
    graph.flowOn flows (fun arc => arc.tail = node) = 0 := by
  apply Finset.sum_eq_zero
  intro a mem
  rw [usableArc?, List.find?_eq_none] at unusable
  have none_here := unusable a (List.mem_range.mpr (Finset.mem_range.mp mem))
  by_cases out : graph.onArc (fun arc => arc.tail = node) a = true
  · rw [if_pos out]
    rw [onArc] at out
    simpa [out] using none_here
  · rw [if_neg out]

theorem getD_modify_sub (flows : Array Nat) (amount a b : Nat) :
    (flows.modify b (· - amount)).getD a 0 =
      if b = a then flows.getD a 0 - amount else flows.getD a 0 := by
  rw [Array.getD_eq_getD_getElem?, Array.getElem?_modify, Array.getD_eq_getD_getElem?]
  split
  · cases flows[a]? <;> simp
  · rfl

theorem getD_takeOff (distinct : path.Nodup) (flows : Array Nat) (amount a : Nat) :
    (takeOff amount path flows).getD a 0 =
      if a ∈ path then flows.getD a 0 - amount else flows.getD a 0 := by
  induction path generalizing flows with
  | nil => rfl
  | cons b path ih =>
    rcases List.nodup_cons.mp distinct with ⟨absent, distinct⟩
    change (takeOff amount path (flows.modify b (· - amount))).getD a 0 = _
    rw [ih distinct, getD_modify_sub]
    by_cases same : b = a
    · subst same
      simp [absent]
    · simp [same, Ne.symm same]

theorem sum_map_amount (path : List Nat) (property : Nat → Bool) (amount : Nat) :
    (path.map fun a => if property a then amount else 0).sum = amount * path.countP property := by
  induction path with
  | nil => rfl
  | cons a path ih =>
    rw [List.map_cons, List.sum_cons, ih, List.countP_cons]
    split <;> simp [Nat.mul_add, Nat.add_comm]

/-- A flow is what remains of it and what was taken off. -/
theorem flowOn_takeOff {amount : Nat} (distinct : path.Nodup)
    (bounds : ∀ a ∈ path, a < graph.arcs.size) (covered : ∀ a ∈ path, amount ≤ flows.getD a 0)
    (property : FlowArc → Bool) :
    graph.flowOn flows property =
      graph.flowOn (takeOff amount path flows) property +
        amount * path.countP (graph.onArc property) := by
  have split_each : ∀ a ∈ Finset.range graph.arcs.size,
      (if graph.onArc property a then flows.getD a 0 else 0) =
        (if graph.onArc property a then (takeOff amount path flows).getD a 0 else 0) +
          if a ∈ path.toFinset then (if graph.onArc property a then amount else 0) else 0 := by
    intro a _
    rw [getD_takeOff distinct]
    by_cases on_path : a ∈ path
    · have enough := covered a on_path
      simp only [on_path, if_true, List.mem_toFinset]
      split <;> omega
    · simp [on_path]
  have inside : Finset.range graph.arcs.size ∩ path.toFinset = path.toFinset := by
    apply Finset.inter_eq_right.mpr
    intro a mem
    exact Finset.mem_range.mpr (bounds a (List.mem_toFinset.mp mem))
  rw [flowOn, Finset.sum_congr rfl split_each, Finset.sum_add_distrib, Finset.sum_ite_mem, inside,
    List.sum_toFinset _ distinct, sum_map_amount]
  rfl

theorem Walk.lt_size {v target : Nat} (walk : graph.Walk v path target) :
    ∀ a ∈ path, a < graph.arcs.size := by
  induction path generalizing v with
  | nil => simp
  | cons b path ih =>
    rcases walk with ⟨arc, found, _, walk⟩
    intro a mem
    rcases List.mem_cons.mp mem with rfl | later
    · exact (Array.getElem?_eq_some_iff.mp found).1
    · exact ih walk a later

theorem foldl_min_spec (values : List Nat) (left : Nat) :
    values.foldl min left ≤ left ∧ (∀ value ∈ values, values.foldl min left ≤ value) ∧
      (values.foldl min left = left ∨ values.foldl min left ∈ values) := by
  induction values generalizing left with
  | nil => simp
  | cons value values ih =>
    rcases ih (min left value) with ⟨below, below_all, attained⟩
    rw [List.foldl_cons]
    refine ⟨Nat.le_trans below (Nat.min_le_left _ _), ?_, ?_⟩
    · intro other mem
      rcases List.mem_cons.mp mem with rfl | later
      · exact Nat.le_trans below (Nat.min_le_right _ _)
      · exact below_all other later
    · rcases attained with start | later
      · rcases Nat.le_total left value with less | greater
        · left
          rw [start, Nat.min_eq_left less]
        · right
          rw [start, Nat.min_eq_right greater]
          exact List.mem_cons_self
      · exact Or.inr (List.mem_cons_of_mem value later)

/-! ## The rounds come to an end -/

def activeArcs (graph : FlowGraph) (flows : Array Nat) : Finset Nat :=
  (Finset.range graph.arcs.size).filter fun a => 0 < flows.getD a 0

/-- Taking off all that is left on an arc leaves fewer arcs with flow. -/
theorem card_activeArcs_takeOff_lt (graph : FlowGraph) {amount a : Nat} (distinct : path.Nodup)
    (mem : a ∈ path) (bound : a < graph.arcs.size) (amount_eq : amount = flows.getD a 0)
    (positive : 0 < amount) :
    (graph.activeArcs (takeOff amount path flows)).card < (graph.activeArcs flows).card := by
  apply Finset.card_lt_card
  rw [Finset.ssubset_iff_of_subset]
  · refine ⟨a, ?_, ?_⟩
    · exact Finset.mem_filter.mpr ⟨Finset.mem_range.mpr bound, amount_eq ▸ positive⟩
    · intro active
      have remains := (Finset.mem_filter.mp active).2
      rw [getD_takeOff distinct, if_pos mem] at remains
      omega
  · intro b active
    rcases Finset.mem_filter.mp active with ⟨in_range, remains⟩
    apply Finset.mem_filter.mpr ⟨in_range, ?_⟩
    rw [getD_takeOff distinct] at remains
    split at remains <;> omega

/-- The bounded rounds are the rounds without a bound, if the bound is above the
number of arcs with flow: each round but the last uses one up. -/
theorem Built.peels_peel (built : Built capacity items graph) {rounds left : Nat}
    {patterns : Patterns}
    (enough : left = 0 ∨ (graph.activeArcs flows).card < rounds) :
    graph.Peels flows left patterns (graph.peel rounds flows left patterns) := by
  induction rounds generalizing flows left patterns with
  | zero =>
    rcases enough with rfl | none_left
    · exact Peels.done
    · exact absurd none_left (Nat.not_lt_zero _)
  | succ rounds ih =>
    by_cases finished : left = 0
    · subst finished
      exact Peels.done
    have more : 0 < left := Nat.pos_of_ne_zero finished
    have finds : graph.Finds flows graph.source
        (graph.path? flows graph.nodes.size graph.source) :=
      built.finds_path? flows built.source_at (by simpa using built.layers_le)
    rw [peel, if_neg finished]
    generalize graph.path? flows graph.nodes.size graph.source = outcome at finds
    match outcome with
    | none => exact Peels.stuck more finds
    | some [] => exact Peels.idle more finds
    | some (first :: path) =>
      rcases finds.walk with ⟨walk, positive⟩
      have distinct := walk.nodup built built.source_at
      rcases foldl_min_spec ((first :: path).map fun a => flows.getD a 0) left with
        ⟨within, below_all, attained⟩
      have covered : ∀ a ∈ first :: path,
          ((first :: path).map fun a => flows.getD a 0).foldl min left ≤ flows.getD a 0 :=
        fun a mem => below_all _ (List.mem_map_of_mem mem)
      apply Peels.round more finds (List.cons_ne_nil _ _) rfl distinct covered within
      apply ih
      -- Either the limit is used up, or an arc of the path is.
      rcases attained with all_left | on_arc
      · exact Or.inl (by rw [all_left, Nat.sub_self])
      · right
        rcases List.mem_map.mp on_arc with ⟨a, mem, amount_eq⟩
        have used := card_activeArcs_takeOff_lt graph distinct mem
          (walk.lt_size a mem) amount_eq.symm (amount_eq ▸ positive a mem)
        rcases enough with none_left | enough
        · exact absurd none_left finished
        · exact Nat.lt_of_lt_of_le used (Nat.le_of_lt_succ enough)

theorem Built.peels_decompose (built : Built capacity items graph) (flows : Array Nat)
    (limit : Nat) : graph.Peels flows limit [] (graph.decompose flows limit) := by
  apply built.peels_peel
  right
  apply Nat.lt_succ_of_le
  exact (Finset.card_filter_le _ _).trans (Nat.le_of_eq (Finset.card_range _))

end Built

/-! ## Counting patterns -/

def totalCount (patterns : Patterns) : Nat := (patterns.map Prod.fst).sum

/-- The number of paths that pack something. -/
def countOf (packing : Packing) (patterns : Patterns) : Nat :=
  ((patterns.filter fun entry => packing ∈ entry.2).map Prod.fst).sum

theorem countOf_cons (packing : Packing) (entry : Nat × List Packing) (patterns : Patterns) :
    countOf packing (entry :: patterns) =
      (if packing ∈ entry.2 then entry.1 else 0) + countOf packing patterns := by
  by_cases mem : packing ∈ entry.2 <;> simp [countOf, mem]

theorem totalCount_countPattern (amount : Nat) (pattern : List Packing) (patterns : Patterns) :
    totalCount (countPattern amount pattern patterns) = totalCount patterns + amount := by
  induction patterns with
  | nil => simp [countPattern, totalCount]
  | cons entry patterns ih =>
    simp only [totalCount, List.map_cons, List.sum_cons, countPattern] at ih ⊢
    split
    · simp only [List.map_cons, List.sum_cons]
      omega
    · simp only [List.map_cons, List.sum_cons, ih]
      omega

theorem countOf_countPattern (packing : Packing) (amount : Nat) (pattern : List Packing)
    (patterns : Patterns) :
    countOf packing (countPattern amount pattern patterns) =
      countOf packing patterns + if packing ∈ pattern then amount else 0 := by
  induction patterns with
  | nil => by_cases mem : packing ∈ pattern <;> simp [countPattern, countOf, mem]
  | cons entry patterns ih =>
    rw [countPattern]
    by_cases same : entry.2 = pattern
    · rw [if_pos same, countOf_cons, countOf_cons, same]
      split <;> omega
    · rw [if_neg same, countOf_cons, countOf_cons, ih, Nat.add_assoc]

theorem map_snd_countPattern (amount : Nat) (pattern : List Packing) (patterns : Patterns) :
    (countPattern amount pattern patterns).map Prod.snd =
      if pattern ∈ patterns.map Prod.snd then patterns.map Prod.snd
      else patterns.map Prod.snd ++ [pattern] := by
  induction patterns with
  | nil => simp [countPattern]
  | cons entry patterns ih =>
    rw [countPattern]
    by_cases same : entry.2 = pattern
    · simp [same]
    · rw [if_neg same, List.map_cons, ih]
      have other : pattern ≠ entry.2 := fun equal => same equal.symm
      simp only [List.map_cons, List.mem_cons, other, false_or]
      split <;> rfl

theorem pos_of_mem_countPattern {amount : Nat} {pattern : List Packing}
    {patterns : Patterns} (positive : 0 < amount)
    (all_positive : ∀ entry ∈ patterns, 0 < entry.1) :
    ∀ entry ∈ countPattern amount pattern patterns, 0 < entry.1 := by
  induction patterns with
  | nil => simpa [countPattern] using positive
  | cons other patterns ih =>
    rcases List.forall_mem_cons.mp all_positive with ⟨here, later⟩
    rw [countPattern]
    split
    · exact List.forall_mem_cons.mpr ⟨Nat.add_pos_left here amount, later⟩
    · exact List.forall_mem_cons.mpr ⟨here, ih later⟩

/-- Count what some rounds found. Each took an amount off a path. -/
def countRounds (graph : FlowGraph) (rounds : List (Nat × List Nat))
    (patterns : Patterns) : Patterns :=
  rounds.foldl (fun patterns round => countPattern round.1 (graph.pattern round.2) patterns)
    patterns

section Rounds

variable {graph : FlowGraph} {rounds : List (Nat × List Nat)}
  {patterns : Patterns}

theorem totalCount_countRounds :
    totalCount (graph.countRounds rounds patterns) =
      totalCount patterns + (rounds.map Prod.fst).sum := by
  induction rounds generalizing patterns with
  | nil => rfl
  | cons round rounds ih =>
    change totalCount (graph.countRounds rounds (countPattern _ _ patterns)) = _
    rw [ih, totalCount_countPattern, List.map_cons, List.sum_cons,
      Nat.add_assoc]

theorem countOf_countRounds (packing : Packing) :
    countOf packing (graph.countRounds rounds patterns) = countOf packing patterns +
      (rounds.map fun round => if packing ∈ graph.pattern round.2 then round.1 else 0).sum := by
  induction rounds generalizing patterns with
  | nil => rfl
  | cons round rounds ih =>
    change countOf packing (graph.countRounds rounds (countPattern _ _ patterns)) = _
    rw [ih, countOf_countPattern, List.map_cons, List.sum_cons, Nat.add_assoc]

theorem nodup_countRounds (nodup : (patterns.map Prod.snd).Nodup) :
    ((graph.countRounds rounds patterns).map Prod.snd).Nodup := by
  induction rounds generalizing patterns with
  | nil => exact nodup
  | cons round rounds ih =>
    apply ih
    rw [map_snd_countPattern]
    split
    · exact nodup
    · next absent =>
        rw [List.nodup_append]
        refine ⟨nodup, List.nodup_singleton _, ?_⟩
        intro other mem own own_mem equal
        rw [List.mem_singleton.mp own_mem] at equal
        exact absent (equal ▸ mem)

theorem pos_of_mem_countRounds (positive : ∀ round ∈ rounds, 0 < round.1)
    (all_positive : ∀ entry ∈ patterns, 0 < entry.1) :
    ∀ entry ∈ graph.countRounds rounds patterns, 0 < entry.1 := by
  induction rounds generalizing patterns with
  | nil => exact all_positive
  | cons round rounds ih =>
    rcases List.forall_mem_cons.mp positive with ⟨here, later⟩
    exact ih later (pos_of_mem_countPattern here all_positive)

/-- Every counted pattern was there before or was found in some round. -/
theorem mem_countRounds_found :
    ∀ pattern ∈ (graph.countRounds rounds patterns).map Prod.snd,
      pattern ∈ patterns.map Prod.snd ∨ ∃ round ∈ rounds, pattern = graph.pattern round.2 := by
  induction rounds generalizing patterns with
  | nil => exact fun pattern mem => Or.inl mem
  | cons round rounds ih =>
    intro pattern mem
    rcases ih pattern mem with before | ⟨later, later_mem, rfl⟩
    · rw [map_snd_countPattern] at before
      split at before
      · exact Or.inl before
      · rcases List.mem_append.mp before with old | new
        · exact Or.inl old
        · exact Or.inr ⟨round, List.mem_cons_self, List.mem_singleton.mp new⟩
    · exact Or.inr ⟨later, List.mem_cons_of_mem round later_mem, rfl⟩

end Rounds

/-! ## A flow is the sum of its paths -/

section Flow

variable {capacity : Load} {items : List Item} {graph : FlowGraph} {flows : Array Nat}

variable (built : Built capacity items graph)
include built

/-- The rounds add up with what remains to the flow they were taken from, and they end
when the limit is used up or the search gets stuck. -/
theorem Peels.rounds {left : Nat} {patterns result : Patterns}
    (run : graph.Peels flows left patterns result) :
    ∃ rounds remaining, result = graph.countRounds rounds patterns ∧
      (∀ round ∈ rounds, 0 < round.1 ∧ graph.Walk graph.source round.2 graph.sink) ∧
      (rounds.map Prod.fst).sum ≤ left ∧
      (∀ property, graph.flowOn flows property = graph.flowOn remaining property +
        (rounds.map fun round => round.1 * round.2.countP (graph.onArc property)).sum) ∧
      ((rounds.map Prod.fst).sum = left ∨ graph.Finds remaining graph.source none) := by
  induction run with
  | @done flows patterns =>
    exact ⟨[], flows, rfl, by simp, Nat.le_refl 0, fun _ => rfl, Or.inl rfl⟩
  | @stuck flows left patterns _ nowhere =>
    exact ⟨[], flows, rfl, by simp, Nat.zero_le left, fun _ => rfl, Or.inr nowhere⟩
  | idle _ there => exact absurd there.walk.1 built.source_ne_sink
  | @round flows left amount path patterns result more finds _ amount_eq distinct covered
      within _ ih =>
      rcases ih with ⟨rounds, remaining, result_eq, walks, sum_le, parts, ended⟩
      rcases finds.walk with ⟨walk, positive⟩
      have amount_pos : 0 < amount := by
        rcases (foldl_min_spec (path.map fun a => flows.getD a 0) left).2.2 with all_left | on_arc
        · exact amount_eq.trans all_left ▸ more
        · rcases List.mem_map.mp on_arc with ⟨a, mem, value_eq⟩
          exact amount_eq.trans value_eq.symm ▸ positive a mem
      refine ⟨(amount, path) :: rounds, remaining, result_eq, ?_, ?_, ?_, ?_⟩
      · exact List.forall_mem_cons.mpr ⟨⟨amount_pos, walk⟩, walks⟩
      · rw [List.map_cons, List.sum_cons]
        omega
      · intro property
        rw [flowOn_takeOff distinct walk.lt_size covered, parts property, List.map_cons,
          List.sum_cons, Nat.add_assoc, Nat.add_comm (List.sum _)]
      · rcases ended with used_up | stuck
        · left
          rw [List.map_cons, List.sum_cons]
          omega
        · exact Or.inr stuck

/-- As much flows out of each node as into it, but for source and sink. -/
def Conserves (graph : FlowGraph) (flows : Array Nat) : Prop :=
  ∀ v < graph.nodes.size, v ≠ graph.source → v ≠ graph.sink →
    graph.flowOn flows (fun arc => arc.tail = v) = graph.flowOn flows (fun arc => arc.head = v)

instance (graph : FlowGraph) (flows : Array Nat) : Decidable (graph.Conserves flows) :=
  inferInstanceAs (Decidable (∀ v < graph.nodes.size, _))

omit built in
theorem flowOn_eq_zero_iff {property : FlowArc → Bool} :
    graph.flowOn flows property = 0 ↔
      ∀ ⦃a arc⦄, graph.arcs[a]? = some arc → property arc = true → flows.getD a 0 = 0 := by
  constructor
  · intro none_flows a arc found holds
    by_contra some_flows
    exact Nat.ne_of_gt (flowOn_pos found holds (Nat.pos_of_ne_zero some_flows)) none_flows
  · intro none_flows
    apply Finset.sum_eq_zero
    intro a mem
    have bound := Finset.mem_range.mp mem
    have found : graph.arcs[a]? = some graph.arcs[a] := Array.getElem?_eq_getElem bound
    rw [onArc_of_eq_some found]
    split
    · next holds => exact none_flows found holds
    · rfl

/-- In a conserved flow the search does not get stuck after a usable arc, so it gets
stuck only at a node that nothing leaves. -/
theorem Finds.flowOn_eq_zero (conserves : graph.Conserves flows) {v : Nat}
    (finds : graph.Finds flows v none) :
    v ≠ graph.sink ∧ graph.flowOn flows (fun arc => arc.tail = v) = 0 := by
  generalize outcome_eq : none = outcome at finds
  induction finds with
  | arrived => cases outcome_eq
  | stuck underway unusable =>
    exact ⟨underway, flowOn_eq_zero_of_usableArc?_eq_none unusable⟩
  | @step node a arc rest underway usable found onwards ih =>
    have rest_eq : rest = none := by simpa using outcome_eq
    rcases ih rest_eq.symm with ⟨not_sink, none_leaves⟩
    rcases usableArc?_eq_some usable with ⟨arc', found', _, positive⟩
    rw [found] at found'
    cases found'
    have enters : 0 < graph.flowOn flows (fun other => other.head = arc.head) :=
      flowOn_pos found (by simp) positive
    rcases built.lead found with ⟨_, _, _, head_at, _⟩
    have balance := conserves arc.head (Array.getElem?_eq_some_iff.mp head_at).1
      (built.head_ne_source found) not_sink
    omega

/-- A conserved flow that does not leave the source is nowhere. -/
theorem Conserves.flowOn_eq_zero (conserves : graph.Conserves flows)
    (none_leaves : graph.flowOn flows (fun arc => arc.tail = graph.source) = 0)
    (property : FlowArc → Bool) : graph.flowOn flows property = 0 := by
  -- By induction on the layer that an arc starts from: nothing flows into it.
  have no_flow : ∀ layer, ∀ ⦃a arc tail⦄, graph.arcs[a]? = some arc →
      graph.nodes[arc.tail]? = some tail → tail.layer = layer → flows.getD a 0 = 0 := by
    intro layer
    induction layer with
    | zero =>
      intro a arc tail found tail_at bottom
      have at_source : arc.tail = graph.source :=
        (built.layered.first tail_at bottom).trans built.source_first.symm
      exact flowOn_eq_zero_iff.mp none_leaves found (by simp [at_source])
    | succ layer ih =>
      intro a arc tail found tail_at layer_eq
      have none_enters : graph.flowOn flows (fun other => other.head = arc.tail) = 0 := by
        rw [flowOn_eq_zero_iff]
        intro b other other_at enters
        rcases built.lead other_at with ⟨below, head, below_at, head_at, allowed⟩
        rw [of_decide_eq_true enters, tail_at] at head_at
        cases head_at
        have climbs := allowed.1
        exact ih other_at below_at (by omega)
      have not_source : arc.tail ≠ graph.source := by
        intro at_source
        rw [at_source, built.source_at] at tail_at
        cases tail_at
        cases layer_eq
      have before_sink : arc.tail < graph.sink :=
        built.layered.tail_lt (fun _ _ _ allowed => allowed.1) (Array.mem_of_getElem? found)
      have balance := conserves arc.tail (Array.getElem?_eq_some_iff.mp tail_at).1 not_source
        (Nat.ne_of_lt before_sink)
      exact flowOn_eq_zero_iff.mp (balance.trans none_enters) found (by simp)
  rw [flowOn_eq_zero_iff]
  intro a arc found _
  rcases built.lead found with ⟨tail, _, tail_at, _, _⟩
  exact no_flow tail.layer found tail_at rfl

theorem Walk.count_source {path : List Nat} (walk : graph.Walk graph.source path graph.sink) :
    path.countP (graph.onArc fun arc => arc.tail = graph.source) = 1 := by
  have balance := walk.count_tail graph.source
  rw [if_neg built.source_ne_sink.symm, if_pos rfl] at balance
  have none_enters : path.countP (graph.onArc fun arc => arc.head = graph.source) = 0 := by
    rw [List.countP_eq_zero]
    intro a mem
    have bound := walk.lt_size a mem
    have found : graph.arcs[a]? = some graph.arcs[a] := Array.getElem?_eq_getElem bound
    rw [onArc_of_eq_some found]
    simpa using built.head_ne_source found
  omega

theorem Walk.count_packing {path : List Nat} (walk : graph.Walk graph.source path graph.sink)
    (packing : Packing) :
    path.countP (graph.onArc fun arc => arc.packing = some packing) =
      if packing ∈ graph.pattern path then 1 else 0 := by
  rw [← (walk.nodup_pattern built built.source_at).count, pattern, List.count_filterMap]
  apply List.countP_congr
  intro a _
  cases found : graph.arcs[a]? <;> simp [onArc, found]

theorem sum_countP_packing {rounds : List (Nat × List Nat)}
    (walks : ∀ round ∈ rounds, graph.Walk graph.source round.2 graph.sink) (packing : Packing) :
    (rounds.map fun round =>
        round.1 * round.2.countP (graph.onArc fun arc => arc.packing = some packing)).sum =
      countOf packing (graph.countRounds rounds []) := by
  rw [countOf_countRounds, countOf, List.filter_nil, List.map_nil, List.sum_nil, Nat.zero_add]
  congr 1
  apply List.map_congr_left
  intro round mem
  rw [(walks round mem).count_packing built]
  split <;> simp

omit built in
/-- What remains of a conserved flow is conserved. -/
theorem conserves_of_parts {remaining : Array Nat} {rounds : List (Nat × List Nat)}
    (conserves : graph.Conserves flows)
    (walks : ∀ round ∈ rounds, graph.Walk graph.source round.2 graph.sink)
    (parts : ∀ property, graph.flowOn flows property = graph.flowOn remaining property +
      (rounds.map fun round => round.1 * round.2.countP (graph.onArc property)).sum) :
    graph.Conserves remaining := by
  intro v bound not_source not_sink
  have balance := conserves v bound not_source not_sink
  have same : (rounds.map fun round =>
        round.1 * round.2.countP (graph.onArc fun arc => arc.tail = v)) =
      rounds.map fun round =>
        round.1 * round.2.countP (graph.onArc fun arc => arc.head = v) := by
    apply List.map_congr_left
    intro round mem
    have passes := (walks round mem).count_tail v
    rw [if_neg (Ne.symm not_sink), if_neg (Ne.symm not_source)] at passes
    rw [Nat.add_right_cancel passes]
  rw [parts, parts, same] at balance
  exact Nat.add_right_cancel balance

end Flow

/-- Decoding a flow in a graph that was built ends, never takes off more than there is, and
finds distinct patterns of paths from source to sink. It uses at most the limit, and no packing
more often than it flows. If the flow is conserved and the limit is what leaves the source, all
of it is found. -/
theorem decompose_decodes (capacity : Load) (items : List Item) (graph : FlowGraph)
    (built : build capacity items = .ok graph) (flows : Array Nat) (limit : Nat) :
    let patterns := graph.decompose flows limit
    graph.Peels flows limit [] patterns ∧
      (patterns.map Prod.snd).Nodup ∧
      (∀ entry ∈ patterns, 0 < entry.1 ∧
        ∃ path, graph.Walk graph.source path graph.sink ∧ entry.2 = graph.pattern path) ∧
      totalCount patterns ≤ limit ∧
      (∀ packing, countOf packing patterns ≤
        graph.flowOn flows fun arc => arc.packing = some packing) ∧
      (graph.Conserves flows →
        graph.flowOn flows (fun arc => arc.tail = graph.source) = limit →
          totalCount patterns = limit ∧
            ∀ packing, countOf packing patterns =
              graph.flowOn flows fun arc => arc.packing = some packing) := by
  intro patterns
  replace built := build_built built
  have run : graph.Peels flows limit [] patterns := built.peels_decompose flows limit
  rcases run.rounds built with ⟨rounds, remaining, patterns_eq, found, sum_le, parts, ended⟩
  have walks : ∀ round ∈ rounds, graph.Walk graph.source round.2 graph.sink :=
    fun round mem => (found round mem).2
  have total_eq : totalCount patterns = (rounds.map Prod.fst).sum := by
    rw [patterns_eq, totalCount_countRounds]
    exact Nat.zero_add _
  have packing_parts : ∀ packing,
      graph.flowOn flows (fun arc => arc.packing = some packing) =
        graph.flowOn remaining (fun arc => arc.packing = some packing) +
          countOf packing patterns := by
    intro packing
    rw [parts, sum_countP_packing built walks, patterns_eq]
  refine ⟨run, ?_, ?_, ?_, ?_, ?_⟩
  · rw [patterns_eq]
    exact nodup_countRounds List.nodup_nil
  · intro entry mem
    rw [patterns_eq] at mem
    constructor
    · exact pos_of_mem_countRounds (fun round round_mem => (found round round_mem).1)
        (by simp) entry mem
    · rcases mem_countRounds_found entry.2 (List.mem_map_of_mem mem) with
        none_before | ⟨round, round_mem, pattern_eq⟩
      · simp at none_before
      · exact ⟨round.2, walks round round_mem, pattern_eq⟩
  · rw [total_eq]
    exact sum_le
  · intro packing
    rw [packing_parts]
    exact Nat.le_add_left _ _
  · intro conserves leaves_eq
    have remaining_conserves := conserves_of_parts conserves walks parts
    have source_parts : limit = graph.flowOn remaining (fun arc => arc.tail = graph.source) +
        (rounds.map Prod.fst).sum := by
      rw [← leaves_eq, parts]
      congr 2
      apply List.map_congr_left
      intro round mem
      rw [(walks round mem).count_source built, Nat.mul_one]
    have none_leaves : graph.flowOn remaining (fun arc => arc.tail = graph.source) = 0 := by
      rcases ended with used_up | stuck
      · omega
      · exact (stuck.flowOn_eq_zero built remaining_conserves).2
    constructor
    · omega
    · intro packing
      rw [packing_parts, remaining_conserves.flowOn_eq_zero built none_leaves, Nat.zero_add]

/-- The graph of a bin for five and two items that weigh two and three. -/
def twoItems : FlowGraph where
  nodes := #[⟨[0], 0⟩, ⟨[2], 1⟩, ⟨[4], 1⟩, ⟨[0], 1⟩, ⟨[5], 2⟩, ⟨[2], 2⟩, ⟨[4], 2⟩, ⟨[3], 2⟩,
    ⟨[0], 2⟩, ⟨[], 3⟩]
  arcs := #[⟨0, 1, some ⟨0, 1⟩⟩, ⟨0, 2, some ⟨0, 2⟩⟩, ⟨0, 3, none⟩, ⟨1, 4, some ⟨1, 1⟩⟩,
    ⟨1, 5, none⟩, ⟨2, 6, none⟩, ⟨3, 7, some ⟨1, 1⟩⟩, ⟨3, 8, none⟩, ⟨4, 9, none⟩, ⟨5, 9, none⟩,
    ⟨6, 9, none⟩, ⟨7, 9, none⟩, ⟨8, 9, none⟩]
  source := 0
  sink := 9

/-- A flow of four bins in the graph of two items, decoded in full. -/
theorem decompose_decodes_twoItems :
    let flows := #[2, 1, 1, 1, 1, 1, 1, 0, 1, 1, 1, 1, 0]
    build [5] [⟨[2], 2⟩, ⟨[3], 1⟩] = .ok twoItems ∧ twoItems.Conserves flows ∧
      twoItems.flowOn flows (fun arc => arc.tail = twoItems.source) = 4 ∧
      totalCount (twoItems.decompose flows 4) = 4 ∧
      countOf ⟨1, 1⟩ (twoItems.decompose flows 4) =
        twoItems.flowOn flows fun arc => arc.packing = some ⟨1, 1⟩ := by
  intro flows
  have built : build [5] [⟨[2], 2⟩, ⟨[3], 1⟩] = .ok twoItems := by rfl
  have conserves : twoItems.Conserves flows := by decide +kernel
  have leaves : twoItems.flowOn flows (fun arc => arc.tail = twoItems.source) = 4 := by
    decide +kernel
  have decodes := decompose_decodes [5] [⟨[2], 2⟩, ⟨[3], 1⟩] twoItems built flows 4
  have complete := decodes.2.2.2.2.2 conserves leaves
  exact ⟨built, conserves, leaves, complete.1, complete.2 ⟨1, 1⟩⟩

end ModelWeaver.FlowGraph
