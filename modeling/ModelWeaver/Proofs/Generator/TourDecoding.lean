import ModelWeaver.Proofs.Generator.RoundTrip
import ModelWeaver.Proofs.Model.Literals

/-!
# Decoded tours

A solution is decoded by going along chosen arcs from the start, until a node has no chosen
arc or was visited before. There are only so many nodes, so this comes to an end without a
limit on the steps. The variables of the arcs are told apart by the literals of their ends, so
a solution that chooses the arcs of a round trip is decoded to that round trip.
-/

namespace ModelWeaver

theorem IsCircuit.iterate_size {n : Nat} {next : Fin n → Fin n} (circuit : IsCircuit next)
    (start : Fin n) : next^[n] start = start := by
  rcases Finite.injective_iff_surjective.mp circuit.injective start with ⟨last, last_eq⟩
  have position_eq := circuit.position_last start last_eq
  have size_eq : n = circuit.position start last + 1 := by
    have := start.isLt
    omega
  calc next^[n] start
      = next (next^[circuit.position start last] start) := by
        rw [← Function.iterate_succ_apply' next, Nat.succ_eq_add_one, ← size_eq]
    _ = start := by rw [circuit.iterate_position, last_eq]

namespace Tour

open Model

/-! ## Ways -/

section Ways

variable {n : Nat} {next? : Fin n → Option (Fin n)} {visited : List (Fin n)} {current : Fin n}
  {way : List (Fin n)}

/-- The way on from a node, without a limit on the steps. It ends at a node that was visited
before or that has none after it. -/
inductive Leads (next? : Fin n → Option (Fin n)) : List (Fin n) → Fin n → List (Fin n) → Prop
  | ends {visited : List (Fin n)} {current : Fin n} (last : next? current = none) :
      Leads next? visited current []
  | closes {visited : List (Fin n)} {current next : Fin n} (step : next? current = some next)
      (again : next ∈ visited) : Leads next? visited current [next]
  | goesOn {visited : List (Fin n)} {current next : Fin n} {way : List (Fin n)}
      (step : next? current = some next) (unvisited : next ∉ visited)
      (later : Leads next? (next :: visited) next way) :
      Leads next? visited current (next :: way)

/-- There is only one way on. -/
theorem Leads.unique {other : List (Fin n)} (leads : Leads next? visited current way)
    (leads' : Leads next? visited current other) : way = other := by
  induction leads generalizing other with
  | ends last =>
    cases leads' with
    | ends _ => rfl
    | closes step _ => cases last.symm.trans step
    | goesOn step _ _ => cases last.symm.trans step
  | closes step again =>
    cases leads' with
    | ends last => cases last.symm.trans step
    | closes step' _ =>
      cases step.symm.trans step'
      rfl
    | goesOn step' unvisited _ =>
      cases step.symm.trans step'
      exact absurd again unvisited
  | goesOn step unvisited _ ih =>
    cases leads' with
    | ends last => cases last.symm.trans step
    | closes step' again =>
      cases step.symm.trans step'
      exact absurd again unvisited
    | goesOn step' _ later =>
      cases step.symm.trans step'
      rw [ih later]

/-- The limit on the steps is never met: each step but the last visits one more node. -/
theorem leads_follow {steps : Nat} (distinct : visited.Nodup)
    (enough : n < visited.length + steps) :
    Leads next? visited current (follow next? steps visited current) := by
  induction steps generalizing visited current with
  | zero =>
    have fits := distinct.length_le_card
    rw [Fintype.card_fin] at fits
    exact absurd enough (Nat.not_lt_of_le fits)
  | succ steps ih =>
    rw [follow]
    cases step : next? current with
    | none => exact .ends step
    | some next =>
      dsimp only
      split
      · next again => exact .closes step (List.contains_iff_mem.mp again)
      · next unvisited =>
          have unvisited : next ∉ visited := mt List.contains_iff_mem.mpr unvisited
          apply Leads.goesOn step unvisited
          apply ih (List.nodup_cons.mpr ⟨unvisited, distinct⟩)
          rw [List.length_cons]
          omega

theorem Leads.isChain (leads : Leads next? visited current way) :
    (current :: way).IsChain fun a b => next? a = some b := by
  induction leads with
  | ends _ => exact .singleton _
  | closes step _ => exact .cons_cons step (.singleton _)
  | goesOn step _ _ ih => exact .cons_cons step ih

theorem Leads.nodup_append (leads : Leads next? visited current way) (distinct : visited.Nodup) :
    (way.dropLast ++ visited).Nodup := by
  induction leads with
  | ends _ => exact distinct
  | closes _ _ => exact distinct
  | @goesOn visited _ next way _ unvisited later ih =>
    have apart := ih (List.nodup_cons.mpr ⟨unvisited, distinct⟩)
    cases way with
    | nil => exact distinct
    | cons second way =>
      rw [List.dropLast_cons_of_ne_nil (List.cons_ne_nil second way)]
      exact List.perm_middle.nodup_iff.mp apart

/-- A circuit leads through the nodes that are left and back to the start. -/
theorem leads_circuit {next : Fin n → Fin n} (circuit : IsCircuit next) {start : Fin n}
    (follows : ∀ v, next? v = some (next v))
    (passed : ∀ v, v ∈ visited ↔ circuit.position start v ≤ circuit.position start current)
    {left : Nat} (left_eq : circuit.position start current + left + 1 = n) :
    Leads next? visited current ((List.range (left + 1)).map fun k => next^[k + 1] current) := by
  induction left generalizing visited current with
  | zero =>
    have returns : next current = start := by
      by_contra other
      have next_position := circuit.position_next start other
      have := circuit.position_lt start (next current)
      omega
    have again : next current ∈ visited := by
      rw [passed, returns, circuit.position_start]
      exact Nat.zero_le _
    exact .closes (follows current) again
  | succ left ih =>
    have other : next current ≠ start := by
      intro returns
      have := circuit.position_last start returns
      omega
    have next_position := circuit.position_next start other
    rw [List.range_succ_eq_map, List.map_cons, List.map_map]
    apply Leads.goesOn (follows current)
    · rw [passed, next_position]
      exact Nat.not_succ_le_self _
    · apply ih
      · intro v
        rw [List.mem_cons, passed, ← (circuit.position_injective start).eq_iff, next_position]
        omega
      · rw [next_position]
        omega

end Ways

/-! ## Names of arcs -/

/-- The variable of an arc is named by the literals of its ends. -/
def IsNamed (arcVariable : String) (nodes : Array Value) (arc : TourArc nodes.size) : Prop :=
  ∃ tail head, literal nodes[arc.tail] = .ok tail ∧ literal nodes[arc.head] = .ok head ∧
    arc.name = s!"{arcVariable}[{tail},{head}]"

theorem toList_arcName (arcVariable tail head : String) :
    s!"{arcVariable}[{tail},{head}]".toList =
      arcVariable.toList ++ '[' :: (tail.toList ++ ',' :: (head.toList ++ [']'])) := by
  simp only [String.toList_append, List.append_assoc]
  rfl

/-- Arcs with the same variable have the same ends, because their literals tell unequal nodes
apart. -/
theorem ends_eq_of_name_eq {arcVariable : String} {nodes : Array Value}
    {arc other : TourArc nodes.size} (free : ∀ node ∈ nodes, node.FloatFree)
    (unequal : ∀ i j : Fin nodes.size, (nodes[i] == nodes[j]) = true → i = j)
    (named : IsNamed arcVariable nodes arc) (named' : IsNamed arcVariable nodes other)
    (same : arc.name = other.name) : arc.tail = other.tail ∧ arc.head = other.head := by
  rcases named with ⟨tail, head, tail_eq, head_eq, name_eq⟩
  rcases named' with ⟨tail', head', tail_eq', head_eq', name_eq'⟩
  have free_at : ∀ i : Fin nodes.size, nodes[i].FloatFree :=
    fun i => free _ (Array.getElem_mem i.isLt)
  rw [name_eq, name_eq', ← String.toList_inj, toList_arcName, toList_arcName] at same
  have ends := (List.cons.inj (List.append_cancel_left same)).2
  rcases toldApart_of_floatFree (free_at arc.tail) _ (free_at other.tail) _ _ _ _ tail_eq tail_eq'
    (closing_cons rfl _) (closing_cons rfl _) ends with ⟨tails, behind⟩
  rcases toldApart_of_floatFree (free_at arc.head) _ (free_at other.head) _ _ _ _ head_eq head_eq'
    (closing_cons rfl _) (closing_cons rfl _) (List.cons.inj behind).2 with ⟨heads, -⟩
  exact ⟨unequal _ _ tails, unequal _ _ heads⟩

/-! ## Graphs from values -/

/-- The tour starts at the given node, or else at the first. -/
def StartsAt (tour : Tour) (start : Option Value) : Prop :=
  start.elim (tour.start.val = 0) fun node => tour.nodes[tour.start].equals node = true

theorem yields_position (nodes : Array Value) (node : Value) :
    Yields (fun i : Fin nodes.size => nodes[i].equals node = true) (position nodes node) := by
  rw [position]
  cases found : nodes.findFinIdx? fun other => other.equals node with
  | none => exact Yields.error _
  | some i => exact Yields.ok (Array.findFinIdx?_eq_some_iff.mp found).1

theorem yields_makeArc (arcVariable : String) (nodes : Array Value)
    (ends : Fin nodes.size × Fin nodes.size) :
    Yields (IsNamed arcVariable nodes) (makeArc arcVariable nodes ends) := by
  refine (Yields.itself _).bind fun tail tail_eq => ?_
  refine (Yields.itself _).bind fun head head_eq => ?_
  exact Yields.ok ⟨tail, head, tail_eq, head_eq, rfl⟩

/-- A graph has the given nodes, of which there are two or more, and the given start, and its
arcs are named by their ends. -/
theorem yields_ofValues (arcVariable stem : String) (nodes : Array Value) (arcs : List Value)
    (start : Option Value) :
    Yields (fun tour => 2 ≤ tour.size ∧ tour.nodes = nodes ∧ tour.StartsAt start ∧
      ∀ arc ∈ tour.arcs, IsNamed tour.arcVariable tour.nodes arc)
      (ofValues arcVariable stem nodes arcs start) := by
  have makes := fun ends : List (Fin nodes.size × Fin nodes.size) =>
    Yields.mapM fun pair (_ : pair ∈ ends) => yields_makeArc arcVariable nodes pair
  rw [ofValues]
  split
  · exact Yields.error _
  · next several =>
      have several : 2 ≤ nodes.size := Nat.le_of_not_lt several
      refine Yields.after fun ends => ?_
      cases start with
      | none => exact (makes ends).bind fun arcs named => Yields.ok ⟨several, rfl, rfl, named⟩
      | some node =>
        refine (yields_position nodes node).bind fun start found => ?_
        exact (makes ends).bind fun arcs named => Yields.ok ⟨several, rfl, found, named⟩

/-! ## Decoded solutions -/

section Decoding

variable {tour : Tour} {solution : Solution} {next : tour.Node → tour.Node}

theorem exists_arc_of_next? {a b : tour.Node} (step : tour.next? solution a = some b) :
    ∃ arc ∈ tour.arcs, arc.tail = a ∧ arc.head = b ∧ 0.5 < solution arc.name := by
  rcases Option.map_eq_some_iff.mp step with ⟨arc, found, head_eq⟩
  have fits := List.find?_some found
  rw [Bool.and_eq_true, decide_eq_true_iff, decide_eq_true_iff] at fits
  exact ⟨arc, List.mem_of_find?_eq_some found, fits.1, head_eq, fits.2⟩

/-- The variables of the arcs from each node to the next. -/
def variablesAlong (tour : Tour) (next : tour.Node → tour.Node) : List String :=
  (tour.arcs.filter fun arc => arc.head = next arc.tail).map TourArc.name

theorem mem_variablesAlong {name : String} :
    name ∈ tour.variablesAlong next ↔
      ∃ arc ∈ tour.arcs, arc.head = next arc.tail ∧ arc.name = name := by
  simp only [variablesAlong, List.mem_map, List.mem_filter, decide_eq_true_iff, and_assoc]

/-- If the variables of a round trip have value one, and all others zero, chosen arcs lead along
the round trip. -/
theorem next?_eq_some (free : ∀ node ∈ tour.nodes, node.FloatFree)
    (unequal : ∀ i j : tour.Node, (tour.nodes[i] == tour.nodes[j]) = true → i = j)
    (named : ∀ arc ∈ tour.arcs, IsNamed tour.arcVariable tour.nodes arc)
    (trip : tour.IsRoundTrip next)
    (values : ∀ arc ∈ tour.arcs,
      solution arc.name = if arc.name ∈ tour.variablesAlong next then 1.0 else 0.0)
    (v : tour.Node) : tour.next? solution v = some (next v) := by
  cases step : tour.next? solution v with
  | none =>
    rcases trip.along v with ⟨arc, mem, tail_eq, head_eq⟩
    have value : solution arc.name = 1.0 := by
      rw [values arc mem, if_pos]
      exact mem_variablesAlong.mpr ⟨arc, mem, head_eq.trans (congrArg next tail_eq.symm), rfl⟩
    have missing := List.find?_eq_none.mp (Option.map_eq_none_iff.mp step) arc mem
    rw [Bool.and_eq_true, decide_eq_true_iff, decide_eq_true_iff, value] at missing
    exact absurd ⟨tail_eq, by decide⟩ missing
  | some w =>
    rcases exists_arc_of_next? step with ⟨arc, mem, tail_eq, head_eq, chosen⟩
    rw [values arc mem] at chosen
    split at chosen
    · next along =>
        rcases mem_variablesAlong.mp along with ⟨other, other_mem, leads, same⟩
        rcases ends_eq_of_name_eq free unequal (named other other_mem) (named arc mem) same
          with ⟨tails, heads⟩
        rw [← head_eq, ← heads, leads, tails, tail_eq]
    · exact absurd chosen (by decide)

/-- A route from the start along chosen arcs that goes on as long as it can. -/
structure FollowsChosen (tour : Tour) (solution : Solution) (route : List tour.Node) :
    Prop where
  begins : route.head? = some tour.start
  along : route.IsChain fun a b =>
    ∃ arc ∈ tour.arcs, arc.tail = a ∧ arc.head = b ∧ 0.5 < solution arc.name
  distinct : route.dropLast.Nodup
  short : route.length ≤ tour.size + 1
  leads : Leads (tour.next? solution) [tour.start] tour.start route.tail

theorem followsChosen_of_leads {way : List tour.Node}
    (leads : Leads (tour.next? solution) [tour.start] tour.start way) :
    tour.FollowsChosen solution (tour.start :: way) := by
  have visited := leads.nodup_append (List.nodup_singleton _)
  have fits := visited.length_le_card
  rw [Fintype.card_fin, List.length_append, List.length_dropLast, List.length_singleton] at fits
  constructor
  · rfl
  · exact leads.isChain.imp fun a b => exists_arc_of_next?
  · cases way with
    | nil => exact List.nodup_nil
    | cons second way => exact (List.perm_append_singleton _ _).nodup_iff.mp visited
  · rw [List.length_cons]
    omega
  · exact leads

theorem followsChosen_route (tour : Tour) (solution : Solution) :
    tour.FollowsChosen solution (tour.route solution) :=
  followsChosen_of_leads (leads_follow (List.nodup_singleton _) (Nat.lt_one_add_iff.mpr le_rfl))

/-- The route along a round trip. -/
theorem route_eq (circuit : IsCircuit next)
    (follows : ∀ v, tour.next? solution v = some (next v)) :
    tour.route solution = (List.range (tour.size + 1)).map fun k => next^[k] tour.start := by
  have positive : 0 < tour.size := Nat.zero_lt_of_lt tour.start.isLt
  have passed : ∀ v, v ∈ [tour.start] ↔
      circuit.position tour.start v ≤ circuit.position tour.start tour.start := by
    intro v
    rw [List.mem_singleton, circuit.position_start, Nat.le_zero,
      ← (circuit.position_injective tour.start).eq_iff, circuit.position_start]
  have left_eq : circuit.position tour.start tour.start + (tour.size - 1) + 1 = tour.size := by
    rw [circuit.position_start]
    omega
  have round := leads_circuit circuit follows passed left_eq
  rw [Nat.sub_add_cancel positive] at round
  rw [List.range_succ_eq_map, List.map_cons, List.map_map]
  exact congrArg (tour.start :: ·) ((followsChosen_route tour solution).leads.unique round)

end Decoding

/-- A solution is decoded to the way from the start along chosen arcs, on which no node but the
last is visited twice. If the variables of a round trip have value one and all others zero, it
is decoded to that round trip. -/
theorem decode_follows_chosen_arcs {arcVariable stem : String} {nodes : Array Value}
    {arcs : List Value} {start : Option Value} {tour : Tour}
    (built : ofValues arcVariable stem nodes arcs start = .ok tour) (solution : Solution) :
    (tour.decode solution).paths = [⟨1, (tour.route solution).map tour.label⟩] ∧
    tour.nodes = nodes ∧ tour.StartsAt start ∧
    tour.FollowsChosen solution (tour.route solution) ∧
    ∀ next, tour.IsRoundTrip next → (∀ node ∈ nodes, node.FloatFree) →
      (∀ i j : Fin nodes.size, (nodes[i] == nodes[j]) = true → i = j) →
      (∀ arc ∈ tour.arcs,
        solution arc.name = if arc.name ∈ tour.variablesAlong next then 1.0 else 0.0) →
      tour.route solution = (List.range (tour.size + 1)).map (fun k => next^[k] tour.start) ∧
        next^[tour.size] tour.start = tour.start ∧
        (tour.route solution).length = tour.size + 1 := by
  rcases yields_ofValues arcVariable stem nodes arcs start built with ⟨-, rfl, starts, named⟩
  refine ⟨rfl, rfl, starts, tour.followsChosen_route solution, ?_⟩
  intro next trip free unequal values
  have route_eq := route_eq trip.circuit (next?_eq_some free unequal named trip values)
  refine ⟨route_eq, trip.circuit.iterate_size tour.start, ?_⟩
  rw [route_eq, List.length_map, List.length_range]

/-- Three nodes, two of them with the same label, and arcs between any two. -/
def mixedGraph : Tour where
  arcVariable := "x"
  stem := "_t_"
  nodes := #[.int 1, .str "1", .tuple [.int 1, .str "a,b"]]
  arcs := [⟨0, 1, "x[1,'1']"⟩, ⟨1, 0, "x['1',1]"⟩, ⟨0, 2, "x[1,(1,'a,b')]"⟩,
    ⟨2, 0, "x[(1,'a,b'),1]"⟩, ⟨1, 2, "x['1',(1,'a,b')]"⟩, ⟨2, 1, "x[(1,'a,b'),'1']"⟩]
  start := 1

def arcPairs (tour : Tour) : List Value :=
  tour.arcs.map fun arc => .tuple [tour.nodes[arc.tail], tour.nodes[arc.head]]

/-- The next node in the order of the nodes. -/
def nextInMixed (v : Fin mixedGraph.size) : Fin mixedGraph.size := Fin.ofNat 3 (v.val + 1)

/-- A solution that goes from each node to the next. -/
def aroundMixed : Solution := fun name =>
  if name ∈ mixedGraph.variablesAlong nextInMixed then 1.0 else 0.0

theorem ofValues_mixedGraph :
    ofValues "x" "_t_" mixedGraph.nodes mixedGraph.arcPairs (some (.str "1")) = .ok mixedGraph := by
  with_unfolding_all rfl

theorem isRoundTrip_nextInMixed : mixedGraph.IsRoundTrip nextInMixed := by
  have reached : ∀ a b, nextInMixed^[3 + b.val - a.val] a = b := by decide
  exact ⟨fun a b => ⟨_, reached a b⟩, by decide⟩

theorem decode_follows_chosen_arcs_mixedGraph :
    ofValues "x" "_t_" mixedGraph.nodes mixedGraph.arcPairs (some (.str "1")) = .ok mixedGraph ∧
    mixedGraph.IsRoundTrip nextInMixed ∧
    (mixedGraph.decode aroundMixed).paths = [⟨1, ["1", "1_a,b", "1", "1"]⟩] ∧
    (mixedGraph.route aroundMixed).map Fin.val = [1, 2, 0, 1] := by
  have facts := decode_follows_chosen_arcs ofValues_mixedGraph aroundMixed
  have unequal : ∀ i j : Fin mixedGraph.size,
      (mixedGraph.nodes[i] == mixedGraph.nodes[j]) = true → i = j := by decide
  have route_eq := (facts.2.2.2.2 nextInMixed isRoundTrip_nextInMixed (by decide) unequal
    fun _ _ => rfl).1
  rw [facts.1, route_eq]
  exact ⟨ofValues_mixedGraph, isRoundTrip_nextInMixed, by decide +kernel, by decide⟩

end Tour

end ModelWeaver
