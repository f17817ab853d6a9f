import ModelWeaver.Proofs.Guarantee

/-!
# Matching arguments is exact

The slots of a call list its parameters in order, so they are known by what each parameter holds.
Positional arguments, arguments with a name and taking an argument each change that in one way.
Matching therefore succeeds exactly if every argument has a place of its own and the parameters
that must get one do, and what is taken afterwards does not depend on the order of the takes.
-/

namespace ModelWeaver

/-! ## Slots -/

/-- The slots of parameters that hold some arguments. -/
def slotsOf (params : List String) (held : String → Option Value) :
    List (String × Option Value) :=
  params.map fun name => (name, held name)

section Slots

variable {params : List String} {held : String → Option Value}

theorem lookup_slotsOf (name : String) :
    (slotsOf params held).lookup name = if name ∈ params then some (held name) else none := by
  induction params with
  | nil => rfl
  | cons param params ih =>
    rw [slotsOf, List.map_cons, NameMap.lookup_cons_eq, ← slotsOf, ih]
    by_cases same : name = param
    · rw [if_pos same, if_pos (same ▸ List.mem_cons_self), same]
    · rw [if_neg same]
      exact if_congr (by rw [List.mem_cons, or_iff_right same]) rfl rfl

theorem map_slotsOf (name : String) (value? : Option Value) :
    (slotsOf params held).map (fun slot => if slot.1 == name then (slot.1, value?) else slot) =
      slotsOf params fun other => if other = name then value? else held other := by
  rw [slotsOf, slotsOf, List.map_map]
  refine List.map_congr_left fun other _ => ?_
  simp only [Function.comp, beq_iff_eq]
  split <;> rfl

theorem find?_take_slotsOf_eq_none_iff (required : Nat) :
    ((slotsOf params held).take required).find? (fun slot => slot.2.isNone) = none ↔
      ∀ name ∈ params.take required, held name ≠ none := by
  rw [slotsOf, ← List.map_take, List.find?_eq_none, List.forall_mem_map]
  simp only [Option.isNone_iff_eq_none]

end Slots

namespace Arguments

variable {params : List String} {held : String → Option Value} {callee name : String}

/-! ## Arguments with a name -/

theorem fill_eq_ok_iff {value : Value} {slots : List (String × Option Value)} :
    fill callee (slotsOf params held) name value = .ok slots ↔
      name ∈ params ∧ held name = none ∧
        slots = slotsOf params fun other => if other = name then some value else held other := by
  rw [fill, lookup_slotsOf, map_slotsOf]
  by_cases known : name ∈ params
  · rw [if_pos known]
    cases held name with
    | none => simp [known, eq_comm]
    | some other => simp
  · rw [if_neg known]
    simp [known]

/-- Arguments with a name must go to different parameters that have none yet. -/
theorem foldlM_fill_eq_ok_iff {entries : List (String × Value)}
    {slots : List (String × Option Value)} :
    entries.foldlM (fun slots entry => fill callee slots entry.1 entry.2) (slotsOf params held) =
        .ok slots ↔
      (∀ entry ∈ entries, entry.1 ∈ params) ∧ (∀ entry ∈ entries, held entry.1 = none) ∧
        (entries.map Prod.fst).Nodup ∧
        slots = slotsOf params fun name => (held name).or (entries.lookup name) := by
  induction entries generalizing held with
  | nil => simp [pure, Except.pure, eq_comm]
  | cons entry entries ih =>
    rcases entry with ⟨name, value⟩
    -- what the parameters hold after the first argument
    let held' := fun other => if other = name then some value else held other
    have free_iff : ∀ other, held' other = none ↔ other ≠ name ∧ held other = none := by
      intro other
      by_cases same : other = name <;> simp [held', same]
    have merged : held name = none →
        (fun other => (held' other).or (entries.lookup other)) =
          fun other => (held other).or (((name, value) :: entries).lookup other) := by
      intro free
      funext other
      rw [NameMap.lookup_cons_eq]
      by_cases same : other = name <;> simp [held', same, free]
    rw [List.foldlM_cons, bind_eq_ok_iff]
    simp only [fill_eq_ok_iff]
    constructor
    · rintro ⟨_, ⟨known, free, rfl⟩, filled⟩
      obtain ⟨allKnown, allFree, distinct, rfl⟩ := ih.mp filled
      have absent : name ∉ entries.map Prod.fst := by
        intro mem
        obtain ⟨entry, inEntries, same⟩ := List.mem_map.mp mem
        exact ((free_iff entry.1).mp (allFree entry inEntries)).1 same
      refine ⟨List.forall_mem_cons.mpr ⟨known, allKnown⟩, List.forall_mem_cons.mpr ⟨free, ?_⟩,
        List.nodup_cons.mpr ⟨absent, distinct⟩, congrArg (slotsOf params) (merged free)⟩
      exact fun entry mem => ((free_iff entry.1).mp (allFree entry mem)).2
    · rintro ⟨known, free, distinct, rfl⟩
      obtain ⟨known, allKnown⟩ := List.forall_mem_cons.mp known
      obtain ⟨free, allFree⟩ := List.forall_mem_cons.mp free
      obtain ⟨absent, distinct⟩ := List.nodup_cons.mp distinct
      refine ⟨_, ⟨known, free, rfl⟩, ih.mpr ⟨allKnown, ?_, distinct, ?_⟩⟩
      · intro entry mem
        refine (free_iff entry.1).mpr ⟨?_, allFree entry mem⟩
        exact fun same => absent (List.mem_map.mpr ⟨entry, mem, same⟩)
      · exact congrArg (slotsOf params) (merged free).symm

/-! ## Positional arguments -/

theorem zip_eq_slotsOf (distinct : params.Nodup) {positional : List Value}
    (fits : positional.length ≤ params.length) :
    params.zip (positional.map some ++ List.replicate (params.length - positional.length) none) =
      slotsOf params fun name => positional[params.idxOf name]? := by
  refine List.ext_getElem (by simp [slotsOf]; omega) fun i inZip inSlots => ?_
  have inParams : i < params.length := by simpa [slotsOf] using inSlots
  simp only [slotsOf, List.getElem_zip, List.getElem_map, distinct.idxOf_getElem i inParams,
    List.getElem_append, List.length_map, List.getElem_replicate]
  split
  · next given => rw [List.getElem?_eq_getElem given]
  · next missing => rw [List.getElem?_eq_none (Nat.le_of_not_lt missing)]

/-! ## What a parameter gets -/

/-- The values that a call gives to a parameter: the positional one in its place, and those with
its name. -/
def received (args : Arguments) (params : List String) (name : String) : List Value :=
  args.positional[params.idxOf name]?.toList ++
    (args.keyword.filter (·.1 == name)).map Prod.snd

/-- The argument of a parameter: the positional one in its place, or else the one with its
name. -/
def given (args : Arguments) (params : List String) (name : String) : Option Value :=
  args.positional[params.idxOf name]?.or (args.keyword.lookup name)

variable {args : Arguments} {required : Nat} {bound : Bound}

theorem head?_filter_eq_lookup (entries : List (String × Value)) (name : String) :
    ((entries.filter (·.1 == name)).map Prod.snd).head? = entries.lookup name := by
  induction entries with
  | nil => rfl
  | cons entry entries ih =>
    rw [NameMap.lookup_cons_eq, List.filter_cons]
    by_cases same : entry.1 = name
    · simp [same]
    · simp [same, Ne.symm same, ih]

theorem head?_received (name : String) :
    (args.received params name).head? = args.given params name := by
  rw [received, given, List.head?_append, head?_filter_eq_lookup]
  cases args.positional[params.idxOf name]? <;> rfl

theorem received_eq_nil_iff :
    args.received params name = [] ↔ args.given params name = none := by
  rw [← head?_received, List.head?_eq_none_iff]

theorem length_received (name : String) :
    (args.received params name).length =
      args.positional[params.idxOf name]?.toList.length +
        (args.keyword.map Prod.fst).count name := by
  rw [received, List.length_append, List.length_map, List.count, List.countP_map,
    ← List.countP_eq_length_filter]
  rfl

/-- No parameter gets two values if no name is repeated and none belongs to a parameter that has
a positional argument. -/
theorem received_le_one_iff (known : ∀ entry ∈ args.keyword, entry.1 ∈ params) :
    (∀ name ∈ params, (args.received params name).length ≤ 1) ↔
      (∀ entry ∈ args.keyword, args.positional[params.idxOf entry.1]? = none) ∧
        (args.keyword.map Prod.fst).Nodup := by
  simp only [length_received]
  constructor
  · intro once
    refine ⟨fun entry mem => ?_, List.nodup_iff_count_le_one.mpr fun name => ?_⟩
    · have here := once entry.1 (known entry mem)
      have named : 0 < (args.keyword.map Prod.fst).count entry.1 :=
        List.count_pos_iff.mpr (List.mem_map_of_mem mem)
      cases found : args.positional[params.idxOf entry.1]? with
      | none => rfl
      | some value =>
        rw [found, Option.toList_some, List.length_singleton] at here
        omega
    · by_cases mem : name ∈ args.keyword.map Prod.fst
      · obtain ⟨entry, inKeyword, rfl⟩ := List.mem_map.mp mem
        have here := once entry.1 (known entry inKeyword)
        omega
      · rw [List.count_eq_zero.mpr mem]
        exact Nat.zero_le 1
  · rintro ⟨free, distinct⟩ name -
    by_cases mem : name ∈ args.keyword.map Prod.fst
    · obtain ⟨entry, inKeyword, rfl⟩ := List.mem_map.mp mem
      rw [free entry inKeyword, List.count_eq_one_of_mem distinct mem]
      exact Nat.le_refl 1
    · rw [List.count_eq_zero.mpr mem]
      cases args.positional[params.idxOf name]? with
      | none => exact Nat.zero_le 1
      | some value => exact Nat.le_refl 1

/-! ## Matching -/

theorem length_le_of_bind (matched : args.bind callee params required = .ok bound) :
    args.positional.length ≤ params.length := by
  rw [Arguments.bind] at matched
  split at matched
  · cases matched
  · next fits => exact Nat.le_of_not_lt fits

/-- Matching gives the positional arguments to the first parameters, then those with a name to
theirs, and then looks for an empty slot. -/
theorem bind_eq_ok_iff_exists (distinct : params.Nodup)
    (fits : args.positional.length ≤ params.length) :
    args.bind callee params required = .ok bound ↔
      ∃ slots, args.keyword.foldlM (fun slots entry => fill callee slots entry.1 entry.2)
          (slotsOf params fun name => args.positional[params.idxOf name]?) = .ok slots ∧
        (slots.take required).find? (fun slot => slot.2.isNone) = none ∧
        bound = ⟨callee, slots⟩ := by
  rw [Arguments.bind, if_neg (Nat.not_lt.mpr fits), ← zip_eq_slotsOf distinct fits]
  refine bind_eq_ok_iff.trans (exists_congr fun slots => and_congr_right fun _ => ?_)
  cases (slots.take required).find? fun slot => slot.2.isNone with
  | none => exact ⟨fun returned => ⟨rfl, (Except.ok.inj returned).symm⟩, fun same => same.2 ▸ rfl⟩
  | some slot =>
    constructor
    · rintro ⟨⟩
    · rintro ⟨⟨⟩, -⟩

/-- Matching succeeds if every argument has a place of its own and no required parameter is left
out, and then the parameters hold what they were given. -/
theorem bind_eq_ok_iff_received (distinct : params.Nodup) :
    args.bind callee params required = .ok bound ↔
      (args.positional.length ≤ params.length ∧
        (∀ entry ∈ args.keyword, entry.1 ∈ params) ∧
        (∀ name ∈ params, (args.received params name).length ≤ 1) ∧
        ∀ name ∈ params.take required, args.received params name ≠ []) ∧
      bound = ⟨callee, slotsOf params (args.given params)⟩ := by
  constructor
  · intro matched
    have fits := length_le_of_bind matched
    obtain ⟨slots, filled, complete, rfl⟩ := (bind_eq_ok_iff_exists distinct fits).mp matched
    obtain ⟨known, free, once, rfl⟩ := foldlM_fill_eq_ok_iff.mp filled
    refine ⟨⟨fits, known, (received_le_one_iff known).mpr ⟨free, once⟩, fun name mem => ?_⟩, rfl⟩
    rw [ne_eq, received_eq_nil_iff]
    exact (find?_take_slotsOf_eq_none_iff required).mp complete name mem
  · rintro ⟨⟨fits, known, once, complete⟩, rfl⟩
    obtain ⟨free, once⟩ := (received_le_one_iff known).mp once
    refine (bind_eq_ok_iff_exists distinct fits).mpr ⟨_,
      foldlM_fill_eq_ok_iff.mpr ⟨known, free, once, rfl⟩, ?_, rfl⟩
    refine (find?_take_slotsOf_eq_none_iff required).mpr fun name mem => ?_
    exact fun missing => complete name mem (received_eq_nil_iff.mpr missing)

theorem given_eq_none_of_not_mem (fits : args.positional.length ≤ params.length)
    (known : ∀ entry ∈ args.keyword, entry.1 ∈ params) (unknown : name ∉ params) :
    args.given params name = none := by
  have noKeyword : args.keyword.lookup name = none := by
    refine List.lookup_eq_none_iff.mpr fun entry mem => bne_iff_ne.mpr ?_
    rintro rfl
    exact unknown (known entry mem)
  rw [given, noKeyword, List.idxOf_eq_length unknown, List.getElem?_eq_none fits]
  rfl

end Arguments

/-! ## Taking -/

namespace Bound

variable {params : List String} {held : String → Option Value} {callee : String}

theorem run_take_slotsOf (name : String) :
    (take name).run ⟨callee, slotsOf params held⟩ =
      .ok ((if name ∈ params then held name else none).filter (· != .none),
        ⟨callee, slotsOf params fun other => if other = name then none else held other⟩) := by
  rw [StateT.run, take_eq, lookup_slotsOf, without, map_slotsOf]
  by_cases known : name ∈ params
  · rw [if_pos known, if_pos known]
    cases held name with
    | none => rfl
    | some value => cases value <;> rfl
  · rw [if_neg known, if_neg known]
    rfl

/-- Taking arguments leaves their parameters without one, and the others as they were. -/
theorem exists_run_mapM_take (names : List String) :
    ∃ answers, (names.mapM take).run ⟨callee, slotsOf params held⟩ =
      .ok (answers, ⟨callee, slotsOf params fun other =>
        if other ∈ names then none else held other⟩) := by
  induction names generalizing held with
  | nil => exact ⟨[], by simp only [List.not_mem_nil, if_false]; rfl⟩
  | cons name names ih =>
    obtain ⟨answers, ran⟩ := @ih fun other => if other = name then none else held other
    have emptied : (fun other => if other ∈ names then none
        else if other = name then none else held other) =
          fun other => if other ∈ name :: names then none else held other := by
      funext other
      by_cases same : other = name <;> simp [same]
    refine ⟨(if name ∈ params then held name else none).filter (· != .none) :: answers, ?_⟩
    rw [List.mapM_cons, StateT.run_bind, ← emptied]
    refine bind_eq_ok_iff.mpr ⟨_, run_take_slotsOf name, ?_⟩
    rw [StateT.run_bind]
    exact bind_eq_ok_iff.mpr ⟨_, ran, rfl⟩

end Bound

/-- Matching succeeds exactly if there are not too many positional arguments, every name is that
of a parameter, no parameter gets two values and each required one gets a value. Whatever has been
taken before, taking a name then gives the positional argument in its place or else the one with
the name, unless that is `None`, and taking it again gives nothing. -/
theorem Arguments.binding_exact {params : List String} (distinct : params.Nodup)
    (arguments : Arguments) (callee : String) (required : Nat) :
    ((∃ bound, arguments.bind callee params required = .ok bound) ↔
      arguments.positional.length ≤ params.length ∧
        (∀ entry ∈ arguments.keyword, entry.1 ∈ params) ∧
        (∀ name ∈ params, (arguments.received params name).length ≤ 1) ∧
        ∀ name ∈ params.take required, arguments.received params name ≠ []) ∧
    ∀ bound, arguments.bind callee params required = .ok bound →
      ∀ (earlier : List String) (name : String), ∃ answers before after,
        (earlier.mapM Bound.take).run bound = .ok (answers, before) ∧
          (Bound.take name).run before =
            .ok (if name ∈ earlier then none
              else (arguments.given params name).filter (· != .none), after) := by
  refine ⟨?_, fun bound matched earlier name => ?_⟩
  · constructor
    · rintro ⟨bound, matched⟩
      exact ((Arguments.bind_eq_ok_iff_received distinct).mp matched).1
    · exact fun fits => ⟨_, (Arguments.bind_eq_ok_iff_received distinct).mpr ⟨fits, rfl⟩⟩
  · obtain ⟨⟨fits, known, -, -⟩, rfl⟩ := (Arguments.bind_eq_ok_iff_received distinct).mp matched
    obtain ⟨answers, ran⟩ := Bound.exists_run_mapM_take earlier
    have answer : (if name ∈ params then if name ∈ earlier then none
        else arguments.given params name else none).filter (· != .none) =
          if name ∈ earlier then none else (arguments.given params name).filter (· != .none) := by
      by_cases taken : name ∈ earlier
      · rw [if_pos taken, if_pos taken, ite_self, Option.filter_none]
      · rw [if_neg taken, if_neg taken]
        by_cases isParam : name ∈ params
        · rw [if_pos isParam]
        · rw [if_neg isParam, Arguments.given_eq_none_of_not_mem fits known isParam]
    have taken : (Bound.take name).run ⟨callee, slotsOf params fun other =>
        if other ∈ earlier then none else arguments.given params other⟩ = _ :=
      Bound.run_take_slotsOf name
    rw [answer] at taken
    exact ⟨answers, _, _, ran, taken⟩

/-- One positional argument and one with a name, for three parameters of which one is required. -/
theorem Arguments.binding_exact_at_sample :
    let params := ["typ", "lb", "ub"]
    let arguments : Arguments := ⟨[.int 1], [("ub", .int 5), ("lb", .none)]⟩
    params.Nodup ∧ ∃ bound, arguments.bind "VAR" params 1 = .ok bound ∧
      ∃ answers before after, (["lb", "typ"].mapM Bound.take).run bound = .ok (answers, before) ∧
        (Bound.take "ub").run before = .ok (some (.int 5), after) := by
  intro params arguments
  have distinct : params.Nodup := by decide
  obtain ⟨succeeds, takes⟩ := binding_exact distinct arguments "VAR" 1
  obtain ⟨bound, matched⟩ := succeeds.mpr (by decide)
  exact ⟨distinct, bound, matched, takes bound matched ["lb", "typ"] "ub"⟩

end ModelWeaver
