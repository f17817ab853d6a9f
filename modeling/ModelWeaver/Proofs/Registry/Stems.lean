import ModelWeaver.Engine
import ModelWeaver.Proofs.Registry.Calls
import ModelWeaver.Proofs.Text.Digits

/-!
# Stems of names

Every call gets a stem for the names that it makes up: the name of the command in lower case and
the number of the call, between underscores. A name may end in digits, so the number of a call can
be read as part of the name of another command. `stems_distinct_iff` says for which commands this
cannot happen. For the commands that are always there, no stem even starts with another.
-/

namespace ModelWeaver

variable {first second : String} {i j : Nat}

/-! ## Stems -/

/-- The stem of a call of a command that has a given number. -/
def stem (name : String) (number : Nat) : String := s!"_{Text.lower name}{number}_"

theorem Registry.nextStem_eq (registry : Registry) (name : String) :
    registry.nextStem name = stem name registry.calls := rfl

theorem toList_stem (name : String) (number : Nat) :
    (stem name number).toList =
      '_' :: ((Text.lower name).toList ++ (Nat.toDigits 10 number ++ ['_'])) := by
  have digits : (toString number).toList = Nat.toDigits 10 number := by
    rw [Nat.toString_eq_repr, Nat.toList_repr]
  simp only [stem, String.toList_append, digits, List.append_assoc]
  rfl

theorem stem_eq_iff :
    stem first i = stem second j ↔
      (Text.lower first).toList ++ Nat.toDigits 10 i =
        (Text.lower second).toList ++ Nat.toDigits 10 j := by
  rw [← String.toList_inj, toList_stem, toList_stem, List.cons.injEq, ← List.append_assoc,
    ← List.append_assoc, List.append_left_inj]
  simp

/-- Whether a name in lower case is another one with a positive number behind it. -/
def Numbered (longer shorter : String) : Prop :=
  ∃ number, 0 < number ∧ Text.lower longer = Text.lower shorter ++ toString number

theorem numbered_iff {longer shorter : String} :
    Numbered longer shorter ↔
      ∃ number, 0 < number ∧
        (Text.lower longer).toList = (Text.lower shorter).toList ++ Nat.toDigits 10 number := by
  simp only [Numbered, ← String.toList_inj, String.toList_append, Nat.toString_eq_repr,
    Nat.toList_repr]

/-- Calls with different numbers have the same stem only if the name of one is that of the
other with a number behind it. -/
theorem numbered_of_stem_eq (different : i ≠ j) (same : stem first i = stem second j) :
    Numbered first second ∨ Numbered second first := by
  have longer_numbered : ∀ {longer shorter : List Char} {i j : Nat}, i ≠ j →
      ∀ digits, longer = shorter ++ digits → Nat.toDigits 10 j = digits ++ Nat.toDigits 10 i →
        ∃ number, 0 < number ∧ longer = shorter ++ Nat.toDigits 10 number := by
    intro longer shorter i j different digits longer_eq number_eq
    have nonempty : digits ≠ [] := by
      rintro rfl
      exact different (toDigits_injective number_eq.symm)
    rcases exists_toDigits_of_append nonempty Nat.toDigits_ne_nil number_eq with
      ⟨number, positive, rfl⟩
    exact ⟨number, positive, longer_eq⟩
  rw [numbered_iff, numbered_iff]
  rcases List.append_eq_append_iff.mp (stem_eq_iff.mp same) with
    ⟨digits, second_eq, first_digits⟩ | ⟨digits, first_eq, second_digits⟩
  · exact .inr (longer_numbered (Ne.symm different) digits second_eq first_digits)
  · exact .inl (longer_numbered different digits first_eq second_digits)

/-- A name with a number behind it gets the stem of the name alone, at another number. -/
theorem Numbered.exists_stem_eq {longer shorter : String} (numbered : Numbered longer shorter)
    (i : Nat) : ∃ j, i < j ∧ stem longer i = stem shorter j := by
  rcases numbered_iff.mp numbered with ⟨number, positive, longer_eq⟩
  rcases exists_toDigits_append positive i with ⟨j, later, digits_eq⟩
  refine ⟨j, later, ?_⟩
  rw [stem_eq_iff, longer_eq, List.append_assoc, digits_eq]

/-- Names of which neither starts with the other stay so in stems, whatever the numbers; and
stems for the same name differ before they end. -/
theorem not_prefix_stem (different : i ≠ j)
    (apart : Text.lower first = Text.lower second ∨
      ¬ (Text.lower first).toList <+: (Text.lower second).toList ∧
        ¬ (Text.lower second).toList <+: (Text.lower first).toList) :
    ¬ (stem first i).toList <+: (stem second j).toList := by
  intro isPrefix
  rw [toList_stem, toList_stem, List.cons_prefix_cons] at isPrefix
  rcases apart with same | ⟨not_first, not_second⟩
  · rw [same, List.prefix_append_right_inj] at isPrefix
    rcases isPrefix.2 with ⟨rest, digits_eq⟩
    have cut := congrArg (List.takeWhile (· ≠ '_')) digits_eq
    rw [List.append_assoc, List.singleton_append, takeWhile_toDigits, takeWhile_toDigits] at cut
    exact different (toDigits_injective cut)
  · rcases List.prefix_or_prefix_of_prefix ((List.prefix_append _ _).trans isPrefix.2)
      (List.prefix_append _ _) with first_prefix | second_prefix
    · exact not_first first_prefix
    · exact not_second second_prefix

theorem append_ne_append (not_first : ¬ first.toList <+: second.toList)
    (not_second : ¬ second.toList <+: first.toList) (suffix suffix' : String) :
    first ++ suffix ≠ second ++ suffix' := by
  intro same
  have first_prefix : first.toList <+: (second ++ suffix').toList := by
    rw [← same, String.toList_append]
    exact List.prefix_append _ _
  have second_prefix : second.toList <+: (second ++ suffix').toList := by
    rw [String.toList_append]
    exact List.prefix_append _ _
  exact (List.prefix_or_prefix_of_prefix first_prefix second_prefix).elim not_first not_second

/-! ## Requests for stems -/

/-- A call of a command. -/
structure CommandCall where
  name : String
  index : Option String := none
  arguments : Arguments := {}

/-- What gets a stem: a caller that asks for one, or a call of a command. -/
inductive StemRequest where
  | plain (name : String)
  | call (call : CommandCall)

def StemRequest.name : StemRequest → String
  | .plain name => name
  | .call made => made.name

namespace Session

/-- The stem that is handed out for a request, if any, and the session after it. A call of a
known command has a stem. -/
def serve (session : Session) : StemRequest → Option String × Session
  | .plain name =>
    (some (session.registry.nextStem name),
      { session with registry := session.registry.countCall })
  | .call call =>
    (if session.registry.commands.contains call.name then
        some (session.callOf call.name call.index call.arguments).invocation.stem
      else none,
      stateAfter (invoke call.name call.index call.arguments) session)

def stems (session : Session) : List StemRequest → List String
  | [] => []
  | request :: requests =>
    (session.serve request).1.toList ++ (session.serve request).2.stems requests

end Session

/-- The name for which a request gets a stem. Calls of unknown commands get none. -/
def Registry.served? (registry : Registry) : StemRequest → Option String
  | .plain name => some name
  | .call call => if registry.commands.contains call.name then some call.name else none

namespace Registry

variable {registry : Registry}

theorem name_of_served? {request : StemRequest} {name : String}
    (served : registry.served? request = some name) : request.name = name := by
  cases request with
  | plain plain => exact Option.some.inj served
  | call call =>
    rw [served?] at served
    split at served
    · exact Option.some.inj served
    · cases served

theorem contains_of_served? {requests : List StemRequest}
    (known : ∀ request ∈ requests, registry.commands.contains request.name = true) {name : String}
    (served : name ∈ requests.filterMap registry.served?) :
    registry.commands.contains name = true := by
  rcases List.mem_filterMap.mp served with ⟨request, mem, served⟩
  rw [← name_of_served? served]
  exact known request mem

end Registry

theorem pairwise_zipIdx_lt (names : List String) (start : Nat) :
    (names.zipIdx start).Pairwise fun first second => first.2 < second.2 := by
  rw [← List.pairwise_map, List.zipIdx_map_snd]
  exact List.pairwise_lt_range'

namespace Session

/-- A request that gets a stem counts, and no request changes the commands. -/
theorem serve_spec (session : Session) (request : StemRequest) :
    (session.serve request).1 =
        (session.registry.served? request).map session.registry.nextStem ∧
      (session.serve request).2.registry.commands = session.registry.commands ∧
      (session.serve request).2.registry.calls =
        session.registry.calls + (session.registry.served? request).toList.length := by
  cases request with
  | plain name => exact ⟨rfl, rfl, rfl⟩
  | call call =>
    rcases invoke_cases session call.name call.index call.arguments with
      ⟨unknown, refused⟩ | ⟨generator, command, invocation, known, rfl, rfl, ends⟩
    · simp [serve, stateAfter, refused, Registry.served?, NameMap.contains, unknown]
    · have final :
          (stateAfter (invoke call.name call.index call.arguments) session).registry.commands =
            session.registry.commands ∧
          (stateAfter (invoke call.name call.index call.arguments) session).registry.calls =
            session.registry.calls + 1 := by
        rcases ends with ⟨failure, context, -, fails⟩ | ⟨record, context, -, succeeds⟩
        · rw [stateAfter, fails]
          exact ⟨rfl, rfl⟩
        · rw [stateAfter, succeeds]
          exact ⟨by simp, by simp⟩
      simp [serve, callOf, Registry.served?, NameMap.contains, known, final]

/-- The stems handed out are those of the served names, numbered on from the calls so far. -/
theorem stems_eq (session : Session) (requests : List StemRequest) :
    session.stems requests =
      ((requests.filterMap session.registry.served?).zipIdx session.registry.calls).map
        fun entry => stem entry.1 entry.2 := by
  induction requests generalizing session with
  | nil => rfl
  | cons request requests ih =>
    rcases serve_spec session request with ⟨stem_eq, commands_eq, calls_eq⟩
    have served_eq : (session.serve request).2.registry.served? = session.registry.served? := by
      funext other
      cases other with
      | plain name => rfl
      | call call => simp [Registry.served?, commands_eq]
    rw [stems, ih, stem_eq, served_eq, calls_eq]
    cases served : session.registry.served? request with
    | none => simp [served]
    | some name => simp [served, Registry.nextStem_eq, List.zipIdx_cons]

/-- The stems handed out for registered commands, for calls or else, are always different
exactly if no name of a command is that of another with a number behind it. -/
theorem stems_distinct_iff (registry : Registry) :
    (∀ (session : Session) (requests : List StemRequest), session.registry = registry →
      (∀ request ∈ requests, registry.commands.contains request.name = true) →
      (session.stems requests).Nodup) ↔
    ∀ longer shorter, registry.commands.contains longer = true →
      registry.commands.contains shorter = true →
      ∀ number, 0 < number → Text.lower longer ≠ Text.lower shorter ++ toString number := by
  constructor
  · intro distinct longer shorter longer_known shorter_known number positive lower_eq
    have numbered : Numbered longer shorter := ⟨number, positive, lower_eq⟩
    rcases numbered.exists_stem_eq registry.calls with ⟨j, later, same⟩
    -- The longer name comes first, and then the shorter one until its number is due.
    have nodup := distinct { registry }
      (.plain longer :: List.replicate (j - registry.calls) (.plain shorter)) rfl (by
        intro request mem
        rcases List.mem_cons.mp mem with rfl | mem
        · exact longer_known
        · rw [List.eq_of_mem_replicate mem]
          exact shorter_known)
    have again : (shorter, j) ∈
        (List.replicate (j - registry.calls) shorter).zipIdx (registry.calls + 1) := by
      rw [List.mk_mem_zipIdx_iff_le_and_getElem?_sub]
      refine ⟨later, ?_⟩
      rw [List.getElem?_replicate_of_lt (by omega)]
    have served : (StemRequest.plain longer ::
        List.replicate (j - registry.calls) (.plain shorter)).filterMap registry.served? =
          longer :: List.replicate (j - registry.calls) shorter := by
      simp [Registry.served?, List.filterMap_replicate]
    rw [stems_eq, served, List.zipIdx_cons, List.map_cons, List.nodup_cons] at nodup
    exact nodup.1 (List.mem_map.mpr ⟨(shorter, j), again, same.symm⟩)
  · rintro separate session requests rfl known
    rw [stems_eq, List.Nodup, List.pairwise_map]
    refine (pairwise_zipIdx_lt _ _).imp_of_mem ?_
    intro first second first_mem second_mem rises same
    have first_known := Registry.contains_of_served? known (List.fst_mem_of_mem_zipIdx first_mem)
    have second_known := Registry.contains_of_served? known (List.fst_mem_of_mem_zipIdx second_mem)
    rcases numbered_of_stem_eq (Nat.ne_of_lt rises) same with
      ⟨number, positive, lower_eq⟩ | ⟨number, positive, lower_eq⟩
    · exact separate _ _ first_known second_known number positive lower_eq
    · exact separate _ _ second_known first_known number positive lower_eq

/-- A command that does nothing. -/
def idle : Generator := .custom ⟨fun _ _ => pure (), fun _ => none⟩

/-- Commands named `A` and `A1` can be added. If `A1` is called first and then ten times
`A`, the last call gets the stem of the first. -/
theorem stems_repeat :
    ∃ engine, (do
        let engine ← Engine.register {} "A" idle
        engine.register "A1" idle) = .ok engine ∧
      Session.stems { registry := engine.registry }
          (.call { name := "A1" } :: List.replicate 10 (.call { name := "A" })) =
        ["_a10_", "_a1_", "_a2_", "_a3_", "_a4_", "_a5_", "_a6_", "_a7_", "_a8_", "_a9_",
          "_a10_"] ∧
      ¬ (Session.stems { registry := engine.registry }
          (.call { name := "A1" } :: List.replicate 10 (.call { name := "A" }))).Nodup := by
  refine ⟨_, rfl, ?_⟩
  rw [stems_eq]
  decide +kernel

/-! ## The commands that are always there -/

theorem mem_defaults_of_served? {calls : List CommandCall} {name : String}
    (served : name ∈ (calls.map StemRequest.call).filterMap Registry.defaults.served?) :
    name ∈ Generator.defaults.map Prod.fst := by
  rcases List.mem_filterMap.mp served with ⟨request, mem, served⟩
  rcases List.mem_map.mp mem with ⟨call, -, rfl⟩
  rw [Registry.served?] at served
  split at served
  · next known =>
      cases served
      rcases Option.isSome_iff_exists.mp known with ⟨generator, found⟩
      exact NameMap.mem_of_get?_ofList found
  · cases served

theorem defaults_apart : ∀ first ∈ Generator.defaults.map Prod.fst,
    ∀ second ∈ Generator.defaults.map Prod.fst,
      Text.lower first = Text.lower second ∨
        ¬ (Text.lower first).toList <+: (Text.lower second).toList ∧
          ¬ (Text.lower second).toList <+: (Text.lower first).toList := by
  decide +kernel

/-- Of the stems that calls of the usual commands get, none starts with another. So
different calls never make up the same name. -/
theorem stems_prefixFree (context : Context) (printed : List String) (calls : List CommandCall) :
    (Session.stems { context, registry := .defaults, printed } (calls.map .call)).Pairwise
      fun first second =>
        ¬ first.toList <+: second.toList ∧ ¬ second.toList <+: first.toList ∧
          ∀ suffix suffix' : String, first ++ suffix ≠ second ++ suffix' := by
  rw [stems_eq, List.pairwise_map]
  refine (pairwise_zipIdx_lt _ _).imp_of_mem ?_
  intro first second first_mem second_mem rises
  have first_default := mem_defaults_of_served? (List.fst_mem_of_mem_zipIdx first_mem)
  have second_default := mem_defaults_of_served? (List.fst_mem_of_mem_zipIdx second_mem)
  have not_first := not_prefix_stem (Nat.ne_of_lt rises)
    (defaults_apart _ first_default _ second_default)
  have not_second := not_prefix_stem (Nat.ne_of_gt rises)
    (defaults_apart _ second_default _ first_default)
  exact ⟨not_first, not_second, append_ne_append not_first not_second⟩

end Session

end ModelWeaver
