import Mathlib.Data.List.Forall2
import ModelWeaver.Proofs.Snippet.Frame
import ModelWeaver.Proofs.Value.Parts

/-!
# The ways to build a dict

A dict is written as a display, is collected by a loop over pairs, or is made by a call of `dict`.
All of these store the pairs one by one. `grouped` says what comes of that without storing
anything: an entry for the first pair, with the value of the last pair that has an equal key, and
then the entries of the pairs with other keys.
-/

namespace ModelWeaver

/-! ## Variables -/

theorem Environment.get?_set (environment : Environment) (name : String) (value : Value)
    (other : String) :
    (environment.set name value).get? other =
      if other = name then some value else environment.get? other := by
  change (environment.set name value).scopes.findSome? _ = if _ then _ else
    environment.scopes.findSome? _
  rw [scopes_eq, scopes_eq environment, tail_scopes_set, innermost_set, List.findSome?_cons,
    List.findSome?_cons, NameMap.get?_insert]
  by_cases same : other = name
  · rw [if_pos same, if_pos same]
  · rw [if_neg same, if_neg same]

def Session.bound (session : Session) (name : String) (value : Value) : Session :=
  { session with context :=
      { session.context with environment := session.context.environment.set name value } }

namespace Value

/-! ## Pairs that are stored one by one -/

/-- The values of the pairs with a key that a given one equals. -/
def valuesUnder (key : Value) (pairs : Entries) : List Value :=
  (pairs.filter fun pair => key == pair.1).map Prod.snd

/-- The pairs with other keys than a given one. -/
def awayFrom (key : Value) (pairs : Entries) : Entries :=
  pairs.filter fun pair => !(key == pair.1)

/-- One entry for all pairs whose keys equal the first key among them. It has that key and stands
in its place, and has the value of the last of them. -/
def grouped : Entries → Entries
  | [] => []
  | first :: rest =>
    (first.1, (valuesUnder first.1 rest).getLastD first.2) :: grouped (awayFrom first.1 rest)
termination_by pairs => pairs.length
decreasing_by exact Nat.lt_succ_of_le (List.length_filter_le _ _)

def insertAll (entries pairs : Entries) : Entries :=
  pairs.foldl (fun entries pair => insertEntry entries pair.1 pair.2) entries

/-- The first entry takes the values of all pairs with an equal key, and the other pairs are
stored behind it as if it were not there. -/
theorem insertAll_cons (key value : Value) (entries pairs : Entries) :
    insertAll ((key, value) :: entries) pairs =
      (key, (valuesUnder key pairs).getLastD value) :: insertAll entries (awayFrom key pairs) := by
  induction pairs generalizing value entries with
  | nil => rfl
  | cons pair pairs ih =>
    change insertAll (insertEntry ((key, value) :: entries) pair.1 pair.2) pairs = _
    rw [insertEntry_cons]
    cases same : key == pair.1 with
    | true =>
      have taken : valuesUnder key (pair :: pairs) = pair.2 :: valuesUnder key pairs := by
        simp [valuesUnder, same]
      have left : awayFrom key (pair :: pairs) = awayFrom key pairs := by
        simp [awayFrom, same]
      rw [if_pos rfl, ih, taken, left, List.getLastD_cons]
    | false =>
      have taken : valuesUnder key (pair :: pairs) = valuesUnder key pairs := by
        simp [valuesUnder, same]
      have left : awayFrom key (pair :: pairs) = pair :: awayFrom key pairs := by
        simp [awayFrom, same]
      rw [if_neg Bool.false_ne_true, ih, taken, left]
      rfl

theorem insertAll_nil (pairs : Entries) : insertAll [] pairs = grouped pairs := by
  induction pairs using grouped.induct with
  | case1 => rw [grouped, insertAll, List.foldl_nil]
  | case2 first rest ih =>
    rw [grouped, ← ih]
    exact insertAll_cons first.1 first.2 [] rest

theorem insertAll_append (entries first second : Entries) :
    insertAll entries (first ++ second) = insertAll (insertAll entries first) second :=
  List.foldl_append

theorem keysDiffer_grouped (pairs : Entries) : KeysDiffer (grouped pairs) := by
  have stored : ∀ entries, KeysDiffer entries → KeysDiffer (insertAll entries pairs) := by
    induction pairs with
    | nil => exact fun entries differ => differ
    | cons pair pairs ih =>
      exact fun entries differ =>
        ih _ (keysDiffer_insertEntry differ pair.1 pair.2)
  rw [← insertAll_nil]
  exact stored [] List.Pairwise.nil

theorem grouped_of_keysDiffer {entries : Entries} (differ : KeysDiffer entries) :
    grouped entries = entries := by
  induction entries with
  | nil => rw [grouped]
  | cons first rest ih =>
    obtain ⟨apart, differ⟩ := List.pairwise_cons.mp differ
    have noValues : valuesUnder first.1 rest = [] := by
      rw [valuesUnder, List.map_eq_nil_iff, List.filter_eq_nil_iff]
      exact fun pair mem => by simp [apart pair mem]
    have allAway : awayFrom first.1 rest = rest :=
      List.filter_eq_self.mpr fun pair mem => by simp [apart pair mem]
    rw [grouped, noValues, allAway, ih differ]
    rfl

/-- Values that consist of two elements each. -/
abbrev ArePairs (items : List Value) (pairs : Entries) : Prop :=
  List.Forall₂ (fun item pair => item.elements = .ok [pair.1, pair.2]) items pairs

/-- A sequence of pairs. -/
inductive IsSequenceOf (pairs : Entries) : Value → Prop
  | list {items : List Value} : ArePairs items pairs → IsSequenceOf pairs (.list items)
  | tuple {items : List Value} : ArePairs items pairs → IsSequenceOf pairs (.tuple items)

theorem IsSequenceOf.elements {pairs : Entries} {source : Value}
    (sequence : IsSequenceOf pairs source) :
    ∃ items, source.elements = .ok items ∧ ArePairs items pairs := by
  cases sequence with
  | list arePairs => exact ⟨_, rfl, arePairs⟩
  | tuple arePairs => exact ⟨_, rfl, arePairs⟩

end Value

namespace Snippet

open Value

/-! ## Displays -/

/-- The keys and values of a display have been evaluated from left to right. -/
inductive EvaluatedInTurn (depth : Nat) :
    Session → List (Expr × Expr) → Entries → Session → Prop
  | nil {session : Session} : EvaluatedInTurn depth session [] [] session
  | cons {session afterKey afterValue final : Session} {key value : Expr} {pair : Value × Value}
      {entries : List (Expr × Expr)} {pairs : Entries} :
      eval depth key session = .ok pair.1 afterKey →
      eval depth value afterKey = .ok pair.2 afterValue →
      EvaluatedInTurn depth afterValue entries pairs final →
      EvaluatedInTurn depth session ((key, value) :: entries) (pair :: pairs) final

variable {depth : Nat} {session final : Session} {pairs : Entries}

theorem EvaluatedInTurn.evalEntries {entries : List (Expr × Expr)}
    (evaluated : EvaluatedInTurn depth session entries pairs final)
    (stored : Entries) :
    evalEntries depth stored entries session = .ok (insertAll stored pairs) final := by
  induction evaluated generalizing stored with
  | nil => rfl
  | @cons session afterKey afterValue final key value pair entries pairs evalKey evalValue _
      ih =>
      refine (bind_of_eq_ok evalKey _).trans ((bind_of_eq_ok evalValue _).trans ?_)
      exact ih (insertEntry stored pair.1 pair.2)

theorem EvaluatedInTurn.eval_dict {entries : List (Expr × Expr)}
    (evaluated : EvaluatedInTurn (depth + 1) session entries pairs final)
    (shallow : depth < maxDepth) :
    eval depth (.dict entries) session = .ok (.dict (grouped pairs)) final := by
  rw [eval.eq_def, if_neg (by omega)]
  refine (bind_of_eq_ok (evaluated.evalEntries []) _).trans ?_
  rw [insertAll_nil]
  rfl

/-! ## Loops over pairs -/

/-- A name that can be bound and does not stand for a buffer or for declared symbols. -/
structure IsFree (name : String) : Prop where
  writable : Context.isReadOnly name = false
  noBuffer : Buffer.ofName? name = .none

theorem lookup_of_found {name : String} {value : Value}
    (found : lookup? session name = some value) : lookup name session = .ok value session := by
  rw [lookup, get_bind, found]
  rfl

namespace IsFree

variable {name : String} (free : IsFree name)
include free

theorem bindName (value : Value) (session : Session) :
    bindName name value session = .ok () (session.bound name value) := by
  rw [Snippet.bindName, free.writable, free.noBuffer]
  rfl

theorem view? (context : Context) : context.view? name = .none := by
  have writable := free.writable
  rw [Context.isReadOnly, Bool.or_eq_false_iff, decide_eq_false_iff_not,
    decide_eq_false_iff_not] at writable
  rw [Context.view?, free.noBuffer]
  exact (if_neg writable.1).trans (if_neg writable.2)

theorem eval_var {depth : Nat} (shallow : depth ≤ maxDepth) (span : Text.Span) {session : Session}
    {value : Value} (given : session.context.environment.get? name = some value) :
    eval depth (.var name span) session = .ok value session := by
  have found : lookup? session name = some value := by
    rw [lookup?, free.view?, given]
    rfl
  rw [eval.eq_def, if_neg (by omega)]
  exact lookup_of_found found

end IsFree

/-- If each round stores a pair, then all pairs are stored one by one. -/
theorem foldlM_of_rounds {round : Collected → Value → Evaluating Collected}
    (stores : ∀ {item : Value} {pair : Value × Value}, item.elements = .ok [pair.1, pair.2] →
      ∀ collected session, ∃ after,
        round collected item session = .ok (collected.addEntry pair.1 pair.2) after)
    {items : List Value} (arePairs : ArePairs items pairs) (collected : Collected)
    (session : Session) :
    ∃ final, (items.foldlM round collected : Evaluating Collected) session =
      .ok { collected with entries := insertAll collected.entries pairs } final := by
  induction arePairs generalizing collected session with
  | nil => exact ⟨session, rfl⟩
  | @cons item pair items pairs isPair _ ih =>
    obtain ⟨after, stored⟩ := stores isPair collected session
    obtain ⟨final, others⟩ := ih (collected.addEntry pair.1 pair.2) after
    rw [List.foldlM_cons]
    exact ⟨final, (bind_of_eq_ok stored _).trans others⟩

/-- Store the values of two expressions as an entry, in a round of a loop. -/
def storeEntry (depth : Nat) (key value : Expr) (collected : Collected) : Evaluating Collected := do
  let key ← eval depth key
  return collected.addEntry key (← eval depth value)

section Loop

variable {depth : Nat} {first second : String} (freeFirst : IsFree first)
  (freeSecond : IsFree second)
include freeFirst freeSecond

theorem bindTarget_pair {item : Value} {pair : Value × Value}
    (isPair : item.elements = .ok [pair.1, pair.2]) (session : Session) :
    bindTarget (.tuple [.name first, .name second]) item session =
      .ok () ((session.bound first pair.1).bound second pair.2) := by
  rw [bindTarget, isPair]
  refine (bind_of_eq_ok (freeFirst.bindName pair.1 session) _).trans ?_
  exact (bind_of_eq_ok (freeSecond.bindName pair.2 _) _).trans rfl

variable (differ : first ≠ second) (shallow : depth ≤ maxDepth) (firstSpan secondSpan : Text.Span)
include differ shallow

/-- After a pair was unpacked, its elements are stored as an entry. -/
theorem storeEntry_pair (pair : Value × Value) (collected : Collected) (session : Session) :
    storeEntry depth (.var first firstSpan) (.var second secondSpan) collected
        ((session.bound first pair.1).bound second pair.2) =
      .ok (collected.addEntry pair.1 pair.2)
        ((session.bound first pair.1).bound second pair.2) := by
  have firstGiven : ((session.bound first pair.1).bound second pair.2).context.environment.get?
      first = some pair.1 := by
    change ((session.context.environment.set first pair.1).set second pair.2).get? first = _
    rw [Environment.get?_set, if_neg differ, Environment.get?_set, if_pos rfl]
  have secondGiven : ((session.bound first pair.1).bound second pair.2).context.environment.get?
      second = some pair.2 := by
    change ((session.context.environment.set first pair.1).set second pair.2).get? second = _
    rw [Environment.get?_set, if_pos rfl]
  refine (bind_of_eq_ok (freeFirst.eval_var shallow firstSpan firstGiven) _).trans ?_
  exact bind_of_eq_ok (freeSecond.eval_var shallow secondSpan secondGiven) _

theorem round_pair {item : Value} {pair : Value × Value}
    (isPair : item.elements = .ok [pair.1, pair.2]) (collected : Collected) (session : Session) :
    ∃ after, (bindTarget (.tuple [.name first, .name second]) item >>= fun _ =>
        storeEntry depth (.var first firstSpan) (.var second secondSpan) collected) session =
      .ok (collected.addEntry pair.1 pair.2) after :=
  ⟨_, (bind_of_eq_ok (bindTarget_pair freeFirst freeSecond isPair session) _).trans
    (storeEntry_pair freeFirst freeSecond differ shallow firstSpan secondSpan pair collected
      session)⟩

theorem collect_pairs {source : Value} {pairs : Entries} {iterable : Expr}
    {session after : Session} (sequence : IsSequenceOf pairs source)
    (evaluated : eval depth iterable session = .ok source after) :
    ∃ final, collect depth [.mk (.tuple [.name first, .name second]) iterable .none]
        (storeEntry depth (.var first firstSpan) (.var second secondSpan)) {} session =
      .ok { entries := grouped pairs } final := by
  obtain ⟨items, elements, arePairs⟩ := sequence.elements
  obtain ⟨final, rounds⟩ := foldlM_of_rounds
    (round_pair freeFirst freeSecond differ shallow firstSpan secondSpan) arePairs {} after
  refine ⟨final, (bind_of_eq_ok evaluated _).trans ?_⟩
  rw [elements, ← insertAll_nil]
  exact rounds

end Loop

/-- A loop that takes pairs apart and stores their elements as entries. Its names are bound in a
scope of its own, in which the sequence of pairs is evaluated as well. -/
inductive IsPairLoop (depth : Nat) (session : Session) (source : Value) : Expr → Prop
  | intro {first second : String} {iterable : Expr} {after : Session}
      (firstSpan secondSpan : Text.Span) :
      IsFree first → IsFree second → first ≠ second →
      eval (depth + 1) iterable session.opened = .ok source after →
      IsPairLoop depth session source
        (.dictComp (.var first firstSpan) (.var second secondSpan)
          [.mk (.tuple [.name first, .name second]) iterable .none])

theorem IsPairLoop.eval {source : Value} {expr : Expr}
    (isLoop : IsPairLoop depth session source expr) (sequence : IsSequenceOf pairs source)
    (shallow : depth < maxDepth) :
    ∃ final, eval depth expr session = .ok (.dict (grouped pairs)) final := by
  cases isLoop with
  | intro firstSpan secondSpan freeFirst freeSecond differ evaluated =>
    obtain ⟨final, collected⟩ := collect_pairs freeFirst freeSecond differ shallow firstSpan
      secondSpan sequence evaluated
    have inOwnScope := (inScope_eq _ session).trans
      (congrArg (overState Session.closed) collected)
    rw [Snippet.eval.eq_def, if_neg (by omega)]
    exact ⟨final.closed, bind_of_eq_ok inOwnScope _⟩

/-! ## Calls of `dict` -/

/-- What the arguments without a name stand for: nothing, the entries of a dict, or pairs. -/
inductive Supplies : List Value → Entries → Prop
  | nothing : Supplies [] []
  | entries (entries : Entries) : Supplies [.dict entries] entries
  | pairs {source : Value} {pairs : Entries} :
      IsSequenceOf pairs source → Supplies [source] pairs

/-- Named arguments, as pairs. -/
def namedPairs (keyword : List (String × Value)) : Entries :=
  keyword.map fun entry => (.str entry.1, entry.2)

theorem foldlM_insertPair {items : List Value} (arePairs : ArePairs items pairs)
    (stored : Entries) :
    items.foldlM Function.insertPair stored = .ok (insertAll stored pairs) := by
  induction arePairs generalizing stored with
  | nil => rfl
  | @cons item pair items pairs isPair _ ih =>
    have inserted : Function.insertPair stored item =
        .ok (insertEntry stored pair.1 pair.2) := by
      rw [Function.insertPair, isPair]
      rfl
    rw [List.foldlM_cons, inserted]
    exact ih (insertEntry stored pair.1 pair.2)

theorem insertAll_namedPairs (pairs : Entries) (keyword : List (String × Value)) :
    keyword.foldl (fun entries entry => insertEntry entries (.str entry.1) entry.2)
        (grouped pairs) =
      grouped (pairs ++ namedPairs keyword) := by
  rw [← insertAll_nil (pairs ++ _), insertAll_append, insertAll_nil]
  generalize grouped pairs = stored
  rw [insertAll, namedPairs, List.foldl_map]

theorem Supplies.dict {positional : List Value} (supplies : Supplies positional pairs)
    (keyword : List (String × Value)) :
    Function.dict ⟨positional, keyword⟩ = .ok (.dict (grouped (pairs ++ namedPairs keyword))) := by
  rw [← insertAll_namedPairs, ← insertAll_nil]
  have ofPairs {items : List Value} (arePairs : ArePairs items pairs) :
      (do
        let entries ← items.foldlM Function.insertPair []
        return .dict (keyword.foldl
          (fun entries entry => insertEntry entries (.str entry.1) entry.2) entries)) =
        (.ok (.dict (keyword.foldl
          (fun entries entry => insertEntry entries (.str entry.1) entry.2)
          (insertAll [] pairs))) : Except Failure Value) := by
    rw [foldlM_insertPair arePairs]
    rfl
  cases supplies with
  | nothing => rfl
  | entries entries => rfl
  | pairs sequence =>
    cases sequence with
    | list arePairs => exact ofPairs arePairs
    | tuple arePairs => exact ofPairs arePairs

/-- A call of `dict`: what it calls and its arguments have been evaluated. -/
inductive IsDictCall (depth : Nat) (session : Session) (arguments : Arguments) (final : Session) :
    Expr → Prop
  | intro {callee : Expr} {written : List Argument} {afterCallee : Session} (span : Text.Span) :
      eval (depth + 1) callee session = .ok (.builtin .dict) afterCallee →
      evalArguments (depth + 1) {} written afterCallee = .ok arguments final →
      IsDictCall depth session arguments final (.call callee written span)

theorem IsDictCall.eval {args : Arguments} {expr : Expr}
    (isCall : IsDictCall depth session args final expr) (shallow : depth < maxDepth)
    {result : Value} (returns : Function.dict args = .ok result) :
    eval depth expr session = .ok result final := by
  cases isCall with
  | intro span evalCallee evalArguments =>
    rw [Snippet.eval.eq_def, if_neg (by omega)]
    refine (bind_of_eq_ok evalCallee _).trans ((bind_of_eq_ok evalArguments _).trans ?_)
    change (liftM (Function.dict args) : Evaluating Value) final = _
    rw [returns]
    rfl

/-! ## Agreement -/

/-- For the same pairs, a display, a loop over them and a call of `dict` give the same dict. It
has one entry for all pairs with equal keys, in the place of the first of them and with its key,
and with the value of the last. Named arguments of `dict` come behind the pairs, and a dict is
left as it is. -/
theorem dicts_agree {depth : Nat} (shallow : depth < maxDepth) (session : Session)
    (pairs : Entries) :
    KeysDiffer (grouped pairs) ∧
    (∀ entries final, EvaluatedInTurn (depth + 1) session entries pairs final →
      outcome (eval depth (.dict entries)) session = .ok (.dict (grouped pairs))) ∧
    (∀ source expr, IsSequenceOf pairs source → IsPairLoop depth session source expr →
      outcome (eval depth expr) session = .ok (.dict (grouped pairs))) ∧
    (∀ source final expr, IsSequenceOf pairs source →
      IsDictCall depth session ⟨[source], []⟩ final expr →
      outcome (eval depth expr) session = .ok (.dict (grouped pairs))) ∧
    (∀ positional keyword final expr, Supplies positional pairs →
      IsDictCall depth session ⟨positional, keyword⟩ final expr →
      outcome (eval depth expr) session =
        .ok (.dict (grouped (pairs ++ namedPairs keyword)))) ∧
    ∀ final expr, KeysDiffer pairs → IsDictCall depth session ⟨[.dict pairs], []⟩ final expr →
      outcome (eval depth expr) session = .ok (.dict pairs) := by
  have ofRun {expr : Expr} {result : Value} {final : Session}
      (ran : eval depth expr session = .ok result final) :
      outcome (eval depth expr) session = .ok result := by
    rw [outcome, ran]
  have called {positional : List Value} {keyword : List (String × Value)} {final : Session}
      {expr : Expr} (supplies : Supplies positional pairs)
      (isCall : IsDictCall depth session ⟨positional, keyword⟩ final expr) :
      outcome (eval depth expr) session = .ok (.dict (grouped (pairs ++ namedPairs keyword))) :=
    ofRun (isCall.eval shallow (supplies.dict keyword))
  refine ⟨keysDiffer_grouped pairs, ?_, ?_, ?_, ?_, ?_⟩
  · exact fun entries final evaluated => ofRun (evaluated.eval_dict shallow)
  · intro source expr sequence isLoop
    obtain ⟨final, ran⟩ := isLoop.eval sequence shallow
    exact ofRun ran
  · intro source final expr sequence isCall
    have returned := called (.pairs sequence) isCall
    rwa [namedPairs, List.map_nil, List.append_nil] at returned
  · exact fun positional keyword final expr supplies isCall => called supplies isCall
  · intro final expr differ isCall
    have returned := called (.entries pairs) isCall
    rwa [namedPairs, List.map_nil, List.append_nil, grouped_of_keysDiffer differ] at returned

/-- Pairs of which the first and the last have equal keys, a number and a truth value. -/
def mixedPairs : Entries :=
  [(.int 1, .str "a"), (.str "k", .none), (.bool true, .str "b")]

/-- The pairs as a list of tuples. -/
def mixedSource : Value := .list (mixedPairs.map fun pair => .tuple [pair.1, pair.2])

/-- A session in which a variable holds the pairs. -/
def mixedSession : Session where
  context := { environment := .ofBindings (.ofList [("pairs", mixedSource)]) }

/-- The pairs, written as a display. -/
def mixedDisplay : List (Expr × Expr) :=
  [(.int 1, .str "a"), (.str "k", .none), (.bool true, .str "b")]

/-- A loop over the pairs. -/
def mixedLoop : Expr :=
  .dictComp (.var "a" ⟨1, 2⟩) (.var "b" ⟨4, 5⟩)
    [.mk (.tuple [.name "a", .name "b"]) (.var "pairs" ⟨18, 23⟩) .none]

/-- A call of `dict` with the pairs and with a named argument. -/
def mixedCall : Expr :=
  .call (.var "dict" ⟨0, 4⟩) [.positional (.var "pairs" ⟨5, 10⟩), .keyword "k" (.int 2)] ⟨0, 16⟩

theorem dicts_agree_mixedPairs :
    outcome (evaluate (.dict mixedDisplay)) mixedSession =
        .ok (.dict [(.int 1, .str "b"), (.str "k", .none)]) ∧
      outcome (evaluate mixedLoop) mixedSession =
        .ok (.dict [(.int 1, .str "b"), (.str "k", .none)]) ∧
      outcome (evaluate mixedCall) mixedSession =
        .ok (.dict [(.int 1, .str "b"), (.str "k", .int 2)]) := by
  obtain ⟨-, display, loop, -, call, -⟩ :=
    @dicts_agree 0 (by decide) mixedSession mixedPairs
  have sequence : IsSequenceOf mixedPairs mixedSource :=
    .list (.cons rfl (.cons rfl (.cons rfl .nil)))
  have first : grouped mixedPairs = [(.int 1, .str "b"), (.str "k", .none)] := by
    rw [← insertAll_nil]
    rfl
  have second : grouped (mixedPairs ++ namedPairs [("k", .int 2)]) =
      [(.int 1, .str "b"), (.str "k", .int 2)] := by
    rw [← insertAll_nil]
    rfl
  rw [← first, ← second]
  refine ⟨display mixedDisplay mixedSession ?_, loop mixedSource mixedLoop sequence ?_,
    call [mixedSource] [("k", .int 2)] mixedSession mixedCall (.pairs sequence) ?_⟩
  · exact .cons rfl rfl (.cons rfl rfl (.cons rfl rfl .nil))
  · exact .intro _ _ ⟨by decide, by decide⟩ ⟨by decide, by decide⟩ (by decide) rfl
  · exact .intro _ rfl rfl

end Snippet

end ModelWeaver
