import AmpLink.Proofs.Client.Endings

/-!
# Groups that fail

A group fails when it takes the first error of a member (`ClientTree.Fails`), and then it cancels its token.
Nothing else in a tree cancels anything: neither the end of a leaf (`ClientTree.Finishes.isCancelled_iff`) nor
a call of the run (`ClientTree.isCancelled_start_iff`). What makes a group fail is the error that a run of a member
has come to (`ClientTree.Finishes.fails_iff`, `ClientTree.fails_start`), be the member a group itself.
-/

namespace AmpLink

/-- A failure comes in, and its token is `t` or above it. -/
def Strikes (t : Token) (f f' : Option (Token × RunError)) : Prop :=
  f = none ∧ ∃ u e, f' = some (u, e) ∧ t.isWithin u

theorem not_strikes_self {f : Option (Token × RunError)} : ¬ Strikes t f f := by
  rintro ⟨hnone, u, e, hsome, -⟩
  rw [hnone] at hsome
  contradiction

/-- Of what is noted one after the other, the first is kept. -/
theorem strikes_trans {f f' f'' : Option (Token × RunError)} (h : ∀ x, f = some x → f' = some x)
    (h' : ∀ x, f' = some x → f'' = some x) : Strikes t f f'' ↔ Strikes t f f' ∨ Strikes t f' f'' := by
  cases f with
  | some x => simp [Strikes, h x rfl]
  | none =>
    cases f' with
    | none => simp [Strikes]
    | some x => simp [Strikes, h' x rfl]

namespace TaskGroup

variable {g : TaskGroup}

/-- The token and the first error of a group in which a task has failed. -/
def failure? (g : TaskGroup) : Option (Token × RunError) := g.firstError.map (g.token, ·)

theorem failure?_eq_none : g.failure? = none ↔ g.firstError = none := Option.map_eq_none_iff

theorem failure?_eq_some : g.failure? = some (u, e) ↔ g.token = u ∧ g.firstError = some e := by
  rw [failure?, Option.map_eq_some_iff]
  simp [and_comm]

theorem failure?_finish (h : task ∈ g.unfinished) (tokens : TokenForest) (r : Outcome) :
    (g.finish tokens task r).1.failure? = g.failure?.or (r.error?.map (g.token, ·)) := by
  cases r with
  | ok => simp [finish_ok h, failure?, Outcome.error?]
  | error e =>
    cases hf : g.firstError with
    | none => simp [finish_error h hf, failure?, hf, Outcome.error?]
    | some x => simp [finish, h, failure?, hf]

theorem isCancelled_finish (g : TaskGroup) (tokens : TokenForest) (task : Nat) (r : Outcome) :
    (g.finish tokens task r).2.isCancelled t ↔
      tokens.isCancelled t ∨ Strikes t g.failure? (g.finish tokens task r).1.failure? := by
  by_cases h : task ∈ g.unfinished
  · rw [failure?_finish h]
    cases r with
    | ok =>
      rw [finish_ok h, Outcome.error?, Option.map_none, Option.or_none, or_iff_left not_strikes_self]
    | error e =>
      cases hf : g.firstError with
      | none =>
        simp [finish_error h hf, TokenForest.isCancelled_cancel, Strikes, failure?, hf, Outcome.error?,
          or_comm]
      | some x => simp [finish, h, hf, Strikes, failure?]
  · simp [finish, h, not_strikes_self]

theorem failure?_finish_of_some (h : g.failure? = some x) (tokens : TokenForest) (task : Nat)
    (r : Outcome) : (g.finish tokens task r).1.failure? = some x := by
  by_cases hmem : task ∈ g.unfinished
  · rw [failure?_finish hmem, h, Option.some_or]
  · simp [finish, hmem, h]

end TaskGroup

namespace ClientTree

/-! ## Failures in a tree -/

/-- The client at a place. -/
def client? : List Nat → ClientTree → Option ClientTree
  | [], c => some c
  | i :: place, c => c.members[i]?.bind (client? place)

/-- The members' runs of the group at a place, once it has been run. -/
def tasksAt? (place : List Nat) (c : ClientTree) : Option TaskGroup := (c.client? place).bind tasks?

/-- The token and the first error of the group at a place, if a member has failed there. -/
def failure? (place : List Nat) (c : ClientTree) : Option (Token × RunError) :=
  (c.tasksAt? place).bind TaskGroup.failure?

/-- From `c` to `c'` the group at a place, whose token is `u`, fails with the error `e`. -/
def Fails (c c' : ClientTree) (place : List Nat) (u : Token) (e : RunError) : Prop :=
  c.failure? place = none ∧ c'.failure? place = some (u, e)

/-- From `c` to `c'` a group fails whose token is `t` or above it. -/
def FailsAbove (t : Token) (c c' : ClientTree) : Prop :=
  ∃ place, Strikes t (c.failure? place) (c'.failure? place)

/-- One of the members fails, or a group in it does. -/
def AnyFailsAbove (t : Token) (members members' : List ClientTree) : Prop :=
  ∃ (k : Nat) (m m' : ClientTree), members[k]? = some m ∧ members'[k]? = some m' ∧ FailsAbove t m m'

/-- From `c` to `c'` the run of member number `i` of the group at a place comes to the error `e`. The group
has waited for it, with `g`, and no member of it has failed before. -/
def TakesError (c c' : ClientTree) (place : List Nat) (g : TaskGroup) (i : Nat) (e : RunError) : Prop :=
  c.tasksAt? place = some g ∧ g.firstError = none ∧ i ∈ g.unfinished ∧ ∃ m m',
    c.client? (place ++ [i]) = some m ∧ c'.client? (place ++ [i]) = some m' ∧ m.result? = none ∧
      m'.result? = some (.error e)

section

variable {tokens tokens' : TokenForest} {token t u : Token} {r : Outcome} {x : RunError}
  {ended e : Option Outcome} {tasks tasks' : Option TaskGroup} {g : TaskGroup} {c c' m m' : ClientTree}
  {members members' : List ClientTree} {place q : List Nat} {i k : Nat}

theorem failsAbove_iff : FailsAbove t c c' ↔ ∃ q u e, Fails c c' q u e ∧ t.isWithin u := by
  simp only [FailsAbove, Strikes, Fails, and_assoc, exists_and_left]

theorem client?_cons : client? (k :: q) (.group members tasks) = members[k]?.bind (client? q) := rfl

theorem client?_singleton : client? [k] (.group members tasks) = members[k]? := by
  rw [client?_cons]
  cases members[k]? <;> rfl

theorem tasksAt?_cons :
    tasksAt? (k :: q) (.group members tasks) = members[k]?.bind (tasksAt? q) := by
  rw [tasksAt?, client?_cons, Option.bind_assoc]
  rfl

theorem failure?_cons :
    failure? (k :: q) (.group members tasks) = members[k]?.bind (failure? q) := by
  rw [failure?, tasksAt?_cons, Option.bind_assoc]
  rfl

theorem failure?_nil : failure? [] (.group members tasks) = tasks.bind TaskGroup.failure? := rfl

theorem tasksAt?_leaf {id : Nat} {name : String} {runs : List LeafRun} :
    tasksAt? q (.leaf id name runs) = none := by
  cases q <;> rfl

theorem failure?_leaf {id : Nat} {name : String} {runs : List LeafRun} :
    failure? q (.leaf id name runs) = none := by
  rw [failure?, tasksAt?_leaf, Option.bind_none]

theorem not_fails_self : ¬ Fails c c q u x := by
  rintro ⟨hnone, hsome⟩
  rw [hnone] at hsome
  contradiction

theorem fails_cons (hm : members[k]? = some m) (hm' : members'[k]? = some m') :
    Fails (.group members tasks) (.group members' tasks') (k :: q) u x ↔ Fails m m' q u x := by
  rw [Fails, failure?_cons, failure?_cons, hm, hm']
  rfl

theorem takesError_cons (hm : members[k]? = some m) (hm' : members'[k]? = some m') :
    TakesError (.group members tasks) (.group members' tasks') (k :: q) g i x ↔
      TakesError m m' q g i x := by
  rw [TakesError, tasksAt?_cons, List.cons_append, client?_cons, client?_cons, hm, hm']
  rfl

theorem not_takesError_self : ¬ TakesError c c q g i x := by
  rintro ⟨-, -, -, m, m', hm, hm', hnone, hsome⟩
  rw [hm, Option.some.injEq] at hm'
  rw [← hm', hnone] at hsome
  contradiction

theorem not_failsAbove_self : ¬ FailsAbove t c c := fun ⟨_, h⟩ => not_strikes_self h

theorem not_failsAbove_leaf {id : Nat} {name : String} {runs : List LeafRun} :
    ¬ FailsAbove t c (.leaf id name runs) := by
  rintro ⟨place, -, u, e, h, -⟩
  rw [failure?_leaf] at h
  contradiction

/-- What fails in a group is the group itself, or it is in one of its members. -/
theorem failsAbove_group (hlength : members'.length = members.length) :
    FailsAbove t (.group members tasks) (.group members' tasks') ↔
      Strikes t (tasks.bind TaskGroup.failure?) (tasks'.bind TaskGroup.failure?) ∨
        AnyFailsAbove t members members' := by
  constructor
  · rintro ⟨place, h⟩
    cases place with
    | nil => exact .inl h
    | cons k place =>
      rw [failure?_cons, failure?_cons] at h
      obtain ⟨u, e, hsome, -⟩ := h.2
      obtain ⟨m', hm', -⟩ := Option.bind_eq_some_iff.mp hsome
      have hk : k < members.length := hlength ▸ (List.getElem?_eq_some_iff.mp hm').1
      refine .inr ⟨k, members[k], m', List.getElem?_eq_getElem hk, hm', place, ?_⟩
      rwa [hm', List.getElem?_eq_getElem hk] at h
  · rintro (h | ⟨k, m, m', hm, hm', place, h⟩)
    · exact ⟨[], h⟩
    · refine ⟨k :: place, ?_⟩
      rw [failure?_cons, failure?_cons, hm, hm']
      exact h

theorem not_anyFailsAbove_nil : ¬ AnyFailsAbove t [] members' := nofun

theorem anyFailsAbove_cons : AnyFailsAbove t (m :: members) (m' :: members') ↔
    FailsAbove t m m' ∨ AnyFailsAbove t members members' := by
  constructor
  · rintro ⟨k, n, n', hn, hn', h⟩
    cases k with
    | zero =>
      cases hn
      cases hn'
      exact .inl h
    | succ k => exact .inr ⟨k, n, n', hn, hn', h⟩
  · rintro (h | ⟨k, n, n', hn, hn', h⟩)
    · exact ⟨0, m, m', rfl, rfl, h⟩
    · exact ⟨k + 1, n, n', hn, hn', h⟩

theorem failsAbove_set (hm : members[i]? = some m) :
    FailsAbove t (.group members tasks) (.group (members.set i m') tasks') ↔
      Strikes t (tasks.bind TaskGroup.failure?) (tasks'.bind TaskGroup.failure?) ∨ FailsAbove t m m' := by
  rw [failsAbove_group (List.length_set ..)]
  refine or_congr_right ⟨?_, fun h => ⟨i, m, m', hm, ?_, h⟩⟩
  · rintro ⟨k, n, n', hn, hn', h⟩
    rw [getElem?_set_of_getElem? hm] at hn'
    split at hn'
    · next hk =>
      rw [hk, hm, Option.some.injEq] at hn
      rw [Option.some.injEq] at hn'
      rwa [hn, hn']
    · rw [hn, Option.some.injEq] at hn'
      rw [hn'] at h
      exact absurd h not_failsAbove_self
  · rw [getElem?_set_of_getElem? hm, if_pos rfl]

/-! ## The end of a leaf -/

theorem isCancelled_settle (h : settle tokens i ended tasks = (e, tasks', tokens')) :
    tokens'.isCancelled t ↔ tokens.isCancelled t ∨
      Strikes t (tasks.bind TaskGroup.failure?) (tasks'.bind TaskGroup.failure?) := by
  rcases settle_cases h with ⟨r, g, -, rfl, -, -, rfl, rfl⟩ | ⟨-, -, rfl, rfl⟩
  · exact g.isCancelled_finish tokens i r
  · rw [or_iff_left not_strikes_self]

theorem settle_fails_iff (h : settle tokens i ended tasks = (e, tasks', tokens')) :
    tasks.bind TaskGroup.failure? = none ∧ tasks'.bind TaskGroup.failure? = some (u, x) ↔
      ∃ g, tasks = some g ∧ g.token = u ∧ g.firstError = none ∧ i ∈ g.unfinished ∧
        ended = some (.error x) := by
  rcases settle_cases h with ⟨r, g, rfl, rfl, hi, -, rfl, -⟩ | ⟨hno, -, rfl, -⟩
  · rw [Option.bind_some, Option.bind_some, TaskGroup.failure?_finish hi]
    constructor
    · rintro ⟨hnone, hsome⟩
      rw [hnone, Option.none_or] at hsome
      obtain ⟨y, hy, hpair⟩ := Option.map_eq_some_iff.mp hsome
      obtain ⟨rfl, rfl⟩ := Prod.mk.inj hpair
      rw [Outcome.error?_eq_some.mp hy]
      exact ⟨g, rfl, rfl, TaskGroup.failure?_eq_none.mp hnone, hi, rfl⟩
    · rintro ⟨g, hg, rfl, hfirst, -, hr⟩
      cases hg
      cases hr
      rw [TaskGroup.failure?_eq_none.mpr hfirst]
      exact ⟨rfl, rfl⟩
  · refine iff_of_false ?_ ?_
    · rintro ⟨hnone, hsome⟩
      rw [hnone] at hsome
      contradiction
    · rintro ⟨g, hg, -, -, hi, hended⟩
      exact hno _ g hended hg hi

namespace Finishes

/-- The end of a leaf cancels the tokens of the groups that fail with it, and nothing else. -/
theorem isCancelled_iff (h : Finishes tokens r place c e c' tokens') :
    tokens'.isCancelled t ↔ tokens.isCancelled t ∨ FailsAbove t c c' := by
  induction h with
  | leaf id name hr => rw [or_iff_left not_failsAbove_leaf]
  | group hm _ hs ih => rw [isCancelled_settle hs, ih, failsAbove_set hm, or_assoc, or_comm (a := Strikes ..)]

/-- Among the members only the one that goes on can come to an error, which is then carried upwards. -/
theorem error_iff (h : Finishes tokens r place m ended m' tokens') (hm : members[i]? = some m) :
    (∃ n n', members[k]? = some n ∧ (members.set i m')[k]? = some n' ∧ n.result? = none ∧
      n'.result? = some (.error x)) ↔ k = i ∧ ended = some (.error x) := by
  rw [getElem?_set_of_getElem? hm]
  constructor
  · rintro ⟨n, n', hn, hn', hnone, hsome⟩
    split at hn'
    · next hk =>
      cases hn'
      rw [hk, hm, Option.some.injEq] at hn
      refine ⟨hk, ?_⟩
      rw [← hsome, h.result?.1, hn, hnone, Option.or_none]
    · rw [hn, Option.some.injEq] at hn'
      rw [← hn', hnone] at hsome
      contradiction
  · rintro ⟨rfl, rfl⟩
    refine ⟨m, m', hm, if_pos rfl, h.result?.2 rfl, ?_⟩
    rw [h.result?.1, Option.some_or]

theorem fails_nil_iff (h : Finishes tokens r place m ended m' tokens') (hm : members[i]? = some m)
    (hs : settle tokens' i ended tasks = (e, tasks', tokens'')) :
    Fails (.group members tasks) (.group (members.set i m') tasks') [] u x ↔ ∃ g k, g.token = u ∧
      TakesError (.group members tasks) (.group (members.set i m') tasks') [] g k x := by
  simp only [Fails, failure?_nil, settle_fails_iff hs, TakesError, List.nil_append, client?_singleton,
    h.error_iff hm]
  constructor
  · rintro ⟨g, htasks, htoken, hfirst, hi, hended⟩
    exact ⟨g, i, htoken, htasks, hfirst, hi, rfl, hended⟩
  · rintro ⟨g, k, htoken, htasks, hfirst, hi, rfl, hended⟩
    exact ⟨g, htasks, htoken, hfirst, hi, hended⟩

/-- A group fails exactly if the run of a member that it waits for comes to an error, before that of any
other. -/
theorem fails_iff (h : Finishes tokens r place c e c' tokens') :
    Fails c c' q u x ↔ ∃ g i, g.token = u ∧ TakesError c c' q g i x := by
  induction h generalizing q with
  | leaf id name hr => simp [Fails, TakesError, failure?_leaf, tasksAt?_leaf]
  | @group members i place m m' tasks tasks' ended e tokens₁ tokens' hm hf hs ih =>
    cases q with
    | nil => exact hf.fails_nil_iff hm hs
    | cons k q =>
      cases hk : members[k]? with
      | none =>
        have hki : k ≠ i := by
          rintro rfl
          rw [hk] at hm
          contradiction
        simp [Fails, TakesError, failure?_cons, tasksAt?_cons, hk, getElem?_set_of_getElem? hm, hki]
      | some n =>
        have hn := getElem?_set_of_getElem? hm m' k
        -- Only member number `i` has gone on. In all others nothing fails.
        by_cases hki : k = i
        · rw [if_pos hki] at hn
          rw [hki, hm, Option.some.injEq] at hk
          simp only [fails_cons (hki ▸ hm) hn, takesError_cons (hki ▸ hm) hn]
          exact ih
        · rw [if_neg hki, hk] at hn
          simp only [fails_cons hk hn, takesError_cons hk hn]
          exact iff_of_false not_fails_self fun ⟨g, j, _, h⟩ => not_takesError_self h

end Finishes

/-! ## A call of the run -/

theorem failure?_finish?_of_some (h : g.failure? = some y) (tokens : TokenForest) (i : Nat)
    (r : Option Outcome) : (g.finish? tokens i r).1.failure? = some y := by
  cases r with
  | none => exact h
  | some r => exact TaskGroup.failure?_finish_of_some h tokens i r

theorem isCancelled_finish? (g : TaskGroup) (tokens : TokenForest) (i : Nat) (r : Option Outcome) :
    (g.finish? tokens i r).2.isCancelled t ↔
      tokens.isCancelled t ∨ Strikes t g.failure? (g.finish? tokens i r).1.failure? := by
  cases r with
  | none => exact (or_iff_left not_strikes_self).symm
  | some r => exact g.isCancelled_finish tokens i r

theorem failure?_startAll_of_some (h : g.failure? = some y) (tokens : TokenForest) (i : Nat)
    (members : List ClientTree) : (startAll tokens g i members).1.failure? = some y := by
  induction members generalizing tokens g i with
  | nil => exact h
  | cons c rest ih =>
    rw [startAll_cons]
    exact ih (failure?_finish?_of_some h ..) ..

mutual

/-- A call of the run cancels the tokens of the groups that fail at once, and nothing else. -/
theorem isCancelled_start_iff (tokens : TokenForest) (token t : Token) : ∀ c,
    (start tokens token c).2.2.isCancelled t ↔
      tokens.isCancelled t ∨ FailsAbove t c (start tokens token c).2.1
  | .leaf .. => (or_iff_left not_failsAbove_leaf).symm
  | .group _ (some _) => (or_iff_left not_failsAbove_self).symm
  | .group members none => by
    have h := isCancelled_startAll_iff (tokens.child token).2
      (.start (tokens.child token).1 members.length) 0 t members
    have hgroup : FailsAbove t (.group members none) (start tokens token (.group members none)).2.1 ↔
        Strikes t none (startMembers tokens token members).1.failure? ∨ _ :=
      failsAbove_group (length_startAll ..)
    rw [hgroup]
    exact h

theorem isCancelled_startAll_iff (tokens : TokenForest) (g : TaskGroup) (i : Nat) (t : Token) : ∀ cs,
    (startAll tokens g i cs).2.2.isCancelled t ↔ tokens.isCancelled t ∨
      Strikes t g.failure? (startAll tokens g i cs).1.failure? ∨
      AnyFailsAbove t cs (startAll tokens g i cs).2.1
  | [] => by simp [startAll, not_strikes_self, not_anyFailsAbove_nil]
  | c :: rest => by
    let next := g.finish? (start tokens g.token c).2.2 i (start tokens g.token c).1
    have hrest := isCancelled_startAll_iff next.2 next.1 (i + 1) t rest
    rw [isCancelled_finish?, isCancelled_start_iff] at hrest
    -- A failure that is noted on the way stays, so those on the way add up.
    have hstrikes : Strikes t g.failure? (startAll tokens g i (c :: rest)).1.failure? ↔
        Strikes t g.failure? next.1.failure? ∨
          Strikes t next.1.failure? (startAll next.2 next.1 (i + 1) rest).1.failure? :=
      strikes_trans (fun y hy => failure?_finish?_of_some hy _ i (start tokens g.token c).1)
        fun y hy => failure?_startAll_of_some hy next.2 (i + 1) rest
    have hany : AnyFailsAbove t (c :: rest) (startAll tokens g i (c :: rest)).2.1 ↔
        FailsAbove t c (start tokens g.token c).2.1 ∨
          AnyFailsAbove t rest (startAll next.2 next.1 (i + 1) rest).2.1 := anyFailsAbove_cons
    rw [hstrikes, hany]
    rw [or_assoc, or_assoc] at hrest
    exact hrest.trans (or_congr_right ((or_congr_right or_assoc.symm).trans or_left_comm))

end

/-- The groups that fail with a call of the run are run by it, and it is the first of the errors that their
members end with at once. -/
theorem fails_start_iff : Fails c (start tokens token c).2.1 q u x ↔ ∃ members members' g,
    c.client? q = some (.group members none) ∧
      (start tokens token c).2.1.client? q = some (.group members' (some g)) ∧ g.token = u ∧
      FirstFailure (endedAtOnce 0 members) x := by
  induction q generalizing c tokens token with
  | nil =>
    cases c with
    | leaf id name runs => simp [Fails, start, failure?_leaf, client?]
    | group members tasks =>
      cases tasks with
      | some g => simp [start, not_fails_self, client?]
      | none =>
        have hafter := after_startMembers tokens token members
        rw [start_group, Fails, failure?_nil, failure?_nil, Option.bind_none, Option.bind_some,
          TaskGroup.failure?_eq_some, hafter.firstError, findSome?_error?]
        simp [client?]
  | cons k q ih =>
    cases c with
    | leaf id name runs => simp [Fails, start, failure?_leaf, client?, members]
    | group members tasks =>
      cases tasks with
      | some g =>
        refine iff_of_false not_fails_self ?_
        rintro ⟨ms, ms', g', hm, hm', -⟩
        rw [start] at hm'
        rw [hm] at hm'
        cases hm'
      | none =>
        rw [Fails, start_group, failure?_cons, failure?_cons, client?_cons, client?_cons]
        cases hm : members[k]? with
        | none =>
          have hnone : (startMembers tokens token members).2.1[k]? = none := by
            rw [List.getElem?_eq_none_iff] at hm ⊢
            rwa [startMembers, length_startAll]
          simp [hnone]
        | some m =>
          obtain ⟨tokens', hk⟩ := getElem?_startAll (tokens.child token).2
            (.start (tokens.child token).1 members.length) 0 hm
          rw [startMembers, hk]
          exact ih

end
end ClientTree
end AmpLink
