import AmpLink.Proofs.Steps
import AmpLink.Proofs.Task.Group
import AmpLink.Proofs.Task.Tokens
import Mathlib.Data.List.Nodup

/-!
# A group from its start to its result

`TaskGroup.After` says how a group stands once some of its tasks have ended: which tasks are left, which
failure came first, and so what the result is. `Joining` is a group in the middle of a program, in which
others cancel tokens and hand out new ones while the tasks end in any order. The main statement is
`Joining.joined_of_steps`.
-/

namespace AmpLink

/-- The error of a task that has failed. -/
def Outcome.error? : Outcome → Option RunError
  | .ok _ => none
  | .error e => some e

@[simp] theorem Outcome.error?_eq_none {r : Outcome} : error? r = none ↔ r = .ok () := by
  cases r <;> simp [error?]

@[simp] theorem Outcome.error?_eq_some {r : Outcome} : error? r = some e ↔ r = .error e := by
  cases r <;> simp [error?]

/-- The first task of `ended` to fail has failed with `e`. -/
def FirstFailure (ended : List (Nat × Outcome)) (e : RunError) : Prop :=
  ∃ before k after, ended = before ++ (k, .error e) :: after ∧ ∀ c ∈ before, c.2 = .ok ()

/-- Some task of `ended` has failed. -/
def Failed (ended : List (Nat × Outcome)) : Prop := ∃ c ∈ ended, c.2 ≠ .ok ()

@[simp] theorem not_failed_nil : ¬ Failed [] := nofun

theorem not_failed {ended : List (Nat × Outcome)} : ¬ Failed ended ↔ ∀ c ∈ ended, c.2 = .ok () := by
  simp [Failed]

theorem failed_concat {ended : List (Nat × Outcome)} :
    Failed (ended ++ [(k, r)]) ↔ Failed ended ∨ r ≠ .ok () := by
  simp [Failed, or_and_right, exists_or]

theorem findSome?_error? {ended : List (Nat × Outcome)} :
    (ended.findSome? fun c => Outcome.error? c.2) = some e ↔ FirstFailure ended e := by
  simp [List.findSome?_eq_some_iff, FirstFailure]

namespace TaskGroup

/-- A group of `count` tasks under `token`, of which `ended` have ended, in this order. -/
structure After (token : Token) (count : Nat) (ended : List (Nat × Outcome)) (g : TaskGroup) :
    Prop where
  token_eq : g.token = token
  nodup : g.unfinished.Nodup
  mem_unfinished : ∀ k, k ∈ g.unfinished ↔ k < count ∧ k ∉ ended.map Prod.fst
  firstError : g.firstError = ended.findSome? fun c => Outcome.error? c.2
  once : (ended.map Prod.fst).Nodup
  lt_count : ∀ c ∈ ended, c.1 < count

namespace After

variable {g : TaskGroup} {token : Token} {ended : List (Nat × Outcome)}

theorem start (token : Token) (count : Nat) : After token count [] (.start token count) where
  token_eq := rfl
  nodup := List.nodup_range
  mem_unfinished k := by simp [TaskGroup.start]
  firstError := rfl
  once := List.nodup_nil
  lt_count c hc := by contradiction

theorem firstError_eq_none (h : After token count ended g) :
    g.firstError = none ↔ ¬ Failed ended := by
  rw [h.firstError, not_failed, List.findSome?_eq_none_iff]
  simp

/-- The first failure cancels the token of the group. -/
theorem finish_of_error (h : After token count ended g) (hk : k ∈ g.unfinished)
    (hok : ¬ Failed ended) (tokens : TokenForest) (e : RunError) :
    (g.finish tokens k (.error e)).2 = tokens.cancel token := by
  rw [finish_error hk (h.firstError_eq_none.mpr hok), h.token_eq]

/-- No other end of a task cancels anything. -/
theorem finish_of_not_first (h : After token count ended g) (tokens : TokenForest)
    (hr : r = .ok () ∨ Failed ended) : (g.finish tokens k r).2 = tokens := by
  rcases hr with rfl | hfailed
  · exact tokens_finish_ok g tokens k
  · have hfirst : g.firstError ≠ none := fun hn => h.firstError_eq_none.mp hn hfailed
    rw [finish]
    split
    · split
      · contradiction
      · rfl
    · rfl

theorem isCancelled_finish (h : After token count ended g) (hk : k ∈ g.unfinished)
    (tokens : TokenForest) : (g.finish tokens k r).2.isCancelled t ↔
      tokens.isCancelled t ∨ (t.isWithin token ∧ r ≠ .ok () ∧ ¬ Failed ended) := by
  by_cases hfirst : r = .ok () ∨ Failed ended
  · rw [h.finish_of_not_first tokens hfirst, or_iff_left]
    rintro ⟨-, hr, hok⟩
    exact hfirst.elim hr hok
  · obtain ⟨hr, hok⟩ := not_or.mp hfirst
    cases r with
    | ok => contradiction
    | error e =>
      rw [h.finish_of_error hk hok, TokenForest.isCancelled_cancel, or_comm]
      exact or_congr_right (and_iff_left ⟨hr, hok⟩).symm

theorem finish (h : After token count ended g) (hk : k ∈ g.unfinished) (tokens : TokenForest)
    (r : Outcome) : After token count (ended ++ [(k, r)]) (g.finish tokens k r).1 := by
  obtain ⟨hlt, hnew⟩ := (h.mem_unfinished k).mp hk
  have hunfinished : (g.finish tokens k r).1.unfinished = g.unfinished.erase k := by
    rw [TaskGroup.finish, if_pos hk]
    split <;> rfl
  have hfirst : (g.finish tokens k r).1.firstError = g.firstError.or (Outcome.error? r) := by
    rw [TaskGroup.finish, if_pos hk]
    cases r <;> cases g.firstError <;> simp [Outcome.error?]
  refine
    { token_eq := ((g.token_finish tokens k r).1).trans h.token_eq
      nodup := hunfinished ▸ h.nodup.erase k
      mem_unfinished := fun j => ?_
      firstError := ?_
      once := ?_
      lt_count := fun c hc => ?_ }
  · rw [hunfinished, h.nodup.mem_erase_iff, h.mem_unfinished, List.map_append, List.mem_append]
    simp
    tauto
  · rw [hfirst, h.firstError, List.findSome?_append]
    simp
  · rw [List.map_append, List.nodup_append]
    refine ⟨h.once, List.nodup_singleton k, fun a ha b hb hab => ?_⟩
    rw [List.map_singleton, List.mem_singleton] at hb
    rw [hab, hb] at ha
    exact hnew ha
  · rcases List.mem_append.mp hc with hc | hc
    · exact h.lt_count c hc
    · rw [List.mem_singleton] at hc
      rwa [hc]

theorem finish? (h : After token count ended g) (hk : k ∈ g.unfinished) (tokens : TokenForest)
    (r : Option Outcome) :
    After token count (ended ++ r.toList.map (k, ·)) (g.finish? tokens k r).1 := by
  cases r with
  | none =>
    rw [Option.toList_none, List.map_nil, List.append_nil]
    exact h
  | some r => exact h.finish hk tokens r

/-- Tasks from number `i` on are left if only tasks before it have ended. -/
theorem mem_unfinished_of_lt (h : After token count ended g) (hlt : ∀ c ∈ ended, c.1 < i)
    (hi : i < count) : i ∈ g.unfinished := by
  refine (h.mem_unfinished i).mpr ⟨hi, fun hmem => ?_⟩
  obtain ⟨c, hc, hci⟩ := List.mem_map.mp hmem
  exact Nat.ne_of_lt (hlt c hc) hci

/-- The token of the group is cancelled once a task has failed. -/
theorem isCancelled_finish_of_failed (h : After token count ended g) (hk : k ∈ g.unfinished)
    {tokens : TokenForest} (hc : Failed ended → tokens.isCancelled token)
    (hf : Failed (ended ++ [(k, r)])) : (g.finish tokens k r).2.isCancelled token := by
  rw [h.isCancelled_finish hk]
  by_cases hfailed : Failed ended
  · exact .inl (hc hfailed)
  · exact .inr ⟨Token.isWithin_refl token, (failed_concat.mp hf).resolve_left hfailed, hfailed⟩

theorem isCancelled_finish?_of_failed (h : After token count ended g) (hk : k ∈ g.unfinished)
    {tokens : TokenForest} (hc : Failed ended → tokens.isCancelled token)
    (hf : Failed (ended ++ r.toList.map (k, ·))) : (g.finish? tokens k r).2.isCancelled token := by
  cases r with
  | none =>
    rw [Option.toList_none, List.map_nil, List.append_nil] at hf
    exact hc hf
  | some r => exact h.isCancelled_finish_of_failed hk hc hf

/-- Nothing is left exactly if every task has ended. -/
theorem unfinished_eq_nil (h : After token count ended g) :
    g.unfinished = [] ↔ ∀ k < count, k ∈ ended.map Prod.fst := by
  rw [List.eq_nil_iff_forall_not_mem]
  simp only [h.mem_unfinished, not_and, not_not]

theorem result?_eq_ok (h : After token count ended g) : g.result? = some (.ok ()) ↔
    (∀ k < count, k ∈ ended.map Prod.fst) ∧ ∀ c ∈ ended, c.2 = .ok () := by
  rw [result?_eq_some, h.unfinished_eq_nil, ← not_failed, ← h.firstError_eq_none]
  simp

theorem result?_eq_error (h : After token count ended g) : g.result? = some (.error e) ↔
    (∀ k < count, k ∈ ended.map Prod.fst) ∧ FirstFailure ended e := by
  rw [result?_eq_some, h.unfinished_eq_nil, h.firstError, findSome?_error?.symm]
  simp [eq_comm]

theorem isSome_result? (h : After token count ended g) :
    g.result?.isSome ↔ ∀ k < count, k ∈ ended.map Prod.fst := by
  rw [← h.unfinished_eq_nil, result?]
  cases g.unfinished <;> cases g.firstError <;> simp

theorem result?_congr (h : After token count ended g) (h' : After token' count ended g') :
    g.result? = g'.result? := by
  ext o
  rw [result?_eq_some, result?_eq_some, h.unfinished_eq_nil, h'.unfinished_eq_nil, h.firstError,
    h'.firstError]

end After
end TaskGroup

/-! ## Joining the tasks -/

/-- A group and the tokens of the program around it. -/
structure Joining where
  group : TaskGroup
  tokens : TokenForest
  deriving Repr

namespace Joining

/-- A task of the group ends, or somebody else cancels a token or takes a new one. -/
inductive Action where
  | finish (task : Nat) (r : Outcome)
  | cancel (t : Token)
  | child (parent : Token)
  deriving Repr

/-- The tasks that end, with their outcomes, in the order in which they end. -/
def ended (actions : List Action) : List (Nat × Outcome) :=
  actions.filterMap fun
    | .finish task r => some (task, r)
    | _ => none

def start (tokens : TokenForest) (token : Token) (count : Nat) : Joining :=
  { group := .start token count, tokens }

/-- What an action leads to. Only a task that has not ended can end. -/
def step (j : Joining) : Action → Option Joining
  | .finish task r =>
    if task ∈ j.group.unfinished then
      let (group, tokens) := j.group.finish j.tokens task r
      some { group, tokens }
    else none
  | .cancel t => some { j with tokens := j.tokens.cancel t }
  | .child parent => some { j with tokens := (j.tokens.child parent).2 }

def steps (j : Joining) (actions : List Action) : Option Joining := actions.foldlM step j

theorem step_finish {j : Joining} : j.step (.finish k r) = some j' ↔
    k ∈ j.group.unfinished ∧
      j' = ⟨(j.group.finish j.tokens k r).1, (j.group.finish j.tokens k r).2⟩ := by
  simp [step, eq_comm]

variable {token : Token} {tokens : TokenForest} {j j' : Joining} {past : List Action} {a : Action}

/-- How a group stands after the actions `past`, and which tokens are cancelled. -/
structure Kept (token : Token) (count : Nat) (tokens : TokenForest) (past : List Action)
    (j : Joining) : Prop where
  after : j.group.After token count (ended past)
  isCancelled : ∀ t, j.tokens.isCancelled t ↔ tokens.isCancelled t ∨
    (∃ u, .cancel u ∈ past ∧ t.isWithin u) ∨ (t.isWithin token ∧ Failed (ended past))

theorem Kept.start (token : Token) (count : Nat) (tokens : TokenForest) :
    Kept token count tokens [] (.start tokens token count) where
  after := .start token count
  isCancelled t := by simp [Joining.start, ended]

theorem Kept.step (h : Kept token count tokens past j) (hs : j.step a = some j') :
    Kept token count tokens (past ++ [a]) j' := by
  cases a with
  | finish k r =>
    obtain ⟨hk, rfl⟩ := step_finish.mp hs
    have hended : ended (past ++ [.finish k r]) = ended past ++ [(k, r)] := by simp [ended]
    refine ⟨hended ▸ h.after.finish hk j.tokens r, fun t => ?_⟩
    rw [hended, failed_concat, h.after.isCancelled_finish hk, h.isCancelled]
    have hcancel : (∃ u, .cancel u ∈ past ++ [.finish k r] ∧ t.isWithin u) ↔
        ∃ u, .cancel u ∈ past ∧ t.isWithin u := by simp
    rw [hcancel]
    grind
  | cancel u =>
    cases hs
    have hended : ended (past ++ [.cancel u]) = ended past := by simp [ended]
    refine ⟨hended ▸ h.after, fun t => ?_⟩
    have hcancel : (∃ v, .cancel v ∈ past ++ [.cancel u] ∧ t.isWithin v) ↔
        t.isWithin u ∨ ∃ v, .cancel v ∈ past ∧ t.isWithin v := by
      simp [or_and_right, exists_or, or_comm]
    rw [hended, TokenForest.isCancelled_cancel, h.isCancelled, hcancel]
    grind
  | child parent =>
    cases hs
    have hended : ended (past ++ [.child parent]) = ended past := by simp [ended]
    refine ⟨hended ▸ h.after, fun t => ?_⟩
    rw [hended, TokenForest.isCancelled_child, h.isCancelled]
    simp

theorem kept_of_steps (h : (start tokens token count).steps actions = some j) :
    Kept token count tokens actions j :=
  foldlM_induction (fun _ _ _ _ => Kept.step) (.start token count tokens) h

/-! ## The main statement -/

/-- How a group of `count` tasks under `token` stands after `actions`, if `tokens` were there before. -/
structure Joined (token : Token) (count : Nat) (tokens : TokenForest) (actions : List Action)
    (j : Joining) : Prop where
  /-- Every task ends at most once. -/
  once : ((ended actions).map Prod.fst).Nodup ∧ ∀ c ∈ ended actions, c.1 < count
  /-- A task that has not ended can be the next to end, and in any way. -/
  next : ∀ k < count, k ∉ (ended actions).map Prod.fst → ∀ r, (j.step (.finish k r)).isSome
  /-- The group returns as soon as every task has ended, and not before. -/
  returns : j.group.result?.isSome ↔ ∀ k < count, k ∈ (ended actions).map Prod.fst
  ok_iff : j.group.result? = some (.ok ()) ↔
    (∀ k < count, k ∈ (ended actions).map Prod.fst) ∧ ∀ c ∈ ended actions, c.2 = .ok ()
  /-- The error is that of the task that failed first, whatever failed later. -/
  error_iff : ∀ e, j.group.result? = some (.error e) ↔
    (∀ k < count, k ∈ (ended actions).map Prod.fst) ∧ FirstFailure (ended actions) e
  /-- The group cancels its token when the end of the first task that fails is taken. -/
  cancels : ∀ k e j', (∀ c ∈ ended actions, c.2 = .ok ()) →
    j.step (.finish k (.error e)) = some j' → j'.tokens = j.tokens.cancel token
  /-- Taking any other end leaves all tokens as they are. -/
  untouched : ∀ k r j', r = .ok () ∨ Failed (ended actions) →
    j.step (.finish k r) = some j' → j'.tokens = j.tokens
  /-- A token is cancelled if it was from the start, if others have cancelled it, or if it is within the
  token of the group and a task has failed. -/
  isCancelled : ∀ t, j.tokens.isCancelled t ↔ tokens.isCancelled t ∨
    (∃ u, .cancel u ∈ actions ∧ t.isWithin u) ∨ (t.isWithin token ∧ Failed (ended actions))
  /-- Tokens above that of the group are cancelled by others only. -/
  above : ∀ t, token.IsBelow t → (j.tokens.isCancelled t ↔
    tokens.isCancelled t ∨ ∃ u, .cancel u ∈ actions ∧ t.isWithin u)

/-- However the tasks of a group end and whatever others do with tokens, the group is joined. -/
theorem joined_of_steps (h : (start tokens token count).steps actions = some j) :
    Joined token count tokens actions j := by
  have hk := kept_of_steps h
  refine
    { once := ⟨hk.after.once, hk.after.lt_count⟩
      next := fun k hlt hnew r => ?_
      returns := hk.after.isSome_result?
      ok_iff := hk.after.result?_eq_ok
      error_iff := fun e => hk.after.result?_eq_error
      cancels := fun k e j' hok hs => ?_
      untouched := fun k r j' hr hs => ?_
      isCancelled := hk.isCancelled
      above := fun t ht => ?_ }
  · have hmem := (hk.after.mem_unfinished k).mpr ⟨hlt, hnew⟩
    rw [step, if_pos hmem]
    rfl
  · obtain ⟨hmem, rfl⟩ := step_finish.mp hs
    exact hk.after.finish_of_error hmem (not_failed.mpr hok) j.tokens e
  · obtain ⟨-, rfl⟩ := step_finish.mp hs
    exact hk.after.finish_of_not_first j.tokens hr
  · rw [hk.isCancelled]
    refine or_congr_right (or_iff_left ?_)
    rintro ⟨hwithin, -⟩
    rw [ht.2] at hwithin
    contradiction

/-- Three tasks of a group below a root: the last one fails, the first one winds down and takes a token
meanwhile, and the second one fails too. -/
def rescue : List Action :=
  [.finish 2 (.error (.other "boom")), .child ⟨[0, 1]⟩, .finish 0 (.ok ()),
    .finish 1 (.error (.io "late"))]

theorem joined_rescue : ∃ j, (start .empty ⟨[0, 1]⟩ 3).steps rescue = some j ∧
    Joined ⟨[0, 1]⟩ 3 .empty rescue j ∧ j.group.result? = some (.error (.other "boom")) :=
  ⟨_, rfl, joined_of_steps rfl, rfl⟩

end Joining
end AmpLink
