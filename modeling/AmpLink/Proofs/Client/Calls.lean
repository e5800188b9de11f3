import AmpLink.Client.Tree
import AmpLink.Proofs.Task.Joining

/-!
# Running a client

A call of a client's run reaches leaves through groups that have not been run before, once each and under
the token of the call (`ClientTree.runs?_start`). Whether a run ends at once does not depend on tokens
(`ClientTree.start_fst`), and a group that is run collects the members whose runs do
(`ClientTree.after_startAll`).
-/

namespace AmpLink

namespace ClientTree

theorem names_eq_map (cs : List ClientTree) : names cs = cs.map name := by
  induction cs with
  | nil => rfl
  | cons c cs ih => rw [names, ih, List.map_cons]

/-! ## Views of a tree -/

/-- The group of the members' runs. -/
def tasks? : ClientTree → Option TaskGroup
  | .leaf .. => none
  | .group _ tasks => tasks

/-- The runs of the leaf at a place. -/
def runs? : List Nat → ClientTree → Option (List LeafRun)
  | [], .leaf _ _ runs => some runs
  | i :: place, .group members _ => members[i]?.bind (runs? place)
  | _, _ => none

/-- A call of the client's run gets to the leaf at a place: no group on the way has been run before. -/
def isReached : List Nat → ClientTree → Bool
  | [], .leaf .. => true
  | i :: place, .group members none => members[i]?.any (isReached place)
  | _, _ => false

/-- The token of the latest run. -/
def token? : ClientTree → Option Token
  | .leaf _ _ runs => runs.getLast?.map (·.token)
  | .group _ tasks => tasks.map (·.token)

/-- What the latest run has come to. -/
def result? : ClientTree → Option Outcome
  | .leaf _ _ runs => runs.getLast?.bind (·.result)
  | .group _ tasks => tasks.bind (·.result?)

/-- What a call of the run ends with at once, if it does. -/
def atOnce (c : ClientTree) : Option Outcome := (start .empty ⟨[]⟩ c).1

/-- The members whose runs end at once, the first of `members` being number `i`. -/
def endedAtOnce (i : Nat) : List ClientTree → List (Nat × Outcome)
  | [] => []
  | c :: rest => c.atOnce.toList.map (i, ·) ++ endedAtOnce (i + 1) rest

/-- No group in the tree holds a token at the place of `t` or above it. -/
inductive Spares (t : Token) : ClientTree → Prop
  | leaf (id : Nat) (name : String) (runs : List LeafRun) : Spares t (.leaf id name runs)
  | group {members : List ClientTree} {tasks : Option TaskGroup} : (∀ m ∈ members, Spares t m) →
    (∀ g, tasks = some g → t.isWithin g.token = false) → Spares t (.group members tasks)

/-! ## Running a client -/

section

variable {tokens : TokenForest} {token t : Token} {c m : ClientTree} {members : List ClientTree}

theorem startAll_cons (tokens : TokenForest) (tasks : TaskGroup) (i : Nat) (c : ClientTree)
    (rest : List ClientTree) : startAll tokens tasks i (c :: rest) =
      let (r, c, tokens) := start tokens tasks.token c
      let (tasks, tokens) := tasks.finish? tokens i r
      let (tasks, rest, tokens) := startAll tokens tasks (i + 1) rest
      (tasks, c :: rest, tokens) := rfl

/-- The runs of the members of a group that is run under `token`. -/
def startMembers (tokens : TokenForest) (token : Token) (members : List ClientTree) :
    TaskGroup × List ClientTree × TokenForest :=
  startAll (tokens.child token).2 (.start (tokens.child token).1 members.length) 0 members

theorem start_group (tokens : TokenForest) (token : Token) (members : List ClientTree) :
    start tokens token (.group members none) =
      let (tasks, members, tokens) := startMembers tokens token members
      (tasks.result?, .group members (some tasks), tokens) := rfl

theorem token_finish? (tasks : TaskGroup) (tokens : TokenForest) (i : Nat) (r : Option Outcome) :
    (tasks.finish? tokens i r).1.token = tasks.token := by
  cases r with
  | none => rfl
  | some r => exact (tasks.token_finish tokens i r).1

theorem cancelsWithin_finish? (tasks : TaskGroup) (tokens : TokenForest) (i : Nat)
    (r : Option Outcome) : tokens.CancelsWithin tasks.token (tasks.finish? tokens i r).2 := by
  cases r with
  | none => exact .refl ..
  | some r => exact tasks.cancelsWithin_finish tokens i r

theorem length_startAll (tokens : TokenForest) (tasks : TaskGroup) (i : Nat)
    (members : List ClientTree) : (startAll tokens tasks i members).2.1.length = members.length := by
  induction members generalizing tokens tasks i with
  | nil => rfl
  | cons c rest ih =>
    rw [startAll_cons]
    exact congrArg Nat.succ (ih ..)

/-- Every member is run once, with the token of the group. -/
theorem getElem?_startAll (tokens : TokenForest) (tasks : TaskGroup) (i : Nat) {k : Nat}
    (h : members[k]? = some m) : ∃ tokens',
      (startAll tokens tasks i members).2.1[k]? = some (start tokens' tasks.token m).2.1 := by
  induction members generalizing tokens tasks i k with
  | nil => contradiction
  | cons c rest ih =>
    rw [startAll_cons]
    cases k with
    | zero =>
      cases h
      exact ⟨tokens, rfl⟩
    | succ k =>
      let next := tasks.finish? (start tokens tasks.token c).2.2 i (start tokens tasks.token c).1
      obtain ⟨tokens', hk⟩ := ih next.2 next.1 (i + 1) h
      rw [token_finish?] at hk
      exact ⟨tokens', hk⟩

theorem mem_startAll {tasks : TaskGroup} (h : m ∈ (startAll tokens tasks i members).2.1) :
    ∃ m₀ ∈ members, ∃ tokens', m = (start tokens' tasks.token m₀).2.1 := by
  obtain ⟨k, hk⟩ := List.mem_iff_getElem?.mp h
  have hlt : k < members.length := by
    rw [← length_startAll tokens tasks i members]
    exact (List.getElem?_eq_some_iff.mp hk).1
  have hmk := List.getElem?_eq_getElem hlt
  obtain ⟨tokens', hk'⟩ := getElem?_startAll tokens tasks i hmk
  exact ⟨_, List.mem_of_getElem? hmk, tokens', Option.some.inj (hk.symm.trans hk')⟩

mutual

theorem name_start (tokens : TokenForest) (token : Token) :
    ∀ c, (start tokens token c).2.1.name = c.name
  | .leaf .. => rfl
  | .group _ (some _) => rfl
  | .group members none => by
    rw [start, name, name]
    exact congrArg _ (congrArg _ (names_startAll ..))

theorem names_startAll (tokens : TokenForest) (tasks : TaskGroup) (i : Nat) :
    ∀ cs, names (startAll tokens tasks i cs).2.1 = names cs
  | [] => rfl
  | c :: rest => by
    rw [startAll_cons, names, names]
    exact congrArg₂ List.cons (name_start ..) (names_startAll ..)

end

/-- A leaf gets one more run if the call gets to it, and none otherwise. -/
theorem runs?_start (tokens : TokenForest) (token : Token) (h : runs? place c = some runs) :
    ∃ new, runs? place (start tokens token c).2.1 = some (runs ++ new) ∧
      new.length = (isReached place c).toNat ∧
      ∀ run ∈ new, run.token.isWithin token ∧ run.result = none := by
  induction place generalizing c tokens token with
  | nil =>
    cases c with
    | leaf id name runs' =>
      cases h
      refine ⟨[{ token, result := none }], rfl, rfl, ?_⟩
      simp [Token.isWithin_refl]
    | group members tasks => contradiction
  | cons i place ih =>
    cases c with
    | leaf id name runs' => contradiction
    | group members tasks =>
      cases tasks with
      | some g =>
        exact ⟨[], by rw [List.append_nil]; exact h, rfl, nofun⟩
      | none =>
        obtain ⟨m, hm, hruns⟩ := Option.bind_eq_some_iff.mp h
        obtain ⟨tokens', hk⟩ := getElem?_startAll (tokens.child token).2
          (.start (tokens.child token).1 members.length) 0 hm
        obtain ⟨new, hnew, hlength, hall⟩ := ih tokens' (tokens.child token).1 hruns
        refine ⟨new, ?_, ?_, fun run hrun => ?_⟩
        · rw [start_group, runs?, startMembers, hk]
          exact hnew
        · rw [hlength, isReached, hm, Option.any_some]
        · obtain ⟨hwithin, hresult⟩ := hall run hrun
          exact ⟨Token.isWithin_trans hwithin (tokens.isWithin_child token), hresult⟩

mutual

/-- Running a client cancels no token but within that of the run. -/
theorem cancelsWithin_start (tokens : TokenForest) (token : Token) :
    ∀ c, tokens.CancelsWithin token (start tokens token c).2.2
  | .leaf .. => .refl ..
  | .group _ (some _) => .refl ..
  | .group members none => by
    have h := cancelsWithin_startAll (tokens.child token).2
      (.start (tokens.child token).1 members.length) 0 members
    exact (TokenForest.CancelsWithin.child ..).trans (h.widen (tokens.isWithin_child token))

theorem cancelsWithin_startAll (tokens : TokenForest) (tasks : TaskGroup) (i : Nat) :
    ∀ cs, tokens.CancelsWithin tasks.token (startAll tokens tasks i cs).2.2
  | [] => .refl ..
  | c :: rest => by
    let next := tasks.finish? (start tokens tasks.token c).2.2 i (start tokens tasks.token c).1
    have h := cancelsWithin_startAll next.2 next.1 (i + 1) rest
    rw [token_finish?] at h
    exact (cancelsWithin_start tokens tasks.token c).trans ((cancelsWithin_finish? ..).trans h)

end

theorem lt_succ_of_mem {ended : List (Nat × Outcome)} {r : Option Outcome} (h : ∀ c ∈ ended, c.1 < i) :
    ∀ c ∈ ended ++ r.toList.map (i, ·), c.1 < i + 1 := by
  intro c hc
  rcases List.mem_append.mp hc with hc | hc
  · exact Nat.lt_succ_of_lt (h c hc)
  · obtain ⟨r, -, rfl⟩ := List.mem_map.mp hc
    exact Nat.lt_succ_self i

mutual

/-- What a run ends with at once does not depend on tokens. -/
theorem start_fst (tokens : TokenForest) (token : Token) :
    ∀ c, (start tokens token c).1 = c.atOnce
  | .leaf .. => rfl
  | .group _ (some _) => rfl
  | .group members none => by
    have h := after_startAll (tokens.child token).2 (.start (tokens.child token).1 members.length)
      members (Nat.le_of_eq (Nat.zero_add _)) (List.forall_mem_nil _)
    have h' := after_startAll (TokenForest.empty.child ⟨[]⟩).2
      (.start (TokenForest.empty.child ⟨[]⟩).1 members.length) members
      (Nat.le_of_eq (Nat.zero_add _)) (List.forall_mem_nil _)
    exact h.result?_congr h'

/-- A group takes the ends of the members whose runs end at once. -/
theorem after_startAll (tokens : TokenForest) {tasks : TaskGroup} {token : Token} {count i : Nat}
    {ended : List (Nat × Outcome)} (h : tasks.After token count ended) :
    ∀ members : List ClientTree, i + members.length ≤ count → (∀ c ∈ ended, c.1 < i) →
      (startAll tokens tasks i members).1.After token count (ended ++ endedAtOnce i members)
  | [], _, _ => by
    rw [endedAtOnce, List.append_nil]
    exact h
  | c :: rest, hcount, hlt => by
    rw [List.length_cons] at hcount
    have hi : i ∈ tasks.unfinished := h.mem_unfinished_of_lt hlt (by omega)
    rw [startAll_cons, endedAtOnce, ← List.append_assoc, ← start_fst tokens tasks.token c]
    exact after_startAll _ (h.finish? hi _ _) rest (by omega) (lt_succ_of_mem hlt)

end

/-- The token of a group is cancelled once a member has failed. -/
theorem isCancelled_startAll {count : Nat} {ended : List (Nat × Outcome)} {tokens : TokenForest}
    {tasks : TaskGroup} (h : tasks.After token count ended) (hc : Failed ended → tokens.isCancelled token)
    (hcount : i + members.length ≤ count) (hlt : ∀ c ∈ ended, c.1 < i)
    (hf : Failed (ended ++ endedAtOnce i members)) :
    (startAll tokens tasks i members).2.2.isCancelled token := by
  induction members generalizing tokens tasks i ended with
  | nil =>
    rw [endedAtOnce, List.append_nil] at hf
    exact hc hf
  | cons c rest ih =>
    rw [List.length_cons] at hcount
    have hi : i ∈ tasks.unfinished := h.mem_unfinished_of_lt hlt (by omega)
    rw [startAll_cons]
    rw [endedAtOnce, ← List.append_assoc, ← start_fst tokens tasks.token c] at hf
    have hc' := fun hfailed => (cancelsWithin_start tokens tasks.token c).mono _ (hc hfailed)
    exact ih (h.finish? hi _ _) (h.isCancelled_finish?_of_failed hi hc') (by omega) (lt_succ_of_mem hlt) hf

/-- A group that is run cancels no token but within its own. -/
theorem cancelsWithin_startMembers (tokens : TokenForest) (token : Token) (members : List ClientTree) :
    tokens.CancelsWithin (tokens.child token).1 (startMembers tokens token members).2.2 := by
  have h := cancelsWithin_startAll (tokens.child token).2
    (.start (tokens.child token).1 members.length) 0 members
  exact (TokenForest.CancelsWithin.child ..).trans h

/-- The group of the members' runs when they have been called. -/
theorem after_startMembers (tokens : TokenForest) (token : Token) (members : List ClientTree) :
    (startMembers tokens token members).1.After (tokens.child token).1 members.length
      (endedAtOnce 0 members) :=
  after_startAll _ (.start _ _) members (Nat.le_of_eq (Nat.zero_add _)) (List.forall_mem_nil _)

theorem mem_endedAtOnce {k : Nat} : (k, r) ∈ endedAtOnce i members ↔
    ∃ j m, k = i + j ∧ members[j]? = some m ∧ m.atOnce = some r := by
  induction members generalizing i with
  | nil => simp [endedAtOnce]
  | cons c rest ih =>
    rw [endedAtOnce, List.mem_append, ih]
    constructor
    · rintro (hc | ⟨j, m, hk, hm, hr⟩)
      · simp only [List.mem_map, Option.mem_toList, Prod.mk.injEq] at hc
        obtain ⟨r', hr, hk, rfl⟩ := hc
        exact ⟨0, c, hk.symm, rfl, hr⟩
      · exact ⟨j + 1, m, by omega, hm, hr⟩
    · rintro ⟨j, m, hk, hm, hr⟩
      cases j with
      | zero =>
        cases hm
        exact .inl (List.mem_map.mpr ⟨r, Option.mem_toList.mpr hr, by rw [hk, Nat.add_zero]⟩)
      | succ j => exact .inr ⟨j, m, by omega, hm, hr⟩

/-- A client that has not been run before has the token of its run from the call, or one below it. -/
theorem token?_start (tokens : TokenForest) (token : Token) (h : c.isStarted = false) :
    ∃ t, (start tokens token c).2.1.token? = some t ∧ t.isWithin token := by
  cases c with
  | leaf id name runs => exact ⟨token, by simp [start, token?], Token.isWithin_refl token⟩
  | group members tasks =>
    cases tasks with
    | some g => contradiction
    | none =>
      refine ⟨(tokens.child token).1, ?_, tokens.isWithin_child token⟩
      exact congrArg some (after_startMembers tokens token members).token_eq

theorem result?_start (tokens : TokenForest) (token : Token) (h : c.isStarted = false) :
    (start tokens token c).2.1.result? = c.atOnce := by
  rw [← start_fst tokens token c]
  cases c with
  | leaf id name runs => simp [start, result?]
  | group members tasks =>
    cases tasks with
    | some g => contradiction
    | none => rfl

/-- Running a client hands out tokens below that of the run only. -/
theorem Spares.start (h : c.Spares t) (tokens : TokenForest)
    (ht : ∀ u, Token.IsBelow u token → t.isWithin u = false) :
    (start tokens token c).2.1.Spares t := by
  induction h generalizing tokens token with
  | leaf id name runs => exact .leaf ..
  | @group members tasks hm hg ih =>
    cases tasks with
    | some g => exact .group hm hg
    | none =>
      have hown := ht _ (tokens.isBelow_child token)
      have hbelow : ∀ u, Token.IsBelow u (tokens.child token).1 → t.isWithin u = false := by
        refine fun u hu => Bool.eq_false_iff.mpr fun hw => ?_
        rw [Token.isWithin_trans hw hu.1] at hown
        contradiction
      refine .group (fun m' hmem => ?_) fun g hgroup => ?_
      · obtain ⟨m, hm₀, tokens', rfl⟩ := mem_startAll hmem
        exact ih m hm₀ tokens' hbelow
      · have hgroup : some (startMembers tokens token members).1 = some g := hgroup
        rw [Option.some.injEq] at hgroup
        rw [← hgroup, (after_startMembers tokens token members).token_eq]
        exact hown

end

end ClientTree
end AmpLink
