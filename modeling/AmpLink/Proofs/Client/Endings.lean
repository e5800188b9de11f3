import AmpLink.Proofs.Client.Calls

/-!
# Ends of leaves and new members

When a leaf ends, the end goes up through the groups above it (`ClientTree.Finishes`): the result of a client
is what it carries upwards, and nothing else about the client changes. A new member comes into one group
(`ClientTree.Joins`).
-/

namespace AmpLink

namespace ClientTree

/-! ## The end of a leaf -/

/-- How the end of the leaf at a place goes up through the tree. -/
inductive Finishes (tokens : TokenForest) (r : Outcome) :
    List Nat → ClientTree → Option Outcome → ClientTree → TokenForest → Prop
  | leaf {runs runs' : List LeafRun} (id : Nat) (name : String) : endLast r runs = some runs' →
    Finishes tokens r [] (.leaf id name runs) (some r) (.leaf id name runs') tokens
  | group {members : List ClientTree} {i : Nat} {place : List Nat} {m m' : ClientTree}
    {tasks tasks' : Option TaskGroup} {ended e : Option Outcome} {tokens₁ tokens' : TokenForest} :
    members[i]? = some m → Finishes tokens r place m ended m' tokens₁ →
    settle tokens₁ i ended tasks = (e, tasks', tokens') →
    Finishes tokens r (i :: place) (.group members tasks) e (.group (members.set i m') tasks') tokens'

section

variable {tokens tokens' tokens₁ : TokenForest} {r : Outcome} {ended e : Option Outcome}
  {tasks tasks' : Option TaskGroup} {c c' m m' : ClientTree} {place p : List Nat} {i : Nat}

/-- What a group does when a member has gone on: it takes the end of the member, or it has none to take. -/
theorem settle_cases (h : settle tokens i ended tasks = (e, tasks', tokens')) :
    (∃ r g, ended = some r ∧ tasks = some g ∧ i ∈ g.unfinished ∧
      e = (g.finish tokens i r).1.result? ∧ tasks' = some (g.finish tokens i r).1 ∧
      tokens' = (g.finish tokens i r).2) ∨
    ((∀ r g, ended = some r → tasks = some g → i ∉ g.unfinished) ∧
      e = none ∧ tasks' = tasks ∧ tokens' = tokens) := by
  cases ended with
  | none =>
    cases h
    exact .inr ⟨nofun, rfl, rfl, rfl⟩
  | some r =>
    cases tasks with
    | none =>
      cases h
      exact .inr ⟨nofun, rfl, rfl, rfl⟩
    | some g =>
      rw [settle] at h
      split at h
      · next hi =>
        cases h
        exact .inl ⟨r, g, rfl, rfl, hi, rfl, rfl, rfl⟩
      · next hi =>
        cases h
        refine .inr ⟨fun r' g' _ hg => ?_, rfl, rfl, rfl⟩
        cases hg
        exact hi

/-- The result of a group is what comes of taking the end. -/
theorem result?_settle (h : settle tokens i ended tasks = (e, tasks', tokens')) :
    tasks'.bind (·.result?) = e.or (tasks.bind (·.result?)) ∧
      (e.isSome → tasks.bind (·.result?) = none) := by
  rcases settle_cases h with ⟨r, g, -, rfl, hi, rfl, rfl, -⟩ | ⟨-, rfl, rfl, -⟩
  · have hnone := TaskGroup.result?_of_mem hi
    simp [hnone]
  · simp

theorem token_settle (h : settle tokens i ended tasks = (e, tasks', tokens')) :
    tasks'.map (·.token) = tasks.map (·.token) := by
  rcases settle_cases h with ⟨r, g, -, rfl, -, -, rfl, -⟩ | ⟨-, -, rfl, -⟩
  · exact congrArg some (g.token_finish tokens i r).1
  · rfl

theorem endLast_eq_some {runs runs' : List LeafRun} : endLast r runs = some runs' ↔
    ∃ before run, runs = before ++ [run] ∧ run.result = none ∧
      runs' = before ++ [{ run with result := some r }] := by
  induction runs generalizing runs' with
  | nil => simp [endLast]
  | cons run rest ih =>
    cases rest with
    | nil =>
      rw [endLast]
      constructor
      · intro h
        split at h
        · next hn =>
          cases h
          exact ⟨[], run, rfl, Option.isNone_iff_eq_none.mp hn, rfl⟩
        · contradiction
      · rintro ⟨before, last, heq, hn, rfl⟩
        obtain ⟨rfl, rfl⟩ : before = [] ∧ run = last := by
          cases before with
          | nil =>
            cases heq
            exact ⟨rfl, rfl⟩
          | cons b before =>
            rw [List.cons_append, List.cons.injEq] at heq
            simp at heq
        simp [hn]
    | cons next rest =>
      rw [show endLast r (run :: next :: rest) = (endLast r (next :: rest)).map (run :: ·) from rfl,
        Option.map_eq_some_iff]
      constructor
      · rintro ⟨runs'', h, rfl⟩
        obtain ⟨before, last, heq, hn, rfl⟩ := ih.mp h
        exact ⟨run :: before, last, by rw [heq]; rfl, hn, rfl⟩
      · rintro ⟨before, last, heq, hn, rfl⟩
        cases before with
        | nil => simp at heq
        | cons b before =>
          rw [List.cons_append, List.cons.injEq] at heq
          obtain ⟨rfl, heq⟩ := heq
          exact ⟨_, ih.mpr ⟨before, last, heq, hn, rfl⟩, rfl⟩

theorem finish_eq_some : finish tokens r place c = some (e, c', tokens') ↔
    Finishes tokens r place c e c' tokens' := by
  constructor
  · intro h
    induction place generalizing c e c' tokens' with
    | nil =>
      cases c with
      | leaf id name runs =>
        obtain ⟨runs', hr, h⟩ := Option.map_eq_some_iff.mp h
        cases h
        exact .leaf id name hr
      | group members tasks => contradiction
    | cons i place ih =>
      cases c with
      | leaf id name runs => contradiction
      | group members tasks =>
        rw [finish] at h
        split at h
        · contradiction
        · next m hm =>
          split at h
          · contradiction
          · next ended m' tokens₁ hf =>
            cases h
            exact .group hm (ih hf) rfl
  · intro h
    induction h with
    | leaf id name hr => rw [finish, hr, Option.map_some]
    | group hm _ hs ih => simp only [finish, hm, ih, hs]

theorem getElem?_set_of_getElem? {members : List ClientTree} (h : members[i]? = some m)
    (m' : ClientTree) (k : Nat) :
    (members.set i m')[k]? = if k = i then some m' else members[k]? := by
  rw [List.getElem?_set]
  by_cases hk : i = k
  · rw [if_pos hk, if_pos hk.symm, if_pos (hk ▸ (List.getElem?_eq_some_iff.mp h).1)]
  · rw [if_neg hk, if_neg (Ne.symm hk)]

theorem names_set {members : List ClientTree} (h : members[i]? = some m) (hn : m'.name = m.name) :
    names (members.set i m') = names members := by
  rw [names_eq_map, names_eq_map]
  refine List.ext_getElem? fun k => ?_
  rw [List.getElem?_map, List.getElem?_map, getElem?_set_of_getElem? h]
  split
  · next hk => rw [hk, h, Option.map_some, Option.map_some, hn]
  · rfl

namespace Finishes

theorem name (h : Finishes tokens r place c e c' tokens') : c'.name = c.name := by
  induction h with
  | leaf id name hr => rfl
  | group hm _ _ ih => rw [ClientTree.name, ClientTree.name, names_set hm ih]

theorem names_members (h : Finishes tokens r place c e c' tokens') :
    names c'.members = names c.members := by
  cases h with
  | leaf id name hr => rfl
  | group hm hf _ => exact names_set hm hf.name

theorem isStarted (h : Finishes tokens r place c e c' tokens') : c'.isStarted = c.isStarted := by
  cases h with
  | leaf id name hr => rfl
  | group _ _ hs =>
    have ht := congrArg Option.isSome (token_settle hs)
    rwa [Option.isSome_map, Option.isSome_map] at ht

/-- The result of the client is what is carried upwards, and it had none before. -/
theorem result? (h : Finishes tokens r place c e c' tokens') :
    c'.result? = e.or c.result? ∧ (e.isSome → c.result? = none) := by
  cases h with
  | leaf id name hr =>
    obtain ⟨before, run, rfl, hn, rfl⟩ := endLast_eq_some.mp hr
    simp [ClientTree.result?, hn]
  | group _ _ hs => exact result?_settle hs

theorem token? (h : Finishes tokens r place c e c' tokens') : c'.token? = c.token? := by
  cases h with
  | leaf id name hr =>
    obtain ⟨before, run, rfl, hn, rfl⟩ := endLast_eq_some.mp hr
    simp [ClientTree.token?]
  | group _ _ hs => exact token_settle hs

/-- No leaf is run. -/
theorem runs? (h : Finishes tokens r place c e c' tokens') (hruns : runs? p c = some runs) :
    ∃ runs', ClientTree.runs? p c' = some runs' ∧ runs'.length = runs.length := by
  induction h generalizing p with
  | leaf id name hr =>
    cases p with
    | nil =>
      cases hruns
      obtain ⟨before, run, rfl, -, rfl⟩ := endLast_eq_some.mp hr
      exact ⟨_, rfl, by simp⟩
    | cons => contradiction
  | @group members i place m m' tasks tasks' ended e tokens₁ tokens' hm _ _ ih =>
    cases p with
    | nil => contradiction
    | cons k p =>
      obtain ⟨mk, hmk, hruns⟩ := Option.bind_eq_some_iff.mp hruns
      rw [ClientTree.runs?, getElem?_set_of_getElem? hm]
      split
      · next hk =>
        rw [hk, hm, Option.some.injEq] at hmk
        exact ih (hmk ▸ hruns)
      · exact ⟨runs, by rw [hmk]; exact hruns, rfl⟩

theorem spares (h : Finishes tokens r place c e c' tokens') (hc : c.Spares t) : c'.Spares t := by
  induction h with
  | leaf id name hr => exact .leaf ..
  | @group members i place m m' tasks tasks' ended e tokens₁ tokens' hm _ hs ih =>
    cases hc with
    | group hmem hg =>
      refine .group (fun d hd => ?_) fun g' hg' => ?_
      · rcases List.mem_or_eq_of_mem_set hd with hd | rfl
        · exact hmem d hd
        · exact ih (hmem m (List.mem_of_getElem? hm))
      · have ht := token_settle hs
        rw [hg', Option.map_some, eq_comm, Option.map_eq_some_iff] at ht
        obtain ⟨g, hgroup, htoken⟩ := ht
        rw [← htoken]
        exact hg g hgroup

/-- A token that no group holds, at its place or above, is cancelled by others only. -/
theorem isCancelled (h : Finishes tokens r place c e c' tokens') :
    (∀ t, tokens.isCancelled t → tokens'.isCancelled t) ∧
      ∀ t, c.Spares t → tokens'.isCancelled t → tokens.isCancelled t := by
  induction h with
  | leaf _ _ _ => exact ⟨fun _ => id, fun _ _ => id⟩
  | @group members i place m m' tasks tasks' ended e tokens₁ tokens' hm _ hs ih =>
    rcases settle_cases hs with ⟨r', g, -, rfl, -, -, -, rfl⟩ | ⟨-, -, -, rfl⟩
    · have hw := g.cancelsWithin_finish tokens₁ i r'
      refine ⟨fun t ht => hw.mono t (ih.1 t ht), fun t hc ht => ?_⟩
      cases hc with
      | group hmem hg =>
        refine ih.2 t (hmem m (List.mem_of_getElem? hm)) ?_
        exact (hw.iff_of_isWithin_eq_false (hg g rfl)).mp ht
    · refine ⟨ih.1, fun t hc ht => ?_⟩
      cases hc with
      | group hmem hg => exact ih.2 t (hmem m (List.mem_of_getElem? hm)) ht

end Finishes

end

/-! ## New members -/

/-- A new member comes into the group at a place. -/
inductive Joins (new : ClientTree) : List Nat → ClientTree → ClientTree → Prop
  | here {members : List ClientTree} : new.name ∉ names members →
    Joins new [] (.group members none) (.group (members ++ [new]) none)
  | inner {members : List ClientTree} {i : Nat} {place : List Nat} {m m' : ClientTree}
    {tasks : Option TaskGroup} : members[i]? = some m → Joins new place m m' →
    Joins new (i :: place) (.group members tasks) (.group (members.set i m') tasks)

section

variable {new c c' : ClientTree} {place p : List Nat}

theorem joins_of_add (h : add new place c = some (.ok c')) : Joins new place c c' := by
  induction place generalizing c c' with
  | nil =>
    cases c with
    | leaf id name runs => contradiction
    | group members tasks =>
      rw [add, Option.some.injEq] at h
      split at h
      · contradiction
      · next hs =>
        split at h
        · contradiction
        · next hn =>
          cases h
          cases tasks with
          | none => exact .here hn
          | some g => exact absurd rfl hs
  | cons i place ih =>
    cases c with
    | leaf id name runs => contradiction
    | group members tasks =>
      rw [add] at h
      split at h
      · contradiction
      · next m hm =>
        obtain ⟨x, hx, h⟩ := Option.map_eq_some_iff.mp h
        cases x with
        | error e => contradiction
        | ok m' =>
          cases h
          exact .inner hm (ih hx)

namespace Joins

theorem isStarted (h : Joins new place c c') : c'.isStarted = c.isStarted := by
  cases h <;> rfl

theorem token? (h : Joins new place c c') : c'.token? = c.token? := by
  cases h <;> rfl

theorem result? (h : Joins new place c c') : c'.result? = c.result? := by
  cases h <;> rfl

/-- No leaf is run. -/
theorem runs? (h : Joins new place c c') (hruns : runs? p c = some runs) :
    ClientTree.runs? p c' = some runs := by
  induction h generalizing p with
  | here hn =>
    cases p with
    | nil => contradiction
    | cons k p =>
      obtain ⟨m, hm, hruns⟩ := Option.bind_eq_some_iff.mp hruns
      rw [ClientTree.runs?, List.getElem?_append_left (List.getElem?_eq_some_iff.mp hm).1, hm]
      exact hruns
  | @inner members i place m m' tasks hm _ ih =>
    cases p with
    | nil => contradiction
    | cons k p =>
      obtain ⟨mk, hmk, hruns⟩ := Option.bind_eq_some_iff.mp hruns
      rw [ClientTree.runs?, getElem?_set_of_getElem? hm]
      split
      · next hk =>
        rw [hk, hm, Option.some.injEq] at hmk
        exact ih (hmk ▸ hruns)
      · rw [hmk]
        exact hruns

theorem spares (h : Joins new place c c') (hnew : new.Spares t) (hc : c.Spares t) : c'.Spares t := by
  induction h with
  | here hn =>
    cases hc with
    | group hmem hg =>
      refine .group (fun d hd => ?_) hg
      rcases List.mem_append.mp hd with hd | hd
      · exact hmem d hd
      · rw [List.mem_singleton.mp hd]
        exact hnew
  | @inner members i place m m' tasks hm _ ih =>
    cases hc with
    | group hmem hg =>
      refine .group (fun d hd => ?_) hg
      rcases List.mem_or_eq_of_mem_set hd with hd | rfl
      · exact hmem d hd
      · exact ih (hmem m (List.mem_of_getElem? hm))

end Joins

end

end ClientTree
end AmpLink
