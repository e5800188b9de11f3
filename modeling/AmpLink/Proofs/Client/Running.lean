import AmpLink.Proofs.Client.Endings

/-!
# A group that has been run

`ClientTree.Running` says how a group stands between the call of its run and its end, and after that: each of
its members has been called once, has the token of the group or one below it, and has ended if the group has
taken its end. This begins with the call (`Running.start`) and is kept when a leaf ends
(`Running.finishes`) or a member comes in somewhere below (`Running.joins`).
-/

namespace AmpLink

namespace ClientTree

/-- The end of a member that a group takes when the leaf at a place ends. -/
def taken (tokens : TokenForest) (r : Outcome) : List Nat → ClientTree → List (Nat × Outcome)
  | i :: place, .group members (some g) =>
    if i ∈ g.unfinished then
      match members[i]?.bind (finish tokens r place) with
      | some (some r, _, _) => [(i, r)]
      | _ => []
    else []
  | _, _ => []

theorem taken_of_finish_eq_none (h : finish tokens r place c = none) : taken tokens r place c = [] := by
  cases place with
  | nil => cases c <;> rfl
  | cons i place =>
    cases c with
    | leaf => rfl
    | group members tasks =>
      cases tasks with
      | none => rfl
      | some g =>
        have hm : members[i]?.bind (finish tokens r place) = none := by
          rw [finish] at h
          cases hm : members[i]? with
          | none => rfl
          | some m =>
            cases hf : finish tokens r place m with
            | none => exact hf
            | some x => simp [hm, hf] at h
        rw [taken, hm]
        split <;> rfl

/-- The group `c` was run when `frozen` were its members, with `own` as its token, and has taken the ends
`ended` of members, in this order. -/
structure Running (frozen : List ClientTree) (own : Token) (ended : List (Nat × Outcome))
    (c : ClientTree) (tokens : TokenForest) : Prop where
  tasks : ∃ g, c = .group c.members (some g) ∧ g.After own frozen.length ended
  length : c.members.length = frozen.length
  atOnce : endedAtOnce 0 frozen <+: ended
  failed : Failed ended → tokens.isCancelled own
  /-- Members that nobody had run before were run here. -/
  member : ∀ k m m', frozen[k]? = some m → m.isStarted = false → c.members[k]? = some m' →
    (∃ t, m'.token? = some t ∧ t.isWithin own) ∧ ∀ r, m'.result? = some r ↔ (k, r) ∈ ended
  runs : ∀ p runs, runs? p (.group frozen none) = some runs → ∃ runs', runs? p c = some runs' ∧
    runs'.length = runs.length + (isReached p (.group frozen none)).toNat

namespace Running

variable {frozen members : List ClientTree} {own token : Token} {ended : List (Nat × Outcome)}
  {c c' m m' n : ClientTree} {tasks : Option TaskGroup} {g : TaskGroup} {tokens tokens' : TokenForest}
  {place : List Nat} {r : Outcome}

theorem start (tokens : TokenForest) (token : Token) (members : List ClientTree) :
    Running members (tokens.child token).1 (endedAtOnce 0 members)
      (ClientTree.start tokens token (.group members none)).2.1
      (ClientTree.start tokens token (.group members none)).2.2 where
  tasks := ⟨_, rfl, after_startMembers tokens token members⟩
  length := length_startAll ..
  atOnce := List.prefix_rfl
  failed hf := isCancelled_startAll (.start _ _) (fun h => absurd h not_failed_nil)
    (Nat.le_of_eq (Nat.zero_add _)) (List.forall_mem_nil _) hf
  member k m m' hm hs hm' := by
    obtain ⟨tokens', hk⟩ := getElem?_startAll (tokens.child token).2
      (.start (tokens.child token).1 members.length) 0 hm
    have heq := hm'.symm.trans hk
    rw [Option.some.injEq] at heq
    rw [heq]
    refine ⟨token?_start tokens' _ hs, fun r => ?_⟩
    rw [result?_start tokens' _ hs, mem_endedAtOnce]
    constructor
    · exact fun hr => ⟨k, m, (Nat.zero_add k).symm, hm, hr⟩
    · rintro ⟨j, n, rfl, hn, hr⟩
      rw [Nat.zero_add, hn, Option.some.injEq] at hm
      rwa [← hm]
  runs p runs hruns := by
    obtain ⟨new, hnew, hlength, -⟩ := runs?_start tokens token hruns
    exact ⟨_, hnew, by rw [List.length_append, hlength]⟩

theorem mono (h : Running frozen own ended c tokens)
    (hm : tokens.isCancelled own → tokens'.isCancelled own) : Running frozen own ended c tokens' :=
  { h with failed := fun hf => hm (h.failed hf) }

/-- One member goes on, and the group takes the ends `new` of it. -/
theorem set (h : Running frozen own ended (.group members tasks) tokens) (hm : members[i]? = some m)
    (hafter : g.After own frozen.length (ended ++ new)) (hnew : ∀ d ∈ new, d.1 = i)
    (hfailed : Failed (ended ++ new) → tokens'.isCancelled own) (htoken : m'.token? = m.token?)
    (hresult : ∀ n, frozen[i]? = some n → n.isStarted = false →
      ∀ r, m'.result? = some r ↔ m.result? = some r ∨ (i, r) ∈ new)
    (hruns : ∀ p runs, runs? p (.group members tasks) = some runs → ∃ runs',
      runs? p (.group (members.set i m') (some g)) = some runs' ∧ runs'.length = runs.length) :
    Running frozen own (ended ++ new) (.group (members.set i m') (some g)) tokens' where
  tasks := ⟨g, rfl, hafter⟩
  length := (List.length_set ..).trans h.length
  atOnce := h.atOnce.trans (List.prefix_append ..)
  failed := hfailed
  member k n n' hn hs hn' := by
    rw [ClientTree.members, getElem?_set_of_getElem? hm] at hn'
    split at hn'
    · next hk =>
      cases hn'
      subst hk
      obtain ⟨ht, hr⟩ := h.member k n m hn hs hm
      refine ⟨htoken ▸ ht, fun r => ?_⟩
      rw [hresult n hn hs r, hr r, List.mem_append]
    · next hk =>
      obtain ⟨ht, hr⟩ := h.member k n n' hn hs hn'
      refine ⟨ht, fun r => ?_⟩
      rw [hr r, List.mem_append, or_iff_left fun hmem => hk (hnew _ hmem)]
  runs p runs hp := by
    obtain ⟨runs', hp', hlength⟩ := h.runs p runs hp
    obtain ⟨runs'', hp'', hlength'⟩ := hruns p runs' hp'
    exact ⟨runs'', hp'', hlength'.trans hlength⟩

/-- A member of the group may take in members itself. -/
theorem joins (h : Running frozen own ended c tokens) (hj : Joins new place c c') :
    Running frozen own ended c' tokens := by
  obtain ⟨g, hc, hafter⟩ := h.tasks
  have hruns : ∀ p runs, runs? p c = some runs → ∃ runs', runs? p c' = some runs' ∧
      runs'.length = runs.length := fun _ runs hp => ⟨runs, hj.runs? hp, rfl⟩
  cases hj with
  | here hn => cases hc
  | inner hm hj =>
    cases hc
    rw [← List.append_nil ended] at hafter ⊢
    refine h.set hm hafter (List.forall_mem_nil _) (fun hf => h.failed ?_) hj.token?
      (fun _ _ _ r => ?_) hruns
    · rwa [List.append_nil] at hf
    · rw [hj.result?]
      simp

/-- The group has taken the end of a member that it ran and that has a result. -/
theorem mem_unfinished (h : Running frozen own ended (.group members (some g)) tokens)
    (hn : frozen[k]? = some n) (hs : n.isStarted = false) (hm : members[k]? = some m)
    (hr : m.result? = none) : k ∈ g.unfinished := by
  obtain ⟨g', hc, hafter⟩ := h.tasks
  cases hc
  refine (hafter.mem_unfinished k).mpr ⟨(List.getElem?_eq_some_iff.mp hn).1, fun hmem => ?_⟩
  obtain ⟨⟨k, x⟩, hx, rfl⟩ := List.mem_map.mp hmem
  have hresult := ((h.member k n m hn hs hm).2 x).mpr hx
  rw [hr] at hresult
  contradiction

/-- A leaf ends somewhere below the group. -/
theorem finishes (h : Running frozen own ended c tokens) (hf : Finishes tokens r place c e c' tokens') :
    Running frozen own (ended ++ taken tokens r place c) c' tokens' := by
  obtain ⟨g, hc, hafter⟩ := h.tasks
  have hruns : ∀ p runs, runs? p c = some runs → ∃ runs', runs? p c' = some runs' ∧
      runs'.length = runs.length := fun _ _ hp => hf.runs? hp
  cases hf with
  | leaf id name hr => cases hc
  | @group members i place m m' tasks tasks' ended' e tokens₁ tokens' hm hf hs =>
    cases hc
    have hcancelled := fun hfailed => hf.isCancelled.1 own (h.failed hfailed)
    have hfinish := finish_eq_some.mpr hf
    rcases settle_cases hs with ⟨r', g', rfl, hg, hi, rfl, rfl, rfl⟩ | ⟨hno, rfl, rfl, rfl⟩
    · cases hg
      have htaken : taken tokens r (i :: place) (.group members (some g)) = [(i, r')] := by
        simp [taken, hi, hm, hfinish]
      rw [htaken]
      refine h.set hm (hafter.finish hi tokens₁ r') (by simp)
        (hafter.isCancelled_finish_of_failed hi hcancelled) hf.token? (fun _ _ _ x => ?_) hruns
      rw [hf.result?.1, hf.result?.2 rfl]
      simp [eq_comm]
    · have htaken : taken tokens r (i :: place) (.group members (some g)) = [] := by
        cases ended' with
        | none => simp [taken, hm, hfinish]
        | some r' => exact if_neg (hno r' g rfl rfl)
      rw [htaken]
      rw [← List.append_nil ended] at hafter hcancelled
      refine h.set hm hafter (List.forall_mem_nil _) hcancelled hf.token? (fun n hn hstarted x => ?_)
        hruns
      -- A member that the group ran has no second end.
      have hnone : ended' = none := by
        cases ended' with
        | none => rfl
        | some r' => exact absurd (h.mem_unfinished hn hstarted hm (hf.result?.2 rfl)) (hno r' g rfl rfl)
      rw [hf.result?.1, hnone, Option.none_or]
      simp

end Running
end ClientTree
end AmpLink
