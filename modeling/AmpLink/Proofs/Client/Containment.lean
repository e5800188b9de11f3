import AmpLink.Proofs.Client.Failures
import AmpLink.Proofs.Client.LifeCycle
import AmpLink.Proofs.Manager.Containment

/-!
# Failures stay inside

A group that is run hands a token of its own to its members, right below the token that it was given, so the
tokens in a tree mirror its groups (`ClientTree.Wired`): what is held at a place lies within the token of a group
exactly if the group is above the place (`ClientTree.Wired.isWithin_iff`). A failure therefore reaches the
members of the groups that fail and nobody else. Together with the clients of a manager this is
`contained_of_steps`.
-/

namespace AmpLink

/-- Neither token is within the other. -/
def Token.Apart (t u : Token) : Prop := t.isWithin u = false ∧ u.isWithin t = false

theorem Token.not_apart {t u v : Token} (h : t.isWithin u) (h' : t.isWithin v) : ¬ u.Apart v := by
  rintro ⟨huv, hvu⟩
  rcases List.prefix_or_prefix_of_prefix (isWithin_iff.mp h) (isWithin_iff.mp h') with hp | hp
  · rw [isWithin_iff.mpr hp] at hvu
    contradiction
  · rw [isWithin_iff.mpr hp] at huv
    contradiction

namespace ClientTree

/-- The token that a group hands to its members, once it has been run. -/
def own? (c : ClientTree) : Option Token := c.tasks?.map (·.token)

/-- The tokens at a place: those of the runs of a leaf, or the one that a group hands to its members. -/
def tokensAt (place : List Nat) (c : ClientTree) : List Token :=
  match c.client? place with
  | none => []
  | some (.leaf _ _ runs) => runs.map (·.token)
  | some (.group _ tasks) => (tasks.map (·.token)).toList

/-- No two members hold the same token within `outer`. -/
def Distinct (outer : Token) (members : List ClientTree) : Prop :=
  ∀ (j k : Nat) m m' t, members[j]? = some m → members[k]? = some m' → m.own? = some t →
    m'.own? = some t → t.isWithin outer → j = k

/-- What was called in the client under the token, if it was under one, was called by its groups, and each of
them handed on a token of its own. Everything else was called under tokens apart from `outer`. -/
inductive Wired (outer : Token) : Option Token → ClientTree → Prop
  | leaf {token : Option Token} {runs : List LeafRun} (id : Nat) (name : String) :
    (∀ run ∈ runs, token = some run.token ∨ run.token.Apart outer) →
    Wired outer token (.leaf id name runs)
  | idle {token : Option Token} {members : List ClientTree} {tasks : Option TaskGroup} :
    (∀ g, tasks = some g → g.token.Apart outer) → (∀ m ∈ members, Wired outer none m) →
    Wired outer token (.group members tasks)
  | group {token : Token} {members : List ClientTree} {g : TaskGroup} {n : Nat} :
    g.token = ⟨token.path ++ [n]⟩ → (∀ m ∈ members, Wired outer (some g.token) m) →
    Distinct outer members → Wired outer (some token) (.group members (some g))

/-- All calls of the client, and of what is in it, have been made under tokens apart from `outer`. -/
def Foreign (outer : Token) (c : ClientTree) : Prop := c.Wired outer none

section

variable {outer token t u : Token} {o : Option Token} {tokens tokens' : TokenForest} {r : Outcome}
  {e : Option Outcome} {tasks : Option TaskGroup} {g : TaskGroup} {c c' m m' new : ClientTree}
  {members : List ClientTree} {place p q : List Nat} {i k n : Nat}

theorem tokensAt_cons :
    tokensAt (k :: p) (.group members tasks) = (members[k]?.map (tokensAt p)).getD [] := by
  rw [tokensAt, client?_cons]
  cases members[k]? <;> rfl

theorem mem_tokensAt_cons : t ∈ tokensAt (k :: p) (.group members tasks) ↔
    ∃ m, members[k]? = some m ∧ t ∈ m.tokensAt p := by
  rw [tokensAt_cons]
  cases members[k]? <;> simp

theorem mem_tokensAt_of_tasksAt? (h : c.tasksAt? q = some g) : g.token ∈ c.tokensAt q := by
  obtain ⟨d, hd, ht⟩ := Option.bind_eq_some_iff.mp h
  cases d with
  | leaf id name runs => contradiction
  | group members tasks =>
    have ht : tasks = some g := ht
    simp [tokensAt, hd, ht]

/-! ## Where tokens are held -/

theorem isWithin_child_of_isWithin {k : Nat} (h : token.isWithin outer) :
    (Token.mk (token.path ++ [k])).isWithin outer :=
  Token.isWithin_trans (Token.isWithin_iff.mpr (List.prefix_append ..)) h

namespace Wired

/-- What is held within `outer` is held by the leaf itself or within the token that the group hands on. -/
theorem isWithin_own (h : Wired outer o c) (ht : t ∈ c.tokensAt p) (hw : t.isWithin outer) :
    (o = some t ∧ c.tasks? = none ∧ p = []) ∨
      ∃ s g n, o = some s ∧ c.tasks? = some g ∧ g.token = ⟨s.path ++ [n]⟩ ∧ t.isWithin g.token := by
  induction h generalizing p with
  | @leaf o runs id name hruns =>
    cases p with
    | nil =>
      obtain ⟨run, hrun, rfl⟩ := List.mem_map.mp ht
      rcases hruns run hrun with h | h
      · exact .inl ⟨h, rfl, rfl⟩
      · rw [h.1] at hw
        contradiction
    | cons k p => contradiction
  | @idle o members tasks hg _ ih =>
    cases p with
    | nil =>
      cases tasks with
      | none => contradiction
      | some g =>
        obtain rfl := List.mem_singleton.mp ht
        rw [(hg g rfl).1] at hw
        contradiction
    | cons k p =>
      obtain ⟨m, hm, ht⟩ := mem_tokensAt_cons.mp ht
      rcases ih m (List.mem_of_getElem? hm) ht with ⟨h, -⟩ | ⟨s, g, n, h, -⟩ <;> contradiction
  | @group token members g n hown _ _ ih =>
    refine .inr ⟨token, g, n, rfl, rfl, hown, ?_⟩
    cases p with
    | nil =>
      obtain rfl := List.mem_singleton.mp ht
      exact g.token.isWithin_refl
    | cons k p =>
      obtain ⟨m, hm, ht⟩ := mem_tokensAt_cons.mp ht
      rcases ih m (List.mem_of_getElem? hm) ht with ⟨h, -⟩ | ⟨s, g', n', hs, -, hown', hw'⟩
      · rw [Option.some.injEq] at h
        rw [← h]
        exact g.token.isWithin_refl
      · rw [Option.some.injEq] at hs
        refine Token.isWithin_trans hw' (Token.isWithin_iff.mpr ?_)
        rw [hown', ← hs]
        exact List.prefix_append ..

theorem tasks?_of_tasksAt? (h : Wired outer o c) (hq : c.tasksAt? q = some g) (hw : g.token.isWithin outer) :
    ∃ s g' n, o = some s ∧ c.tasks? = some g' ∧ g'.token = ⟨s.path ++ [n]⟩ ∧
      g.token.isWithin g'.token := by
  rcases h.isWithin_own (mem_tokensAt_of_tasksAt? hq) hw with ⟨-, hnone, rfl⟩ | h
  · have hsome : c.tasks? = some g := hq
    rw [hnone] at hsome
    contradiction
  · exact h

theorem isWithin_or_apart (h : Wired outer o c) (ho : ∀ s, o = some s → s.isWithin outer)
    (hq : c.tasksAt? q = some g) : g.token.isWithin outer ∨ g.token.Apart outer := by
  induction h generalizing q with
  | leaf id name hruns =>
    rw [tasksAt?_leaf] at hq
    contradiction
  | @idle o members tasks hg _ ih =>
    cases q with
    | nil => exact .inr (hg g hq)
    | cons k q =>
      rw [tasksAt?_cons] at hq
      obtain ⟨m, hm, hq⟩ := Option.bind_eq_some_iff.mp hq
      exact ih m (List.mem_of_getElem? hm) nofun hq
  | @group token members g' n hown _ _ ih =>
    have hw : g'.token.isWithin outer := hown ▸ isWithin_child_of_isWithin (ho token rfl)
    cases q with
    | nil =>
      cases hq
      exact .inl hw
    | cons k q =>
      rw [tasksAt?_cons] at hq
      obtain ⟨m, hm, hq⟩ := Option.bind_eq_some_iff.mp hq
      refine ih m (List.mem_of_getElem? hm) (fun s hs => ?_) hq
      rwa [← Option.some.inj hs]

end Wired

theorem not_isWithin_child {k : Nat} : token.isWithin ⟨token.path ++ [k]⟩ = false := by
  refine Bool.eq_false_iff.mpr fun h => ?_
  have hlength := (Token.isWithin_iff.mp h).length_le
  rw [List.length_append] at hlength
  exact Nat.not_succ_le_self _ hlength

/-- Different members of a group hold nothing within each other's tokens. -/
theorem Distinct.not_isWithin {own : Token} (h : Distinct outer members)
    (hw : ∀ m ∈ members, Wired outer (some own) m) (hown : own.isWithin outer) {j k : Nat}
    (hj : members[j]? = some m) (hk : members[k]? = some m') (hne : j ≠ k) (ht : t ∈ m.tokensAt p)
    (htw : t.isWithin outer) (hq : m'.tasksAt? q = some g) (hgw : g.token.isWithin outer) :
    t.isWithin g.token = false := by
  refine Bool.eq_false_iff.mpr fun hwithin => ?_
  obtain ⟨s', g', n', hs', htasks', hown', hwithin'⟩ :=
    (hw m' (List.mem_of_getElem? hk)).tasks?_of_tasksAt? hq hgw
  cases hs'
  rw [hown'] at hwithin'
  have htn' := Token.isWithin_trans hwithin hwithin'
  rcases (hw m (List.mem_of_getElem? hj)).isWithin_own ht htw with ⟨hs, -⟩ | ⟨s, g₁, n, hs, htasks, hown₁, hw₁⟩
  · cases hs
    rw [not_isWithin_child] at htn'
    contradiction
  · cases hs
    rw [hown₁] at hw₁
    obtain rfl := Token.eq_of_isWithin_child hw₁ htn'
    refine hne (h j k m m' g'.token hj hk ?_ ?_ ?_)
    · rw [own?, htasks, Option.map_some, hown₁, hown']
    · rw [own?, htasks', Option.map_some]
    · rw [hown']
      exact isWithin_child_of_isWithin hown

/-- What is held at a place is within the token of a group exactly if the group is at the place or above it. -/
theorem Wired.isWithin_iff (h : Wired outer (some token) c) (htoken : token.isWithin outer)
    (ht : t ∈ c.tokensAt p) (htw : t.isWithin outer) (hq : c.tasksAt? q = some g)
    (hgw : g.token.isWithin outer) : t.isWithin g.token ↔ q <+: p := by
  -- Down to the group the tokens follow the places: where these part, so do those.
  induction q generalizing c p token with
  | nil =>
    refine iff_of_true ?_ List.nil_prefix
    rcases h.isWithin_own ht htw with ⟨-, hnone, -⟩ | ⟨s, g', n, -, hg', -, hw⟩
    · have hsome : c.tasks? = some g := hq
      rw [hnone] at hsome
      contradiction
    · have hsome : c.tasks? = some g := hq
      rw [hsome, Option.some.injEq] at hg'
      rwa [hg']
  | cons k q ih =>
    cases h with
    | leaf id name hruns => contradiction
    | idle hg hm =>
      rw [tasksAt?_cons] at hq
      obtain ⟨m, hmk, hq⟩ := Option.bind_eq_some_iff.mp hq
      obtain ⟨s, -, -, hs, -⟩ := (hm m (List.mem_of_getElem? hmk)).tasks?_of_tasksAt? hq hgw
      contradiction
    | @group _ members own n hown hm hd =>
      rw [tasksAt?_cons] at hq
      obtain ⟨m, hmk, hq⟩ := Option.bind_eq_some_iff.mp hq
      have hmw := hm m (List.mem_of_getElem? hmk)
      cases p with
      | nil =>
        obtain rfl := List.mem_singleton.mp ht
        obtain ⟨s, g', n', hs, -, hg', hw'⟩ := hmw.tasks?_of_tasksAt? hq hgw
        cases hs
        rw [hg'] at hw'
        refine iff_of_false (fun hw => ?_) (by simp)
        have hself := Token.isWithin_trans hw hw'
        rw [not_isWithin_child] at hself
        contradiction
      | cons j p =>
        have hownw : own.token.isWithin outer := hown ▸ isWithin_child_of_isWithin htoken
        obtain ⟨m', hmj, htm⟩ := mem_tokensAt_cons.mp ht
        rw [List.cons_prefix_cons]
        by_cases hkj : k = j
        · subst hkj
          rw [hmk, Option.some.injEq] at hmj
          rw [← hmj] at htm
          rw [ih hmw hownw htm hq, and_iff_right rfl]
        · rw [hd.not_isWithin hm hownw hmj hmk (Ne.symm hkj) htm htw hq hgw]
          simp [hkj]

/-! ## What keeps the tokens in place -/

theorem Wired.none_of_group (h : Wired outer o (.group members none)) : ∀ m ∈ members, Wired outer none m := by
  cases h with
  | idle _ hm => exact hm

theorem Distinct.congr (h : Distinct outer members) (hm : members[i]? = some m) (ho : m'.own? = m.own?) :
    Distinct outer (members.set i m') := by
  have hold : ∀ (k : Nat) n, (members.set i m')[k]? = some n →
      ∃ n', members[k]? = some n' ∧ n'.own? = n.own? := by
    intro k n hn
    rw [getElem?_set_of_getElem? hm] at hn
    split at hn
    · next hk =>
      cases hn
      exact ⟨m, hk ▸ hm, ho.symm⟩
    · exact ⟨n, hn, rfl⟩
  intro j k n n' t hj hk hn hn' hw
  obtain ⟨m₁, hm₁, ho₁⟩ := hold j n hj
  obtain ⟨m₂, hm₂, ho₂⟩ := hold k n' hk
  exact h j k m₁ m₂ t hm₁ hm₂ (ho₁.trans hn) (ho₂.trans hn') hw

theorem Finishes.own? (h : Finishes tokens r place c e c' tokens') : c'.own? = c.own? := by
  cases h with
  | leaf id name hr => rfl
  | group _ _ hs => exact token_settle hs

theorem Finishes.wired (h : Finishes tokens r place c e c' tokens') (hc : Wired outer o c) :
    Wired outer o c' := by
  induction h generalizing o with
  | leaf id name hr =>
    cases hc with
    | leaf _ _ hruns =>
      obtain ⟨before, run, rfl, -, rfl⟩ := endLast_eq_some.mp hr
      refine .leaf id name fun run' hrun' => ?_
      rcases List.mem_append.mp hrun' with hrun' | hrun'
      · exact hruns run' (List.mem_append_left _ hrun')
      · rw [List.mem_singleton.mp hrun']
        exact hruns run (by simp)
  | @group members i place m m' tasks tasks' ended e tokens₁ tokens' hm hf hs ih =>
    have htoken := token_settle hs
    have hmem : ∀ o, (∀ n ∈ members, Wired outer o n) → ∀ n ∈ members.set i m', Wired outer o n := by
      intro o hall n hn
      rcases List.mem_or_eq_of_mem_set hn with hn | rfl
      · exact hall n hn
      · exact ih (hall m (List.mem_of_getElem? hm))
    cases hc with
    | idle hg hall =>
      refine .idle (fun g' hg' => ?_) (hmem none hall)
      rw [hg', Option.map_some, eq_comm, Option.map_eq_some_iff] at htoken
      obtain ⟨g, hgroup, heq⟩ := htoken
      rw [← heq]
      exact hg g hgroup
    | @group token _ g n hown hall hd =>
      rw [Option.map_some, Option.map_eq_some_iff] at htoken
      obtain ⟨g', rfl, heq⟩ := htoken
      rw [← heq] at hown hall
      exact .group hown (hmem _ hall) (hd.congr hm hf.own?)

theorem Joins.own? (h : Joins new place c c') : c'.own? = c.own? := by
  cases h <;> rfl

theorem Joins.wired (h : Joins new place c c') (hnew : new.Foreign outer) (hc : Wired outer o c) :
    Wired outer o c' := by
  induction h generalizing o with
  | here hn =>
    refine .idle nofun fun m hm => ?_
    rcases List.mem_append.mp hm with hm | hm
    · exact hc.none_of_group m hm
    · rw [List.mem_singleton.mp hm]
      exact hnew
  | @inner members i place m m' tasks hm hj ih =>
    have hmem : ∀ o, (∀ n ∈ members, Wired outer o n) → ∀ n ∈ members.set i m', Wired outer o n := by
      intro o hall n hn
      rcases List.mem_or_eq_of_mem_set hn with hn | rfl
      · exact hall n hn
      · exact ih (hall m (List.mem_of_getElem? hm))
    cases hc with
    | idle hg hall => exact .idle hg (hmem none hall)
    | group hown hall hd => exact .group hown (hmem _ hall) (hd.congr hm hj.own?)

/-! ## Handing out tokens -/

theorem issued_finish? (g : TaskGroup) (tokens : TokenForest) (i : Nat) (r : Option Outcome) :
    (g.finish? tokens i r).2.issued = tokens.issued := by
  cases r with
  | none => rfl
  | some r =>
    have h := (g.token_finish tokens i r).2
    rw [TaskGroup.finish?]
    rcases h with h | h <;> rw [h]
    rfl

mutual

theorem issued_le_start (tokens : TokenForest) (token : Token) :
    ∀ c, tokens.issued ≤ (start tokens token c).2.2.issued
  | .leaf .. => Nat.le_refl _
  | .group _ (some _) => Nat.le_refl _
  | .group members none =>
    Nat.le_of_succ_le (issued_le_startAll (tokens.child token).2
      (.start (tokens.child token).1 members.length) 0 members)

theorem issued_le_startAll (tokens : TokenForest) (tasks : TaskGroup) (i : Nat) :
    ∀ cs, tokens.issued ≤ (startAll tokens tasks i cs).2.2.issued
  | [] => Nat.le_refl _
  | c :: rest => by
    rw [startAll_cons]
    refine (issued_le_start tokens tasks.token c).trans (Nat.le_trans ?_ (issued_le_startAll ..))
    rw [issued_finish?]

end

theorem Wired.own?_start (h : Wired outer none c) (ht : (start tokens token c).2.1.own? = some t)
    (hw : t.isWithin outer) : t = (tokens.child token).1 ∧
      tokens.issued < (start tokens token c).2.2.issued := by
  cases h with
  | leaf id name hruns => contradiction
  | @idle _ members tasks hg hm =>
    cases tasks with
    | some g =>
      cases ht
      rw [(hg g rfl).1] at hw
      contradiction
    | none =>
      have hown := (after_startMembers tokens token members).token_eq
      refine ⟨Option.some.inj (ht.symm.trans (congrArg some hown)), ?_⟩
      exact issued_le_startAll (tokens.child token).2 (.start (tokens.child token).1 members.length) 0 members

theorem own?_startAll (h : ∀ m ∈ members, Wired outer none m)
    (hk : (startAll tokens g i members).2.1[k]? = some m) (ht : m.own? = some t) (hw : t.isWithin outer) :
    ∃ n, t = ⟨g.token.path ++ [n]⟩ ∧ tokens.issued ≤ n := by
  induction members generalizing tokens g i k with
  | nil => contradiction
  | cons c rest ih =>
    cases k with
    | zero =>
      cases hk
      exact ⟨tokens.issued, ((h c (by simp)).own?_start ht hw).1, Nat.le_refl _⟩
    | succ k =>
      let next := g.finish? (start tokens g.token c).2.2 i (start tokens g.token c).1
      have hrest : (startAll next.2 next.1 (i + 1) rest).2.1[k]? = some m := hk
      obtain ⟨n, hn, hle⟩ := ih (fun m hm => h m (List.mem_cons_of_mem c hm)) hrest
      rw [token_finish?] at hn
      rw [issued_finish?] at hle
      exact ⟨n, hn, (issued_le_start tokens g.token c).trans hle⟩

theorem distinct_startAll (h : ∀ m ∈ members, Wired outer none m) (tokens : TokenForest) (g : TaskGroup)
    (i : Nat) : Distinct outer (startAll tokens g i members).2.1 := by
  induction members generalizing tokens g i with
  | nil => nofun
  | cons c rest ih =>
    let next := g.finish? (start tokens g.token c).2.2 i (start tokens g.token c).1
    have hrest : ∀ m ∈ rest, Wired outer none m := fun m hm => h m (List.mem_cons_of_mem c hm)
    -- What comes later takes a later number.
    have hlater : ∀ (k : Nat) m t, (startAll next.2 next.1 (i + 1) rest).2.1[k]? = some m → m.own? = some t →
        (start tokens g.token c).2.1.own? = some t → t.isWithin outer = false := by
      intro k m t hk hm hc
      refine Bool.eq_false_iff.mpr fun hw => ?_
      obtain ⟨hfirst, hlt⟩ := (h c (by simp)).own?_start hc hw
      obtain ⟨n, hn, hle⟩ := own?_startAll hrest hk hm hw
      rw [token_finish?] at hn
      rw [issued_finish?] at hle
      rw [hfirst] at hn
      obtain rfl : tokens.issued = n := by simpa [TokenForest.child] using hn
      exact Nat.not_lt_of_le hle hlt
    intro j k m m' t hj hk hm hm' hw
    cases j with
    | zero =>
      cases k with
      | zero => rfl
      | succ k =>
        cases hj
        have hapart := hlater k m' t hk hm' hm
        rw [hw] at hapart
        contradiction
    | succ j =>
      cases k with
      | zero =>
        cases hk
        have hapart := hlater j m t hj hm hm'
        rw [hw] at hapart
        contradiction
      | succ k => exact congrArg Nat.succ (ih hrest next.2 next.1 (i + 1) j k m m' t hj hk hm hm' hw)

/-- A call of the run hands out a token of its own to every group that it runs. -/
theorem Wired.start (h : Wired outer o c) (ho : o = none) (tokens : TokenForest) (token : Token) :
    Wired outer (some token) (ClientTree.start tokens token c).2.1 := by
  induction h generalizing tokens token with
  | leaf id name hruns =>
    refine .leaf id name fun run hrun => ?_
    rcases List.mem_append.mp hrun with hrun | hrun
    · exact (hruns run hrun).imp_left fun h => by rw [ho] at h; contradiction
    · rw [List.mem_singleton.mp hrun]
      exact .inl rfl
  | @idle o members tasks hg hm ih =>
    cases tasks with
    | some g => exact .idle hg hm
    | none =>
      have hown := (after_startMembers tokens token members).token_eq
      have hmembers : ∀ m' ∈ (startMembers tokens token members).2.1,
          Wired outer (some (tokens.child token).1) m' := by
        intro m' hm'
        obtain ⟨m, hmem, tokens', rfl⟩ := mem_startAll hm'
        exact ih m hmem rfl tokens' _
      rw [← hown] at hmembers
      exact .group hown hmembers (distinct_startAll hm _ _ _)
  | group => contradiction

end
end ClientTree

namespace FanOut

open ClientTree (Fails FailsAbove TakesError Foreign Wired)

variable {f f' : FanOut} {a : Action} {actions : List Action}

theorem Move.isCancelled_iff (h : Move f a f') (ha : ∀ place new, a ≠ .add place new) (t : Token) :
    f'.tokens.isCancelled t ↔ f.tokens.isCancelled t ∨ (∃ s, a = .cancel s ∧ t.isWithin s) ∨
      FailsAbove t f.tree f'.tree := by
  cases h with
  | refused | joined => exact absurd rfl (ha _ _)
  | begun =>
    rw [tokens_run, tree_run, ClientTree.isCancelled_start_iff]
    simp
  | ended hf =>
    rw [hf.isCancelled_iff]
    simp
  | cancelled s =>
    rw [cancel, TokenForest.isCancelled_cancel]
    simp [ClientTree.not_failsAbove_self, or_comm]
  | sent | again | idle => simp [send, ClientTree.not_failsAbove_self]

theorem Move.wired (h : Move f a f') (hw : f.tree.Wired f.outer (some f.outer))
    (hnew : ∀ place new, a = .add place new → new.Foreign f.outer) :
    f'.tree.Wired f.outer (some f.outer) := by
  cases h with
  | joined hj => exact hj.wired (hnew _ _ rfl) hw
  | @begun members hb =>
    rw [hb] at hw
    have hidle : Wired f.outer none (.group members none) := .idle nofun hw.none_of_group
    rw [tree_run, hb]
    exact hidle.start rfl f.tokens f.outer
  | ended hf => exact hf.wired hw
  | refused | sent | again | idle | cancelled => exact hw

theorem wired_steps (hnew : ∀ place new, .add place new ∈ actions → new.Foreign start.outer) :
    (start.steps actions).tree.Wired start.outer (some start.outer) := by
  induction actions using List.reverseRecOn with
  | nil => exact .idle nofun (List.forall_mem_nil _)
  | append_singleton actions a ih =>
    obtain ⟨members, tasks, ht⟩ := group_steps actions
    have hmove := move_step ht a
    have hw := ih fun place new hmem => hnew place new (List.mem_append_left _ hmem)
    rw [steps_concat]
    rw [← outer_steps actions] at hw hnew ⊢
    refine hmove.wired hw fun place new ha => hnew place new ?_
    rw [ha]
    simp

/-- A failure reaches what is held at a place exactly if the group is at the place or above it. -/
theorem failsAbove_iff_of_wired {outer : Token} {c c' : ClientTree} {p : List Nat} {t : Token}
    (hw : c'.Wired outer (some outer)) (ht : t ∈ c'.tokensAt p) (htw : t.isWithin outer) :
    FailsAbove t c c' ↔ ∃ q u e, Fails c c' q u e ∧ u.isWithin outer ∧ q <+: p := by
  have houter : ∀ s, some outer = some s → s.isWithin outer := by
    rintro s ⟨⟩
    exact outer.isWithin_refl
  rw [ClientTree.failsAbove_iff]
  refine exists_congr fun q => exists_congr fun u => exists_congr fun e => and_congr_right ?_
  rintro ⟨-, hsome⟩
  obtain ⟨g, hg, hfailure⟩ := Option.bind_eq_some_iff.mp hsome
  obtain ⟨rfl, -⟩ := TaskGroup.failure?_eq_some.mp hfailure
  have hplace := fun hgw => hw.isWithin_iff outer.isWithin_refl ht htw hg hgw
  refine ⟨fun h => ?_, fun ⟨hgw, hq⟩ => (hplace hgw).mpr hq⟩
  have hgw := (hw.isWithin_or_apart houter hg).resolve_right (Token.not_apart h htw)
  exact ⟨hgw, (hplace hgw).mp h⟩

theorem fails_finish_iff (f : FanOut) (place : List Nat) (r : Outcome) (q : List Nat) (u : Token)
    (e : RunError) : Fails f.tree (f.step (.finish place r)).tree q u e ↔
      ∃ g i, g.token = u ∧ TakesError f.tree (f.step (.finish place r)).tree q g i e := by
  have hmove := move_finish f place r
  generalize f.step (.finish place r) = f' at hmove
  cases hmove with
  | idle =>
    exact iff_of_false ClientTree.not_fails_self fun ⟨_, _, _, h⟩ => ClientTree.not_takesError_self h
  | ended hf => exact hf.fails_iff

/-! ## What failures cancel -/

/-- How far failures reach in a group after `actions`. -/
structure Contained (actions : List Action) (f : FanOut) : Prop where
  /-- A new member cancels nothing. -/
  add : ∀ place new, (f.step (.add place new)).tokens = f.tokens
  /-- Whatever else is done cancels the token that it names and the tokens of the groups that fail with
  it, with all tokens below, and nothing else. -/
  cancels : ∀ a, (∀ place new, a ≠ .add place new) → ∀ t, (f.step a).tokens.isCancelled t ↔
    f.tokens.isCancelled t ∨ (∃ s, a = .cancel s ∧ t.isWithin s) ∨
      ∃ q u e, Fails f.tree (f.step a).tree q u e ∧ t.isWithin u
  /-- So the groups at a place and above it reach what is held there, and no others do, if what has been
  run in new members before was run under tokens apart from that of the whole. -/
  reaches : (∀ place new, .add place new ∈ actions → new.Foreign start.outer) →
    ∀ a, (∀ place new, a ≠ .add place new) → ∀ p, ∀ t ∈ (f.step a).tree.tokensAt p, t.isWithin f.outer →
      ((f.step a).tokens.isCancelled t ↔
        f.tokens.isCancelled t ∨ (∃ s, a = .cancel s ∧ t.isWithin s) ∨
          ∃ q u e, Fails f.tree (f.step a).tree q u e ∧ u.isWithin f.outer ∧ q <+: p)
  /-- When a leaf ends, a group fails exactly if the run of a member comes to an error, be the member that
  leaf or a group above it. -/
  fails : ∀ place r q u e, Fails f.tree (f.step (.finish place r)).tree q u e ↔
    ∃ g i, g.token = u ∧ TakesError f.tree (f.step (.finish place r)).tree q g i e
  /-- When the whole is run, a group fails exactly if it is run and runs of members end at once with an
  error. -/
  atOnce : ∀ q u e, Fails f.tree f.run.tree q u e ↔ ∃ members members' g,
    f.tree.client? q = some (.group members none) ∧ f.run.tree.client? q = some (.group members' (some g)) ∧
      g.token = u ∧ FirstFailure (ClientTree.endedAtOnce 0 members) e
  /-- The token that every run of the whole is given is cancelled by others only, if no new member is a
  group that has been run under a token of its own at the place of that token or above it. -/
  outer : (∀ place new, .add place new ∈ actions → new.Spares start.outer) →
    (f.tokens.isCancelled f.outer ↔ ∃ t, .cancel t ∈ actions ∧ f.outer.isWithin t)

theorem contained (actions : List Action) : Contained actions (start.steps actions) := by
  obtain ⟨members, tasks, ht⟩ := group_steps actions
  have hcancels := fun a => (move_step ht a).isCancelled_iff
  refine
    { add := fun place new => ?_
      cancels := fun a ha t => by rw [hcancels a ha t, ClientTree.failsAbove_iff]
      reaches := fun hnew a ha p t htok hw => ?_
      fails := fails_finish_iff _
      atOnce := fun q u e => ClientTree.fails_start_iff
      outer := fun hnew => outer_steps actions ▸ (guarded hnew).isCancelled }
  · have hmove := move_add (start.steps actions) place new
    generalize (start.steps actions).step (.add place new) = f' at hmove
    cases hmove <;> rfl
  · have hwired : ((start.steps actions).step a).tree.Wired start.outer (some start.outer) := by
      rw [← steps_concat]
      refine wired_steps fun place new hmem => ?_
      rcases List.mem_append.mp hmem with hmem | hmem
      · exact hnew place new hmem
      · exact absurd (List.mem_singleton.mp hmem).symm (ha place new)
    rw [outer_steps] at hw ⊢
    rw [hcancels a ha t, failsAbove_iff_of_wired hwired htok hw]

end FanOut

/-! ## The main statement -/

/-- Cancelling and failures stay inside, among the clients of a manager whose parents were there before, and
in a group whatever is done with it. -/
theorem contained_of_steps {tokens : TokenForest} {actions : List Manager.Action} {u : Manager.InUse}
    (h : (Manager.InUse.start tokens).steps actions = some u)
    (hp : ∀ parent n made, .start parent n made ∈ actions → tokens.Holds parent)
    (moves : List FanOut.Action) :
    Manager.InUse.Contained tokens actions u ∧ FanOut.Contained moves (FanOut.start.steps moves) :=
  ⟨Manager.InUse.contained_of_traced (Manager.InUse.traced_of_steps h hp), FanOut.contained moves⟩

/-- Two clients under one parent, of which one is cancelled and one fails and is started again. -/
def squall : List Manager.Action :=
  [.start ⟨[0]⟩ "eth0" (.ok ()), .start ⟨[0]⟩ "eth1" (.ok ()), .cancel "eth0", .begin 1,
    .exit 1 (.error (.other "down")), .start ⟨[0]⟩ "eth1" (.ok ())]

/-- A leaf fails in a group that is a member of another one, next to a third leaf. -/
def brawl : List FanOut.Action :=
  [.add [] (.group [.leaf 0 "a" [], .leaf 1 "b" []] none), .add [] (.leaf 2 "c" []), .run,
    .finish [0, 0] (.error (.other "boom"))]

theorem contained_squall_brawl : ∃ u, (Manager.InUse.start ⟨1, []⟩).steps squall = some u ∧
    (Manager.InUse.Contained ⟨1, []⟩ squall u ∧ FanOut.Contained brawl (FanOut.start.steps brawl)) ∧
    u.manager.clients.map (fun c => u.tokens.isCancelled c.token) = [true, false, false] ∧
    (FanOut.start.steps brawl).tree.tokensAt [0, 1] = [⟨[0, 1, 2]⟩] ∧
    (FanOut.start.steps brawl).tree.tokensAt [1] = [⟨[0, 1]⟩] ∧
    (FanOut.start.steps brawl).tokens.isCancelled ⟨[0, 1, 2]⟩ = true ∧
    (FanOut.start.steps brawl).tokens.isCancelled ⟨[0, 1]⟩ = false := by
  refine ⟨_, rfl, contained_of_steps rfl (fun parent n made h => ?_) brawl, rfl, rfl, rfl, rfl, rfl⟩
  simp only [squall, List.mem_cons, Manager.Action.start.injEq, reduceCtorEq, false_or, or_false,
    List.not_mem_nil] at h
  obtain rfl : parent = ⟨[0]⟩ := by tauto
  simp [TokenForest.Holds]

end AmpLink
