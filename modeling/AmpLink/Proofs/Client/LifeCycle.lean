import AmpLink.Proofs.Client.Membership
import AmpLink.Proofs.Client.Running

/-!
# The life of a group

A group is run once. From then on it takes the ends of its members (`FanOut.running_steps`) until none is
left, whatever else is done with it; every other run is refused (`FanOut.reported`). The token that is given
to the runs is left alone (`FanOut.guarded`). The main statement is `FanOut.lifeCycle_of_steps`.
-/

namespace AmpLink

namespace FanOut

open ClientTree (Finishes Running names)

variable {f f' : FanOut} {a : Action} {actions : List Action} {members : List ClientTree}

/-! ## Results -/

/-- What every run but the first one ends with. -/
def refusals (actions : List Action) : List Outcome :=
  .replicate (actions.countP Action.isRun - 1)
    (.error (.client (.alreadyRunning ("multiclient-" ++ ",".intercalate (added actions)))))

theorem countP_isRun_eq_zero (h : .run ∉ actions) : actions.countP Action.isRun = 0 := by
  refine List.countP_eq_zero.mpr fun a ha hr => ?_
  cases a with
  | run => exact h ha
  | _ => contradiction

theorem refusals_of_not_mem (h : .run ∉ actions) : refusals actions = [] := by
  rw [refusals, countP_isRun_eq_zero h]
  rfl

theorem refusals_concat (ha : a ≠ .run) : refusals (actions ++ [a]) = refusals actions := by
  by_cases hr : .run ∈ actions
  · have hcount : [a].countP Action.isRun = 0 := countP_isRun_eq_zero (by simp [ha.symm])
    rw [refusals, refusals, List.countP_append, hcount, added_concat_of_mem hr, Nat.add_zero]
  · rw [refusals_of_not_mem hr, refusals_of_not_mem (by simp [hr, ha.symm])]

theorem refusals_concat_run_of_not_mem (h : .run ∉ actions) : refusals (actions ++ [.run]) = [] := by
  rw [refusals, List.countP_append, countP_isRun_eq_zero h]
  rfl

theorem refusals_concat_run_of_mem (h : .run ∈ actions) : refusals (actions ++ [.run]) =
    .error (.client (.alreadyRunning ("multiclient-" ++ ",".intercalate (added actions)))) ::
      refusals actions := by
  have hpos : 0 < actions.countP Action.isRun := List.countP_pos_iff.mpr ⟨_, h, rfl⟩
  have hcount : (actions ++ [Action.run]).countP Action.isRun - 1 =
      actions.countP Action.isRun - 1 + 1 := by
    rw [List.countP_append, Nat.sub_add_cancel hpos]
    rfl
  rw [refusals, refusals, hcount, added_concat_of_mem h, List.replicate_succ]

/-- The runs that have ended: the first one, once it has come to a result, and the others. -/
def Reported (actions : List Action) (f : FanOut) : Prop :=
  f.results.Perm (f.tree.result?.toList ++ refusals actions)

theorem Reported.keep (h : Reported actions f) (ha : a ≠ .run)
    (hr : f'.results = f.results) (ht : f'.tree.result? = f.tree.result?) :
    Reported (actions ++ [a]) f' := by
  rw [Reported, hr, ht, refusals_concat ha]
  exact h

theorem Reported.step (h : Reported actions f) (he : Enrolled actions f) (a : Action) :
    Reported (actions ++ [a]) (f.step a) := by
  obtain ⟨members, tasks, ht⟩ := he.group
  have hmove := move_step ht a
  generalize f.step a = f' at hmove
  cases hmove with
  | joined hj => exact h.keep nofun rfl hj.result?
  | @begun members hb =>
    have hs : (ClientTree.group members none).isStarted = false := rfl
    have hr : .run ∉ actions := fun hmem => by
      have hstarted := he.isStarted.mpr hmem
      rw [hb, hs] at hstarted
      contradiction
    rw [Reported, hb, refusals_of_not_mem hr] at h
    have hempty : f.results = [] := h.eq_nil
    rw [Reported, refusals_concat_run_of_not_mem hr, results_run, tree_run, hempty, hb,
      ClientTree.result?_start _ _ hs, ClientTree.start_fst, List.append_nil]
    exact .refl _
  | again hs =>
    rw [Reported, refusals_concat_run_of_mem (he.isStarted.mp hs), he.name]
    refine (h.append_right _).trans ?_
    rw [List.append_assoc]
    exact (List.perm_append_singleton ..).append_left _
  | @ended place r e tree tokens hf =>
    have hrefusals : refusals (actions ++ [.finish place r]) = refusals actions :=
      refusals_concat nofun
    rw [Reported, hrefusals, hf.result?.1]
    cases e with
    | none =>
      rw [Option.toList_none, List.append_nil]
      exact h
    | some r' =>
      rw [Reported, hf.result?.2 rfl] at h
      exact (List.perm_append_singleton ..).trans (h.cons r')
  | refused | sent | idle | cancelled => exact h.keep nofun rfl rfl

theorem reported (hn : NamesKept actions) : Reported actions (start.steps actions) := by
  induction actions using List.reverseRecOn with
  | nil => exact .refl _
  | append_singleton actions a ih =>
    rw [steps_concat]
    exact (ih hn.of_append).step (enrolled hn.of_append) a

/-! ## The token of the runs -/

/-- The token that every run is given is cancelled by other actions only. -/
structure Guarded (actions : List Action) (f : FanOut) : Prop where
  spares : f.tree.Spares start.outer
  isCancelled : f.tokens.isCancelled start.outer ↔
    ∃ t, .cancel t ∈ actions ∧ start.outer.isWithin t

theorem Guarded.start : Guarded [] start where
  spares := .group (List.forall_mem_nil _) nofun
  isCancelled := by simp [FanOut.start, TokenForest.isCancelled, TokenForest.root, TokenForest.empty]

theorem Guarded.keep (h : Guarded actions f) (ha : ∀ t, a ≠ .cancel t)
    (hs : f'.tree.Spares FanOut.start.outer)
    (ht : f'.tokens.isCancelled FanOut.start.outer ↔ f.tokens.isCancelled FanOut.start.outer) :
    Guarded (actions ++ [a]) f' where
  spares := hs
  isCancelled := by
    rw [ht, h.isCancelled]
    simp [fun t => (ha t).symm]

theorem Guarded.step (h : Guarded actions f) (hg : ∃ members tasks, f.tree = .group members tasks)
    (ho : f.outer = FanOut.start.outer)
    (hnew : ∀ place new, a = .add place new → new.Spares FanOut.start.outer) :
    Guarded (actions ++ [a]) (f.step a) := by
  obtain ⟨members, tasks, ht⟩ := hg
  have hmove := move_step ht a
  generalize f.step a = f' at hmove
  cases hmove with
  | joined hj => exact h.keep nofun (hj.spares (hnew _ _ rfl) h.spares) .rfl
  | @begun members hb =>
    have hbelow := f.tokens.isBelow_child f.outer
    have hw := ClientTree.cancelsWithin_startMembers f.tokens f.outer members
    refine h.keep nofun (h.spares.start f.tokens fun u hu => ho ▸ hu.2) ?_
    rw [tokens_run, hb, ← ho]
    exact hw.iff_of_isWithin_eq_false hbelow.2
  | ended hf =>
    exact h.keep nofun (hf.spares h.spares) ⟨hf.isCancelled.2 _ h.spares, hf.isCancelled.1 _⟩
  | cancelled t =>
    refine ⟨h.spares, ?_⟩
    rw [cancel, TokenForest.isCancelled_cancel, h.isCancelled]
    simp [or_and_right, exists_or, or_comm]
  | refused | sent | again | idle => exact h.keep nofun h.spares .rfl

theorem guarded (hnew : ∀ place new, .add place new ∈ actions → new.Spares start.outer) :
    Guarded actions (start.steps actions) := by
  induction actions using List.reverseRecOn with
  | nil => exact .start
  | append_singleton actions a ih =>
    rw [steps_concat]
    refine (ih fun place new hmem => ?_).step (group_steps actions) (outer_steps actions) ?_
    · exact hnew place new (List.mem_append_left _ hmem)
    · rintro place new rfl
      exact hnew place new (by simp)

/-! ## The first run -/

/-- The ends of members that the whole takes with an action. -/
def taken (f : FanOut) : Action → List (Nat × Outcome)
  | .run => if f.tree.isStarted then [] else ClientTree.endedAtOnce 0 f.tree.members
  | .finish place r => ClientTree.taken f.tokens r place f.tree
  | _ => []

/-- The ends of members that the whole takes along `actions`, in this order. -/
def ends (f : FanOut) : List Action → List (Nat × Outcome)
  | [] => []
  | a :: rest => f.taken a ++ ends (f.step a) rest

theorem running_run (h : f.tree = .group members none) :
    Running members (f.tokens.child f.outer).1 (f.taken .run) (f.step .run).tree (f.step .run).tokens := by
  have hr := ClientTree.Running.start f.tokens f.outer members
  rw [taken, step, run, h]
  exact hr

variable {frozen : List ClientTree} {own : Token} {ended : List (Nat × Outcome)}

/-- Whatever is done after the first run, the whole only takes ends of members. -/
theorem running_step (h : Running frozen own ended f.tree f.tokens) (a : Action) :
    Running frozen own (ended ++ f.taken a) (f.step a).tree (f.step a).tokens := by
  obtain ⟨g, hg, hafter⟩ := h.tasks
  have hnil : Running frozen own (ended ++ []) f.tree f.tokens := by rwa [List.append_nil]
  have hmove := move_step hg a
  generalize f.step a = f' at hmove
  cases hmove with
  | joined hj => exact hnil.joins hj
  | begun hb =>
    rw [hb] at hg
    cases hg
  | again hs =>
    rw [taken, if_pos hs]
    exact hnil
  | idle hf =>
    rw [taken, ClientTree.taken_of_finish_eq_none hf]
    exact hnil
  | ended hf => exact h.finishes hf
  | cancelled t => exact hnil.mono fun hc => TokenForest.isCancelled_cancel.mpr (.inr hc)
  | refused | sent => exact hnil

theorem running_steps (h : Running frozen own ended f.tree f.tokens) (actions : List Action) :
    Running frozen own (ended ++ f.ends actions) (f.steps actions).tree (f.steps actions).tokens := by
  induction actions generalizing f ended with
  | nil =>
    rw [ends, List.append_nil]
    exact h
  | cons a rest ih =>
    rw [ends, ← List.append_assoc]
    exact ih (running_step h a)

/-! ## The main statement -/

/-- What has become of the first run, from the state `g` before it to `f`, if the ends `ended` of members
have been taken in this order. -/
structure Ran (g : FanOut) (ended : List (Nat × Outcome)) (f : FanOut) : Prop where
  /-- Every leaf below the members has been run once, or not at all if a group above it refused. -/
  called : ∀ place runs, g.tree.runs? place = some runs → ∃ runs', f.tree.runs? place = some runs' ∧
    runs'.length = runs.length + (g.tree.isReached place).toNat
  /-- The end of a member is taken once. -/
  once : (ended.map Prod.fst).Nodup ∧ ∀ c ∈ ended, c.1 < g.len
  /-- It is the end of the member. -/
  ends : ∀ (k : Nat) (m m' : ClientTree), g.tree.members[k]? = some m → m.isStarted = false →
    f.tree.members[k]? = some m' → ∀ r, m'.result? = some r ↔ (k, r) ∈ ended
  /-- A member that somebody else has run before refuses. -/
  refused : ∀ k m, g.tree.members[k]? = some m → m.isStarted →
    (k, .error (.client (.alreadyRunning m.name))) ∈ ended
  /-- The run has ended exactly if all members have. -/
  returns : f.tree.result?.isSome ↔ ∀ k < g.len, k ∈ ended.map Prod.fst
  ok_iff : f.tree.result? = some (.ok ()) ↔
    (∀ k < g.len, k ∈ ended.map Prod.fst) ∧ ∀ c ∈ ended, c.2 = .ok ()
  error_iff : ∀ e, f.tree.result? = some (.error e) ↔
    (∀ k < g.len, k ∈ ended.map Prod.fst) ∧ FirstFailure ended e
  /-- Once a member has failed, all of them are cancelled. -/
  siblings : Failed ended → ∀ (k : Nat) (m m' : ClientTree), g.tree.members[k]? = some m →
    m.isStarted = false → f.tree.members[k]? = some m' →
    ∃ t, m'.token? = some t ∧ f.tokens.isCancelled t

theorem ran_of_running {g : FanOut} (hg : g.tree = .group members none)
    (h : Running members own ended f.tree f.tokens) : Ran g ended f := by
  obtain ⟨tasks, ht, hafter⟩ := h.tasks
  have hm : g.tree.members = members := by
    rw [hg]
    rfl
  have hlen : g.len = members.length := by rw [len, hm]
  have hresult : f.tree.result? = tasks.result? := by
    rw [ht]
    rfl
  refine
    { called := fun place runs hp => ?_
      once := ⟨hafter.once, hlen ▸ hafter.lt_count⟩
      ends := fun k m m' hk hs hk' => (h.member k m m' (hm ▸ hk) hs hk').2
      refused := fun k m hk hs => ?_
      returns := by rw [hresult, hlen]; exact hafter.isSome_result?
      ok_iff := by rw [hresult, hlen]; exact hafter.result?_eq_ok
      error_iff := fun e => by rw [hresult, hlen]; exact hafter.result?_eq_error
      siblings := fun hfailed k m m' hk hs hk' => ?_ }
  · rw [hg] at hp ⊢
    exact h.runs place runs hp
  · refine h.atOnce.subset (ClientTree.mem_endedAtOnce.mpr ⟨k, m, (Nat.zero_add k).symm, hm ▸ hk, ?_⟩)
    cases m with
    | leaf id name runs => contradiction
    | group ms tasks =>
      cases tasks with
      | none => contradiction
      | some g' => rfl
  · obtain ⟨⟨t, htoken, hw⟩, -⟩ := h.member k m m' (hm ▸ hk) hs hk'
    exact ⟨t, htoken, TokenForest.isCancelled_of_isWithin hw (h.failed hfailed)⟩

/-- How a group stands after `actions`. -/
structure LifeCycle (actions : List Action) (f : FanOut) : Prop where
  /-- The members have the names that came in, in this order, and no name twice. -/
  names : names f.tree.members = added actions
  distinct : (added actions).Nodup
  name : f.tree.name = "multiclient-" ++ ",".intercalate (added actions)
  /-- Nobody comes in once the group has been run, not even a member of a new name. -/
  busy : .run ∈ actions → ∀ new, f.add [] new = .error (.busy new.name)
  taken : .run ∉ actions → ∀ new, new.name ∈ added actions →
    f.add [] new = .error (.alreadyExists new.name)
  free : .run ∉ actions → ∀ new, new.name ∉ added actions →
    f.add [] new = .ok { f with tree := .group (f.tree.members ++ [new]) none }
  refused : ∀ place new e, f.add place new = .error e → f.step (.add place new) = f
  /-- Any further run is refused and does nothing else. -/
  again : .run ∈ actions → f.step .run =
    { f with results := f.results ++ [.error (.client (.alreadyRunning f.tree.name))] }
  /-- The first run is reported once it has a result, and so is every refusal. -/
  results : f.results.Perm (f.tree.result?.toList ++ refusals actions)
  ran : ∀ before after, actions = before ++ .run :: after → .run ∉ before →
    Ran (start.steps before) ((start.steps before).ends (.run :: after)) f
  /-- The token that every run is given is cancelled by others only, if no new member is a group that has
  been run under a token of its own at the place of that token or above it. -/
  outer : (∀ place new, .add place new ∈ actions → new.Spares start.outer) →
    (f.tokens.isCancelled f.outer ↔ ∃ t, .cancel t ∈ actions ∧ f.outer.isWithin t)

/-- Whatever is done with a group and however its members end, it is run once. -/
theorem lifeCycle_of_steps (h : NamesKept actions) : LifeCycle actions (start.steps actions) := by
  have he := enrolled h
  refine
    { names := he.names
      distinct := nodup_added actions
      name := he.name
      busy := fun hr new => by rw [he.add, if_pos (he.isStarted.mpr hr)]
      taken := fun hr new hn => by rw [he.add, if_neg (hr ∘ he.isStarted.mp), if_pos hn]
      free := fun hr new hn => by rw [he.add, if_neg (hr ∘ he.isStarted.mp), if_neg hn]
      refused := fun place new e hadd => step_add_of_error hadd
      again := fun hr => run_of_isStarted (he.isStarted.mpr hr)
      results := reported h
      ran := fun before after heq hr => ?_
      outer := fun hnew => he.outer ▸ (guarded hnew).isCancelled }
  obtain ⟨members, hm⟩ := (enrolled (heq ▸ h).of_append).tree_of_not_mem hr
  have hsteps : start.steps actions = ((start.steps before).step .run).steps after := by
    rw [heq, steps, List.foldl_append]
    rfl
  rw [hsteps]
  exact ran_of_running hm (running_steps (running_run hm) after)

/-- Three members come in, one name twice; the second one fails, which ends the run once the first one has
wound down. Meanwhile the group is run again and a fourth member comes too late. -/
def rush : List Action :=
  [.add [] (.leaf 0 "a" []), .add [] (.leaf 1 "b" []), .add [] (.leaf 2 "a" []), .add [] .empty, .run,
    .finish [1] (.error (.other "boom")), .run, .add [] (.leaf 3 "c" []), .finish [0] (.ok ())]

theorem lifeCycle_rush : LifeCycle rush (start.steps rush) ∧ added rush = ["a", "b", "multiclient-"] ∧
    (start.steps rush).results = [.error (.client (.alreadyRunning "multiclient-a,b,multiclient-")),
      .error (.other "boom")] ∧
    (start.steps rush).tokens.isCancelled (start.steps rush).outer = false := by
  refine ⟨lifeCycle_of_steps (namesKept_of_top fun place new h => ?_), by decide, rfl, rfl⟩
  simp [rush] at h
  tauto

end FanOut
end AmpLink
