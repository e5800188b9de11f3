import AmpLink.Proofs.Discovery.Scope

/-!
# How a discovery run ends

`Pair` is the part of a run that its two loops and their group make up: a loop ends once, a scan that
fails ends the detector, and nothing else brings an error into the group (`Pair.Sound`). A run closes when
both have ended and returns when every client has (`Run.Ending`). The main statement
`Run.woundUp_of_steps` says how things stand after that and what the run returns.
-/

namespace AmpLink.Discovery

/-- The error of a failed scan. -/
def Run.Action.fault? : Run.Action → Option RunError
  | scan (.error e) => some e
  | _ => none

theorem Run.Action.fault?_eq_some {a : Run.Action} : a.fault? = some e ↔ a = .scan (.error e) := by
  cases a with
  | scan source => cases source <;> simp [fault?]
  | _ => simp [fault?]

/-! ## The two loops -/

/-- Which of the two loops are running, and their group. -/
structure Pair where
  detecting : Bool
  looping : Bool
  group : TaskGroup

def Run.pair (r : Run) : Pair where
  detecting := decide (r.detector ≠ .ended)
  looping := decide (r.loop ≠ .ended)
  group := r.group

namespace Pair

/-- How the loops can go on, with the error that comes up. -/
inductive Step (p : Pair) : Option RunError → Pair → Prop
  | stay : d = p.detecting → l = p.looping → Step p none ⟨d, l, p.group⟩
  | fail : p.detecting → p.group.finish f detectorTask (.error e) = (g, f') →
    Step p (some e) ⟨false, p.looping, g⟩
  | stopDetector : p.detecting → p.group.finish f detectorTask (.ok ()) = (g, f') →
    Step p none ⟨false, p.looping, g⟩
  | stopLoop : p.looping → p.group.finish f loopTask (.ok ()) = (g, f') →
    Step p none ⟨p.detecting, false, g⟩

/-- What holds of the two loops after the steps `past`. -/
structure Sound (past : List Run.Action) (p : Pair) : Prop where
  unfinished : p.group.unfinished =
    (if p.detecting then [detectorTask] else []) ++ if p.looping then [loopTask] else []
  fault : ∀ e, p.group.firstError = some e ↔ .scan (.error e) ∈ past
  failed : p.detecting → p.group.firstError = none

namespace Sound

variable {past : List Run.Action} {p p' : Pair} {a : Run.Action}

theorem detector_mem (h : Sound past p) (hd : p.detecting) : detectorTask ∈ p.group.unfinished := by
  simp [h.unfinished, hd]

theorem erase_detector (h : Sound past p) (hd : p.detecting) :
    p.group.unfinished.erase detectorTask = if p.looping then [loopTask] else [] := by
  simp [h.unfinished, hd]

theorem loop_mem (h : Sound past p) (hl : p.looping) : loopTask ∈ p.group.unfinished := by
  simp [h.unfinished, hl]

theorem erase_loop (h : Sound past p) (hl : p.looping) :
    p.group.unfinished.erase loopTask = if p.detecting then [detectorTask] else [] := by
  rw [h.unfinished, if_pos hl]
  split <;> rfl

theorem step (h : Sound past p) (hs : p.Step a.fault? p') : Sound (past ++ [a]) p' := by
  have hmem e : .scan (.error e) ∈ past ++ [a] ↔ .scan (.error e) ∈ past ∨ a.fault? = some e := by
    rw [List.mem_append, List.mem_singleton, Run.Action.fault?_eq_some]
    exact or_congr_right eq_comm
  generalize a.fault? = fault at hs hmem
  cases hs with
  | stay hd hl =>
    subst hd hl
    refine ⟨h.unfinished, fun e => ?_, h.failed⟩
    rw [hmem, or_iff_left nofun, h.fault]
  | @fail f e g f' hd hg =>
    rw [TaskGroup.finish_error (h.detector_mem hd) (h.failed hd)] at hg
    cases hg
    refine ⟨h.erase_detector hd, fun e' => ?_, nofun⟩
    rw [hmem, or_iff_right]
    rw [← h.fault, h.failed hd]
    nofun
  | stopDetector hd hg =>
    rw [TaskGroup.finish_ok (h.detector_mem hd)] at hg
    cases hg
    refine ⟨h.erase_detector hd, fun e => ?_, nofun⟩
    rw [hmem, or_iff_left nofun, h.fault]
  | stopLoop hl hg =>
    rw [TaskGroup.finish_ok (h.loop_mem hl)] at hg
    cases hg
    refine ⟨?_, fun e => ?_, h.failed⟩
    · rw [h.erase_loop hl]
      simp
    · rw [hmem, or_iff_left nofun, h.fault]

/-- When the group has a result, both loops have ended. -/
theorem of_result? (h : Sound past p) (hr : p.group.result? = some o) :
    p.detecting = false ∧ p.looping = false := by
  have hnil := (TaskGroup.result?_eq_some.mp hr).1
  rw [h.unfinished, List.append_eq_nil_iff] at hnil
  simpa using hnil

theorem result?_eq_error (h : Sound past p) (hr : p.group.result? = some o) (e : RunError) :
    o = .error e ↔ .scan (.error e) ∈ past := by
  rw [← h.fault]
  rcases (TaskGroup.result?_eq_some.mp hr).2 with ⟨hf, rfl⟩ | ⟨e', hf, rfl⟩
  · simp [hf]
  · rw [hf, Option.some.injEq, Except.error.injEq]

end Sound

/-- When both loops have ended, nothing happens to their group any more. -/
theorem Step.eq_of_ended {p p' : Pair} (hs : p.Step fault p') (hd : p.detecting = false)
    (hl : p.looping = false) : p' = p := by
  cases hs with
  | stay hd' hl' =>
    subst hd' hl'
    rfl
  | fail h | stopDetector h =>
    rw [hd] at h
    contradiction
  | stopLoop h =>
    rw [hl] at h
    contradiction

end Pair

namespace Run

theorem announcing_ne_ended : announcing ns ls ≠ .ended := by
  rw [announcing]
  split <;> nofun

theorem reporting_ne_ended : reporting es atTick ≠ .ended := by
  rw [reporting]
  split <;> nofun

theorem ne_ended_of_detectorStops {r : Run} (h : r.detectorStops) : r.detector ≠ .ended := by
  intro hd
  rw [detectorStops, hd] at h
  contradiction

theorem decide_ne_congr [DecidableEq α] {a b c : α} (ha : a ≠ c) (hb : b ≠ c) :
    decide (a ≠ c) = decide (b ≠ c) := by
  rw [decide_eq_true ha, decide_eq_true hb]

theorem Step.pair {r r' : Run} (h : Step r a r') : r.pair.Step a.fault? r'.pair := by
  cases h with
  | scanFailed hd => exact .fail (by simp [Run.pair, hd]) rfl
  | scanned hd | announceAdded hd | announceRemoved hd =>
    exact .stay (decide_ne_congr announcing_ne_ended (by simp [hd])) rfl
  | stopDetector hd => exact .stopDetector (decide_eq_true (ne_ended_of_detectorStops hd)) rfl
  | tick hl =>
    rw [noteAll_eq]
    exact .stay rfl (decide_ne_congr nofun (by simp [hl]))
  | report hl => exact .stay rfl (decide_ne_congr reporting_ne_ended (by simp [hl]))
  | stopResting hl | refuse hl => exact .stopLoop (by simp [Run.pair, hl]) rfl
  | ping hl =>
    rw [noteAll_eq]
    exact .stay rfl (decide_ne_congr nofun (by simp [hl]))
  | pingsQueued hl | started hl => exact .stay rfl (decide_ne_congr nofun (by simp [hl]))
  | observe hl =>
    rw [noteAll_eq]
    exact .stay rfl (decide_ne_congr reporting_ne_ended (by simp [hl]))
  | _ => exact .stay rfl rfl

/-! ## Starts -/

/-- The clients that were started, in order. -/
def starts (r : Run) : List Nat := r.trace fun | .started k => some k | _ => none

theorem starts_noteAll (r : Run) (h : ∀ n ∈ ns, n matches .produced _ | .pinged _) :
    (r.noteAll ns).starts = r.starts :=
  trace_noteAll_of_none r _ (eq_none_of_mem h (fun _ => rfl) fun _ => rfl)

/-- What is started is a client of the manager, with the next number. -/
theorem Step.starts_eq {r r' : Run} (h : Step r a r')
    (hr : r.starts = List.range r.manager.clients.length) :
    r'.starts = List.range r'.manager.clients.length := by
  cases h with
  | tick | observe =>
    rw [starts_noteAll _ (by simp), noteAll_eq]
    exact hr
  | ping =>
    rw [starts_noteAll _ (by simp), noteAll_eq]
    exact hr.trans (congrArg List.range Manager.length_ping.symm)
  | @started n c t f k _ _ _ _ hk =>
    have hlength : ((r.manager.withClient n t).pingClient k).clients.length = k + 1 := by
      rw [Manager.pingClient, List.length_modify, Manager.withClient, List.length_append, hk]
      rfl
    have htrace : ((r.note (.asked n)).note (.started k)).starts = r.starts ++ [k] := by
      rw [starts, trace_note, trace_note]
      exact congrArg (· ++ [k]) (List.append_nil _)
    change ((r.note (.asked n)).note (.started k)).starts =
      List.range ((r.manager.withClient n t).pingClient k).clients.length
    rw [htrace, hr, hk, hlength, List.range_succ]
  | beginClient hb =>
    obtain ⟨c, -, -, rfl⟩ := Manager.begin_eq_some.mp hb
    exact hr.trans (congrArg List.range (List.length_set).symm)
  | exit he =>
    obtain ⟨c, -, -, rfl⟩ := Manager.exit_eq_some.mp he
    exact hr.trans (congrArg List.range (List.length_set).symm)
  | _ => exact hr

/-! ## Closing and returning -/

theorem Step.closed {r r' : Run} (h : Step r a r') (hw : r.manager.waiting) :
    r.manager.Closed r'.manager :=
  h.manager_induction (fun _ _ hm hc => hc.trans (hm.closed hc.waiting)) (.refl hw)

theorem Step.phase_cases {r r' : Run} (h : Step r a r') : r'.phase = r.phase ∨
    (∃ o, r.group.result? = some o ∧ r'.phase = .closing o ∧ r'.manager.waiting) ∨
      ∃ o, r.phase = .closing o ∧ r.manager.isDone ∧ r'.phase = .returned o := by
  cases h with
  | close _ hg => exact .inr (.inl ⟨_, hg, rfl, rfl⟩)
  | finish hp hd => exact .inr (.inr ⟨_, hp, hd, rfl⟩)
  | tick | ping | observe =>
    rw [noteAll_eq]
    exact .inl rfl
  | _ => exact .inl rfl

end Run

/-- The result of the loops, once the run closes. -/
def Phase.result? : Phase → Option Outcome
  | running => none
  | closing o | returned o => some o

namespace Run

/-- What holds of a run after the steps `past`, as far as its end is concerned. -/
structure Ending (past : List Action) (r : Run) : Prop where
  tracks : r.manager.Tracks
  calls : r.manager.CallsOnce
  starts : r.starts = List.range r.manager.clients.length
  pair : r.pair.Sound past
  result : ∀ o, r.phase.result? = some o → r.group.result? = some o ∧ r.manager.waiting
  returned : ∀ o, r.phase = .returned o → r.manager.isDone

namespace Ending

variable {past : List Action} {r r' : Run} {a : Action}

theorem start (config : DiscoveryConfig) (capacity : Nat) : Ending [] (start config capacity) where
  tracks := .start
  calls := .start
  starts := rfl
  pair := ⟨rfl, fun _ => by simp [Run.pair, Run.start, TaskGroup.start], fun _ => rfl⟩
  result := nofun
  returned := nofun

theorem group_eq (h : Ending past r) (hs : Step r a r') (hr : r.group.result? = some o) :
    r'.group = r.group := by
  obtain ⟨hd, hl⟩ := h.pair.of_result? hr
  exact congrArg Pair.group (hs.pair.eq_of_ended hd hl)

theorem step (h : Ending past r) (hs : Step r a r') : Ending (past ++ [a]) r' where
  tracks := hs.manager_induction (fun _ _ hm ht => ht.move hm) h.tracks
  calls := hs.manager_induction (fun _ _ hm hc => hc.move hm) h.calls
  starts := hs.starts_eq h.starts
  pair := h.pair.step hs.pair
  result o ho := by
    rcases hs.phase_cases with hp | ⟨o', hg, hp, hw⟩ | ⟨o', hp', -, hp⟩
    · obtain ⟨hg, hw⟩ := h.result o (hp ▸ ho)
      exact ⟨h.group_eq hs hg ▸ hg, (hs.closed hw).waiting⟩
    · rw [hp] at ho
      cases ho
      exact ⟨h.group_eq hs hg ▸ hg, hw⟩
    · rw [hp] at ho
      cases ho
      obtain ⟨hg, hw⟩ := h.result o (by rw [hp']; rfl)
      exact ⟨h.group_eq hs hg ▸ hg, (hs.closed hw).waiting⟩
  returned o ho := by
    rcases hs.phase_cases with hp | ⟨o', -, hp, -⟩ | ⟨o', hp', hd, -⟩
    · rw [hp] at ho
      exact (hs.closed (h.result o (by rw [ho]; rfl)).2).isDone (h.returned o ho)
    · rw [hp] at ho
      contradiction
    · exact (hs.closed (h.result o' (by rw [hp']; rfl)).2).isDone hd

end Ending

theorem ending_of_steps {config : DiscoveryConfig} {r : Run}
    (h : (Run.start config capacity).steps actions = some r) : Ending actions r :=
  steps_induction (fun _ _ _ _ => Ending.step) (Ending.start config capacity) h

/-! ## After the return -/

/-- A run that has returned with `o`, the manager and the requests that it has left. -/
structure Over (o : Outcome) (m : Manager) (names : List String) (r : Run) : Prop where
  detector : r.detector = .ended
  loop : r.loop = .ended
  phase : r.phase = .returned o
  manager : r.manager = m
  asked : r.asked = names

theorem Over.step {r r' : Run} (h : Over o m names r) (hm : m.isDone) (hs : Step r a r') :
    Over o m names r' := by
  have hdone := h.manager.symm ▸ hm
  cases hs with
  | scanFailed hd | scanned hd | announceAdded hd | announceRemoved hd =>
    rw [h.detector] at hd
    contradiction
  | stopDetector hd => exact absurd h.detector (ne_ended_of_detectorStops hd)
  | tick hl | report hl | stopResting hl | refuse hl | ping hl | pingsQueued hl | startRefused hl
  | startFailed hl | started hl | stopUnknown hl | stopClient hl | ignore hl | observe hl =>
    rw [h.loop] at hl
    contradiction
  | beginClient hb =>
    rw [Manager.begin_eq_none_of_isDone hdone] at hb
    contradiction
  | exit he =>
    rw [Manager.exit_eq_none_of_isDone hdone] at he
    contradiction
  | close hp | finish hp =>
    rw [h.phase] at hp
    contradiction
  | _ => exact ⟨h.detector, h.loop, h.phase, h.manager, h.asked⟩

theorem Ending.isOver (h : Ending past r) (hp : r.phase = .returned o) :
    Over o r.manager r.asked r := by
  obtain ⟨hd, hl⟩ := h.pair.of_result? (h.result o (by rw [hp]; rfl)).1
  exact ⟨of_not_not (of_decide_eq_false hd), of_not_not (of_decide_eq_false hl), hp, rfl, rfl⟩

theorem Over.steps {r r' : Run} (h : Over o m names r) (hm : m.isDone)
    (hs : r.steps later = some r') : Over o m names r' :=
  steps_induction (P := fun _ r => Over o m names r)
    (fun _ _ _ _ h hs => h.step hm hs) h hs

/-! ## The main statement -/

/-- How things stand when a run has returned with `o` after `actions`. -/
structure WoundUp (actions : List Action) (r : Run) (o : Outcome) : Prop where
  untracked : r.manager.interfaces = []
  /-- The clients are those that were started, numbered in the order of their starts. -/
  starts : r.starts = List.range r.manager.clients.length
  /-- The run of every one of them has been called once and has ended. -/
  clients : ∀ c ∈ r.manager.clients, c.runs = 1 ∧ c.stage.isEnded
  /-- Whatever happens later, no client is asked for, started or pinged. -/
  later : ∀ later r', r.steps later = some r' →
    r'.phase = .returned o ∧ r'.manager = r.manager ∧ r'.asked = r.asked
  /-- The run fails exactly with the error of a scan. -/
  result : ∀ e, o = .error e ↔ .scan (.error e) ∈ actions

/-- However the steps of a run come one after the other, the token of the caller is cancelled by the
caller only, and when the run has returned it is wound up. -/
theorem woundUp_of_steps {config : DiscoveryConfig} {capacity : Nat} {actions : List Action} {r : Run}
    (h : (Run.start config capacity).steps actions = some r) :
    (r.tokens.isCancelled r.outer ↔ .cancel ∈ actions) ∧
      ∀ o, r.phase = .returned o → WoundUp actions r o := by
  refine ⟨(scoped_of_steps h).isCancelled_outer, fun o hp => ?_⟩
  have he := ending_of_steps h
  have hdone := he.returned o hp
  have hover := he.isOver hp
  refine
    { untracked := by rw [Manager.interfaces, he.tracks.entries_eq_nil hdone]; rfl
      starts := he.starts
      clients := fun c hc => ?_
      later := fun later r' hs => ?_
      result := he.pair.result?_eq_error (he.result o (by rw [hp]; rfl)).1 }
  · have hend := List.all_eq_true.mp hdone c hc
    exact ⟨(he.calls c hc).trans (TaskStage.calls_of_isEnded hend), hend⟩
  · have hlater := hover.steps hdone hs
    exact ⟨hlater.phase, hlater.manager, hlater.asked⟩

/-- A client is started and pinged, a second scan fails, and the client ends with an error of its own
while the run winds up. -/
def downfall : List Action :=
  [.scan (.ok [.usable "eth0"]), .announce, .startNext (.ok ()), .beginClient 0, .pingsQueued,
    .elapse 5000, .tick, .ping, .scan (.error (.interface "no access")), .pingsQueued, .stopLoop, .close,
    .exit 0 (.error (.io "no route")), .finish]

theorem woundUp_downfall : ∃ r, (Run.start .standard 1).steps downfall = some r ∧
    ∃ o, r.phase = .returned o ∧ WoundUp downfall r o := by
  have hany : ((Run.start .standard 1).steps downfall).any (·.phase matches .returned _) := by
    decide +kernel
  obtain ⟨r, hr, hmatch⟩ := (Option.any_eq_true _ _).mp hany
  split at hmatch
  · next o hp => exact ⟨r, hr, o, hp, (woundUp_of_steps hr).2 o hp⟩
  · contradiction

end Run
end AmpLink.Discovery
