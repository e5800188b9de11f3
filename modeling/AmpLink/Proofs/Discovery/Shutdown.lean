import AmpLink.Proofs.Discovery.Delivery
import AmpLink.Proofs.Discovery.Signals

/-!
# After the event loop

The event loop ends when it sees that the run is cancelled, or when an event is refused because nobody
takes events any more. In the second case nothing is cancelled: the clients go on, and so does the
detector until it has something to announce (`Run.not_isCancelled_desertion`). Where the run is cancelled,
it winds down by itself: the steps that are left are counted, each of them is taken without anything from
outside, and one is possible until the run has returned (`Run.WindsDown`). The main statement
`Run.loopOver_of_steps` says exactly which of the two it is.
-/

namespace AmpLink

/-- How many moves a task has left: to call the run of its client, and to end it. -/
def TaskStage.remaining : TaskStage → Nat
  | spawned => 2
  | running => 1
  | ended _ => 0

namespace Manager

variable {m m' : Manager}

def remainingOf : List ManagedClient → Nat
  | [] => 0
  | c :: cs => c.stage.remaining + remainingOf cs

def remaining (m : Manager) : Nat := remainingOf m.clients

theorem remainingOf_set {cs : List ManagedClient} {k : Nat} {c : ManagedClient}
    (hc : cs[k]? = some c) (d : ManagedClient) :
    remainingOf (cs.set k d) + c.stage.remaining = remainingOf cs + d.stage.remaining := by
  induction cs generalizing k with
  | nil => contradiction
  | cons b cs ih =>
    cases k with
    | zero =>
      cases hc
      simp only [List.set_cons_zero, remainingOf]
      omega
    | succ k =>
      have ih := ih (k := k) hc
      simp only [List.set_cons_succ, remainingOf]
      omega

theorem remaining_begin (hb : m.begin k = some m') : m.remaining = m'.remaining + 1 := by
  obtain ⟨c, hc, hs, rfl⟩ := begin_eq_some.mp hb
  have hset := remainingOf_set hc { c with runs := c.runs + 1, stage := .running }
  rw [hs] at hset
  exact Nat.succ.inj hset.symm

theorem remaining_exit (he : m.exit k o = some m') : m.remaining = m'.remaining + 1 := by
  obtain ⟨c, hc, hs, rfl⟩ := exit_eq_some.mp he
  have hset := remainingOf_set hc { c with stage := .ended o }
  rw [hs] at hset
  exact hset.symm

end Manager

namespace Discovery

def DetectorPhase.remaining : DetectorPhase → Nat
  | ended => 0
  | resting | announcing .. => 1

def Phase.remaining : Phase → Nat
  | running => 2
  | closing _ => 1
  | returned _ => 0

namespace Run

/-! ## Why the event loop ends -/

/-- Whoever took the events has gone, and an event was refused. -/
def Deserted (r : Run) : Prop := r.refused ≠ [] ∧ r.events.isOpen = false

theorem Deserted.step (h : r.Deserted) (hs : Step r a r') : r'.Deserted := by
  -- both concern the delivery of events alone, which has fewer kinds of steps than the run
  obtain ⟨hr, ho⟩ := h
  have hs := hs.delivery
  generalize hd : r'.delivery = d at hs
  have hr' : r'.refused = d.refused := congrArg Delivery.refused hd
  have ho' : r'.events = d.events := congrArg Delivery.events hd
  rw [Deserted, hr', ho']
  cases hs with
  | stay | table | stop => exact ⟨hr, ho⟩
  | close => exact ⟨hr, rfl⟩
  | accept _ hc =>
    have hopen : r.events.isOpen := (push?_eq_some.mp hc).1.1
    rw [ho] at hopen
    contradiction
  | refuse => exact ⟨by simp, ho⟩
  | consume hc =>
    obtain ⟨rest, -, rfl⟩ := receive_eq_some.mp hc
    exact ⟨hr, ho⟩

/-- The event loop ends when it sees that the run is cancelled, or that nobody takes its events. -/
theorem Step.loop_cases {r r' : Run} (h : Step r a r') (hl : r'.loop = .ended) :
    r.loop = .ended ∨ r.isCancelled ∨ r'.Deserted := by
  cases h with
  | stopResting _ hc => exact .inr (.inl hc)
  | @refuse e _ _ _ hc =>
    rcases Bool.or_eq_true_iff.mp hc with hc | ho
    · exact .inr (.inl hc)
    · refine .inr (.inr ⟨?_, (Bool.not_eq_true' _).mp ho⟩)
      change (r.note (.refused e)).refused ≠ []
      rw [refused, trace_note]
      simp
  | tick | ping =>
    rw [noteAll_eq] at hl
    contradiction
  | observe =>
    rw [noteAll_eq] at hl
    exact absurd hl reporting_ne_ended
  | report => exact absurd hl reporting_ne_ended
  | pingsQueued | started => contradiction
  | _ => exact .inl hl

/-- What holds of a run after the steps `past`, as far as the end of its event loop is concerned. -/
structure Followed (past : List Action) (r : Run) : Prop where
  ending : Ending past r
  scope : Scoped past r
  nested : r.Nested
  told : Told past r
  loop : r.loop = .ended → Stopped past r ∨ r.Deserted

namespace Followed

variable {past : List Action} {r r' : Run} {a : Action}

theorem isCancelled_iff (h : Followed past r) : r.isCancelled ↔ Stopped past r :=
  isCancelled_iff_of_told h.scope h.nested h.told

theorem step (h : Followed past r) (hs : Step r a r') : Followed (past ++ [a]) r' where
  ending := h.ending.step hs
  scope := h.scope.step hs
  nested := h.nested.step hs
  told := h.told.step h.ending h.scope h.nested hs
  loop hl := by
    rcases hs.loop_cases hl with hl | hc | hd
    · exact (h.loop hl).imp (·.step hs) (·.step hs)
    · exact .inl ((h.isCancelled_iff.mp hc).step hs)
    · exact .inr hd

end Followed

theorem followed_of_steps {config : DiscoveryConfig} {r : Run}
    (h : (Run.start config capacity).steps actions = some r) : Followed actions r := by
  refine steps_induction (fun _ _ _ _ => Followed.step) ?_ h
  have hnone : (Run.start config capacity).steps [] = some (Run.start config capacity) := rfl
  exact
    { ending := .start config capacity
      scope := scoped_of_steps hnone
      nested := ⟨TokenForest.isBelow_child _ _, List.forall_mem_nil _⟩
      told := ⟨List.forall_mem_nil _, iff_of_false List.not_mem_nil (by simp [Run.start])⟩
      loop := nofun }

/-! ## Winding down -/

/-- What a run and its clients do by themselves once they have been told to stop. -/
def Action.isInner : Action → Bool
  | stopDetector | beginClient _ | exit _ _ | close | finish => true
  | _ => false

/-- How many inner steps there are until the run has returned. -/
def remaining (r : Run) : Nat :=
  r.detector.remaining + r.manager.remaining + r.phase.remaining

theorem Step.remaining {r r' : Run} (h : Step r a r') (ha : a.isInner) :
    r.remaining = r'.remaining + 1 := by
  cases h with
  | stopDetector hd =>
    have hone : r.detector.remaining = 1 := by
      cases hdet : r.detector with
      | ended => exact absurd hdet (ne_ended_of_detectorStops hd)
      | resting | announcing => rfl
    change _ = 0 + r.manager.remaining + r.phase.remaining + 1
    rw [Run.remaining, hone]
    omega
  | @beginClient k m hb =>
    change _ = r.detector.remaining + m.remaining + r.phase.remaining + 1
    rw [Run.remaining, Manager.remaining_begin hb]
    omega
  | @exit k o m he =>
    change _ = r.detector.remaining + m.remaining + r.phase.remaining + 1
    rw [Run.remaining, Manager.remaining_exit he]
    omega
  | close hp =>
    change _ = r.detector.remaining + r.manager.remaining + 1 + 1
    rw [Run.remaining, hp]
    rfl
  | finish hp =>
    change _ = r.detector.remaining + r.manager.remaining + 0 + 1
    rw [Run.remaining, hp]
    rfl
  | _ => contradiction

theorem detectorStops_of_isCancelled {r : Run} (hc : r.isCancelled) (hd : r.detector ≠ .ended) :
    r.detectorStops := by
  rw [detectorStops]
  split
  · exact hc
  · rw [hc]; rfl
  · rw [hc]; rfl
  · contradiction

/-- A client whose run has not ended can call it or end. -/
theorem exists_inner_of_not_isDone {r : Run} (h : ¬ r.manager.isDone) :
    ∃ a : Action, a.isInner ∧ (r.step a).isSome := by
  rw [Bool.not_eq_true, Manager.isDone, List.all_eq_false] at h
  obtain ⟨c, hc, hs⟩ := h
  obtain ⟨k, hk⟩ := List.mem_iff_getElem?.mp hc
  cases hstage : c.stage with
  | spawned =>
    refine ⟨.beginClient k, rfl, ?_⟩
    rw [step, Run.beginClient, Option.isSome_map, Option.isSome_iff_exists]
    exact ⟨_, Manager.begin_eq_some.mpr ⟨c, hk, hstage, rfl⟩⟩
  | running =>
    refine ⟨.exit k (.ok ()), rfl, ?_⟩
    rw [step, Run.exit, Option.isSome_map, Option.isSome_iff_exists]
    exact ⟨_, Manager.exit_eq_some.mpr ⟨c, hk, hstage, rfl⟩⟩
  | ended =>
    rw [hstage] at hs
    exact absurd rfl hs

theorem Followed.exists_inner (h : Followed past r) (hl : r.loop = .ended) (hc : r.isCancelled) :
    (∃ o, r.phase = .returned o) ∨ ∃ a : Action, a.isInner ∧ (r.step a).isSome := by
  by_cases hd : r.detector = .ended
  · cases hp : r.phase with
    | returned o => exact .inl ⟨o, rfl⟩
    | running =>
      refine .inr ⟨.close, rfl, ?_⟩
      -- with both tasks over, the group has its result, which is all that closing waits for
      have hnil : r.group.unfinished = [] := by
        have hu := h.ending.pair.unfinished
        simpa [Run.pair, hd, hl] using hu
      have hresult : ∃ o, r.group.result? = some o := by
        rw [TaskGroup.result?, hnil]
        cases r.group.firstError with
        | none => exact ⟨_, rfl⟩
        | some e => exact ⟨_, rfl⟩
      obtain ⟨o, ho⟩ := hresult
      simp [Run.step, Run.close, hp, ho]
    | closing o =>
      refine .inr ?_
      by_cases hdone : r.manager.isDone
      · exact ⟨.finish, rfl, by simp [Run.step, Run.finish, hp, hdone]⟩
      · exact exists_inner_of_not_isDone hdone
  · refine .inr ⟨.stopDetector, rfl, ?_⟩
    simp [Run.step, Run.stopDetector, detectorStops_of_isCancelled hc hd]

/-- Whatever a run does by itself, it comes nearer to its return, and it can go on until then. -/
def WindsDown (r : Run) : Prop :=
  ∀ later r', (∀ a ∈ later, Action.isInner a) → r.steps later = some r' →
    later.length + r'.remaining = r.remaining ∧
      ((∃ o, r'.phase = .returned o) ∨ ∃ a : Action, a.isInner ∧ (r'.step a).isSome)

theorem length_add_remaining {r r' : Run} (hs : r.steps later = some r')
    (hinner : ∀ a ∈ later, Action.isInner a) : later.length + r'.remaining = r.remaining := by
  refine steps_induction (P := fun later r' => (∀ a ∈ later, Action.isInner a) →
    later.length + r'.remaining = r.remaining) ?_ (fun _ => Nat.zero_add _) hs hinner
  intro past s a s' ih hs hinner
  obtain ⟨hpast, ha⟩ := List.forall_mem_append.mp hinner
  have hlast := hs.remaining (ha a (List.mem_singleton_self a))
  rw [List.length_append, List.length_singleton, ← ih hpast, hlast]
  omega

theorem Step.loop_of_ended {r r' : Run} (h : Step r a r') (hl : r.loop = .ended) : r'.loop = .ended := by
  have hp : r.delivery.pending? = none := congrArg LoopPhase.pending? hl
  have hp' := (h.delivery.of_refused hp).1
  cases hl' : r'.loop with
  | ended => rfl
  | resting | reporting | pinging =>
    rw [Run.delivery, hl'] at hp'
    contradiction

namespace Followed

variable {past : List Action} {r : Run}

theorem windsDown (h : Followed past r) (hl : r.loop = .ended) (hc : r.isCancelled) : r.WindsDown := by
  intro later r' hinner hs
  refine ⟨length_add_remaining hs hinner, ?_⟩
  -- that the loop is over and the run cancelled lasts, so every later state has a step left as well
  obtain ⟨past', h', hl', hc'⟩ : ∃ past', Followed past' r' ∧ r'.loop = .ended ∧ r'.isCancelled := by
    refine steps_induction (P := fun _ r' => ∃ past', Followed past' r' ∧ r'.loop = .ended ∧
      r'.isCancelled) ?_ ⟨past, h, hl, hc⟩ hs
    rintro - s a s' ⟨past', h', hl', hc'⟩ hs
    have hnext := h'.step hs
    exact ⟨_, hnext, hs.loop_of_ended hl',
      hnext.isCancelled_iff.mpr ((h'.isCancelled_iff.mp hc').step hs)⟩
  exact h'.exists_inner hl' hc'

/-- Where the run is not cancelled, a detector at rest goes on resting. -/
theorem waits (h : Followed past r) (hc : r.isCancelled = false) (hd : r.detector = .resting) :
    r.step .stopDetector = none ∧ r.step .close = none := by
  have hstops : r.detectorStops = false := by rw [detectorStops, hd, hc]
  have hresult : r.group.result? = none := by
    refine Option.eq_none_iff_forall_ne_some.mpr fun o ho => ?_
    have hdet := (h.ending.pair.of_result? ho).1
    simp [Run.pair, hd] at hdet
  simp [Run.step, Run.stopDetector, Run.close, hstops, hresult]

end Followed

/-! ## The main statement -/

/-- How things stand when the event loop has ended after `actions`. -/
structure LoopOver (actions : List Action) (r : Run) : Prop where
  /-- The run is cancelled exactly if the caller has cancelled or a scan has failed, or the detector has
  ended, too, and the run has closed. -/
  isCancelled_iff : r.isCancelled ↔
    .cancel ∈ actions ∨ (∃ e, .scan (.error e) ∈ actions) ∨ r.phase ≠ .running
  /-- In that case every client has been told to stop. -/
  told : r.isCancelled → ∀ c ∈ r.manager.clients, r.tokens.isCancelled c.token
  windsDown : r.isCancelled → r.WindsDown
  /-- Otherwise an event was refused because nobody takes events any more. -/
  deserted : r.isCancelled = false → r.refused ≠ [] ∧ r.events.isOpen = false
  /-- Then a detector at rest does not end, and the run does not close. -/
  waits : r.isCancelled = false → r.detector = .resting →
    r.step .stopDetector = none ∧ r.step .close = none

/-- However a run has come to the end of its event loop, this is how things stand then and later. -/
theorem loopOver_of_steps {config : DiscoveryConfig} {capacity : Nat} {actions : List Action} {r : Run}
    (h : (Run.start config capacity).steps actions = some r) (hl : r.loop = .ended) :
    LoopOver actions r := by
  have hf := followed_of_steps h
  refine
    { isCancelled_iff := hf.isCancelled_iff
      told := fun hc c hmem => ?_
      windsDown := hf.windsDown hl
      deserted := fun hc => ?_
      waits := hf.waits }
  · exact TokenForest.isCancelled_of_isWithin (hf.nested.clients c hmem).1 hc
  · refine (hf.loop hl).resolve_left fun hstopped => ?_
    rw [hf.isCancelled_iff.mpr hstopped] at hc
    contradiction

/-- The run is cancelled while the discovery of a peer waits to be taken. -/
def farewell : List Action :=
  [.scan (.ok [.usable "eth0"]), .announce, .startNext (.ok ()), .pingsQueued, .beginClient 0,
    .deliver 0 (greeting 1 (some (.make .ping .responseServer .broadcast 0 0))), .observe, .cancel,
    .stopLoop]

theorem loopOver_farewell : ∃ r, (Run.start .standard 1).steps farewell = some r ∧ r.loop = .ended ∧
    LoopOver farewell r ∧ r.isCancelled ∧ r.remaining = 4 := by
  have hany : ((Run.start .standard 1).steps farewell).any
      (fun r => r.loop = .ended ∧ r.isCancelled ∧ r.remaining = 4) := by decide +kernel
  obtain ⟨r, hr, hmatch⟩ := (Option.any_eq_true _ _).mp hany
  obtain ⟨hl, hc, hn⟩ := of_decide_eq_true hmatch
  exact ⟨r, hr, hl, loopOver_of_steps hr hl, hc, hn⟩

/-- Whoever takes the events goes away, and then a peer is discovered. -/
def desertion : List Action :=
  [.scan (.ok [.usable "eth0"]), .announce, .startNext (.ok ()), .pingsQueued, .beginClient 0,
    .closeEvents, .deliver 0 (greeting 1 (some (.make .ping .responseServer .broadcast 0 0))), .observe,
    .stopLoop]

/-- The event loop has ended, and the client has not been told to stop. -/
theorem not_isCancelled_desertion : ∃ r, (Run.start .standard 1).steps desertion = some r ∧
    r.loop = .ended ∧ r.isCancelled = false ∧ r.detector = .resting ∧
      ∃ c ∈ r.manager.clients, c.stage.isEnded = false ∧ r.tokens.isCancelled c.token = false := by
  have hany : ((Run.start .standard 1).steps desertion).any
      (fun r => r.loop = .ended ∧ r.isCancelled = false ∧ r.detector = .resting ∧
        ∃ c ∈ r.manager.clients, c.stage.isEnded = false ∧ r.tokens.isCancelled c.token = false) := by
    decide +kernel
  obtain ⟨r, hr, hmatch⟩ := (Option.any_eq_true _ _).mp hany
  exact ⟨r, hr, of_decide_eq_true hmatch⟩

end Run
end Discovery
end AmpLink
