import AmpLink.Discovery.Run
import AmpLink.Proofs.Manager.Moves
import AmpLink.Proofs.Steps

/-!
# What the steps of a discovery run do

`Run.Step` has one case for each way that a step can go, with what it needs and what it leads to. Every
possible step is one of them (`Run.Step.of_step`), and no proof about runs has to open a step again.
-/

namespace AmpLink.Discovery.Run

theorem push?_eq_some {c : Channel α} : push? c a = some c' ↔
    (c.isOpen ∧ c.hasRoom 0) ∧ c' = { c with buffer := c.buffer ++ [a] } := by
  rw [push?, Option.ite_none_right_eq_some, Bool.and_eq_true, Option.some.injEq]
  exact and_congr_right_iff.mpr fun _ => eq_comm

theorem receive_eq_some {c : Channel α} : c.receive = some (a, c') ↔
    ∃ rest, c.buffer = a :: rest ∧ c' = { c with buffer := rest } := by
  rw [Channel.receive]
  cases c.buffer with
  | nil => simp
  | cons b rest => simp [eq_comm, and_assoc]

/-- How a step can go. -/
inductive Step (r : Run) : Action → Run → Prop
  | elapse (ms : Nat) : Step r (.elapse ms) { r with now := r.now + ms }
  | scanFailed : r.detector = .resting → r.scans.isDue r.now →
    Step r (.scan (.error e))
      (({ r with scans := r.scans.take r.now }.note (.scanFailed e)).endDetector (.error e))
  | scanned : r.detector = .resting → r.scans.isDue r.now →
    InterfaceDiff.of r.manager.interfaces (validNames interfaces) r.config.allowedInterfaces = diff →
    Step r (.scan (.ok interfaces))
      { { r with scans := r.scans.take r.now }.note
          (.scanned r.manager.interfaces (validNames interfaces) diff) with
        detector := announcing diff.added diff.removed }
  | announceAdded : r.detector = .announcing (n :: ns) ls → push? r.added n = some c →
    Step r .announce { r.note (.announcedAdded n) with added := c, detector := announcing ns ls }
  | announceRemoved : r.detector = .announcing [] (n :: ls) → push? r.removed n = some c →
    Step r .announce { r.note (.announcedRemoved n) with removed := c, detector := announcing [] ls }
  | stopDetector : r.detectorStops → Step r .stopDetector (r.endDetector (.ok ()))
  | tick : r.loop = .resting → r.ticks.isDue r.now →
    r.peers.sweep r.now r.config.peerTimeout.toNat = (es, t) →
    Step r .tick
      (({ r with ticks := r.ticks.take r.now, peers := t, loop := .reporting es true }.note
        .swept).noteAll (es.map .produced))
  | report : r.loop = .reporting (e :: rest) atTick → push? r.events e = some c →
    Step r .report { r.note (.accepted e) with events := c, loop := reporting rest atTick }
  | stopResting : r.loop = .resting → r.isCancelled → Step r .stopLoop r.endLoop
  | refuse : r.loop = .reporting (e :: rest) atTick → (r.isCancelled || !r.events.isOpen) →
    Step r .stopLoop (r.note (.refused e)).endLoop
  | ping : r.loop = .reporting [] true →
    Step r .ping
      (({ r with manager := r.manager.ping, loop := .pinging }.note (.round r.manager.tracked)).noteAll
        (r.manager.tracked.map .pinged))
  | pingsQueued : r.loop = .pinging → Step r .pingsQueued { r with loop := .resting }
  | startRefused : r.loop = .resting → r.added.receive = some (n, c) → r.manager.refusal? n = some e →
    Step r (.startNext made) ({ r with added := c }.note (.startFailed n (.client e)))
  | startFailed : r.loop = .resting → r.added.receive = some (n, c) → r.manager.refusal? n = none →
    Step r (.startNext (.error e)) (({ r with added := c }.note (.asked n)).note (.startFailed n e))
  | started : r.loop = .resting → r.added.receive = some (n, c) → r.manager.refusal? n = none →
    r.tokens.child r.scope = (t, f) → r.manager.clients.length = k →
    Step r (.startNext (.ok ()))
      (({ { r with added := c }.note (.asked n) with
          manager := (r.manager.withClient n t).pingClient k, tokens := f, loop := .pinging }.note
        (.started k)).note (.pinged k))
  | stopUnknown : r.loop = .resting → r.removed.receive = some (n, c) → r.manager.find? n = none →
    Step r .stopNext ({ r with removed := c }.note (.stopped n none))
  | stopClient : r.loop = .resting → r.removed.receive = some (n, c) → r.manager.find? n = some e →
    Step r .stopNext
      ({ r with removed := c, tokens := r.tokens.cancel e.token }.note (.stopped n (some e.client)))
  | ignore : r.loop = .resting → r.received.receive = some (msg, c) → msg.header = none →
    Step r .observe { r with received := c }
  | observe : r.loop = .resting → r.received.receive = some (msg, c) → msg.header.isSome →
    r.peers.observe msg.remote msg.interface r.now = (event, t) →
    Step r .observe
      (({ r with received := c, peers := t, loop := reporting event.toList false }.note
        (.heard msg.remote)).noteAll (event.toList.map .produced))
  | beginClient : r.manager.begin k = some m → Step r (.beginClient k) { r with manager := m }
  | deliver : r.manager.clients[k]?.any (·.runs ≠ 0) → push? r.received msg = some c →
    Step r (.deliver k msg) { r with received := c }
  | exit : r.manager.exit k result = some m →
    Step r (.exit k result) ({ r with manager := m }.note (.exited k result))
  | consume : r.events.receive = some (e, c) →
    Step r .consume { r.note (.consumed e) with events := c }
  | closeEvents : Step r .closeEvents { r with events := r.events.close }
  | cancel : Step r .cancel { r with tokens := r.tokens.cancel r.outer }
  | close : r.phase = .running → r.group.result? = some result →
    Step r .close
      { r with
        tokens := r.tokens.cancel r.scope, manager := r.manager.wait, phase := .closing result }
  | finish : r.phase = .closing result → r.manager.isDone →
    Step r .finish { r.note (.returned result) with phase := .returned result }

namespace Step

variable {r r' : Run}

theorem of_scan (h : r.scan source = some r') : Step r (.scan source) r' := by
  simp only [scan] at h
  split at h
  · next hd =>
    split at h
    · next hdue =>
      cases source with
      | error e => cases h; exact .scanFailed hd hdue
      | ok interfaces => cases h; exact .scanned hd hdue rfl
    · contradiction
  · contradiction

theorem of_announce (h : r.announce = some r') : Step r .announce r' := by
  simp only [announce] at h
  split at h
  · next hd =>
    obtain ⟨c, hc, rfl⟩ := Option.map_eq_some_iff.mp h
    exact .announceAdded hd hc
  · next hd =>
    obtain ⟨c, hc, rfl⟩ := Option.map_eq_some_iff.mp h
    exact .announceRemoved hd hc
  · contradiction

theorem of_tick (h : r.tick = some r') : Step r .tick r' := by
  simp only [Run.tick] at h
  split at h
  · next hl =>
    split at h
    · next hdue => cases h; exact .tick hl hdue rfl
    · contradiction
  · contradiction

theorem of_report (h : r.report = some r') : Step r .report r' := by
  simp only [Run.report] at h
  split at h
  · next hl =>
    obtain ⟨c, hc, rfl⟩ := Option.map_eq_some_iff.mp h
    exact .report hl hc
  · contradiction

theorem of_stopLoop (h : r.stopLoop = some r') : Step r .stopLoop r' := by
  simp only [stopLoop] at h
  split at h
  · next hl =>
    split at h
    · next hc => cases h; exact .stopResting hl hc
    · contradiction
  · next hl =>
    split at h
    · next hc => cases h; exact .refuse hl hc
    · contradiction
  · contradiction

theorem of_startNext (h : r.startNext made = some r') : Step r (.startNext made) r' := by
  simp only [startNext] at h
  split at h
  · next hl hadded =>
    split at h
    · next hr => cases h; exact .startRefused hl hadded hr
    · next hr =>
      rcases r.manager.startClient_cases r.tokens r.scope _ made with
        ⟨e, hr', -⟩ | ⟨e, -, rfl, hs⟩ | ⟨-, rfl, hs⟩
      · rw [hr] at hr'
        contradiction
      · rw [note, hs] at h
        cases h
        exact .startFailed hl hadded hr
      · rw [note, hs] at h
        cases h
        exact .started hl hadded hr rfl rfl
  · contradiction

theorem of_stopNext (h : r.stopNext = some r') : Step r .stopNext r' := by
  simp only [stopNext] at h
  split at h
  · next n c hl hremoved =>
    cases h
    cases hf : r.manager.find? n with
    | none =>
      rw [Manager.cancelClient, hf]
      exact .stopUnknown hl hremoved hf
    | some e =>
      rw [Manager.cancelClient, hf]
      exact .stopClient hl hremoved hf
  · contradiction

theorem of_observe (h : r.observe = some r') : Step r .observe r' := by
  simp only [Run.observe] at h
  split at h
  · next m c hl hreceived =>
    split at h
    · next hm => cases h; exact .ignore hl hreceived hm
    · next hm => cases h; exact .observe hl hreceived (by rw [hm]; rfl) rfl
  · contradiction

/-- Every possible step goes one of these ways. -/
theorem of_step (h : r.step a = some r') : Step r a r' := by
  cases a with
  | elapse ms => cases h; exact .elapse ms
  | scan source => exact of_scan h
  | announce => exact of_announce h
  | stopDetector =>
    simp only [step, Run.stopDetector, Option.ite_none_right_eq_some, Option.some.injEq] at h
    obtain ⟨hd, rfl⟩ := h
    exact .stopDetector hd
  | tick => exact of_tick h
  | report => exact of_report h
  | stopLoop => exact of_stopLoop h
  | ping =>
    simp only [step, Run.ping] at h
    split at h
    · next hl => cases h; exact .ping hl
    · contradiction
  | pingsQueued =>
    simp only [step, Run.pingsQueued] at h
    split at h
    · next hl => cases h; exact .pingsQueued hl
    · contradiction
  | startNext made => exact of_startNext h
  | stopNext => exact of_stopNext h
  | observe => exact of_observe h
  | beginClient k =>
    obtain ⟨m, hm, rfl⟩ := Option.map_eq_some_iff.mp h
    exact .beginClient hm
  | deliver k m =>
    simp only [step, Run.deliver, Option.ite_none_right_eq_some] at h
    obtain ⟨hk, h⟩ := h
    obtain ⟨c, hc, rfl⟩ := Option.map_eq_some_iff.mp h
    exact .deliver hk hc
  | exit k result =>
    obtain ⟨m, hm, rfl⟩ := Option.map_eq_some_iff.mp h
    exact .exit hm
  | consume =>
    simp only [step, Run.consume, Option.map_map, Option.map_eq_some_iff] at h
    obtain ⟨⟨e, c⟩, hc, rfl⟩ := h
    exact .consume hc
  | closeEvents => cases h; exact .closeEvents
  | cancel => cases h; exact .cancel
  | close =>
    simp only [step, Run.close] at h
    split at h
    · next hp hg => cases h; exact .close hp hg
    · contradiction
  | finish =>
    simp only [step, Run.finish] at h
    split at h
    · next hp =>
      split at h
      · next hd => cases h; exact .finish hp hd
      · contradiction
    · contradiction

end Step

/-! ## Histories -/

theorem noteAll_eq (r : Run) (ns : List Note) :
    r.noteAll ns = { r with history := (ns.map (r.now, ·)).reverse ++ r.history } := by
  induction ns generalizing r with
  | nil => rfl
  | cons n ns ih =>
    rw [noteAll, List.foldl_cons]
    refine (ih (r.note n)).trans ?_
    simp [note]

theorem trace_note (r : Run) (n : Note) (f : Note → Option α) :
    (r.note n).trace f = r.trace f ++ (f n).toList := by
  cases h : f n <;> simp [trace, note, h]

theorem trace_noteAll (r : Run) (ns : List Note) (f : Note → Option α) :
    (r.noteAll ns).trace f = r.trace f ++ ns.filterMap f := by
  rw [noteAll_eq, trace, List.filterMap_append, List.reverse_append, List.filterMap_reverse,
    List.reverse_reverse, List.filterMap_map]
  rfl

theorem trace_noteAll_of_none (r : Run) (f : Note → Option α) (h : ∀ n ∈ ns, f n = none) :
    (r.noteAll ns).trace f = r.trace f := by
  rw [trace_noteAll, List.filterMap_eq_nil_iff.mpr h, List.append_nil]

/-- The notes that a step makes in numbers are about events of the table or about pings. -/
theorem eq_none_of_mem {ns : List Note} {f : Note → Option α}
    (h : ∀ n ∈ ns, n matches .produced _ | .pinged _) (hproduced : ∀ e, f (.produced e) = none)
    (hpinged : ∀ k, f (.pinged k) = none) : ∀ n ∈ ns, f n = none := by
  intro n hn
  have hn := h n hn
  cases n with
  | produced e => exact hproduced e
  | pinged k => exact hpinged k
  | _ => contradiction

/-- What `f` picks out of the history, in order, each with its instant. -/
def timed (r : Run) (f : Note → Option α) : List (Nat × α) :=
  (r.history.filterMap fun n => (f n.2).map (n.1, ·)).reverse

theorem timed_note (r : Run) (n : Note) (f : Note → Option α) :
    (r.note n).timed f = r.timed f ++ ((f n).map (r.now, ·)).toList := by
  cases h : f n <;> simp [timed, note, h]

theorem timed_noteAll (r : Run) (ns : List Note) (f : Note → Option α) :
    (r.noteAll ns).timed f = r.timed f ++ (ns.filterMap f).map (r.now, ·) := by
  rw [noteAll_eq, timed, List.filterMap_append, List.reverse_append, List.filterMap_reverse,
    List.reverse_reverse, List.filterMap_map, List.map_filterMap]
  rfl

/-! ## Managers -/

/-- The manager of a run changes by its moves. -/
theorem Step.manager_induction {P : Manager → Prop} (hP : ∀ m m', m.Move m' → P m → P m') {r r' : Run}
    (h : Step r a r') (hp : P r.manager) : P r'.manager := by
  cases h with
  | ping _ =>
    rw [noteAll_eq]
    exact hP _ _ .ping hp
  | started _ _ hr _ _ => exact hP _ _ (.pingClient _) (hP _ _ (.withClient hr) hp)
  | beginClient hb => exact hP _ _ (.begin hb) hp
  | exit he => exact hP _ _ (.exit he) hp
  | close _ _ => exact hP _ _ .wait hp
  | tick | observe =>
    rw [noteAll_eq]
    exact hp
  | _ => exact hp

/-! ## Whole runs -/

theorem steps_eq_foldlM (r : Run) (actions : List Action) :
    r.steps actions = actions.foldlM step r :=
  eq_foldlM (fun _ => rfl) (fun _ _ _ => rfl) r actions

theorem steps_induction {P : List Action → Run → Prop}
    (hstep : ∀ past r a r', P past r → Step r a r' → P (past ++ [a]) r') {r r' : Run} (hr : P [] r)
    (h : r.steps actions = some r') : P actions r' := by
  rw [steps_eq_foldlM] at h
  exact foldlM_induction (fun past r a r' hp hs => hstep past r a r' hp (.of_step hs)) hr h

/-- Every one of the steps is allowed by `p` in the state in which it is taken. -/
def along (p : Run → Action → Bool) (r : Run) : List Action → Bool
  | [] => true
  | a :: rest => p r a && (r.step a).all (·.along p rest)

/-- What every allowed step keeps holds after any number of them. -/
theorem along_induction {p : Run → Action → Bool} {P : Run → Prop}
    (hstep : ∀ r a r', P r → p r a → Step r a r' → P r') {r r' : Run} (hr : P r)
    (hp : r.along p actions) (h : r.steps actions = some r') : P r' := by
  induction actions generalizing r with
  | nil =>
    cases h
    exact hr
  | cons a rest ih =>
    obtain ⟨s, hs, h⟩ := Option.bind_eq_some_iff.mp h
    rw [along, hs, Option.all_some, Bool.and_eq_true] at hp
    exact ih (hstep r a s hr hp.1 (.of_step hs)) hp.2 h

end AmpLink.Discovery.Run
