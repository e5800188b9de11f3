import AmpLink.Proofs.Discovery.Interfaces
import AmpLink.Proofs.Discovery.Shutdown
import AmpLink.Proofs.Manager.Tokens

/-!
# What comes of a scan

The names of a scan travel on two channels, and the event loop takes them in any order. `Run.Underway` says
how things stand when some of the new and some of the lost names have been handled: a start adds a client
whatever has been stopped, and a stop cancels the client that was tracked under the name before the scan
whatever has been started. So what comes of a scan is the same in the end (`Run.reconciled_of_steps`).
-/

namespace AmpLink

/-- A token with a number newer than those of `u` lies within `u` through the token above it. -/
theorem Token.isWithin_fresh {p u : Token} (hu : ∀ i ∈ u.path, i < n) :
    (⟨p.path ++ [n]⟩ : Token).isWithin u ↔ p.isWithin u := by
  rw [Token.isWithin_iff, Token.isWithin_iff, List.prefix_concat_iff]
  refine or_iff_right fun heq => ?_
  have hlt := hu n (by simp [heq])
  exact Nat.lt_irrefl n hlt

namespace Discovery.Run

variable {r r' : Run}

/-! ## Tokens and their numbers -/

/-- The tokens of the caller and of the run are older than those of the clients, and only tokens that were
handed out have been cancelled. -/
structure Rooted (r : Run) : Prop where
  planted : Manager.Planted 2 r.manager r.tokens
  outer : ∀ i ∈ r.outer.path, i < 2
  scope : ∀ i ∈ r.scope.path, i < 2
  cancelled : ∀ t ∈ r.tokens.cancelled, r.tokens.Holds t

namespace Rooted

theorem holds (h : Rooted r) {t : Token} (ht : ∀ i ∈ t.path, i < 2) : r.tokens.Holds t := by
  intro i hi
  have hlt := ht i hi
  rw [h.planted.issued]
  omega

theorem holds_client (h : Rooted r) {k : Nat} {c : ManagedClient} (hc : r.manager.clients[k]? = some c) :
    r.tokens.Holds c.token := by
  obtain ⟨p, htoken, hp⟩ := h.planted.token k c hc
  have hlt := (List.getElem?_eq_some_iff.mp hc).1
  intro i hi
  rw [h.planted.issued]
  rw [htoken, List.mem_append, List.mem_singleton] at hi
  rcases hi with hi | rfl
  · have hold := hp i hi
    omega
  · omega

theorem grow (h : Rooted r) (ho : r'.outer = r.outer) (hs : r'.scope = r.scope)
    (hi : r'.tokens.issued = r.tokens.issued)
    (hm : r'.manager.clients.map (·.token) = r.manager.clients.map (·.token))
    (hc : ∀ t ∈ r'.tokens.cancelled, t ∈ r.tokens.cancelled ∨ r.tokens.Holds t) : Rooted r' where
  planted := h.planted.congr hi hm
  outer := ho ▸ h.outer
  scope := hs ▸ h.scope
  cancelled t ht := by
    rw [TokenForest.Holds, hi]
    exact (hc t ht).elim (h.cancelled t) id

theorem cancel (h : Rooted r) {u : Token} (hu : r.tokens.Holds u) (ho : r'.outer = r.outer)
    (hs : r'.scope = r.scope) (ht : r'.tokens = r.tokens.cancel u)
    (hm : r'.manager.clients.map (·.token) = r.manager.clients.map (·.token)) : Rooted r' := by
  refine h.grow ho hs (by rw [ht]; rfl) hm fun t hmem => ?_
  rw [ht] at hmem
  rcases List.mem_cons.mp hmem with rfl | hmem
  · exact .inr hu
  · exact .inl hmem

theorem finish (h : Rooted r) (hg : r.group.token = r.scope) (task : Nat) (o : Outcome)
    (ho : r'.outer = r.outer) (hs : r'.scope = r.scope)
    (ht : r'.tokens = (r.group.finish r.tokens task o).2)
    (hm : r'.manager.clients.map (·.token) = r.manager.clients.map (·.token)) : Rooted r' := by
  rcases (TaskGroup.token_finish r.group r.tokens task o).2 with hf | hf
  · rw [hf] at ht
    exact h.grow ho hs (congrArg TokenForest.issued ht) hm fun t hmem => .inl (ht ▸ hmem)
  · rw [hf, hg] at ht
    exact h.cancel (h.holds h.scope) ho hs ht hm

theorem step (h : Rooted r) (hscoped : Scoped past r) (ht : r.manager.Tracks) (hs : Step r a r') :
    Rooted r' := by
  cases hs with
  | scanFailed => exact h.finish hscoped.group detectorTask (.error _) rfl rfl rfl rfl
  | stopDetector => exact h.finish hscoped.group detectorTask (.ok ()) rfl rfl rfl rfl
  | stopResting | refuse => exact h.finish hscoped.group loopTask (.ok ()) rfl rfl rfl rfl
  | @started n c t f k _ _ _ hchild hk =>
    cases hchild
    have hplanted := h.planted.withClient h.scope n
    refine
      { planted := hplanted.congr rfl (Manager.map_pingClient _ (fun _ _ => rfl) _ _)
        outer := h.outer
        scope := h.scope
        cancelled := fun t ht i hi => ?_ }
    exact Nat.lt_succ_of_lt (h.cancelled t ht i hi)
  | stopClient _ _ hf =>
    obtain ⟨d, hd, -, htoken, -⟩ := ht.client_of_mem (Manager.mem_of_find? hf).1
    exact h.cancel (htoken ▸ h.holds_client hd) rfl rfl rfl rfl
  | beginClient hb =>
    obtain ⟨c, hc, -, rfl⟩ := Manager.begin_eq_some.mp hb
    exact h.grow rfl rfl rfl (Manager.map_set _ hc rfl) fun _ => .inl
  | exit he =>
    obtain ⟨c, hc, -, rfl⟩ := Manager.exit_eq_some.mp he
    exact h.grow rfl rfl rfl (Manager.map_set _ hc rfl) fun _ => .inl
  | cancel => exact h.cancel (h.holds h.outer) rfl rfl rfl rfl
  | close => exact h.cancel (h.holds h.scope) rfl rfl rfl rfl
  | ping =>
    rw [noteAll_eq]
    exact h.grow rfl rfl rfl (Manager.map_ping _ (fun _ _ => rfl) _) fun _ => .inl
  | tick | observe =>
    rw [noteAll_eq]
    exact h.grow rfl rfl rfl rfl fun _ => .inl
  | _ => exact h.grow rfl rfl rfl rfl fun _ => .inl

end Rooted

theorem rooted_of_steps {config : DiscoveryConfig} {r : Run}
    (h : (start config capacity).steps actions = some r) : Rooted r := by
  refine (steps_induction (P := fun past r => Followed past r ∧ Rooted r)
    (fun _ _ _ _ hp hs => ⟨hp.1.step hs, hp.2.step hp.1.scope hp.1.ending.tracks hs⟩) ?_ h).2
  exact ⟨followed_of_steps rfl,
    { planted := ⟨rfl, nofun⟩
      outer := (by decide : ∀ i ∈ [0], i < 2)
      scope := (by decide : ∀ i ∈ [0, 1], i < 2)
      cancelled := List.forall_mem_nil _ }⟩

/-! ## What starts add -/

end Discovery.Run

/-- A client apart from how far its task has come. -/
def ManagedClient.core (c : ManagedClient) : String × Token × Nat := (c.interface, c.token, c.pings)

namespace Manager

/-- The entries that starts of `names` below `parent` add to a manager. -/
def newcomers (m : Manager) (f : TokenForest) (parent : Token) (names : List String) :
    List ManagerEntry :=
  names.mapIdx fun i n =>
    { interface := n, client := m.clients.length + i, token := ⟨parent.path ++ [f.issued + i]⟩ }

theorem newcomers_concat (m : Manager) (f : TokenForest) (parent : Token) (names : List String)
    (n : String) : m.newcomers f parent (names ++ [n]) = m.newcomers f parent names ++
      [{ interface := n, client := m.clients.length + names.length
         token := ⟨parent.path ++ [f.issued + names.length]⟩ }] := List.mapIdx_concat

theorem interface_newcomers (m : Manager) (f : TokenForest) (parent : Token) (names : List String) :
    (m.newcomers f parent names).map (·.interface) = names := by
  refine List.ext_getElem? fun i => ?_
  rw [newcomers, List.getElem?_map, List.getElem?_mapIdx, Option.map_map]
  exact Option.map_id_apply

theorem clients_started (m : Manager) (n : String) (t : Token) :
    ((m.withClient n t).pingClient m.clients.length).clients =
      m.clients ++ [{ interface := n, token := t, pings := 1, runs := 0, stage := .spawned }] := by
  rw [pingClient, withClient, List.modify_eq_take_cons_drop (by simp)]
  simp

end Manager

namespace Discovery

/-! ## A scan on its way -/

namespace Run

variable {r s s' : Run}

/-- The names for which a start or a cancel has reported an error. -/
def faults (r : Run) : List String := r.trace fun
  | .startFailed n _ | .stopped n none => some n
  | _ => none

/-- No tick and no end of a client comes in between, nobody cancels, there is no other scan, and a client
that is asked for can be made. -/
def Action.isCalm : Action → Bool
  | scan _ | tick | ping | exit .. | cancel => false
  | startNext made => (made matches .ok ())
  | _ => true

/-- What has come of a scan in the state `r` when the clients of `started` have been started and those of
`stopped` told to stop. -/
structure Underway (r : Run) (diff : InterfaceDiff) (started stopped : List String) (s : Run) : Prop where
  added : started ++ s.added.buffer ++ s.detector.added = diff.added
  removed : stopped ++ s.removed.buffer ++ s.detector.removed = diff.removed
  entries : s.manager.entries =
    r.manager.entries ++ r.manager.newcomers r.tokens r.scope started
  clients : s.manager.clients.map ManagedClient.core = r.manager.clients.map ManagedClient.core ++
    (r.manager.newcomers r.tokens r.scope started).map fun e => (e.interface, e.token, 1)
  waiting : s.manager.waiting = false
  scope : s.scope = r.scope
  issued : s.tokens.issued = r.tokens.issued + started.length
  cancelled : ∀ t, s.tokens.isCancelled t ↔ r.tokens.isCancelled t ∨
    ∃ e ∈ r.manager.entries, e.interface ∈ stopped ∧ t.isWithin e.token
  asked : s.asked = r.asked ++ started
  faults : s.faults = r.faults

namespace Underway

variable {diff : InterfaceDiff} {started stopped : List String}

theorem length_clients (h : Underway r diff started stopped s) :
    s.manager.clients.length = r.manager.clients.length + started.length := by
  have hlength := congrArg List.length h.clients
  simpa [Manager.newcomers] using hlength

theorem congr (h : Underway r diff started stopped s) (hd : s'.detector = s.detector)
    (ha : s'.added = s.added) (hr : s'.removed = s.removed)
    (he : s'.manager.entries = s.manager.entries)
    (hc : s'.manager.clients.map ManagedClient.core = s.manager.clients.map ManagedClient.core)
    (hw : s'.manager.waiting = s.manager.waiting) (hs : s'.scope = s.scope)
    (ht : s'.tokens = s.tokens) (hasked : s'.asked = s.asked) (hf : s'.faults = s.faults) :
    Underway r diff started stopped s' where
  added := by rw [ha, hd, h.added]
  removed := by rw [hr, hd, h.removed]
  entries := he.trans h.entries
  clients := hc.trans h.clients
  waiting := hw.trans h.waiting
  scope := hs.trans h.scope
  issued := by rw [ht, h.issued]
  cancelled t := by rw [ht, h.cancelled]
  asked := hasked.trans h.asked
  faults := hf.trans h.faults

theorem mem_newcomers {e : ManagerEntry}
    (he : e ∈ r.manager.newcomers r.tokens r.scope started) : e.interface ∈ started := by
  have hmem := List.mem_map_of_mem (f := (·.interface)) he
  rwa [Manager.interface_newcomers] at hmem

/-- The next new name is not tracked, so nothing stands in the way of its client. -/
theorem refusal?_next (h : Underway r (.of r.manager.interfaces valid allowed) started stopped s)
    (hbuf : s.added.buffer = n :: rest) : s.manager.refusal? n = none := by
  have hadded := h.added
  rw [hbuf] at hadded
  have hmem : n ∈ (InterfaceDiff.of r.manager.interfaces valid allowed).added := by
    rw [← hadded]
    simp
  have hnodup : (started ++ n :: rest ++ s.detector.added).Nodup := hadded ▸ InterfaceDiff.nodup_added
  have hfresh : n ∉ s.manager.interfaces := by
    rw [Manager.mem_interfaces, h.entries]
    rintro ⟨e, he, rfl⟩
    rcases List.mem_append.mp he with he | he
    · exact (InterfaceDiff.mem_added.mp hmem).2.1 (Manager.mem_interfaces.mpr ⟨e, he, rfl⟩)
    · rw [List.append_assoc] at hnodup
      exact (List.nodup_append.mp hnodup).2.2 _ (mem_newcomers he) _ (by simp) rfl
  simp [Manager.refusal?_eq, h.waiting, hfresh]

/-- The next lost name is that of an entry from before the scan. -/
theorem find?_next (h : Underway r (.of r.manager.interfaces valid allowed) started stopped s)
    (ht : s.manager.Tracks) (hbuf : s.removed.buffer = n :: rest) :
    ∃ e ∈ r.manager.entries, e.interface = n ∧ s.manager.find? n = some e := by
  have hmem : n ∈ (InterfaceDiff.of r.manager.interfaces valid allowed).removed := by
    rw [← h.removed, hbuf]
    simp
  obtain ⟨e, he, rfl⟩ := Manager.mem_interfaces.mp (InterfaceDiff.mem_removed.mp hmem).1
  have he' : e ∈ s.manager.entries := by
    rw [h.entries]
    exact List.mem_append_left _ he
  obtain ⟨d, hd⟩ := Option.isSome_iff_exists.mp
    (Manager.isSome_find?.mpr (Manager.mem_interfaces.mpr ⟨e, he', rfl⟩))
  obtain ⟨hmem', hname⟩ := Manager.mem_of_find? hd
  rw [ht.eq_of_interface_eq hmem' he' hname] at hd
  exact ⟨e, he, rfl, hd⟩

theorem start (h : Underway r diff started stopped s) (hbuf : s.added.buffer = n :: rest)
    (hk : s.manager.clients.length = k) (hd : s'.detector = s.detector)
    (ha : s'.added.buffer = rest) (hr : s'.removed = s.removed)
    (hm : s'.manager =
      (s.manager.withClient n ⟨s.scope.path ++ [s.tokens.issued]⟩).pingClient k)
    (hs : s'.scope = s.scope) (hi : s'.tokens.issued = s.tokens.issued + 1)
    (hc : s'.tokens.cancelled = s.tokens.cancelled) (hasked : s'.asked = s.asked ++ [n])
    (hf : s'.faults = s.faults) : Underway r diff (started ++ [n]) stopped s' where
  added := by
    rw [ha, hd, ← h.added, hbuf]
    simp
  removed := by rw [hr, hd, h.removed]
  entries := by
    rw [Manager.newcomers_concat, ← List.append_assoc, ← h.entries, ← h.issued, ← h.scope,
      ← h.length_clients, hm]
    rfl
  clients := by
    rw [Manager.newcomers_concat, List.map_append, ← List.append_assoc, ← h.clients, ← h.issued,
      ← h.scope, hm, ← hk, Manager.clients_started, List.map_append]
    rfl
  waiting := by rw [hm]; exact h.waiting
  scope := hs.trans h.scope
  issued := by rw [hi, h.issued, List.length_append]; rfl
  cancelled t := by rw [TokenForest.isCancelled, hc, ← h.cancelled]; rfl
  asked := by rw [hasked, h.asked, List.append_assoc]
  faults := hf.trans h.faults

theorem stop (h : Underway r diff started stopped s) (hbuf : s.removed.buffer = n :: rest)
    (hd : s'.detector = s.detector) (ha : s'.added = s.added) (hr : s'.removed.buffer = rest)
    (hm : s'.manager = s.manager) (hs : s'.scope = s.scope) (he : e ∈ r.manager.entries)
    (hn : e.interface = n) (hdistinct : (r.manager.entries.map (·.interface)).Nodup)
    (ht : s'.tokens = s.tokens.cancel e.token) (hasked : s'.asked = s.asked)
    (hf : s'.faults = s.faults) : Underway r diff started (stopped ++ [n]) s' where
  added := by rw [ha, hd, h.added]
  removed := by
    rw [hr, hd, ← h.removed, hbuf]
    simp
  entries := by rw [hm, h.entries]
  clients := by rw [hm, h.clients]
  waiting := by rw [hm, h.waiting]
  scope := hs.trans h.scope
  issued := by rw [ht]; exact h.issued
  cancelled t := by
    rw [ht, TokenForest.isCancelled_cancel, h.cancelled, or_left_comm]
    refine or_congr_right ⟨?_, ?_⟩
    · rintro (hw | ⟨d, hd, hname, hw⟩)
      · exact ⟨e, he, by simp [hn], hw⟩
      · exact ⟨d, hd, List.mem_append_left _ hname, hw⟩
    · rintro ⟨d, hd, hname, hw⟩
      rcases List.mem_append.mp hname with hname | hname
      · exact .inr ⟨d, hd, hname, hw⟩
      · rw [List.mem_singleton, ← hn] at hname
        rw [List.inj_on_of_nodup_map hdistinct hd he hname] at hw
        exact .inl hw
  asked := hasked.trans h.asked
  faults := hf.trans h.faults

end Underway

theorem loop_ended_of_close (h : Ending past s) (hg : s.group.result? = some o) : s.loop = .ended :=
  of_not_not (of_decide_eq_false (h.pair.of_result? hg).2)

theorem asked_note_asked (s : Run) (n : String) : (s.note (.asked n)).asked = s.asked ++ [n] :=
  trace_note ..

theorem asked_noteAll_produced (s : Run) (es : List PeerEvent) :
    (s.noteAll (es.map .produced)).asked = s.asked ∧ (s.noteAll (es.map .produced)).faults = s.faults := by
  simp [asked, faults, trace_noteAll]

theorem Underway.step (h : Underway r (.of r.manager.interfaces valid allowed) started stopped s)
    (ht : r.manager.Tracks) (he : Ending past s) (hcalm : a.isCalm) (hs : Step s a s') :
    s'.loop = .ended ∨ s'.detector = .ended ∨
      ∃ started stopped, Underway r (.of r.manager.interfaces valid allowed) started stopped s' := by
  cases hs with
  | scanFailed | scanned | tick | ping | exit | cancel | startFailed => contradiction
  | @announceAdded n ns ls c hd hc =>
    obtain ⟨-, rfl⟩ := push?_eq_some.mp hc
    refine .inr (.inr ⟨started, stopped, { h with added := ?_, removed := ?_ }⟩)
    · rw [← h.added, hd]
      simp
    · rw [← h.removed, hd]
      simp [Run.note]
  | @announceRemoved n ls c hd hc =>
    obtain ⟨-, rfl⟩ := push?_eq_some.mp hc
    refine .inr (.inr ⟨started, stopped, { h with added := ?_, removed := ?_ }⟩)
    · rw [← h.added, hd]
      simp [Run.note]
    · rw [← h.removed, hd]
      simp
  | stopDetector => exact .inr (.inl rfl)
  | stopResting | refuse => exact .inl rfl
  | startRefused _ hadded hr =>
    obtain ⟨rest, hbuf, rfl⟩ := receive_eq_some.mp hadded
    rw [h.refusal?_next hbuf] at hr
    contradiction
  | @started n _ _ _ _ _ hadded _ hchild hk =>
    obtain ⟨rest, hbuf, rfl⟩ := receive_eq_some.mp hadded
    cases hchild
    refine .inr (.inr ⟨_, stopped, h.start hbuf hk rfl rfl rfl rfl rfl rfl rfl ?_ rfl⟩)
    exact asked_note_asked { s with added := { s.added with buffer := rest } } n
  | stopUnknown _ hremoved hf =>
    obtain ⟨rest, hbuf, rfl⟩ := receive_eq_some.mp hremoved
    obtain ⟨e, -, -, hf'⟩ := h.find?_next he.tracks hbuf
    rw [hf] at hf'
    contradiction
  | stopClient _ hremoved hf =>
    obtain ⟨rest, hbuf, rfl⟩ := receive_eq_some.mp hremoved
    obtain ⟨e, hmem, hn, hf'⟩ := h.find?_next he.tracks hbuf
    rw [hf, Option.some.injEq] at hf'
    subst hf'
    exact .inr (.inr ⟨started, _, h.stop hbuf rfl rfl rfl rfl rfl hmem hn ht.distinct rfl rfl rfl⟩)
  | @observe m c event t =>
    obtain ⟨hasked, hf⟩ := asked_noteAll_produced
      (({ s with received := c, peers := t, loop := reporting event.toList false }).note
        (.heard m.remote)) event.toList
    refine .inr (.inr ⟨started, stopped, h.congr ?_ ?_ ?_ ?_ ?_ ?_ ?_ ?_ hasked hf⟩)
    all_goals
      rw [noteAll_eq]
      rfl
  | beginClient hb =>
    obtain ⟨c, hc, -, rfl⟩ := Manager.begin_eq_some.mp hb
    exact .inr (.inr ⟨started, stopped, h.congr rfl rfl rfl rfl (Manager.map_set _ hc rfl) rfl rfl rfl rfl
      rfl⟩)
  | close _ hg =>
    have hl : s.loop = .ended := loop_ended_of_close he hg
    exact .inl hl
  | _ => exact .inr (.inr ⟨started, stopped, h.congr rfl rfl rfl rfl rfl rfl rfl rfl rfl rfl⟩)

theorem Step.detector_of_ended {r r' : Run} (h : Step r a r') (hd : r.detector = .ended) :
    r'.detector = .ended := by
  cases h with
  | scanFailed | stopDetector => rfl
  | scanned hd' | announceAdded hd' | announceRemoved hd' =>
    rw [hd] at hd'
    contradiction
  | tick | ping | observe =>
    rw [noteAll_eq]
    exact hd
  | _ => exact hd

/-- Until a loop ends, the names of a scan are on their way. -/
theorem underway_of_steps (h : Underway r (.of r.manager.interfaces valid allowed) started stopped s)
    (ht : r.manager.Tracks) (he : Ending past s) (hcalm : ∀ a ∈ later, Action.isCalm a)
    (hs : s.steps later = some s') : s'.loop = .ended ∨ s'.detector = .ended ∨
      ∃ started stopped, Underway r (.of r.manager.interfaces valid allowed) started stopped s' := by
  refine (steps_induction (P := fun later s' => (∀ a ∈ later, Action.isCalm a) →
    (∃ past, Ending past s') ∧ (s'.loop = .ended ∨ s'.detector = .ended ∨
      ∃ started stopped, Underway r (.of r.manager.interfaces valid allowed) started stopped s'))
    ?_ (fun _ => ⟨⟨past, he⟩, .inr (.inr ⟨started, stopped, h⟩)⟩) hs hcalm).2
  intro later s a s' ih hs hcalm
  obtain ⟨hlater, ha⟩ := List.forall_mem_append.mp hcalm
  obtain ⟨⟨past, he⟩, hl | hd | ⟨started, stopped, h⟩⟩ := ih hlater
  · exact ⟨⟨_, he.step hs⟩, .inl (hs.loop_of_ended hl)⟩
  · exact ⟨⟨_, he.step hs⟩, .inr (.inl (hs.detector_of_ended hd))⟩
  · exact ⟨⟨_, he.step hs⟩, h.step ht he (ha a (List.mem_singleton_self a)) hs⟩

/-- A manager that refuses starts belongs to a run whose loops have ended. -/
theorem loop_ended_of_waiting {config : DiscoveryConfig} {r : Run}
    (h : (Run.start config capacity).steps actions = some r) (hw : r.manager.waiting) :
    r.loop = .ended := by
  refine (steps_induction (P := fun past r => Ending past r ∧ (r.manager.waiting → r.loop = .ended))
    ?_ ⟨.start config capacity, nofun⟩ h).2 hw
  intro past s a s' ⟨he, hloop⟩ hs
  refine ⟨he.step hs, fun hw' => hs.loop_of_ended ?_⟩
  cases hs with
  | close _ hg => exact loop_ended_of_close he hg
  | beginClient hb =>
    obtain ⟨c, -, -, rfl⟩ := Manager.begin_eq_some.mp hb
    exact hloop hw'
  | exit hx =>
    obtain ⟨c, -, -, rfl⟩ := Manager.exit_eq_some.mp hx
    exact hloop hw'
  | ping =>
    rw [noteAll_eq] at hw'
    exact hloop (Manager.waiting_ping ▸ hw')
  | tick | observe =>
    rw [noteAll_eq] at hw'
    exact hloop hw'
  | _ => exact hloop hw'

/-! ## The main statement -/

/-- No name is on its way from the detector to the event loop, which runs. -/
structure Idle (r : Run) : Prop where
  detector : r.detector = .resting
  added : r.added.buffer = []
  removed : r.removed.buffer = []
  loop : r.loop ≠ .ended

/-- The names that a scan with the usable interfaces `valid` finds to be new and to be gone. -/
def diff (r : Run) (valid : List String) : InterfaceDiff :=
  .of r.manager.interfaces valid r.config.allowedInterfaces

/-- What has come of a scan with the usable interfaces `valid`, from the state `r` to `r'`. -/
structure Reconciled (valid : List String) (r r' : Run) : Prop where
  /-- No start and no cancel has reported an error, and each new client was asked for once. -/
  faults : r'.faults = r.faults
  asked : r'.asked = r.asked ++ (r.diff valid).added
  /-- Nothing but the new clients comes in, with one ping each. -/
  entries : r'.manager.entries =
    r.manager.entries ++ r.manager.newcomers r.tokens r.scope (r.diff valid).added
  clients : r'.manager.clients.map ManagedClient.core = r.manager.clients.map ManagedClient.core ++
    (r.manager.newcomers r.tokens r.scope (r.diff valid).added).map fun e => (e.interface, e.token, 1)
  /-- Nothing is cancelled but what runs under the tokens of lost interfaces. -/
  cancelled : ∀ t, r'.tokens.isCancelled t ↔ r.tokens.isCancelled t ∨
    ∃ e ∈ r.manager.entries, e.interface ∉ valid ∧ t.isWithin e.token
  gone : ∀ e ∈ r.manager.entries, e.interface ∉ valid → r'.tokens.isCancelled e.token
  kept : ∀ e ∈ r.manager.entries, e.interface ∈ valid → r'.tokens.isCancelled e.token = false
  /-- The clients that go on are those of the usable interfaces that are allowed. -/
  live : ∀ n, (∃ e ∈ r'.manager.entries, e.interface = n ∧ r'.tokens.isCancelled e.token = false) ↔
    n ∈ valid ∧ InterfaceDiff.isAllowed r.config.allowedInterfaces n

theorem Underway.start_of_idle {diff : InterfaceDiff} (hi : r.Idle) (hw : r.manager.waiting = false)
    (hd : s.detector = announcing diff.added diff.removed) (ha : s.added = r.added)
    (hr : s.removed = r.removed) (hm : s.manager = r.manager) (hs : s.scope = r.scope)
    (ht : s.tokens = r.tokens) (hasked : s.asked = r.asked) (hf : s.faults = r.faults) :
    Underway r diff [] [] s where
  added := by simp [ha, hi.added, hd]
  removed := by simp [hr, hi.removed, hd]
  entries := by simp [hm, Manager.newcomers]
  clients := by simp [hm, Manager.newcomers]
  waiting := by rw [hm, hw]
  scope := hs
  issued := by simp [ht]
  cancelled t := by simp [ht]
  asked := by simp [hasked]
  faults := hf

namespace Underway

variable {valid allowed started stopped : List String} {e : ManagerEntry}

theorem cancelled_iff (h : Underway r (.of r.manager.interfaces valid allowed) started stopped s)
    (hstopped : stopped = (InterfaceDiff.of r.manager.interfaces valid allowed).removed) (t : Token) :
    s.tokens.isCancelled t ↔ r.tokens.isCancelled t ∨
      ∃ e ∈ r.manager.entries, e.interface ∉ valid ∧ t.isWithin e.token := by
  rw [h.cancelled, hstopped]
  refine or_congr_right (exists_congr fun e => and_congr_right fun he => and_congr_left fun _ => ?_)
  rw [InterfaceDiff.mem_removed]
  exact and_iff_right (Manager.mem_interfaces.mpr ⟨e, he, rfl⟩)

end Underway

theorem Rooted.eq_of_isWithin (h : Rooted r) (ht : r.manager.Tracks) {d e : ManagerEntry}
    (hd : d ∈ r.manager.entries) (he : e ∈ r.manager.entries) (hw : d.token.isWithin e.token) :
    d = e := by
  obtain ⟨b, hb, hbname, hbtoken, -⟩ := ht.client_of_mem hd
  obtain ⟨c, hc, hcname, hctoken, -⟩ := ht.client_of_mem he
  rw [← hbtoken, ← hctoken] at hw
  have hk := h.planted.eq_of_isWithin hb hc hw
  rw [hk, hc, Option.some.injEq] at hb
  exact ht.eq_of_interface_eq hd he (by rw [← hbname, ← hcname, hb])

/-- What was there before a client came in does not cancel it, unless it has cancelled the run. -/
theorem Rooted.not_cancelled_newcomer (h : Rooted r) (hn : r.Nested) (ht : r.manager.Tracks)
    (hc : r.isCancelled = false) {e : ManagerEntry}
    (he : e ∈ r.manager.newcomers r.tokens r.scope started) :
    r.tokens.isCancelled e.token = false ∧
      ∀ d ∈ r.manager.entries, e.token.isWithin d.token = false := by
  have hfresh {u : Token} (hu : r.tokens.Holds u) (hscope : r.scope.isWithin u = false) :
      e.token.isWithin u = false := by
    obtain ⟨i, hi, rfl⟩ := List.mem_mapIdx.mp he
    rw [Bool.eq_false_iff, Ne, Token.isWithin_fresh, hscope]
    · exact Bool.false_ne_true
    · intro j hj
      have hlt := hu j hj
      omega
  constructor
  · refine Bool.eq_false_iff.mpr fun hc' => ?_
    obtain ⟨u, hu, hw⟩ := TokenForest.isCancelled_iff.mp hc'
    have hscope : r.scope.isWithin u = false := by
      refine Bool.eq_false_iff.mpr fun hscope => ?_
      rw [isCancelled, TokenForest.isCancelled_iff.mpr ⟨u, hu, hscope⟩] at hc
      contradiction
    rw [hfresh (h.cancelled u hu) hscope] at hw
    contradiction
  · intro d hd
    obtain ⟨c, hc', -, htoken, -⟩ := ht.client_of_mem hd
    rw [← htoken]
    exact hfresh (h.holds_client hc') (hn.clients c (List.mem_of_getElem? hc')).2

section

variable {r' : Run} {valid : List String}
  (hcancelled : ∀ t, r'.tokens.isCancelled t ↔ r.tokens.isCancelled t ∨
    ∃ e ∈ r.manager.entries, e.interface ∉ valid ∧ t.isWithin e.token)

include hcancelled

theorem Rooted.isCancelled_entry (h : Rooted r) (ht : r.manager.Tracks)
    (hlive : ∀ e ∈ r.manager.entries, r.tokens.isCancelled e.token = false) :
    ∀ e ∈ r.manager.entries, r'.tokens.isCancelled e.token ↔ e.interface ∉ valid := by
  intro e he
  constructor
  · intro hc
    rcases (hcancelled e.token).mp hc with hc | ⟨d, hd, hinvalid, hw⟩
    · rw [hlive e he] at hc
      contradiction
    · rwa [h.eq_of_isWithin ht he hd hw]
  · intro hinvalid
    exact (hcancelled e.token).mpr (.inr ⟨e, he, hinvalid, Token.isWithin_refl _⟩)

theorem Rooted.isCancelled_newcomer (h : Rooted r) (hn : r.Nested) (ht : r.manager.Tracks)
    (hc : r.isCancelled = false) :
    ∀ e ∈ r.manager.newcomers r.tokens r.scope started, r'.tokens.isCancelled e.token = false := by
  intro e he
  obtain ⟨hbefore, hapart⟩ := h.not_cancelled_newcomer hn ht hc he
  refine Bool.eq_false_iff.mpr fun hc' => ?_
  rcases (hcancelled e.token).mp hc' with hc' | ⟨d, hd, -, hw⟩
  · rw [hbefore] at hc'
    contradiction
  · rw [hapart d hd] at hw
    contradiction

end

/-- The clients that go on, if the new ones do and the old ones do where their interfaces are usable. -/
theorem live_iff {r' : Run} (hentries : r'.manager.entries =
      r.manager.entries ++ r.manager.newcomers r.tokens r.scope (r.diff valid).added)
    (hallowed : ∀ e ∈ r.manager.entries,
      InterfaceDiff.isAllowed r.config.allowedInterfaces e.interface)
    (hold : ∀ e ∈ r.manager.entries, r'.tokens.isCancelled e.token ↔ e.interface ∉ valid)
    (hnew : ∀ e ∈ r.manager.newcomers r.tokens r.scope (r.diff valid).added,
      r'.tokens.isCancelled e.token = false) (n : String) :
    (∃ e ∈ r'.manager.entries, e.interface = n ∧ r'.tokens.isCancelled e.token = false) ↔
      n ∈ valid ∧ InterfaceDiff.isAllowed r.config.allowedInterfaces n := by
  have hlive : ∀ e ∈ r.manager.entries, r'.tokens.isCancelled e.token = false ↔ e.interface ∈ valid := by
    intro e he
    rw [← Bool.not_eq_true, hold e he, not_not]
  rw [hentries]
  constructor
  · rintro ⟨e, he, rfl, hc⟩
    rcases List.mem_append.mp he with he | he
    · exact ⟨(hlive e he).mp hc, hallowed e he⟩
    · obtain ⟨hvalid, -, hok⟩ := InterfaceDiff.mem_added.mp (Underway.mem_newcomers he)
      exact ⟨hvalid, hok⟩
  · rintro ⟨hvalid, hok⟩
    by_cases hknown : n ∈ r.manager.interfaces
    · obtain ⟨e, he, rfl⟩ := Manager.mem_interfaces.mp hknown
      exact ⟨e, List.mem_append_left _ he, rfl, (hlive e he).mpr hvalid⟩
    · have hmem : n ∈ (r.diff valid).added := InterfaceDiff.mem_added.mpr ⟨hvalid, hknown, hok⟩
      rw [← Manager.interface_newcomers r.manager r.tokens r.scope (r.diff valid).added] at hmem
      obtain ⟨e, he, rfl⟩ := List.mem_map.mp hmem
      exact ⟨e, List.mem_append_right _ he, rfl, hnew e he⟩

/-- Between two moments at which no name is on its way, a scan is reconciled, in whatever order its names
are handled. -/
theorem reconciled_of_steps {config : DiscoveryConfig} {capacity : Nat} {before later : List Action}
    {interfaces : List NetInterface} {r r' : Run}
    (h : (Run.start config capacity).steps before = some r) (hi : r.Idle)
    (hc : r.isCancelled = false)
    (hlive : ∀ e ∈ r.manager.entries, r.tokens.isCancelled e.token = false)
    (hallowed : ∀ e ∈ r.manager.entries,
      InterfaceDiff.isAllowed r.config.allowedInterfaces e.interface)
    (hcalm : ∀ a ∈ later, Action.isCalm a)
    (hs : r.steps (.scan (.ok interfaces) :: later) = some r') (hi' : r'.Idle) :
    Reconciled (validNames interfaces) r r' := by
  have hf := followed_of_steps h
  have ht := hf.ending.tracks
  have hroot := rooted_of_steps h
  obtain ⟨s, hscan, hs⟩ := Option.bind_eq_some_iff.mp hs
  have hscan := Step.of_step hscan
  have hending := hf.ending.step hscan
  have hwaiting : r.manager.waiting = false :=
    Bool.eq_false_iff.mpr fun hw => hi.loop (loop_ended_of_waiting h hw)
  have hbegin : Underway r (r.diff (validNames interfaces)) [] [] s := by
    cases hscan with
    | scanned _ _ hdiff =>
      exact .start_of_idle hi hwaiting (by rw [diff, hdiff]) rfl rfl rfl rfl rfl rfl rfl
  obtain ⟨started, stopped, hu⟩ : ∃ started stopped,
      Underway r (r.diff (validNames interfaces)) started stopped r' :=
    ((underway_of_steps hbegin ht hending hcalm hs).resolve_left hi'.loop).resolve_left
      (by rw [hi'.detector]; nofun)
  have hstarted : started = (r.diff (validNames interfaces)).added := by
    simpa [hi'.added, hi'.detector, DetectorPhase.added] using hu.added
  have hstopped : stopped = (r.diff (validNames interfaces)).removed := by
    simpa [hi'.removed, hi'.detector, DetectorPhase.removed] using hu.removed
  have hcancelled := hu.cancelled_iff hstopped
  subst hstarted
  have hentry := hroot.isCancelled_entry hcancelled ht hlive
  exact
    { faults := hu.faults
      asked := hu.asked
      entries := hu.entries
      clients := hu.clients
      cancelled := hcancelled
      gone := fun e he hinvalid => (hentry e he).mpr hinvalid
      kept := fun e he hvalid => Bool.eq_false_iff.mpr fun hc' => (hentry e he).mp hc' hvalid
      live := live_iff hu.entries hallowed hentry (hroot.isCancelled_newcomer hcancelled hf.nested ht hc) }

/-- Three interfaces may be used. -/
def threeAllowed : DiscoveryConfig :=
  { DiscoveryConfig.standard with allowedInterfaces := ["eth0", "eth1", "eth2"] }

/-- Clients for two interfaces are started. -/
def twoClients : List Action :=
  [.scan (.ok [.usable "eth0", .usable "eth1"]), .announce, .startNext (.ok ()), .pingsQueued,
    .beginClient 0, .announce, .startNext (.ok ()), .pingsQueued, .elapse 5000]

/-- One of the interfaces is gone, and one of the two new ones may be used. The loss is handled first. -/
def change : List Action :=
  [.announce, .announce, .stopNext, .beginClient 1, .startNext (.ok ()), .pingsQueued]

def changed : List NetInterface := [.usable "eth1", .usable "eth2", .usable "eth3"]

theorem reconciled_change : ∃ r r', (Run.start threeAllowed 8).steps twoClients = some r ∧ r.Idle ∧
    r.steps (.scan (.ok changed) :: change) = some r' ∧ r'.Idle ∧
    Reconciled (validNames changed) r r' ∧ r'.manager.interfaces = ["eth0", "eth1", "eth2"] := by
  have hany : ((Run.start threeAllowed 8).steps twoClients).any fun r =>
      decide ((r.detector = .resting ∧ r.added.buffer = [] ∧ r.removed.buffer = [] ∧ r.loop ≠ .ended) ∧
        r.isCancelled = false ∧
        (∀ e ∈ r.manager.entries, r.tokens.isCancelled e.token = false ∧
          InterfaceDiff.isAllowed r.config.allowedInterfaces e.interface)) &&
      (r.steps (.scan (.ok changed) :: change)).any fun r' =>
        (r'.detector = .resting ∧ r'.added.buffer = [] ∧ r'.removed.buffer = [] ∧ r'.loop ≠ .ended) ∧
          r'.manager.interfaces = ["eth0", "eth1", "eth2"] := by
    decide +kernel
  obtain ⟨r, hr, hmatch⟩ := (Option.any_eq_true _ _).mp hany
  obtain ⟨hbefore, hafter⟩ := Bool.and_eq_true_iff.mp hmatch
  obtain ⟨⟨hd, ha, hrem, hl⟩, hc, hentries⟩ := of_decide_eq_true hbefore
  obtain ⟨r', hr', hmatch'⟩ := (Option.any_eq_true _ _).mp hafter
  obtain ⟨⟨hd', ha', hrem', hl'⟩, hnames⟩ := of_decide_eq_true hmatch'
  have hi : r.Idle := ⟨hd, ha, hrem, hl⟩
  have hi' : r'.Idle := ⟨hd', ha', hrem', hl'⟩
  exact ⟨r, r', hr, hi, hr', hi', reconciled_of_steps hr hi hc (fun e he => (hentries e he).1)
    (fun e he => (hentries e he).2) (by decide) hr' hi', hnames⟩

end Run
end Discovery
end AmpLink
