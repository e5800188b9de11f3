import AmpLink.Proofs.Discovery.Removals

/-!
# Where the names of clients come from

A client is asked for by name, some time after a scan has found that name: the detector holds it first, then
it waits on a channel, and meanwhile the interface may have gone again or its client may still be running.
`Passage` follows the new names on their way. What is on it only ever comes from the scans, in order, so a
client is asked for at most as often as its name was announced, and for no interface that no scan has found
usable or that the settings leave out (`Run.vetted_of_steps`).
-/

namespace AmpLink

namespace Discovery

/-- The new names of a run. -/
structure Passage where
  /-- What the scans have found to be new. -/
  found : List String
  /-- What the detector still has to hand over, and what it has handed over. -/
  held : List String
  announced : List String
  /-- What the event loop has not taken yet, and for what it has asked. -/
  queued : List String
  asked : List String
  tracked : List String

namespace Passage

/-- How the names can go on. -/
inductive Step (p : Passage) : Passage → Prop
  /-- Names may be dropped, and entries may be taken out. -/
  | drop : hs.Sublist p.held → qs.Sublist p.queued → ts ⊆ p.tracked →
    Step p { p with held := hs, queued := qs, tracked := ts }
  | scan : p.held = [] → Step p { p with found := p.found ++ ns, held := ns }
  | announce : p.held = n :: ns →
    Step p { p with held := ns, announced := p.announced ++ [n], queued := p.queued ++ [n] }
  /-- A client is asked for, and may become tracked. -/
  | ask : p.queued = n :: ns → ts ⊆ n :: p.tracked →
    Step p { p with queued := ns, asked := p.asked ++ [n], tracked := ts }

theorem Step.stay {p : Passage} : Step p p := .drop (.refl _) (.refl _) (List.Subset.refl _)

/-- Nothing comes up on the way. -/
structure Sound (p : Passage) : Prop where
  found : (p.announced ++ p.held).Sublist p.found
  announced : (p.asked ++ p.queued).Sublist p.announced
  asked : p.tracked ⊆ p.asked

variable {p p' : Passage}

theorem Sound.step (h : p.Sound) (hs : p.Step p') : p'.Sound := by
  cases hs with
  | drop hheld hqueued htracked =>
    exact
      { found := (hheld.append_left _).trans h.found
        announced := (hqueued.append_left _).trans h.announced
        asked := List.Subset.trans htracked h.asked }
  | scan hheld =>
    have hfound := h.found
    rw [hheld, List.append_nil] at hfound
    exact { h with found := hfound.append_right _ }
  | announce hheld =>
    have hfound := h.found
    have hannounced := h.announced.append_right [‹String›]
    rw [hheld, List.append_cons] at hfound
    rw [List.append_assoc] at hannounced
    exact { found := hfound, announced := hannounced, asked := h.asked }
  | ask hqueued htracked =>
    have hannounced := h.announced
    rw [hqueued, List.append_cons] at hannounced
    refine { found := h.found, announced := hannounced, asked := fun n hn => ?_ }
    rw [List.mem_append, List.mem_singleton]
    exact (List.mem_cons.mp (htracked hn)).elim .inr fun hn => .inl (h.asked hn)

/-- What is asked for was the next name that the loop had not taken. -/
theorem Step.asked_cases (h : p.Step p') :
    p'.asked = p.asked ∨ ∃ n ∈ p.queued, p'.asked = p.asked ++ [n] := by
  cases h with
  | ask hqueued => exact .inr ⟨_, by simp [hqueued], rfl⟩
  | _ => exact .inl rfl

theorem Sound.mem_found_of_mem_announced (h : p.Sound) (hn : n ∈ p.announced) : n ∈ p.found :=
  h.found.subset (List.mem_append_left _ hn)

theorem Sound.mem_found_of_mem_queued (h : p.Sound) (hn : n ∈ p.queued) : n ∈ p.found :=
  h.mem_found_of_mem_announced (h.announced.subset (List.mem_append_right _ hn))

theorem Sound.mem_found_of_mem_asked (h : p.Sound) (hn : n ∈ p.asked) : n ∈ p.found :=
  h.mem_found_of_mem_announced (h.announced.subset (List.mem_append_left _ hn))

end Passage

/-! ## From runs to passages -/

namespace Run

/-- The names that the scans have found to be new, in order. -/
def found (r : Run) : List String := r.diffs.flatMap (·.added)

/-- The names that the detector has handed over as new, in order. -/
def announced (r : Run) : List String := r.trace fun | .announcedAdded n => some n | _ => none

def passage (r : Run) : Passage where
  found := r.found
  held := r.detector.added
  announced := r.announced
  queued := r.added.buffer
  asked := r.asked
  tracked := r.manager.interfaces

theorem found_note_scanned (r : Run) :
    (r.note (.scanned known valid diff)).found = r.found ++ diff.added := by
  rw [found, diffs, trace_note, List.flatMap_append]
  exact congrArg (r.found ++ ·) (List.flatMap_singleton ..)

theorem passage_noteAll (r : Run) {ns : List Note} (h : ∀ n ∈ ns, n matches .produced _ | .pinged _) :
    (r.noteAll ns).passage = r.passage := by
  have htrace {α : Type} (f : Note → Option α) (hproduced : ∀ e, f (.produced e) = none)
      (hpinged : ∀ k, f (.pinged k) = none) : (r.noteAll ns).trace f = r.trace f :=
    trace_noteAll_of_none r f (eq_none_of_mem h hproduced hpinged)
  have hdiffs : (r.noteAll ns).diffs = r.diffs := htrace _ (fun _ => rfl) fun _ => rfl
  have hannounced : (r.noteAll ns).announced = r.announced := htrace _ (fun _ => rfl) fun _ => rfl
  have hasked : (r.noteAll ns).asked = r.asked := htrace _ (fun _ => rfl) fun _ => rfl
  rw [passage, found, hdiffs, hannounced, hasked, noteAll_eq]
  rfl

theorem Step.passage {r r' : Run} (h : Step r a r') : r.passage.Step r'.passage := by
  cases h with
  | scanFailed | stopDetector => exact .drop (List.nil_sublist _) (.refl _) (List.Subset.refl _)
  | @scanned interfaces diff hd =>
    have hheld : r.passage.held = [] := by rw [Run.passage, hd]; rfl
    change r.passage.Step
      { r.passage with
        found := (r.note (.scanned _ _ diff)).found
        held := (announcing diff.added diff.removed).added }
    rw [found_note_scanned, added_announcing]
    exact .scan hheld
  | @announceAdded n ns ls c hd hc =>
    obtain ⟨-, rfl⟩ := push?_eq_some.mp hc
    have hheld : r.passage.held = n :: ns := by rw [Run.passage, hd]; rfl
    change r.passage.Step
      { r.passage with
        held := (announcing ns ls).added
        announced := (r.note (.announcedAdded n)).announced
        queued := r.added.buffer ++ [n] }
    rw [added_announcing, announced, trace_note]
    exact .announce hheld
  | @announceRemoved n ls c hd hc =>
    change r.passage.Step { r.passage with held := (announcing [] ls).added }
    rw [added_announcing]
    exact .drop (List.nil_sublist _) (.refl _) (List.Subset.refl _)
  | tick | observe =>
    rw [passage_noteAll _ (by simp)]
    exact .stay
  | stopResting | refuse => exact .drop (.refl _) (List.nil_sublist _) (List.Subset.refl _)
  | ping =>
    rw [passage_noteAll _ (by simp)]
    change r.passage.Step { r.passage with tracked := r.manager.ping.interfaces }
    rw [Manager.interfaces, Manager.entries_ping]
    exact .stay
  | startRefused _ hadded =>
    obtain ⟨rest, hbuf, rfl⟩ := receive_eq_some.mp hadded
    have hqueued : rest.Sublist r.passage.queued := by
      rw [Run.passage, hbuf]
      exact List.sublist_cons_self ..
    exact .drop (.refl _) hqueued (List.Subset.refl _)
  | @startFailed n c e _ hadded =>
    obtain ⟨rest, hbuf, rfl⟩ := receive_eq_some.mp hadded
    change r.passage.Step { r.passage with queued := rest, asked := (r.note (.asked n)).asked }
    rw [asked, trace_note]
    exact .ask hbuf (List.subset_cons_self ..)
  | @started n c t f k _ hadded =>
    obtain ⟨rest, hbuf, rfl⟩ := receive_eq_some.mp hadded
    change r.passage.Step
      { r.passage with
        queued := rest
        asked := (r.note (.asked n)).asked
        tracked := (r.manager.withClient n t).interfaces }
    rw [asked, trace_note]
    refine .ask hbuf fun m hm => ?_
    obtain ⟨e, he, rfl⟩ := Manager.mem_interfaces.mp hm
    rcases List.mem_append.mp he with he | he
    · exact List.mem_cons_of_mem _ (Manager.mem_interfaces.mpr ⟨e, he, rfl⟩)
    · rw [List.mem_singleton.mp he]
      exact List.mem_cons_self
  | beginClient hb =>
    obtain ⟨c, hc, -, rfl⟩ := Manager.begin_eq_some.mp hb
    exact .stay
  | @exit _ _ m he =>
    obtain ⟨c, hc, -, rfl⟩ := Manager.exit_eq_some.mp he
    refine .drop (.refl _) (.refl _) fun n hn => ?_
    obtain ⟨e, he, rfl⟩ := Manager.mem_interfaces.mp hn
    exact Manager.mem_interfaces.mpr ⟨e, List.mem_of_mem_filter he, rfl⟩
  | _ => exact .stay

/-! ## The main statement -/

/-- One of the steps `past` was a scan that reported a usable interface of this name, and the settings allow
the name. -/
structure Vetted (config : DiscoveryConfig) (past : List Action) (n : String) : Prop where
  usable : ∃ interfaces, .scan (.ok interfaces) ∈ past ∧
    ∃ i ∈ interfaces, i.name = n ∧ i.up ∧ i.broadcast ∧ i.loopback = false ∧ i.hasIpv4
  allowed : config.allowedInterfaces ≠ [] → n ∈ config.allowedInterfaces

theorem Vetted.later {config : DiscoveryConfig} (h : Vetted config past n) (a : Action) :
    Vetted config (past ++ [a]) n where
  usable := by
    obtain ⟨interfaces, hscan, hi⟩ := h.usable
    exact ⟨interfaces, List.mem_append_left _ hscan, hi⟩
  allowed := h.allowed

theorem vetted_of_mem_added {config : DiscoveryConfig} {interfaces : List NetInterface}
    (hscan : .scan (.ok interfaces) ∈ past)
    (hn : n ∈ (InterfaceDiff.of known (validNames interfaces) config.allowedInterfaces).added) :
    Vetted config past n := by
  obtain ⟨hn, -, hallowed⟩ := InterfaceDiff.mem_added.mp hn
  obtain ⟨i, hi, hvalid, rfl⟩ := mem_validNames.mp hn
  simp only [NetInterface.isValid, Bool.and_eq_true, Bool.not_eq_true'] at hvalid
  simp only [InterfaceDiff.isAllowed, Bool.or_eq_true, List.isEmpty_iff, decide_eq_true_eq] at hallowed
  exact
    { usable := ⟨interfaces, hscan, i, hi, rfl, hvalid.1.1.1, hvalid.1.1.2, hvalid.1.2, hvalid.2⟩
      allowed := hallowed.resolve_left }

/-- What a step adds to the names that were found has been found by that step. -/
theorem Step.found_cases {r r' : Run} (h : Step r a r') : r'.config = r.config ∧
    (r'.found = r.found ∨ ∃ interfaces, a = .scan (.ok interfaces) ∧ r'.found = r.found ++
      (InterfaceDiff.of r.manager.interfaces (validNames interfaces) r.config.allowedInterfaces).added) := by
  cases h with
  | @scanned interfaces diff _ _ hdiff =>
    refine ⟨rfl, .inr ⟨interfaces, rfl, ?_⟩⟩
    rw [hdiff, ← found_note_scanned]
    rfl
  | tick | observe | ping =>
    refine ⟨by rw [noteAll_eq]; rfl, .inl ?_⟩
    exact congrArg Passage.found (passage_noteAll _ (by simp))
  | _ => exact ⟨rfl, .inl rfl⟩

/-- Where the names of a run after the steps `actions` come from. -/
structure KeepsToAllowed (config : DiscoveryConfig) (actions : List Action) (r : Run) : Prop where
  /-- A name for which a client was asked for has been vetted, and so will be the next one before that. -/
  asked : ∀ n ∈ r.asked, Vetted config actions n
  next : ∀ a r' n, r.step a = some r' → r'.asked = r.asked ++ [n] → Vetted config actions n
  tracked : ∀ n ∈ r.manager.interfaces, Vetted config actions n
  /-- What the detector has announced are names that its scans have found, in that order, … -/
  announced : r.announced.Sublist r.found
  /-- … and clients are asked for in the order of the announcements, each at most as often. -/
  order : r.asked.Sublist r.announced
  count : ∀ n, r.asked.count n ≤ r.announced.count n

theorem sound_passage {config : DiscoveryConfig} {r : Run}
    (h : (start config capacity).steps actions = some r) : r.passage.Sound :=
  steps_induction (P := fun _ r => r.passage.Sound) (fun _ _ _ _ hp hs => hp.step hs.passage)
    ⟨.refl _, .refl _, List.Subset.refl _⟩ h

theorem vetted_found {config : DiscoveryConfig} {r : Run}
    (h : (start config capacity).steps actions = some r) : ∀ n ∈ r.found, Vetted config actions n := by
  refine (steps_induction (P := fun past r => r.config = config ∧ ∀ n ∈ r.found, Vetted config past n)
    (fun past r a r' hp hs => ?_) ⟨rfl, List.forall_mem_nil _⟩ h).2
  obtain ⟨hconfig, hp⟩ := hp
  obtain ⟨hconfig', hfound | ⟨interfaces, rfl, hfound⟩⟩ := hs.found_cases
  · exact ⟨hconfig'.trans hconfig, fun n hn => (hp n (hfound ▸ hn)).later a⟩
  · refine ⟨hconfig'.trans hconfig, fun n hn => ?_⟩
    rw [hfound, hconfig] at hn
    rcases List.mem_append.mp hn with hn | hn
    · exact (hp n hn).later _
    · exact vetted_of_mem_added (by simp) hn

/-- However interfaces come and go and clients end, clients are asked for and tracked only under names that
an earlier scan has found usable and that the settings allow, and no more often than they were announced. -/
theorem vetted_of_steps {config : DiscoveryConfig} {capacity : Nat} {actions : List Action} {r : Run}
    (h : (start config capacity).steps actions = some r) : r.KeepsToAllowed config actions := by
  have hsound := sound_passage h
  have hvetted := vetted_found h
  have horder : r.asked.Sublist r.announced := (List.sublist_append_left ..).trans hsound.announced
  refine
    { asked := fun n hn => hvetted n (hsound.mem_found_of_mem_asked hn)
      next := fun a r' n hs hn => ?_
      tracked := fun n hn => hvetted n (hsound.mem_found_of_mem_asked (hsound.asked hn))
      announced := (List.sublist_append_left ..).trans hsound.found
      order := horder
      count := fun n => horder.count_le n }
  rcases (Step.of_step hs).passage.asked_cases with hasked | ⟨m, hm, hasked⟩
  · have hself : r.asked = r.asked ++ [n] := hasked.symm.trans hn
    simp at hself
  · obtain rfl : m = n :=
      List.singleton_inj.mp (List.append_cancel_left (hasked.symm.trans hn))
    exact hvetted m (hsound.mem_found_of_mem_queued hm)

/-- Two interfaces are allowed. -/
def choosy : DiscoveryConfig := { DiscoveryConfig.standard with allowedInterfaces := ["eth0", "eth1"] }

/-- One allowed interface is reported twice, the other one is a loopback at first, and a third one is not
allowed. The first client ends and is replaced, and the second one cannot be made. -/
def selection : List Action :=
  [.scan (.ok [.usable "eth0", .usable "wlan0", { NetInterface.usable "eth1" with loopback := true },
      .usable "eth0"]),
    .announce, .startNext (.ok ()), .pingsQueued, .beginClient 0, .exit 0 (.error (.io "no device")),
    .elapse 5000, .scan (.ok [.usable "wlan0", .usable "eth1", .usable "eth0"]), .announce,
    .startNext (.ok ()), .pingsQueued, .announce, .startNext (.error (.io "no socket"))]

theorem vetted_selection : ∃ r, (start choosy 1).steps selection = some r ∧
    r.KeepsToAllowed choosy selection ∧ r.asked = ["eth0", "eth0", "eth1"] ∧
      r.manager.interfaces = ["eth0"] := by
  have hany : ((start choosy 1).steps selection).any
      (fun r => r.asked = ["eth0", "eth0", "eth1"] ∧ r.manager.interfaces = ["eth0"]) := by
    decide +kernel
  obtain ⟨r, hr, hmatch⟩ := (Option.any_eq_true _ _).mp hany
  exact ⟨r, hr, vetted_of_steps hr, of_decide_eq_true hmatch⟩

end Run
end Discovery
end AmpLink
