import AmpLink.Proofs.Discovery.Ending
import AmpLink.Proofs.Discovery.Interfaces
import AmpLink.Proofs.Discovery.Sharing

/-!
# What the detector hands over

After each scan the detector hands over what is new and then what is gone, and it scans again when all of it
has been taken. It can be stopped in between, by its token or because nobody takes its names. Whoever uses
the manager and the channels meanwhile, `Run.Relaying` says which names are left of the latest scan, and the
main statement is `Run.emits_of_steps`.
-/

namespace AmpLink

/-- A name on its way to whoever takes the names. -/
inductive Announcement where
  | added (interface : String)
  | removed (interface : String)
  deriving DecidableEq

/-- What a difference makes the detector hand over, in this order. -/
def InterfaceDiff.announcements (d : InterfaceDiff) : List Announcement :=
  d.added.map .added ++ d.removed.map .removed

theorem mem_of_mem_concat {past : List α} (h : b ∈ past ++ [a]) (hne : b ≠ a) : b ∈ past :=
  (List.mem_append.mp h).resolve_right fun hb => hne (List.mem_singleton.mp hb)

namespace Discovery

/-- What the detector does: it scans, and it hands names over. -/
inductive Emission where
  | scan
  | handed (a : Announcement)
  deriving DecidableEq

/-- The interfaces tracked at the moment of a scan, and the usable ones that it reported. -/
structure Sighting where
  known : List String
  valid : List String

namespace Sighting

/-- What has to be handed over after the scan. -/
def announcements (s : Sighting) (allowed : List String) : List Announcement :=
  (InterfaceDiff.of s.known s.valid allowed).announcements

/-- The scan and all that has to be handed over for it. -/
def whole (s : Sighting) (allowed : List String) : List Emission :=
  .scan :: (s.announcements allowed).map .handed

end Sighting

def Note.emission? : Note → Option Emission
  | scanned .. => some .scan
  | announcedAdded n => some (.handed (.added n))
  | announcedRemoved n => some (.handed (.removed n))
  | _ => none

/-- What the detector still has to hand over. -/
def DetectorPhase.held (p : DetectorPhase) : List Announcement :=
  p.added.map .added ++ p.removed.map .removed

namespace Run

/-- What the detector has done, in order. -/
def emissions (r : Run) : List Emission := r.trace Note.emission?

/-- The channel through which a name is handed over. -/
def channel (r : Run) : Announcement → Channel String
  | .added _ => r.added
  | .removed _ => r.removed

/-- The name is put on its channel, and nothing on the other one. -/
def Delivers (r r' : Run) : Announcement → Prop
  | .added n => r'.added.buffer = r.added.buffer ++ [n] ∧ r'.removed.buffer = r.removed.buffer
  | .removed n => r'.added.buffer = r.added.buffer ∧ r'.removed.buffer = r.removed.buffer ++ [n]

/-- What has come of the detector. The event loop never fails, so an error of the group is the detector's. -/
def detectorResult? (r : Run) : Option Outcome :=
  if detectorTask ∈ r.group.unfinished then none else some (r.group.firstError.elim (.ok ()) .error)

/-- What a scan finds in the state in which it is made. -/
def SharedAction.sighting? (r : Run) : SharedAction → Option Sighting
  | .own (.scan (.ok interfaces)) => some ⟨r.manager.interfaces, validNames interfaces⟩
  | _ => none

/-- What the scans among the steps find. -/
def sightings (r : Run) : List SharedAction → List Sighting
  | [] => []
  | a :: rest => (a.sighting? r).toList ++ ((r.sharedStep a).map (·.sightings rest)).getD []

variable {r r' s : Run} {a : SharedAction} {past : List SharedAction} {rest : List Announcement}

theorem SharedAction.sighting?_of_own? (h : a.own? = none) (r : Run) : a.sighting? r = none := by
  cases a with
  | own => contradiction
  | _ => rfl

theorem sightings_concat (h : r.sharedSteps past = some s) (a : SharedAction) :
    r.sightings (past ++ [a]) = r.sightings past ++ (a.sighting? s).toList := by
  induction past generalizing r with
  | nil =>
    cases h
    cases hs : s.sharedStep a with
    | none => simp [sightings, hs]
    | some t => simp [sightings, hs]
  | cons b past ih =>
    obtain ⟨t, ht, h⟩ := Option.bind_eq_some_iff.mp h
    rw [List.cons_append, sightings, sightings, ht, Option.map_some, Option.map_some, Option.getD_some,
      Option.getD_some, ih h, List.append_assoc]

/-! ## Phases of the detector -/

theorem held_announcing (ns ls : List String) :
    (announcing ns ls).held = ns.map .added ++ ls.map .removed := by
  rw [DetectorPhase.held, added_announcing, removed_announcing]

theorem announcing_of_nil (h : ns.map Announcement.added ++ ls.map .removed = []) :
    announcing ns ls = .resting := by
  obtain ⟨hns, hls⟩ := List.append_eq_nil_iff.mp h
  rw [List.map_eq_nil_iff] at hns hls
  rw [hns, hls]
  rfl

theorem emissions_noteAll (r : Run) {ns : List Note} (h : ∀ n ∈ ns, n matches .produced _ | .pinged _) :
    (r.noteAll ns).emissions = r.emissions :=
  trace_noteAll_of_none r _ (eq_none_of_mem h (fun _ => rfl) fun _ => rfl)

theorem isSome_scan_iff {source : Except RunError (List NetInterface)} :
    (r.scan source).isSome ↔ r.detector = .resting ∧ r.scans.isDue r.now := by
  rw [Run.scan]
  cases hd : r.detector with
  | resting =>
    by_cases hdue : r.scans.isDue r.now
    · cases source with
      | error | ok => simp [hdue]
    · simp [hdue]
  | announcing | ended => simp

/-- The detector sees that it is cancelled, or that nobody takes the next name. -/
theorem detectorStops_iff (h : r.detector ≠ .announcing [] []) : r.detectorStops ↔
    r.detector ≠ .ended ∧ (r.isCancelled ∨ ∃ a ∈ r.detector.held.head?, (r.channel a).isOpen = false) := by
  rw [detectorStops]
  cases hd : r.detector with
  | resting => simp [DetectorPhase.held, DetectorPhase.added, DetectorPhase.removed]
  | ended => simp
  | announcing ns ls =>
    cases ns with
    | cons n ns => simp [DetectorPhase.held, channel]
    | nil =>
      cases ls with
      | cons n ls => simp [DetectorPhase.held, channel]
      | nil => exact absurd hd h

theorem isSome_push? {c : Channel α} {a : α} : (push? c a).isSome ↔ c.isOpen ∧ c.hasRoom 0 := by
  rw [push?, Option.isSome_ite, Bool.and_eq_true]

/-- The next name can be handed over if there is somebody to take it and room for it. -/
theorem isSome_announce_iff : r.announce.isSome ↔
    ∃ a ∈ r.detector.held.head?, (r.channel a).isOpen ∧ (r.channel a).hasRoom 0 := by
  rw [Run.announce]
  cases hd : r.detector with
  | resting | ended => simp [DetectorPhase.held, DetectorPhase.added, DetectorPhase.removed]
  | announcing ns ls =>
    cases ns with
    | cons n ns => simp [DetectorPhase.held, channel, isSome_push?]
    | nil =>
      cases ls with
      | cons n ls => simp [DetectorPhase.held, channel, isSome_push?]
      | nil => simp [DetectorPhase.held]

/-- Only the detector puts names on the channels. -/
theorem Step.buffers (h : Step r b r') (hb : b ≠ .announce) :
    r'.added.buffer <:+ r.added.buffer ∧ r'.removed.buffer <:+ r.removed.buffer := by
  cases h with
  | announceAdded | announceRemoved => exact absurd rfl hb
  | stopResting | refuse => exact ⟨List.nil_suffix, List.nil_suffix⟩
  | startRefused _ hc | startFailed _ hc | started _ hc =>
    obtain ⟨names, hbuffer, rfl⟩ := receive_eq_some.mp hc
    rw [hbuffer]
    exact ⟨List.suffix_cons .., List.suffix_rfl⟩
  | stopUnknown _ hc | stopClient _ hc =>
    obtain ⟨names, hbuffer, rfl⟩ := receive_eq_some.mp hc
    rw [hbuffer]
    exact ⟨List.suffix_rfl, List.suffix_cons ..⟩
  | tick | ping | observe =>
    rw [noteAll_eq]
    exact ⟨List.suffix_rfl, List.suffix_rfl⟩
  | _ => exact ⟨List.suffix_rfl, List.suffix_rfl⟩

/-! ## The invariant -/

/-- What holds of a run after the steps `past` whose scans have found `ss`. The names in `rest` have not been
handed over. -/
structure Relaying (allowed : List String) (past : List SharedAction) (ss : List Sighting) (r : Run)
    (rest : List Announcement) : Prop where
  allows : r.config.allowedInterfaces = allowed
  pair : r.pair.Sound (ownSteps past)
  emissions : r.emissions ++ rest.map .handed = ss.flatMap (·.whole allowed)
  held : r.detector ≠ .ended → rest = r.detector.held
  resting : r.detector ≠ .ended → rest = [] → r.detector = .resting
  failed : ∀ e, .own (.scan (.error e)) ∈ past → rest = []
  stopped : r.detector = .ended → (∀ e, .own (.scan (.error e)) ∉ past) →
    r.isCancelled ∨ ∃ a ∈ rest.head?, (r.channel a).isOpen = false

/-- A closed channel stays closed. -/
theorem Later.channel (h : r.Later r') (a : Announcement) (hc : (r.channel a).isOpen = false) :
    (r'.channel a).isOpen = false := by
  refine Bool.eq_false_iff.mpr fun hopen => Bool.eq_false_iff.mp hc ?_
  cases a with
  | added => exact h.added hopen
  | removed => exact h.removed hopen

namespace Relaying

variable {allowed : List String} {ss : List Sighting}

theorem mem_unfinished_iff (h : Relaying allowed past ss r rest) :
    detectorTask ∈ r.group.unfinished ↔ r.detector ≠ .ended := by
  have hunfinished := h.pair.unfinished
  rw [Run.pair] at hunfinished
  rw [hunfinished]
  by_cases hd : r.detector = .ended <;> by_cases hl : r.loop = .ended <;>
    simp [hd, hl, detectorTask, loopTask]

theorem detectorResult?_eq_none_iff (h : Relaying allowed past ss r rest) :
    r.detectorResult? = none ↔ r.detector ≠ .ended := by
  rw [← h.mem_unfinished_iff, detectorResult?]
  split <;> simp [*]

theorem firstError_eq_some_iff (h : Relaying allowed past ss r rest) (e : RunError) :
    r.group.firstError = some e ↔ .own (.scan (.error e)) ∈ past := by
  refine (h.pair.fault e).trans ?_
  rw [ownSteps, List.mem_filterMap]
  constructor
  · rintro ⟨a, ha, hown⟩
    cases a with
    | own b =>
      cases hown
      exact ha
    | _ => contradiction
  · intro hmem
    exact ⟨_, hmem, rfl⟩

/-- While the detector is running, no scan has failed. -/
theorem not_mem_of_running (h : Relaying allowed past ss r rest) (hd : r.detector ≠ .ended) (e : RunError) :
    .own (.scan (.error e)) ∉ past := by
  intro hmem
  have hfirst := (h.firstError_eq_some_iff e).mpr hmem
  have hnone : r.group.firstError = none := h.pair.failed (decide_eq_true hd)
  rw [hnone] at hfirst
  contradiction

theorem detectorResult?_eq_error_iff (h : Relaying allowed past ss r rest) (e : RunError) :
    r.detectorResult? = some (.error e) ↔ .own (.scan (.error e)) ∈ past := by
  by_cases hd : r.detector = .ended
  · rw [← h.firstError_eq_some_iff, detectorResult?, if_neg fun hmem => h.mem_unfinished_iff.mp hmem hd]
    cases r.group.firstError with
    | none => exact iff_of_false nofun nofun
    | some e' => simp
  · rw [h.detectorResult?_eq_none_iff.mpr hd]
    exact iff_of_false nofun (h.not_mem_of_running hd e)

theorem detectorResult?_eq_ok_iff (h : Relaying allowed past ss r rest) :
    r.detectorResult? = some (.ok ()) ↔
      r.detector = .ended ∧ ∀ e, .own (.scan (.error e)) ∉ past := by
  have hnone := h.detectorResult?_eq_none_iff
  have herror := h.detectorResult?_eq_error_iff
  cases hr : r.detectorResult? with
  | none => exact iff_of_false nofun fun hd => hnone.mp hr hd.1
  | some o =>
    have hended : r.detector = .ended := by
      refine Classical.byContradiction fun hd => ?_
      rw [hnone.mpr hd] at hr
      contradiction
    cases o with
    | error e => exact iff_of_false nofun fun hd => hd.2 e ((herror e).mp hr)
    | ok =>
      refine iff_of_true rfl ⟨hended, fun e hmem => ?_⟩
      rw [(herror e).mpr hmem] at hr
      cases hr

/-! ### Steps -/

theorem pair_own (h : Relaying allowed past ss r rest) {b : Action} (hs : Step r b r') :
    r'.pair.Sound (ownSteps (past ++ [.own b])) := by
  rw [ownSteps, List.filterMap_append]
  exact h.pair.step hs.pair

theorem nil_of_resting (h : Relaying allowed past ss r rest) (hd : r.detector = .resting) : rest = [] :=
  (h.held (hd ▸ nofun)).trans (hd ▸ rfl)

theorem not_announcing_nil (h : Relaying allowed past ss r rest) : r.detector ≠ .announcing [] [] := by
  intro hd
  have hnil : rest = [] := (h.held (by rw [hd]; nofun)).trans (by rw [hd]; rfl)
  have hresting := h.resting (by rw [hd]; nofun) hnil
  rw [hd] at hresting
  contradiction

/-- The detector takes no part in the step. -/
theorem keep (h : Relaying allowed past ss r rest)
    (hpair : r'.pair.Sound (ownSteps (past ++ [a]))) (hlater : r.Later r')
    (hd : r'.detector = r.detector) (he : r'.emissions = r.emissions)
    (ha : ∀ e, a ≠ .own (.scan (.error e))) : Relaying allowed (past ++ [a]) ss r' rest where
  allows := by rw [hlater.config, h.allows]
  pair := hpair
  emissions := he ▸ h.emissions
  held := hd ▸ h.held
  resting := hd ▸ h.resting
  failed e hmem := h.failed e (mem_of_mem_concat hmem (ha e).symm)
  stopped hended hmem := by
    rw [hd] at hended
    rcases h.stopped hended fun e he => hmem e (List.mem_append_left _ he) with hc | ⟨b, hb, hc⟩
    · exact .inl (hlater.isCancelled hc)
    · exact .inr ⟨b, hb, hlater.channel b hc⟩

/-- The next name is handed over. -/
theorem announce (h : Relaying allowed past ss r rest)
    (hpair : r'.pair.Sound (ownSteps (past ++ [.own .announce])))
    (hlater : r.Later r') {b : Announcement} (hd : r.detector ≠ .ended)
    (hheld : r.detector.held = b :: (ns.map .added ++ ls.map .removed))
    (hd' : r'.detector = announcing ns ls) (he : r'.emissions = r.emissions ++ [.handed b]) :
    Relaying allowed (past ++ [.own .announce]) ss r' (ns.map .added ++ ls.map .removed) := by
  have hrest : rest = b :: (ns.map .added ++ ls.map .removed) := (h.held hd).trans hheld
  exact
    { allows := by rw [hlater.config, h.allows]
      pair := hpair
      emissions := by
        rw [← h.emissions, he, hrest, List.map_cons, List.append_assoc]
        rfl
      held := fun _ => by rw [hd', held_announcing]
      resting := fun _ hnil => by rw [hd', announcing_of_nil hnil]
      failed := fun e hmem => by
        have hnil := h.failed e (mem_of_mem_concat hmem nofun)
        rw [hrest] at hnil
        contradiction
      stopped := fun hended => by
        rw [hd'] at hended
        exact absurd hended announcing_ne_ended }

/-- The detector sees that it is to stop, and drops the names that it still has. -/
theorem stop (h : Relaying allowed past ss r rest)
    (hpair : r'.pair.Sound (ownSteps (past ++ [.own .stopDetector])))
    (hlater : r.Later r') (hstops : r.detectorStops) (hd' : r'.detector = .ended)
    (he : r'.emissions = r.emissions) : Relaying allowed (past ++ [.own .stopDetector]) ss r' rest where
  allows := by rw [hlater.config, h.allows]
  pair := hpair
  emissions := he ▸ h.emissions
  held hd := absurd hd' hd
  resting hd := absurd hd' hd
  failed e hmem := h.failed e (mem_of_mem_concat hmem nofun)
  stopped _ _ := by
    obtain ⟨hd, hc | ⟨b, hb, hc⟩⟩ := (detectorStops_iff h.not_announcing_nil).mp hstops
    · exact .inl (hlater.isCancelled hc)
    · exact .inr ⟨b, h.held hd ▸ hb, hlater.channel b hc⟩

/-- A resting detector scans, and has everything to hand over that the scan has found. -/
theorem scan (h : Relaying allowed past ss r rest) (seen : Sighting)
    (hpair : r'.pair.Sound (ownSteps (past ++ [.own (.scan (.ok interfaces))])))
    (hlater : r.Later r') (hd : r.detector = .resting)
    (hd' : r'.detector = announcing (InterfaceDiff.of seen.known seen.valid allowed).added
      (InterfaceDiff.of seen.known seen.valid allowed).removed)
    (he : r'.emissions = r.emissions ++ [.scan]) :
    Relaying allowed (past ++ [.own (.scan (.ok interfaces))]) (ss ++ [seen]) r'
      (seen.announcements allowed) where
  allows := by rw [hlater.config, h.allows]
  pair := hpair
  emissions := by
    have hemissions := h.emissions
    rw [h.nil_of_resting hd, List.map_nil, List.append_nil] at hemissions
    rw [he, hemissions, List.flatMap_append, List.flatMap_singleton, List.append_assoc]
    rfl
  held _ := by
    rw [hd', held_announcing]
    rfl
  resting _ hnil := by rw [hd', announcing_of_nil hnil]
  failed e hmem := absurd (mem_of_mem_concat hmem nofun) (h.not_mem_of_running (hd ▸ nofun) e)
  stopped hended := by
    rw [hd'] at hended
    exact absurd hended announcing_ne_ended

/-- A scan fails, and the detector ends. -/
theorem fail (h : Relaying allowed past ss r rest)
    (hpair : r'.pair.Sound (ownSteps (past ++ [.own (.scan (.error e))])))
    (hlater : r.Later r') (hd : r.detector = .resting) (hd' : r'.detector = .ended)
    (he : r'.emissions = r.emissions) : Relaying allowed (past ++ [.own (.scan (.error e))]) ss r' rest where
  allows := by rw [hlater.config, h.allows]
  pair := hpair
  emissions := he ▸ h.emissions
  held hd := absurd hd' hd
  resting hd := absurd hd' hd
  failed _ _ := h.nil_of_resting hd
  stopped _ hmem := absurd (List.mem_append_right _ (List.mem_singleton_self _)) (hmem e)

theorem own (h : Relaying allowed past ss r rest) {b : Action} (hs : Step r b r') : ∃ rest',
    Relaying allowed (past ++ [.own b]) (ss ++ ((SharedAction.own b).sighting? r).toList) r' rest' := by
  have hpair := h.pair_own hs
  have hlater := hs.later
  cases hs with
  | scanFailed hd => exact ⟨rest, (List.append_nil ss).symm ▸ h.fail hpair hlater hd rfl rfl⟩
  | @scanned interfaces diff hd _ hdiff =>
    rw [h.allows] at hdiff
    cases hdiff
    exact ⟨_, h.scan ⟨_, _⟩ hpair hlater hd rfl (trace_note r (.scanned _ _ _) Note.emission?)⟩
  | @announceAdded n ns ls c hd =>
    have hheld : r.detector.held = .added n :: (ns.map .added ++ ls.map .removed) := by
      rw [hd]
      rfl
    have he := trace_note r (.announcedAdded n) Note.emission?
    exact ⟨_, (List.append_nil ss).symm ▸ h.announce hpair hlater (hd ▸ nofun) hheld rfl he⟩
  | @announceRemoved n ls c hd =>
    have hheld : r.detector.held = .removed n :: (([] : List String).map .added ++ ls.map .removed) := by
      rw [hd]
      rfl
    have he := trace_note r (.announcedRemoved n) Note.emission?
    exact ⟨_, (List.append_nil ss).symm ▸ h.announce hpair hlater (hd ▸ nofun) hheld rfl he⟩
  | stopDetector hstops => exact ⟨rest, (List.append_nil ss).symm ▸ h.stop hpair hlater hstops rfl rfl⟩
  | tick | ping | observe =>
    refine ⟨rest, (List.append_nil ss).symm ▸ h.keep hpair hlater ?_ ?_ nofun⟩
    · rw [noteAll_eq]
      rfl
    · exact emissions_noteAll _ (by simp)
  | _ => exact ⟨rest, (List.append_nil ss).symm ▸ h.keep hpair hlater rfl rfl nofun⟩

theorem start (config : DiscoveryConfig) (addedCapacity removedCapacity eventsCapacity : Nat) :
    Relaying config.allowedInterfaces [] []
      (startShared config addedCapacity removedCapacity eventsCapacity) [] where
  allows := rfl
  pair := (Ending.start config eventsCapacity).pair
  emissions := rfl
  held _ := rfl
  resting _ _ := rfl
  failed := nofun
  stopped := nofun

theorem step (h : Relaying allowed past ss r rest) (hs : r.sharedStep a = some r') :
    ∃ rest', Relaying allowed (past ++ [a]) (ss ++ (a.sighting? r).toList) r' rest' := by
  rcases sharedStep_cases hs with ⟨b, rfl, hb⟩ | ⟨ha, haside⟩
  · exact h.own hb
  · have hpair : r.pair.Sound (ownSteps (past ++ [a])) := by
      rw [ownSteps, List.filterMap_append, List.filterMap_cons_none ha, List.filterMap_nil, List.append_nil]
      exact h.pair
    have hne : ∀ e, a ≠ .own (.scan (.error e)) := by
      rintro e rfl
      contradiction
    have hsighting := SharedAction.sighting?_of_own? ha r
    have hlater := haside.later
    cases haside with
    | mk =>
      rw [hsighting]
      exact ⟨rest, (List.append_nil ss).symm ▸ h.keep hpair hlater rfl rfl hne⟩

end Relaying

/-- After any steps the names that were not handed over belong to the latest scan. -/
theorem relaying_of_steps {config : DiscoveryConfig}
    (h : (startShared config addedCapacity removedCapacity eventsCapacity).sharedSteps actions = some r) :
    ∃ rest, Relaying config.allowedInterfaces actions
      ((startShared config addedCapacity removedCapacity eventsCapacity).sightings actions) r rest := by
  generalize hstart : startShared config addedCapacity removedCapacity eventsCapacity = s at h ⊢
  refine sharedSteps_induction
    (P := fun past r => ∃ rest, Relaying config.allowedInterfaces past (s.sightings past) r rest) ?_ ?_ h
  · intro past r a r' hpast hp hs
    obtain ⟨rest, hp⟩ := hp
    rw [sightings_concat hpast]
    exact hp.step hs
  · rw [← hstart]
    exact ⟨[], .start ..⟩

/-! ## After the end -/

/-- The event loop leaves nothing in the group when it ends. -/
theorem finish_loopTask (g : TaskGroup) (tokens : TokenForest) :
    (g.finish tokens loopTask (.ok ())).1.firstError = g.firstError ∧
      (detectorTask ∈ (g.finish tokens loopTask (.ok ())).1.unfinished ↔
        detectorTask ∈ g.unfinished) := by
  rw [TaskGroup.finish]
  split
  · exact ⟨rfl, List.mem_erase_of_ne (by decide)⟩
  · exact ⟨rfl, .rfl⟩

theorem detectorResult?_endLoop (r : Run) : r.endLoop.detectorResult? = r.detectorResult? := by
  obtain ⟨hfirst, hmem⟩ := finish_loopTask r.group r.tokens
  have hgroup : r.endLoop.group = (r.group.finish r.tokens loopTask (.ok ())).1 := rfl
  rw [detectorResult?, detectorResult?, hgroup, hfirst]
  exact if_congr hmem rfl rfl

/-- A detector that has ended scans no more and hands nothing over. -/
structure Resigned (r r' : Run) : Prop where
  detector : r'.detector = .ended
  emissions : r'.emissions = r.emissions
  result : r'.detectorResult? = r.detectorResult?

theorem Step.resigned (h : Step r b r') (hd : r.detector = .ended) :
    (SharedAction.own b).sighting? r = none ∧ r.Resigned r' := by
  cases h with
  | scanFailed hd' | scanned hd' | announceAdded hd' | announceRemoved hd' =>
    rw [hd] at hd'
    contradiction
  | stopDetector hstops => exact absurd hd (ne_ended_of_detectorStops hstops)
  | stopResting | refuse => exact ⟨rfl, hd, rfl, detectorResult?_endLoop _⟩
  | tick | ping | observe =>
    refine ⟨rfl, ?_, emissions_noteAll _ (by simp), ?_⟩
    · rw [noteAll_eq]
      exact hd
    · rw [noteAll_eq]
      rfl
  | _ => exact ⟨rfl, hd, rfl, rfl⟩

theorem resigned_of_sharedStep (hd : r.detector = .ended) (hs : r.sharedStep a = some r') :
    a.sighting? r = none ∧ r.Resigned r' := by
  rcases sharedStep_cases hs with ⟨b, rfl, hb⟩ | ⟨ha, haside⟩
  · exact hb.resigned hd
  · cases haside with
    | mk => exact ⟨SharedAction.sighting?_of_own? ha r, hd, rfl, rfl⟩

theorem resigned_of_sharedSteps (hd : r.detector = .ended) (hs : r.sharedSteps later = some r') :
    r.sightings later = [] ∧ r.Resigned r' := by
  induction later generalizing r with
  | nil =>
    cases hs
    exact ⟨rfl, hd, rfl, rfl⟩
  | cons a later ih =>
    obtain ⟨t, ht, hs⟩ := Option.bind_eq_some_iff.mp hs
    obtain ⟨hsighting, hresigned⟩ := resigned_of_sharedStep hd ht
    obtain ⟨hsightings, hlater⟩ := ih hresigned.detector hs
    refine ⟨?_, hlater.detector, hlater.emissions.trans hresigned.emissions,
      hlater.result.trans hresigned.result⟩
    rw [sightings, hsighting, ht]
    exact hsightings

/-! ## The main statement -/

/-- The scans find `ss`, and the names in `rest` of the last one have not been handed over. -/
structure Emits (allowed : List String) (actions : List SharedAction) (ss : List Sighting) (r : Run)
    (rest : List Announcement) : Prop where
  unused : ss = [] → r.emissions = [] ∧ rest = []
  /-- Every scan before the last one is followed by all of its names, the last one by the first of them. -/
  last : ∀ earlier s, ss = earlier ++ [s] → ∃ part, part ++ rest = s.announcements allowed ∧
    r.emissions = earlier.flatMap (·.whole allowed) ++ .scan :: part.map .handed
  ascending : ∀ s ∈ ss, (InterfaceDiff.of s.known s.valid allowed).added.Pairwise (· < ·) ∧
    (InterfaceDiff.of s.known s.valid allowed).removed.Pairwise (· < ·)
  /-- The detector scans when it is time and nothing is left of the scan before. -/
  scan_iff : ∀ source, (r.step (.scan source)).isSome ↔
    r.detectorResult? = none ∧ rest = [] ∧ r.scans.isDue r.now
  /-- The next name is handed over when there is somebody to take it and room for it … -/
  announce_iff : (r.step .announce).isSome ↔ r.detectorResult? = none ∧
    ∃ a ∈ rest.head?, (r.channel a).isOpen ∧ (r.channel a).hasRoom 0
  /-- … and it is put on its channel then. No other step of the run puts a name on a channel. -/
  announced : ∀ r', r.step .announce = some r' →
    ∃ a, rest.head? = some a ∧ r'.emissions = r.emissions ++ [.handed a] ∧ r.Delivers r' a
  others : ∀ b r', b ≠ .announce → r.step b = some r' →
    r'.added.buffer <:+ r.added.buffer ∧ r'.removed.buffer <:+ r.removed.buffer
  /-- The detector can stop when it is cancelled or nobody takes the next name, and it ends well. -/
  stop_iff : (r.step .stopDetector).isSome ↔ r.detectorResult? = none ∧
    (r.isCancelled ∨ ∃ a ∈ rest.head?, (r.channel a).isOpen = false)
  stopped : ∀ r', r.step .stopDetector = some r' →
    r'.emissions = r.emissions ∧ r'.detectorResult? = some (.ok ())
  well : r.detectorResult? = some (.ok ()) →
    r.isCancelled ∨ ∃ a ∈ rest.head?, (r.channel a).isOpen = false
  /-- A scan that fails hands nothing over, and nothing else makes the detector fail. -/
  failed : ∀ e r', r.step (.scan (.error e)) = some r' →
    r'.emissions = r.emissions ∧ r'.detectorResult? = some (.error e)
  error_iff : ∀ e, r.detectorResult? = some (.error e) ↔ .own (.scan (.error e)) ∈ actions
  error : ∀ e, r.detectorResult? = some (.error e) → rest = []
  /-- When it has ended, it neither scans nor hands over any more. -/
  resigned : ∀ o later r', r.detectorResult? = some o → r.sharedSteps later = some r' →
    r.sightings later = [] ∧ r'.emissions = r.emissions ∧ r'.detectorResult? = some o

namespace Relaying

variable {allowed : List String} {ss earlier : List Sighting}

theorem last (h : Relaying allowed past (earlier ++ [seen]) r rest) : ∃ part,
    part ++ rest = seen.announcements allowed ∧
      r.emissions = earlier.flatMap (·.whole allowed) ++ .scan :: part.map .handed := by
  have hinj : ∀ a b, Emission.handed a = .handed b → a = b := fun _ _ => Emission.handed.inj
  have hemissions := h.emissions
  rw [List.flatMap_append, List.flatMap_singleton, Sighting.whole, List.append_cons,
    List.append_eq_append_iff] at hemissions
  rcases hemissions with ⟨mid, hscan, hmid⟩ | ⟨mid, hmid, hnames⟩
  · rcases List.eq_nil_or_concat' mid with rfl | ⟨mid, e, rfl⟩
    · rw [List.append_nil] at hscan
      exact ⟨[], (List.map_inj_right hinj).mp hmid, hscan.symm⟩
    · -- the last scan would be among the names that are left
      rw [← List.append_assoc] at hscan
      have hlast := List.append_inj_right' hscan rfl
      have hmem : e ∈ rest.map .handed := by simp [hmid]
      rw [← List.singleton_inj.mp hlast, List.mem_map] at hmem
      obtain ⟨a, -, ha⟩ := hmem
      contradiction
  · obtain ⟨part, names, hparts, rfl, hrest⟩ := List.map_eq_append_iff.mp hnames
    rw [(List.map_inj_right hinj).mp hrest] at hparts
    refine ⟨part, hparts.symm, ?_⟩
    rw [hmid, List.append_assoc]
    rfl

theorem announced (h : Relaying allowed past ss r rest) (hs : Step r .announce r') :
    ∃ a, rest.head? = some a ∧ r'.emissions = r.emissions ++ [.handed a] ∧ r.Delivers r' a := by
  cases hs with
  | @announceAdded n ns ls c hd hc =>
    obtain ⟨-, rfl⟩ := push?_eq_some.mp hc
    have hrest := h.held (hd ▸ nofun)
    rw [hd] at hrest
    refine ⟨.added n, ?_, trace_note r (.announcedAdded n) Note.emission?, rfl, rfl⟩
    rw [hrest]
    rfl
  | @announceRemoved n ls c hd hc =>
    obtain ⟨-, rfl⟩ := push?_eq_some.mp hc
    have hrest := h.held (hd ▸ nofun)
    rw [hd] at hrest
    refine ⟨.removed n, ?_, trace_note r (.announcedRemoved n) Note.emission?, rfl, rfl⟩
    rw [hrest]
    rfl

theorem scan_iff (h : Relaying allowed past ss r rest) (source : Except RunError (List NetInterface)) :
    (r.step (.scan source)).isSome ↔ r.detectorResult? = none ∧ rest = [] ∧ r.scans.isDue r.now := by
  have hresting : r.detector = .resting ↔ r.detectorResult? = none ∧ rest = [] := by
    rw [h.detectorResult?_eq_none_iff]
    constructor
    · intro hd
      exact ⟨hd ▸ nofun, h.nil_of_resting hd⟩
    · intro hrest
      exact h.resting hrest.1 hrest.2
  rw [← and_assoc, ← hresting, Run.step, isSome_scan_iff]

theorem announce_iff (h : Relaying allowed past ss r rest) :
    (r.step .announce).isSome ↔ r.detectorResult? = none ∧
      ∃ a ∈ rest.head?, (r.channel a).isOpen ∧ (r.channel a).hasRoom 0 := by
  rw [h.detectorResult?_eq_none_iff, Run.step, isSome_announce_iff]
  by_cases hd : r.detector = .ended
  · rw [hd]
    exact iff_of_false (by rintro ⟨_, hnil, -⟩; contradiction) (fun hend => hend.1 rfl)
  · rw [and_iff_right hd, h.held hd]

theorem stop_iff (h : Relaying allowed past ss r rest) :
    (r.step .stopDetector).isSome ↔ r.detectorResult? = none ∧
      (r.isCancelled ∨ ∃ a ∈ rest.head?, (r.channel a).isOpen = false) := by
  rw [h.detectorResult?_eq_none_iff, Run.step, Run.stopDetector, Option.isSome_ite,
    detectorStops_iff h.not_announcing_nil]
  refine and_congr_right fun hd => ?_
  rw [h.held hd]

theorem stopDetector (h : Relaying allowed past ss r rest) (hs : Step r .stopDetector r') :
    r'.emissions = r.emissions ∧ r'.detectorResult? = some (.ok ()) := by
  obtain ⟨rest', h'⟩ := h.own hs
  cases hs with
  | stopDetector hstops =>
    refine ⟨rfl, h'.detectorResult?_eq_ok_iff.mpr ⟨rfl, ?_⟩⟩
    intro e hmem
    exact h.not_mem_of_running (ne_ended_of_detectorStops hstops) e (mem_of_mem_concat hmem nofun)

theorem scanFailed (h : Relaying allowed past ss r rest) (hs : Step r (.scan (.error e)) r') :
    r'.emissions = r.emissions ∧ r'.detectorResult? = some (.error e) := by
  obtain ⟨rest', h'⟩ := h.own hs
  have hmem : .own (.scan (.error e)) ∈ past ++ [.own (.scan (.error e))] :=
    List.mem_append_right _ (List.mem_singleton_self _)
  cases hs with
  | scanFailed => exact ⟨rfl, (h'.detectorResult?_eq_error_iff e).mpr hmem⟩

end Relaying

/-- Whoever uses the manager, takes the names or goes away, what is handed over for a scan are the new and
then the lost names of the difference that it found, and all of them before the next scan. Only a stop cuts
this short, and only a failed scan is an error. -/
theorem emits_of_steps {config : DiscoveryConfig} {addedCapacity removedCapacity eventsCapacity : Nat}
    {actions : List SharedAction} {r : Run}
    (h : (startShared config addedCapacity removedCapacity eventsCapacity).sharedSteps actions = some r) :
    ∃ rest, r.Emits config.allowedInterfaces actions
      ((startShared config addedCapacity removedCapacity eventsCapacity).sightings actions) rest := by
  obtain ⟨rest, hrelaying⟩ := relaying_of_steps h
  generalize (startShared config addedCapacity removedCapacity eventsCapacity).sightings actions = ss at *
  refine ⟨rest, ?_⟩
  exact
    { unused := fun hss => by
        have hemissions := hrelaying.emissions
        rw [hss, List.flatMap_nil, List.append_eq_nil_iff, List.map_eq_nil_iff] at hemissions
        exact hemissions
      last := fun earlier s hss => (hss ▸ hrelaying).last
      ascending := fun s _ => ⟨pairwise_nameSet _, pairwise_nameSet _⟩
      scan_iff := hrelaying.scan_iff
      announce_iff := hrelaying.announce_iff
      announced := fun r' hs => hrelaying.announced (.of_step hs)
      others := fun b r' hb hs => (Step.of_step hs).buffers hb
      stop_iff := hrelaying.stop_iff
      stopped := fun r' hs => hrelaying.stopDetector (.of_step hs)
      well := fun hr => by
        obtain ⟨hended, hfailed⟩ := hrelaying.detectorResult?_eq_ok_iff.mp hr
        exact hrelaying.stopped hended hfailed
      failed := fun e r' hs => hrelaying.scanFailed (.of_step hs)
      error_iff := hrelaying.detectorResult?_eq_error_iff
      error := fun e hr => hrelaying.failed e ((hrelaying.detectorResult?_eq_error_iff e).mp hr)
      resigned := fun o later r' hr hs => by
        have hended : r.detector = .ended := by
          refine Classical.byContradiction fun hd => ?_
          rw [hrelaying.detectorResult?_eq_none_iff.mpr hd] at hr
          contradiction
        obtain ⟨hsightings, hresigned⟩ := resigned_of_sharedSteps hended hs
        exact ⟨hsightings, hresigned.emissions, hresigned.result.trans hr⟩ }

/-- Somebody else has started a client. Two new interfaces are handed over, and nobody takes the lost one any
more. -/
def curtailed : List SharedAction :=
  [.manage (.start ⟨[0]⟩ "wlan0" (.ok ())), .own (.scan (.ok [.usable "eth1", .usable "eth0"])),
    .own .announce, .takeAdded, .own .announce, .dropRemoved, .own .stopDetector]

theorem emits_curtailed : ∃ r rest, (startShared .standard 1 1 1).sharedSteps curtailed = some r ∧
    r.detector = .ended ∧ r.emissions = [.scan, .handed (.added "eth0"), .handed (.added "eth1")] ∧
      r.Emits [] curtailed ((startShared .standard 1 1 1).sightings curtailed) rest := by
  have hany : ((startShared .standard 1 1 1).sharedSteps curtailed).any
      (fun r => r.detector = .ended ∧
        r.emissions = [.scan, .handed (.added "eth0"), .handed (.added "eth1")]) := by
    decide +kernel
  obtain ⟨r, hr, hmatch⟩ := (Option.any_eq_true _ _).mp hany
  obtain ⟨hended, hemissions⟩ := of_decide_eq_true hmatch
  obtain ⟨rest, hemits⟩ := emits_of_steps hr
  exact ⟨r, rest, hr, hended, hemissions, hemits⟩

end Run
end Discovery
end AmpLink
