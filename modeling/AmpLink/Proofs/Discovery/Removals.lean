import AmpLink.Proofs.Discovery.Delivery
import AmpLink.Proofs.Discovery.Ending
import AmpLink.Proofs.Discovery.Interfaces
import AmpLink.Proofs.Manager.Tokens

/-!
# Lost names that arrive late

What travels from the detector to the event loop is a name, and the client that it stops is the one that
is tracked when the name arrives. If the loop is held up, the detector scans again while a name waits, the
client of that name can end in between, and the name then stops its successor
(`Run.not_sparesYounger_standstill`). A name that is taken before the next scan does no such harm, if no new name
was waiting at its own: `Run.inTurn_of_steps`.

`Handover` is the part of a run that the names of the scans concern. What happens is dated by the number of
scans before it, so the names of the `j`-th scan, counted from zero, are announced at the date `j + 1`.
-/

namespace AmpLink.Discovery

/-- The difference that a scan has found. -/
def Note.diff? : Note → Option InterfaceDiff
  | .scanned _ _ d => some d
  | _ => none

/-- What `f` picks out of a history, the latest first, each with the number of scans before it. -/
def datedIn (f : Note → Option α) : List (Nat × Note) → List (Nat × α)
  | [] => []
  | n :: past =>
    ((f n.2).map ((past.filterMap fun m => m.2.diff?).length, ·)).toList ++ datedIn f past

theorem getElem?_append_of_eq_some {l m : List α} {i : Nat} (h : l[i]? = some a) :
    (l ++ m)[i]? = some a := by
  rw [List.getElem?_append_left (List.getElem?_eq_some_iff.mp h).1, h]

namespace Run

/-- What `f` picks out of the history, in order, each with the number of scans before it. -/
def dated (r : Run) (f : Note → Option α) : List (Nat × α) := (datedIn f r.history).reverse

/-- What the scans have found, in order. -/
def diffs (r : Run) : List InterfaceDiff := r.trace Note.diff?

/-- The names of lost interfaces that were announced. -/
def origins (r : Run) : List (Nat × String) := r.dated fun | .announcedRemoved n => some n | _ => none

/-- The clients that were started. -/
def births (r : Run) : List (Nat × Nat) := r.dated fun | .started k => some k | _ => none

/-- The names of lost interfaces that the loop took, and the clients that it told to stop for them. -/
def stops (r : Run) : List (Nat × String × Option Nat) :=
  r.dated fun | .stopped n k => some (n, k) | _ => none

theorem dated_note (r : Run) (n : Note) (f : Note → Option α) :
    (r.note n).dated f = r.dated f ++ ((f n).map (r.diffs.length, ·)).toList := by
  rw [diffs, trace, List.length_reverse]
  cases h : f n <;> simp [dated, note, datedIn, h]

theorem dated_noteAll (r : Run) (f : Note → Option α) (h : ∀ n ∈ ns, f n = none) :
    (r.noteAll ns).dated f = r.dated f := by
  induction ns generalizing r with
  | nil => rfl
  | cons n ns ih =>
    obtain ⟨hn, hns⟩ := List.forall_mem_cons.mp h
    rw [noteAll, List.foldl_cons]
    refine (ih (r.note n) hns).trans ?_
    rw [dated_note, hn, Option.map_none, Option.toList_none, List.append_nil]

end Run

/-- What becomes of the names of the scans. -/
structure Handover where
  diffs : List InterfaceDiff
  /-- The interfaces of the clients, in the order of their starts. -/
  clients : List String
  /-- New names that the loop has not taken. -/
  added : List String
  /-- Lost names that the detector still has to announce. -/
  lost : List String
  /-- Lost names that were announced and not taken. -/
  removed : List String
  /-- There is somebody to take them. -/
  isOpen : Bool
  origins : List (Nat × String)
  births : List (Nat × Nat)
  stops : List (Nat × String × Option Nat)

namespace Handover

/-- What the latest scan has found. -/
def latest (h : Handover) : InterfaceDiff := h.diffs.getLast?.getD ⟨[], []⟩

/-- How a handover can go on. -/
inductive Step (h : Handover) : Handover → Prop
  /-- Names may be dropped. -/
  | drop : ns ⊆ h.added → ls ⊆ h.lost → Step h { h with added := ns, lost := ls }
  | close : ns ⊆ h.added → Step h { h with added := ns, removed := [], isOpen := false }
  | scan : (∀ n ∈ d.added, n ∉ d.removed) →
    Step h { h with diffs := h.diffs ++ [d], added := d.added, lost := d.removed }
  | announce : h.lost = n :: ls → h.isOpen →
    Step h
      { h with
        lost := ls, removed := h.removed ++ [n], origins := h.origins ++ [(h.diffs.length, n)] }
  | start : h.added = n :: ns →
    Step h
      { h with
        added := ns, clients := h.clients ++ [n]
        births := h.births ++ [(h.diffs.length, h.clients.length)] }
  | stop : h.removed = n :: rs → (∀ k : Nat, k? = some k → h.clients[k]? = some n) →
    Step h { h with removed := rs, stops := h.stops ++ [(h.diffs.length, n, k?)] }

theorem Step.stay {h : Handover} : Step h h := .drop (List.Subset.refl _) (List.Subset.refl _)

theorem Step.of_clients {h : Handover} (hc : cs = h.clients) : Step h { h with clients := cs } :=
  hc ▸ .stay

/-! ## The invariant -/

/-- The `i`-th name that was taken, at `date`, is the `i`-th one that was announced. If no scan came in
between, it stopped no client that was started after the scan that it comes from. -/
structure InTurn (h : Handover) (i date : Nat) (n : String) (k? : Option Nat) : Prop where
  origin : ∃ s, h.origins[i]? = some (s, n) ∧ s ≤ date
  client : ∀ k, k? = some k → k < h.clients.length
  fresh : ∀ k b, k? = some k → h.origins[i]? = some (date, n) → (b, k) ∈ h.births → b < date

structure Sound (h : Handover) : Prop where
  fifo : h.stops.map (·.2.1) ++ h.removed <+: h.origins.map (·.2)
  isOpen : h.isOpen → h.stops.map (·.2.1) ++ h.removed = h.origins.map (·.2)
  disjoint : ∀ n ∈ h.latest.added, n ∉ h.latest.removed
  added : h.added ⊆ h.latest.added
  lost : h.lost ⊆ h.latest.removed
  origins : ∀ s n, (s, n) ∈ h.origins → ∃ j d, s = j + 1 ∧ h.diffs[j]? = some d ∧ n ∈ d.removed
  births : h.births.map (·.2) = List.range h.clients.length
  date : ∀ b k, (b, k) ∈ h.births → b ≤ h.diffs.length
  started : ∀ k n, (h.diffs.length, k) ∈ h.births → h.clients[k]? = some n → n ∈ h.latest.added
  stops : ∀ (i : Nat) date n k?, h.stops[i]? = some (date, n, k?) → h.InTurn i date n k?

namespace Sound

variable {h h' : Handover} {ns ls rs : List String} {n : String} {d : InterfaceDiff}

theorem lt_of_mem_births (hs : h.Sound) (hb : (b, k) ∈ h.births) : k < h.clients.length := by
  have hmem := List.mem_map_of_mem (f := (·.2)) hb
  rw [hs.births] at hmem
  exact List.mem_range.mp hmem

theorem latest_eq (hd : h.diffs[j]? = some d) (hj : h.diffs.length = j + 1) : h.latest = d := by
  rw [latest, List.getLast?_eq_getElem?, hj, Nat.add_sub_cancel, hd]
  rfl

theorem exists_latest (hn : n ∈ h.latest.removed) :
    ∃ j, h.diffs.length = j + 1 ∧ h.diffs[j]? = some h.latest := by
  cases hlast : h.diffs.getLast? with
  | none =>
    rw [latest, hlast] at hn
    contradiction
  | some d =>
    obtain ⟨ds, hds⟩ := List.getLast?_eq_some_iff.mp hlast
    refine ⟨ds.length, ?_, ?_⟩
    · rw [hds, List.length_append]
      rfl
    · rw [latest, hlast, hds, List.getElem?_concat_length]
      rfl

theorem scan (hs : h.Sound) (hd : ∀ n ∈ d.added, n ∉ d.removed) :
    Sound { h with diffs := h.diffs ++ [d], added := d.added, lost := d.removed } := by
  have hlatest : ({ h with diffs := h.diffs ++ [d], added := d.added, lost := d.removed } :
      Handover).latest = d := by simp [latest]
  have hlength : (h.diffs ++ [d]).length = h.diffs.length + 1 := List.length_append
  refine
    { hs with
      disjoint := ?_
      added := ?_
      lost := ?_
      origins := fun s n hmem => ?_
      date := fun b k hb => ?_
      started := fun k n hb => ?_
      stops := fun i date n k? hi => { hs.stops i date n k? hi with } }
  · rw [hlatest]
    exact hd
  · rw [hlatest]
    exact List.Subset.refl _
  · rw [hlatest]
    exact List.Subset.refl _
  · obtain ⟨j, d', hj, hdiff, hn⟩ := hs.origins s n hmem
    exact ⟨j, d', hj, getElem?_append_of_eq_some hdiff, hn⟩
  · rw [hlength]
    exact Nat.le_succ_of_le (hs.date b k hb)
  · have hle := hs.date _ k hb
    rw [hlength] at hle
    exact absurd hle (Nat.not_succ_le_self _)

theorem announce (hs : h.Sound) (hl : h.lost = n :: ls) (ho : h.isOpen) :
    Sound
      { h with
        lost := ls, removed := h.removed ++ [n], origins := h.origins ++ [(h.diffs.length, n)] } := by
  have hn : n ∈ h.latest.removed := hs.lost (by simp [hl])
  have heq : h.stops.map (·.2.1) ++ (h.removed ++ [n]) =
      (h.origins ++ [(h.diffs.length, n)]).map (·.2) := by
    rw [← List.append_assoc, hs.isOpen ho, List.map_append]
    rfl
  refine
    { hs with
      fifo := heq ▸ List.prefix_rfl
      isOpen := fun _ => heq
      lost := fun m hm => hs.lost (by simp [hl, hm])
      origins := fun s m hmem => ?_
      stops := fun i date m k? hi => ?_ }
  · rcases List.mem_append.mp hmem with hmem | hmem
    · exact hs.origins s m hmem
    · obtain ⟨rfl, rfl⟩ := Prod.mk.inj (List.mem_singleton.mp hmem)
      obtain ⟨j, hj, hdiff⟩ := exists_latest hn
      exact ⟨j, h.latest, hj, hdiff, hn⟩
  · obtain ⟨⟨s, hs', hle⟩, hclient, hfresh⟩ := hs.stops i date m k? hi
    refine ⟨⟨s, getElem?_append_of_eq_some hs', hle⟩, hclient, fun k b hk horigin => ?_⟩
    rw [getElem?_append_of_eq_some hs'] at horigin
    exact hfresh k b hk (hs'.trans horigin)

theorem start (hs : h.Sound) (ha : h.added = n :: ns) :
    Sound
      { h with
        added := ns, clients := h.clients ++ [n]
        births := h.births ++ [(h.diffs.length, h.clients.length)] } := by
  have hn : n ∈ h.latest.added := hs.added (by simp [ha])
  have hlength : (h.clients ++ [n]).length = h.clients.length + 1 := List.length_append
  refine
    { hs with
      added := fun m hm => hs.added (by simp [ha, hm])
      births := ?_
      date := fun b k hb => ?_
      started := fun k m hb hm => ?_
      stops := fun i date m k? hi => ?_ }
  · rw [List.map_append, hs.births, hlength, List.range_succ]
    rfl
  · rcases List.mem_append.mp hb with hb | hb
    · exact hs.date b k hb
    · exact Nat.le_of_eq (Prod.mk.inj (List.mem_singleton.mp hb)).1
  · rcases List.mem_append.mp hb with hb | hb
    · rw [List.getElem?_append_left (hs.lt_of_mem_births hb)] at hm
      exact hs.started k m hb hm
    · rw [(Prod.mk.inj (List.mem_singleton.mp hb)).2, List.getElem?_concat_length,
        Option.some.injEq] at hm
      exact hm ▸ hn
  · obtain ⟨horigin, hclient, hfresh⟩ := hs.stops i date m k? hi
    refine ⟨horigin, fun k hk => hlength ▸ Nat.lt_succ_of_lt (hclient k hk), fun k b hk ho hb => ?_⟩
    rcases List.mem_append.mp hb with hb | hb
    · exact hfresh k b hk ho hb
    · have hlt := hclient k hk
      rw [(Prod.mk.inj (List.mem_singleton.mp hb)).2] at hlt
      exact absurd hlt (Nat.lt_irrefl _)

/-- A name that is taken was announced, and if that was after the latest scan then the client that it stops
is older. -/
theorem inTurn_next (hs : h.Sound) (hr : h.removed = n :: rs)
    (hk : ∀ k : Nat, k? = some k → h.clients[k]? = some n) :
    h.InTurn h.stops.length h.diffs.length n k? := by
  have hget : (h.origins.map (·.2))[h.stops.length]? = some n := by
    obtain ⟨rest, hrest⟩ := hs.fifo
    rw [← hrest, hr]
    simp
  rw [List.getElem?_map, Option.map_eq_some_iff] at hget
  obtain ⟨⟨s, m⟩, horigin, rfl⟩ := hget
  obtain ⟨j, d, rfl, hdiff, hremoved⟩ := hs.origins s m (List.mem_of_getElem? horigin)
  have hj := (List.getElem?_eq_some_iff.mp hdiff).1
  refine ⟨⟨j + 1, horigin, hj⟩, fun k hk' => (List.getElem?_eq_some_iff.mp (hk k hk')).1, ?_⟩
  intro k b hk' ho hb
  have hle := hs.date b k hb
  refine Nat.lt_of_le_of_ne hle fun hb' => ?_
  -- both the start and the loss would come from the latest scan, whose names are disjoint
  rw [ho, Option.some.injEq, Prod.mk.injEq] at horigin
  refine hs.disjoint m (hs.started k m (hb' ▸ hb) (hk k hk')) ?_
  rwa [latest_eq hdiff horigin.1]

theorem stop (hs : h.Sound) (hr : h.removed = n :: rs)
    (hk : ∀ k : Nat, k? = some k → h.clients[k]? = some n) :
    Sound { h with removed := rs, stops := h.stops ++ [(h.diffs.length, n, k?)] } := by
  have hmap : (h.stops ++ [(h.diffs.length, n, k?)]).map (·.2.1) ++ rs =
      h.stops.map (·.2.1) ++ h.removed := by
    rw [hr, List.map_append, List.append_assoc]
    rfl
  refine
    { hs with
      fifo := hmap ▸ hs.fifo
      isOpen := fun ho => hmap.trans (hs.isOpen ho)
      stops := fun i date m j? hi => ?_ }
  rcases Nat.lt_trichotomy i h.stops.length with hlt | rfl | hlt
  · rw [List.getElem?_append_left hlt] at hi
    exact { hs.stops i date m j? hi with }
  · rw [List.getElem?_concat_length, Option.some.injEq, Prod.mk.injEq, Prod.mk.injEq] at hi
    obtain ⟨rfl, rfl, rfl⟩ := hi
    exact { hs.inTurn_next hr hk with }
  · rw [List.getElem?_eq_none (by simp; omega)] at hi
    contradiction

theorem step (hs : h.Sound) (hstep : h.Step h') : h'.Sound := by
  cases hstep with
  | drop hns hls =>
    exact
      { hs with
        added := List.Subset.trans hns hs.added
        lost := List.Subset.trans hls hs.lost
        stops := fun i date n k? hi => { hs.stops i date n k? hi with } }
  | close hns =>
    refine
      { hs with
        fifo := ?_
        isOpen := nofun
        added := List.Subset.trans hns hs.added
        stops := fun i date n k? hi => { hs.stops i date n k? hi with } }
    rw [List.append_nil]
    exact (List.prefix_append ..).trans hs.fifo
  | scan hd => exact hs.scan hd
  | announce hl ho => exact hs.announce hl ho
  | start ha => exact hs.start ha
  | stop hr hk => exact hs.stop hr hk

end Sound
end Handover

/-! ## From runs to handovers -/

namespace Run

def handover (r : Run) : Handover where
  diffs := r.diffs
  clients := r.manager.clients.map (·.interface)
  added := r.added.buffer ++ r.detector.added
  lost := r.detector.removed
  removed := r.removed.buffer
  isOpen := r.removed.isOpen
  origins := r.origins
  births := r.births
  stops := r.stops

theorem handover_noteAll (r : Run) (h : ∀ n ∈ ns, n matches .produced _ | .pinged _) :
    (r.noteAll ns).handover = r.handover := by
  have hdated {α : Type} (f : Note → Option α) (hproduced : ∀ e, f (.produced e) = none)
      (hpinged : ∀ k, f (.pinged k) = none) : (r.noteAll ns).dated f = r.dated f :=
    dated_noteAll r f (eq_none_of_mem h hproduced hpinged)
  have hdiffs : (r.noteAll ns).diffs = r.diffs :=
    trace_noteAll_of_none r _ (eq_none_of_mem h (fun _ => rfl) fun _ => rfl)
  rw [handover, hdiffs, origins, hdated _ (fun _ => rfl) fun _ => rfl, births,
    hdated _ (fun _ => rfl) fun _ => rfl, stops, hdated _ (fun _ => rfl) fun _ => rfl, noteAll_eq]
  rfl

/-- The event loop has taken every new name before the detector scans again. -/
def takesAdded (r : Run) : Action → Bool
  | .scan _ => r.added.buffer.isEmpty
  | _ => true

theorem Step.handover {r r' : Run} (h : Step r a r') (ht : r.manager.Tracks) (ha : r.takesAdded a) :
    r.handover.Step r'.handover := by
  have hdrop {n : String} {c : Channel String} (hc : r.added.receive = some (n, c)) :
      c.buffer ++ r.detector.added ⊆ r.handover.added := by
    obtain ⟨rest, hbuf, rfl⟩ := receive_eq_some.mp hc
    rw [Run.handover, hbuf]
    exact List.subset_cons_self ..
  cases h with
  | scanFailed | stopDetector =>
    exact .drop (List.append_subset.mpr ⟨List.subset_append_left .., List.nil_subset _⟩)
      (List.nil_subset _)
  | @scanned interfaces diff hd _ hdiff =>
    rw [takesAdded, List.isEmpty_iff] at ha
    change r.handover.Step
      { r.handover with
        diffs := (r.note (.scanned _ _ diff)).diffs
        added := r.added.buffer ++ (announcing diff.added diff.removed).added
        lost := (announcing diff.added diff.removed).removed }
    rw [ha, List.nil_append, added_announcing, removed_announcing, diffs, trace_note]
    exact .scan (hdiff ▸ InterfaceDiff.disjoint_added_removed)
  | @announceAdded n ns ls c hd hc =>
    obtain ⟨-, rfl⟩ := push?_eq_some.mp hc
    refine .drop ?_ ?_
    · rw [Run.handover, hd]
      simp
    · rw [Run.handover, hd]
      simp
  | @announceRemoved n ls c hd hc =>
    obtain ⟨⟨ho, -⟩, rfl⟩ := push?_eq_some.mp hc
    have hlost : r.handover.lost = n :: ls := by rw [Run.handover, hd]; rfl
    have hadded : r.handover.added = r.added.buffer ++ (announcing [] ls).added := by
      rw [Run.handover, hd, added_announcing]
      rfl
    change r.handover.Step
      { r.handover with
        added := r.added.buffer ++ (announcing [] ls).added
        lost := (announcing [] ls).removed
        removed := r.removed.buffer ++ [n]
        origins := (r.note (.announcedRemoved n)).origins }
    rw [← hadded, removed_announcing, origins, dated_note]
    exact .announce hlost ho
  | tick =>
    rw [handover_noteAll _ (by simp)]
    exact .stay
  | stopResting | refuse => exact .close (List.subset_append_right ..)
  | ping =>
    rw [handover_noteAll _ (by simp)]
    exact .of_clients (Manager.map_ping _ (fun _ _ => rfl) _)
  | startRefused _ hadded => exact .drop (hdrop hadded) (List.Subset.refl _)
  | startFailed _ hadded => exact .drop (hdrop hadded) (List.Subset.refl _)
  | @started n c t f k _ hadded _ _ hk =>
    obtain ⟨rest, hbuf, rfl⟩ := receive_eq_some.mp hadded
    have hnext : r.handover.added = n :: (rest ++ r.detector.added) := by rw [Run.handover, hbuf]; rfl
    have hlength : r.handover.clients.length = k := (List.length_map _).trans hk
    change r.handover.Step
      { r.handover with
        added := rest ++ r.detector.added
        clients := ((r.manager.withClient n t).pingClient k).clients.map (·.interface)
        births := (r.note (.started k)).births }
    rw [Manager.map_pingClient _ (fun _ _ => rfl), Manager.withClient, List.map_append, births,
      dated_note, ← hlength]
    exact .start hnext
  | @stopUnknown n _ _ hremoved =>
    obtain ⟨rest, hbuf, rfl⟩ := receive_eq_some.mp hremoved
    change r.handover.Step
      { r.handover with removed := rest, stops := (r.note (.stopped n none)).stops }
    rw [stops, dated_note]
    exact .stop hbuf (by simp)
  | @stopClient n _ e _ hremoved hf =>
    obtain ⟨rest, hbuf, rfl⟩ := receive_eq_some.mp hremoved
    change r.handover.Step
      { r.handover with removed := rest, stops := (r.note (.stopped n (some e.client))).stops }
    rw [stops, dated_note]
    refine .stop hbuf fun k hk => ?_
    cases hk
    obtain ⟨hmem, rfl⟩ := Manager.mem_of_find? hf
    obtain ⟨c, hc, hi, -⟩ := ht.client_of_mem hmem
    rw [Run.handover, List.getElem?_map, hc, ← hi]
    rfl
  | observe =>
    rw [handover_noteAll _ (by simp)]
    exact .stay
  | beginClient hb =>
    obtain ⟨c, hc, -, rfl⟩ := Manager.begin_eq_some.mp hb
    exact .of_clients (Manager.map_set _ hc rfl)
  | exit he =>
    obtain ⟨c, hc, -, rfl⟩ := Manager.exit_eq_some.mp he
    exact .of_clients (Manager.map_set _ hc rfl)
  | _ => exact .stay

theorem sound_handover {config : DiscoveryConfig} {r : Run}
    (hadded : (start config capacity).along takesAdded actions)
    (h : (start config capacity).steps actions = some r) : r.handover.Sound := by
  refine (along_induction (P := fun r => r.manager.Tracks ∧ r.handover.Sound)
    (fun r a r' hp ha hs => ⟨?_, hp.2.step (hs.handover hp.1 ha)⟩) ⟨.start, ?_⟩ hadded h).2
  · exact hs.manager_induction (fun _ _ hm ht => ht.move hm) hp.1
  · exact
      { fifo := List.prefix_rfl
        isOpen := fun _ => rfl
        disjoint := nofun
        added := List.nil_subset _
        lost := List.nil_subset _
        origins := nofun
        births := rfl
        date := nofun
        started := nofun
        stops := nofun }

/-! ## The main statements -/

/-- How the names of lost interfaces are handled. -/
structure InTurn (r : Run) : Prop where
  /-- Every client was started once. -/
  births : r.births.map (·.2) = List.range r.manager.clients.length
  /-- Names are taken in the order in which they were announced, each after the scan that found it gone. -/
  origin : ∀ (i : Nat) date n k?, r.stops[i]? = some (date, n, k?) →
    ∃ j d, r.origins[i]? = some (j + 1, n) ∧ j < date ∧ r.diffs[j]? = some d ∧ n ∈ d.removed
  /-- A name that is taken before the next scan stops no client that was started after its own. -/
  fresh : ∀ (i : Nat) s n k b, r.stops[i]? = some (s, n, some k) → r.origins[i]? = some (s, n) →
    (b, k) ∈ r.births → b < s

/-- However a run goes, if the event loop has taken every new name before each scan then a name of a lost
interface that is taken before the next scan stops no younger client. -/
theorem inTurn_of_steps {config : DiscoveryConfig} {capacity : Nat} {actions : List Action} {r : Run}
    (hadded : (start config capacity).along takesAdded actions)
    (h : (start config capacity).steps actions = some r) : r.InTurn := by
  have hsound := sound_handover hadded h
  refine
    { births := hsound.births.trans (congrArg List.range (List.length_map _))
      origin := fun i date n k? hi => ?_
      fresh := fun i s n k b hi ho => (hsound.stops i s n (some k) hi).fresh k b rfl ho }
  obtain ⟨s, ho, hle⟩ := (hsound.stops i date n k? hi).origin
  obtain ⟨j, d, rfl, hd, hn⟩ := hsound.origins s n (List.mem_of_getElem? ho)
  exact ⟨j, d, ho, hle, hd, hn⟩

/-- A client is started, its interface is lost, and the client is told to stop before the next scan. -/
def farewellInTurn : List Action :=
  [.scan (.ok [.usable "eth0"]), .announce, .startNext (.ok ()), .pingsQueued, .beginClient 0,
    .elapse 5000, .scan (.ok []), .announce, .stopNext]

theorem inTurn_farewell : (start .standard 1).along takesAdded farewellInTurn ∧
    ∃ r, (start .standard 1).steps farewellInTurn = some r ∧ r.InTurn ∧
      r.births = [(1, 0)] ∧ r.origins = [(2, "eth0")] ∧ r.stops = [(2, "eth0", some 0)] := by
  have hadded : (start .standard 1).along takesAdded farewellInTurn := by decide +kernel
  have hany : ((start .standard 1).steps farewellInTurn).any
      (fun r => r.births = [(1, 0)] ∧ r.origins = [(2, "eth0")] ∧ r.stops = [(2, "eth0", some 0)]) := by
    decide +kernel
  obtain ⟨r, hr, hmatch⟩ := (Option.any_eq_true _ _).mp hany
  exact ⟨hadded, r, hr, inTurn_of_steps hadded hr, of_decide_eq_true hmatch⟩

/-- No name of a lost interface stops a client that was started after the scan that found it gone. -/
def SparesYounger (r : Run) : Prop :=
  ∀ (i : Nat) date s n k b, r.stops[i]? = some (date, n, some k) → r.origins[i]? = some (s, n) →
    (b, k) ∈ r.births → b < s

/-- The loss of an interface is announced while the event loop waits for room for an event. The client of
the interface ends, the interface comes back, and the new client is started before the loss is taken. -/
def standstill : List Action :=
  let hello : Header := .make .ping .requestServer .broadcast 0 0
  [.scan (.ok [.usable "eth0"]), .announce, .startNext (.ok ()), .pingsQueued, .beginClient 0,
    .deliver 0 (greeting 1 hello), .deliver 0 (greeting 2 hello), .observe, .report, .observe,
    .elapse 5000, .scan (.ok []), .announce, .exit 0 (.error (.io "no device")),
    .elapse 5000, .scan (.ok [.usable "eth0"]), .announce,
    .consume, .report, .startNext (.ok ()), .pingsQueued, .beginClient 1, .stopNext]

/-- The name that the second scan has found to be gone stops the client that was started after the third. -/
theorem not_sparesYounger_standstill : ∃ r, (start .standard 1).steps standstill = some r ∧
    ¬ r.SparesYounger ∧
      ∃ c, r.manager.clients[1]? = some c ∧ c.stage.isEnded = false ∧ r.tokens.isCancelled c.token := by
  have hany : ((start .standard 1).steps standstill).any
      (fun r => r.origins = [(2, "eth0")] ∧ r.births = [(1, 0), (3, 1)] ∧
        r.stops = [(3, "eth0", some 1)] ∧
          r.manager.clients[1]?.any fun c => !c.stage.isEnded && r.tokens.isCancelled c.token) := by
    decide +kernel
  obtain ⟨r, hr, hmatch⟩ := (Option.any_eq_true _ _).mp hany
  obtain ⟨ho, hb, hs, hc⟩ := of_decide_eq_true hmatch
  obtain ⟨c, hc, hboth⟩ := (Option.any_eq_true _ _).mp hc
  rw [Bool.and_eq_true, Bool.not_eq_true'] at hboth
  refine ⟨r, hr, fun hspares => ?_, c, hc, hboth⟩
  have hlt := hspares 0 3 2 "eth0" 1 3 (by rw [hs]; rfl) (by rw [ho]; rfl) (by rw [hb]; decide)
  exact absurd hlt (by decide)

end Run
end AmpLink.Discovery
