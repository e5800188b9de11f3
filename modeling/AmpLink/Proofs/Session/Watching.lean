import AmpLink.Proofs.Discovery.Delivery
import AmpLink.Proofs.Net.Order
import AmpLink.Session.Watch

/-!
# What a watcher of a discovery run prints

Events may be held back when the run ends, and they are printed before the summary. What carries this is
the list of events taken so far, each with its time (`Watch.Sound`): the lines and the rows are both made
from it, and together with what the channel holds back it is what was accepted. An online row is the
address of a discovery without a later loss, and so is a peer left in the table of the run, which ties the
summary to the table. The main statement is `Watch.complete_of_steps`.
-/

namespace AmpLink

/-! ## Rows -/

/-- In the order of their addresses, with at most one row for each. -/
def Ascending (rows : List PeerRow) : Prop := rows.Pairwise (·.address.IsBefore ·.address)

theorem mem_insertRow (h : Ascending rows) :
    r ∈ insertRow row rows ↔ r = row ∨ r ∈ rows ∧ r.address ≠ row.address := by
  induction rows with
  | nil => simp [insertRow]
  | cons first rest ih =>
    obtain ⟨hfirst, hrest⟩ := List.pairwise_cons.mp h
    rw [insertRow]
    split
    · next heq =>
      have hne : r ∈ rest → r.address ≠ row.address := fun hr => heq ▸ (hfirst r hr).2.symm
      grind
    split
    · next heq hle =>
      have hrow : row.address.IsBefore first.address := ⟨hle, Ne.symm heq⟩
      have hne : r ∈ rest → r.address ≠ row.address := fun hr => (hrow.trans (hfirst r hr)).2.symm
      grind
    · have hih := ih hrest
      grind

theorem Ascending.insertRow (h : Ascending rows) : Ascending (insertRow row rows) := by
  induction rows with
  | nil => exact List.pairwise_singleton ..
  | cons first rest ih =>
    obtain ⟨hfirst, hrest⟩ := List.pairwise_cons.mp h
    rw [AmpLink.insertRow]
    split
    · next heq => exact List.pairwise_cons.mpr ⟨heq ▸ hfirst, hrest⟩
    split
    · next heq hle =>
      have hrow : row.address.IsBefore first.address := ⟨hle, Ne.symm heq⟩
      refine List.pairwise_cons.mpr ⟨fun r hr => ?_, h⟩
      rcases List.mem_cons.mp hr with rfl | hr
      · exact hrow
      · exact hrow.trans (hfirst r hr)
    · next hle =>
      refine List.pairwise_cons.mpr ⟨fun r hr => ?_, ih hrest⟩
      rcases (mem_insertRow hrest).mp hr with rfl | ⟨hr, -⟩
      · exact SocketAddress.isBefore_of_not_le hle
      · exact hfirst r hr

/-- The rows that events make, each with the time at which it was printed. -/
def rowsAfter (taken : List (Timestamp × PeerEvent)) : List PeerRow :=
  taken.foldl (fun rows x => insertRow (.ofEvent x.1 x.2) rows) []

theorem rowsAfter_concat :
    rowsAfter (taken ++ [x]) = insertRow (.ofEvent x.1 x.2) (rowsAfter taken) :=
  List.foldl_concat ..

theorem ascending_rowsAfter (taken : List (Timestamp × PeerEvent)) : Ascending (rowsAfter taken) := by
  induction taken using List.reverseRecOn with
  | nil => exact List.Pairwise.nil
  | append_singleton taken x ih =>
    rw [rowsAfter_concat]
    exact ih.insertRow

/-- Each address has the row of its last event. -/
theorem mem_rowsAfter : row ∈ rowsAfter taken ↔
    ∃ x, (taken.filter (·.2.address = row.address)).getLast? = some x ∧ row = .ofEvent x.1 x.2 := by
  induction taken using List.reverseRecOn with
  | nil => simp [rowsAfter]
  | append_singleton taken x ih =>
    rw [rowsAfter_concat, mem_insertRow (ascending_rowsAfter taken), ih, List.filter_append]
    by_cases hx : x.2.address = row.address
    · have hlast : [x].filter (·.2.address = row.address) = [x] := by simp [hx]
      rw [hlast, List.getLast?_concat]
      constructor
      · rintro (hrow | ⟨-, hne⟩)
        · exact ⟨x, rfl, hrow⟩
        · exact absurd hx.symm hne
      · rintro ⟨_, ⟨rfl⟩, hrow⟩
        exact .inl hrow
    · have hne : row ≠ .ofEvent x.1 x.2 := by
        rintro rfl
        exact hx rfl
      have hne' : row.address ≠ (PeerRow.ofEvent x.1 x.2).address := Ne.symm hx
      simp [hx, hne, hne']

/-- The row of an address shows its last event. -/
def PeerRow.Shows (row : PeerRow) (events : List PeerEvent) : Prop :=
  ∃ e, (eventsOf row.address events).getLast? = some e ∧
    row.online = e.isDiscovered ∧ row.interface = e.interface

theorem getLast?_eventsOf (taken : List (Timestamp × PeerEvent)) (a : SocketAddress) :
    (eventsOf a (taken.map (·.2))).getLast? = (taken.filter (·.2.address = a)).getLast?.map (·.2) := by
  rw [eventsOf, List.filter_map, List.getLast?_map]
  rfl

theorem shows_of_mem_rowsAfter (h : row ∈ rowsAfter taken) : row.Shows (taken.map (·.2)) := by
  obtain ⟨x, hx, hrow⟩ := mem_rowsAfter.mp h
  refine ⟨x.2, ?_, ?_⟩
  · rw [getLast?_eventsOf, hx]
    rfl
  · rw [hrow]
    exact ⟨rfl, rfl⟩

theorem exists_mem_rowsAfter : (∃ row ∈ rowsAfter taken, row.address = a) ↔
    ∃ e ∈ taken.map (·.2), e.address = a := by
  constructor
  · rintro ⟨row, hrow, rfl⟩
    obtain ⟨e, he, -⟩ := shows_of_mem_rowsAfter hrow
    obtain ⟨hmem, haddress⟩ := List.mem_filter.mp (List.mem_of_getLast? he)
    exact ⟨e, hmem, of_decide_eq_true haddress⟩
  · rintro ⟨_, he, rfl⟩
    obtain ⟨x, hx, rfl⟩ := List.mem_map.mp he
    have hmem : x ∈ taken.filter (·.2.address = x.2.address) := List.mem_filter.mpr ⟨hx, by simp⟩
    have hlast := List.getLast?_eq_some_getLast (List.ne_nil_of_mem hmem)
    generalize (taken.filter (·.2.address = x.2.address)).getLast _ = y at hlast
    have hy := of_decide_eq_true (List.mem_filter.mp (List.mem_of_getLast? hlast)).2
    exact ⟨.ofEvent y.1 y.2, mem_rowsAfter.mpr ⟨y, by rwa [PeerRow.ofEvent, hy], rfl⟩, hy⟩

theorem exists_online_iff : (∃ row ∈ rowsAfter taken, row.address = a ∧ row.online) ↔
    (eventsOf a (taken.map (·.2))).getLast?.any (·.isDiscovered) := by
  constructor
  · rintro ⟨row, hrow, rfl, honline⟩
    obtain ⟨e, he, hdiscovered, -⟩ := shows_of_mem_rowsAfter hrow
    rw [he, Option.any_some, ← hdiscovered, honline]
  · intro h
    obtain ⟨e, he, hdiscovered⟩ := (Option.any_eq_true ..).mp h
    obtain ⟨hmem, haddress⟩ := List.mem_filter.mp (List.mem_of_getLast? he)
    obtain ⟨row, hrow, rfl⟩ := exists_mem_rowsAfter.mpr ⟨e, hmem, of_decide_eq_true haddress⟩
    obtain ⟨e', he', honline, -⟩ := shows_of_mem_rowsAfter hrow
    cases he.symm.trans he'
    exact ⟨row, hrow, rfl, honline.trans hdiscovered⟩

/-! ## Lines -/

/-- The event that a line is printed for. -/
def Line.event? : Line → Option PeerEvent
  | event _ e => some e
  | _ => none

def eventLine (x : Timestamp × PeerEvent) : Line := .event x.1 x.2

theorem map_event?_map (taken : List (Timestamp × PeerEvent)) :
    (taken.map eventLine).map Line.event? = (taken.map (·.2)).map some := by
  rw [List.map_map, List.map_map]
  rfl

namespace Watch

/-- The events that were printed. -/
def shown (w : Watch) : List PeerEvent := w.printed.filterMap Line.event?

/-! ## Steps -/

/-- How a step can go. -/
inductive Step (w : Watch) : Action → Watch → Prop
  | accept : w.discovery = none → w.events.hasRoom 0 →
    Step w (.accept e) { w with
      events := { w.events with buffer := w.events.buffer ++ [e] }, accepted := w.accepted ++ [e] }
  | take : w.result = none → w.events.buffer = e :: rest →
    Step w (.take now) ({ w with events := { w.events with buffer := rest } }.record now e)
  | expire : w.timed → w.cancelled = false → w.draining = false →
    Step w .expire { w with cancelled := true }
  | interrupt : Step w .interrupt { w with cancelled := true }
  | endRun : w.discovery = none → Step w (.endRun r) { w with discovery := some r }
  | notice : w.discovery.isSome → w.draining = false → Step w .notice { w with draining := true }
  | finish : w.draining → w.result = none → w.events.buffer = [] →
    Step w .finish { w with printed := w.printed ++ [.summary w.rows], result := w.discovery }

theorem Step.of_step {w w' : Watch} (h : w.step a = some w') : w.Step a w' := by
  cases a with
  | accept e =>
    obtain ⟨hc, h⟩ := Option.ite_none_right_eq_some.mp h
    cases h
    rw [Bool.and_eq_true, Option.isNone_iff_eq_none] at hc
    exact .accept hc.1 hc.2
  | take now =>
    obtain ⟨hc, h⟩ := Option.ite_none_left_eq_some.mp h
    obtain ⟨⟨e, c⟩, hrecv, h⟩ := Option.map_eq_some_iff.mp h
    obtain ⟨rest, hbuf, rfl⟩ := Discovery.Run.receive_eq_some.mp hrecv
    cases h
    rw [Option.not_isSome_iff_eq_none] at hc
    exact .take hc hbuf
  | expire =>
    obtain ⟨hc, h⟩ := Option.ite_none_right_eq_some.mp h
    cases h
    rw [Bool.and_eq_true, Bool.and_eq_true, Bool.not_eq_true', Bool.not_eq_true'] at hc
    exact .expire hc.1.1 hc.1.2 hc.2
  | interrupt =>
    cases h
    exact .interrupt
  | endRun r =>
    obtain ⟨hc, h⟩ := Option.ite_none_right_eq_some.mp h
    cases h
    exact .endRun (Option.isNone_iff_eq_none.mp hc)
  | notice =>
    obtain ⟨hc, h⟩ := Option.ite_none_right_eq_some.mp h
    cases h
    rw [Bool.and_eq_true, Bool.not_eq_true'] at hc
    exact .notice hc.1 hc.2
  | finish =>
    obtain ⟨hc, h⟩ := Option.ite_none_right_eq_some.mp h
    cases h
    rw [Bool.and_eq_true, Bool.and_eq_true, Option.isNone_iff_eq_none, List.isEmpty_iff] at hc
    exact .finish hc.1.1 hc.1.2 hc.2

theorem steps_eq_foldlM (w : Watch) (actions : List Action) :
    w.steps actions = actions.foldlM step w :=
  eq_foldlM (fun _ => rfl) (fun _ _ _ => rfl) w actions

theorem steps_induction {P : List Action → Watch → Prop}
    (hstep : ∀ past w a w', P past w → Step w a w' → P (past ++ [a]) w') {w w' : Watch} (hw : P [] w)
    (h : w.steps actions = some w') : P actions w' := by
  rw [steps_eq_foldlM] at h
  exact foldlM_induction (fun past w a w' hp hs => hstep past w a w' hp (.of_step hs)) hw h

/-! ## The invariant -/

/-- What holds of every watcher, with the events taken so far. -/
structure Sound (w : Watch) (taken : List (Timestamp × PeerEvent)) : Prop where
  kept : taken.map (·.2) ++ w.events.buffer = w.accepted
  rows : w.rows = rowsAfter taken
  printed : w.printed = taken.map eventLine ++ if w.result.isSome then [.summary w.rows] else []
  draining : w.draining → w.discovery.isSome
  result : ∀ r, w.result = some r → w.discovery = some r ∧ w.events.buffer = []

theorem Sound.printed_of_none {w : Watch} (h : w.Sound taken) (hr : w.result = none) :
    w.printed = taken.map eventLine := by
  rw [h.printed, hr]
  exact List.append_nil _

theorem Sound.printed_of_some {w : Watch} (h : w.Sound taken) (hr : w.result = some r) :
    w.printed = taken.map eventLine ++ [.summary w.rows] := by
  rw [h.printed, hr]
  rfl

theorem Sound.step {w w' : Watch} (h : w.Sound taken) (hs : w.Step a w') : ∃ taken', w'.Sound taken' := by
  cases hs with
  | accept hd =>
    refine ⟨taken, { h with kept := ?_, result := fun r hr => ?_ }⟩
    · rw [← List.append_assoc, h.kept]
    · rw [(h.result r hr).1] at hd
      contradiction
  | @take e rest now hr hbuf =>
    have hkept := h.kept
    rw [hbuf, List.append_cons] at hkept
    refine ⟨taken ++ [(now, e)],
      { h with kept := ?_, rows := ?_, printed := ?_, result := fun r hr' => ?_ }⟩
    · rw [List.map_append]
      exact hkept
    · rw [rowsAfter_concat, ← h.rows]
      rfl
    · change w.printed ++ [.event now e] = _ ++ if w.result.isSome then _ else _
      rw [h.printed_of_none hr, hr, List.map_append]
      exact (List.append_nil _).symm
    · cases hr.symm.trans hr'
  | expire | interrupt => exact ⟨taken, { h with }⟩
  | endRun hd =>
    refine ⟨taken, { h with draining := fun _ => rfl, result := fun r hr => ?_ }⟩
    rw [(h.result r hr).1] at hd
    contradiction
  | notice hd => exact ⟨taken, { h with draining := fun _ => hd }⟩
  | finish hd hr hbuf =>
    refine ⟨taken, { h with printed := ?_, result := fun r hr' => ⟨hr', hbuf⟩ }⟩
    rw [if_pos (h.draining hd), h.printed_of_none hr]

theorem sound_start (timed : Bool) : (start timed).Sound [] where
  kept := rfl
  rows := rfl
  printed := rfl
  draining h := by contradiction
  result r h := by contradiction

theorem sound_steps {w w' : Watch} (hw : w.Sound taken) (h : w.steps actions = some w') :
    ∃ taken', w'.Sound taken' :=
  steps_induction (P := fun _ w => ∃ taken, w.Sound taken)
    (fun _ _ _ _ ⟨_, hw⟩ hs => hw.step hs) ⟨taken, hw⟩ h

theorem Sound.shown_eq {w : Watch} (h : w.Sound taken) : w.shown = taken.map (·.2) := by
  have htaken : (taken.map eventLine).filterMap Line.event? = taken.map (·.2) := by
    rw [List.filterMap_map]
    exact congrFun List.filterMap_eq_map taken
  rw [shown, h.printed, List.filterMap_append, htaken]
  split <;> exact List.append_nil _

theorem Sound.accepted_of_some {w : Watch} (h : w.Sound taken) (hr : w.result = some r) :
    taken.map (·.2) = w.accepted := by
  rw [← h.kept, (h.result r hr).2, List.append_nil]

/-! ## After the summary -/

theorem Sound.step_over {w w' : Watch} (h : w.Sound taken) (hr : w.result.isSome) (hs : w.Step a w') :
    w'.result = w.result ∧ w'.printed = w.printed ∧ w'.accepted = w.accepted := by
  obtain ⟨r, hr⟩ := Option.isSome_iff_exists.mp hr
  have hd := (h.result r hr).1
  cases hs with
  | accept hd' | endRun hd' =>
    rw [hd] at hd'
    contradiction
  | take hr' | finish _ hr' =>
    rw [hr] at hr'
    contradiction
  | expire | interrupt | notice => exact ⟨rfl, rfl, rfl⟩

theorem Sound.steps_over {w w' : Watch} (h : w.Sound taken) (hr : w.result.isSome)
    (hs : w.steps later = some w') : w'.printed = w.printed ∧ w'.accepted = w.accepted := by
  refine (steps_induction (P := fun _ w' => (∃ taken, w'.Sound taken) ∧ w'.result = w.result ∧
    w'.printed = w.printed ∧ w'.accepted = w.accepted) ?_ ⟨⟨taken, h⟩, rfl, rfl, rfl⟩ hs).2.2
  rintro _ s _ s' ⟨⟨_, hsound⟩, hr', hp, ha⟩ hstep
  obtain ⟨hr'', hp', ha'⟩ := hsound.step_over (hr' ▸ hr) hstep
  exact ⟨hsound.step hstep, hr''.trans hr', hp'.trans hp, ha'.trans ha⟩

/-! ## Coming to an end -/

/-- A watcher that has seen the end of the run takes what is left and prints the summary. -/
theorem exists_finish_of_draining (now : Timestamp) {w : Watch} (hw : w.draining) (hr : w.result = none) :
    ∃ later w', w.steps later = some w' ∧ w'.result = w.discovery ∧ w'.accepted = w.accepted := by
  induction hbuf : w.events.buffer generalizing w with
  | nil =>
    let w₁ := { w with printed := w.printed ++ [Line.summary w.rows], result := w.discovery }
    have hfinish : w.step .finish = some w₁ := by simp [step, hw, hr, hbuf, w₁]
    exact ⟨[.finish], w₁, by rw [steps, hfinish]; rfl, rfl, rfl⟩
  | cons e rest ih =>
    let w₁ := { w with events := { w.events with buffer := rest } }.record now e
    obtain ⟨later, w', hlater, hresult, haccepted⟩ := ih (w := w₁) hw hr rfl
    refine ⟨.take now :: later, w', ?_, hresult, haccepted⟩
    have htake : w.step (.take now) = some w₁ := by simp [step, hr, Channel.receive, hbuf, w₁]
    rw [steps, htake]
    exact hlater

theorem exists_finish (now : Timestamp) {w : Watch} (hd : w.discovery = some r) (hr : w.result = none) :
    ∃ later w', w.steps later = some w' ∧ w'.result = some r ∧ w'.accepted = w.accepted := by
  rw [← hd]
  cases hdrain : w.draining with
  | true => exact exists_finish_of_draining now hdrain hr
  | false =>
    let w₁ := { w with draining := true }
    obtain ⟨later, w', hlater, hresult, haccepted⟩ := exists_finish_of_draining now (w := w₁) rfl hr
    have hnotice : w.step .notice = some w₁ := by simp [step, hd, hdrain, w₁]
    exact ⟨.notice :: later, w', by rw [steps, hnotice]; exact hlater, hresult, haccepted⟩

/-! ## The table of the run -/

/-- When everything that happened was delivered, the events tell who is left. -/
theorem isSome_find?_of_all {config : DiscoveryConfig} {r : Discovery.Run}
    (h : (Discovery.Run.start config capacity).steps actions = some r) (hall : r.accepted = r.produced) :
    (r.peers.find? a).isSome = (eventsOf a r.accepted).getLast?.any (·.isDiscovered) := by
  obtain ⟨xs, hxs⟩ := (Discovery.Run.sound_delivery h).table
  have hexplains := PeerTable.explains_run_empty xs
  rw [hxs] at hexplains
  rw [hall]
  exact (hexplains.present a).trans (hexplains.alternates a).isDiscovered_getLast?.symm

/-! ## The main statement -/

/-- What becomes of the events that are handed to a watcher. -/
structure Complete (w : Watch) : Prop where
  /-- What was printed and what is still held back are the accepted events, in order. -/
  kept : w.shown ++ w.events.buffer = w.accepted
  /-- Until the summary there is one line for each of the events printed. -/
  running : w.result = none → w.printed.map Line.event? = w.shown.map some
  /-- The summary comes last, after one line for each of the accepted events. -/
  summary : ∀ r, w.result = some r → w.discovery = some r ∧ w.shown = w.accepted ∧
    ∃ lines, w.printed = lines ++ [.summary w.rows] ∧ lines.map Line.event? = w.accepted.map some
  /-- After it nothing is accepted or printed, whatever happens. -/
  closed : w.result.isSome → ∀ later w', w.steps later = some w' →
    w'.printed = w.printed ∧ w'.accepted = w.accepted
  /-- Once the run has ended, the summary is in reach. -/
  ends : ∀ r, w.discovery = some r → w.result = none →
    ∃ later w', w.steps later = some w' ∧ w'.result = some r ∧ w'.accepted = w.accepted
  ascending : Ascending w.rows
  /-- There is a row for every address that had an event. -/
  addresses : ∀ a, (∃ row ∈ w.rows, row.address = a) ↔ ∃ e ∈ w.shown, e.address = a
  latest : ∀ row ∈ w.rows, row.Shows w.shown
  /-- When everything that happened in a run was delivered, the peers left in its table are online. -/
  table : ∀ (config : DiscoveryConfig) (capacity : Nat) (actions : List Discovery.Run.Action)
    (r : Discovery.Run), (Discovery.Run.start config capacity).steps actions = some r →
    r.accepted = w.accepted → r.accepted = r.produced → w.result.isSome →
    ∀ a, (∃ row ∈ w.rows, row.address = a ∧ row.online) ↔ (r.peers.find? a).isSome

/-- Whatever happens in whatever order, a watcher prints what it is given and sums it up. -/
theorem complete_of_steps {timed : Bool} {actions : List Action} {w : Watch}
    (h : (start timed).steps actions = some w) : w.Complete := by
  obtain ⟨taken, hw⟩ := sound_steps (sound_start timed) h
  have hshown := hw.shown_eq
  refine
    { kept := hshown ▸ hw.kept
      running := fun hr => ?_
      summary := fun r hr => ?_
      closed := fun hr later w' hlater => hw.steps_over hr hlater
      ends := fun r hd hr => exists_finish ⟨"", ""⟩ hd hr
      ascending := hw.rows ▸ ascending_rowsAfter taken
      addresses := fun a => ?_
      latest := fun row hrow => ?_
      table := fun config capacity actions r hrun hsame hall hover a => ?_ }
  · rw [hw.printed_of_none hr, hshown, map_event?_map]
  · have haccepted := hw.accepted_of_some hr
    refine ⟨(hw.result r hr).1, hshown.trans haccepted, _, hw.printed_of_some hr, ?_⟩
    rw [map_event?_map, haccepted]
  · rw [hw.rows, hshown]
    exact exists_mem_rowsAfter
  · rw [hshown]
    exact shows_of_mem_rowsAfter (hw.rows ▸ hrow)
  · obtain ⟨o, ho⟩ := Option.isSome_iff_exists.mp hover
    rw [hw.rows, exists_online_iff, hw.accepted_of_some ho, ← hsame, isSome_find?_of_all hrun hall]

/-- Two peers are discovered and one of them is lost. -/
def sightings : List PeerEvent :=
  [.discovered (.broadcast 1) (some "eth0"), .discovered (.broadcast 2) (some "eth0"),
    .lost (.broadcast 1) (some "eth0")]

/-- They come with the deadline and an interrupt in between, and two of them are still held back when the
run ends. -/
def lookout : List Action :=
  let now : Timestamp := ⟨"12:00:00", "2024-05-01T12:00:00+00:00"⟩
  [.accept (.discovered (.broadcast 1) (some "eth0")), .expire,
    .accept (.discovered (.broadcast 2) (some "eth0")), .take now, .interrupt,
    .accept (.lost (.broadcast 1) (some "eth0")), .endRun (.ok ()), .notice, .take now, .take now, .finish]

theorem complete_lookout : ∃ w r, (start true).steps lookout = some w ∧ w.Complete ∧ w.result.isSome ∧
    (Discovery.Run.start .standard 1).steps (Discovery.Run.silence.take 19) = some r ∧
    r.accepted = w.accepted ∧ r.accepted = r.produced ∧
    w.rows.map (fun row => (row.address, row.online)) = [(.broadcast 1, false), (.broadcast 2, true)] := by
  have hwatch : ((start true).steps lookout).map (fun w => (w.accepted, w.result.isSome,
      w.rows.map fun row => (row.address, row.online))) =
      some (sightings, true, [(.broadcast 1, false), (.broadcast 2, true)]) := by decide +kernel
  have hrun : ((Discovery.Run.start .standard 1).steps (Discovery.Run.silence.take 19)).map
      (fun r => (r.accepted, r.produced)) = some (sightings, sightings) := by decide +kernel
  obtain ⟨w, hw, hseen⟩ := Option.map_eq_some_iff.mp hwatch
  obtain ⟨r, hr, hevents⟩ := Option.map_eq_some_iff.mp hrun
  simp only [Prod.mk.injEq] at hseen hevents
  exact ⟨w, r, hw, complete_of_steps hw, hseen.2.1, hr, hevents.1.trans hseen.1.symm,
    hevents.1.trans hevents.2.symm, hseen.2.2⟩

end Watch
end AmpLink
