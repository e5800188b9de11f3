import AmpLink.Proofs.Discovery.Delivery
import AmpLink.Proofs.Discovery.Reconciling

/-!
# How often a client is pinged

A client is pinged when it has been started and by the ticks. A tick hands the losses of its sweep over
first, which can take long or fail, and then pings the clients that are tracked at that moment: those that
have been started and have not ended, whether they were told to stop or not. `Tick` is what the history
tells of one tick, `Ledger` the part of a run that the pings concern. The two accounts agree in every state
of a run, for every client (`Run.accounted_of_steps`).
-/

namespace AmpLink

namespace Manager

theorem tracked_exit {m m' : Manager} (h : m.Tracks) (he : m.exit k r = some m') :
    m'.tracked = m.tracked.filter (· ≠ k) := by
  rw [tracked, h.exit_entries he, tracked, List.filter_map]
  rfl

theorem pings_begin {m m' : Manager} (hb : m.begin k = some m') :
    m'.clients.map (·.pings) = m.clients.map (·.pings) ∧ m'.tracked = m.tracked := by
  obtain ⟨c, hc, -, rfl⟩ := begin_eq_some.mp hb
  exact ⟨map_set (·.pings) hc rfl, rfl⟩

theorem pings_exit {m m' : Manager} (he : m.exit k r = some m') :
    m'.clients.map (·.pings) = m.clients.map (·.pings) := by
  obtain ⟨c, hc, -, rfl⟩ := exit_eq_some.mp he
  exact map_set (·.pings) hc rfl

theorem tracked_ping {m : Manager} : m.ping.tracked = m.tracked := congrArg (List.map _) entries_ping

/-- A ping of all reaches every client as often as it is tracked. -/
theorem pings_ping (m : Manager) : m.ping.clients.map (·.pings) =
    (m.clients.map (·.pings)).mapIdx fun k n => n + m.tracked.count k := by
  rw [ping]
  generalize m.tracked = ks
  induction ks generalizing m with
  | nil => exact List.ext_getElem? fun k => by simp [Function.comp_def]
  | cons j ks ih =>
    rw [List.foldl_cons, ih]
    refine List.ext_getElem? fun k => ?_
    simp only [pingClient, List.getElem?_mapIdx, List.getElem?_map, List.getElem?_modify,
      Option.map_eq_map, Option.map_map]
    congr 1
    funext c
    by_cases hj : j = k
    · simp [hj, Nat.add_right_comm, Nat.add_assoc]
    · simp [hj]

end Manager

namespace PeerTable

theorem isDiscovered_of_mem_sweep {t : PeerTable} :
    ∀ e ∈ (t.sweep now timeout).1, e.isDiscovered = false := by
  intro e he
  obtain ⟨p, -, rfl⟩ := exists_lossOf_of_mem_sweep he
  rfl

theorem isDiscovered_of_mem_toList {t : PeerTable} :
    ∀ e ∈ (t.observe a i now).1.toList, e.isDiscovered := by
  intro e he
  rw [isDiscovered_of_mem_observe (Option.mem_toList.mp he)]
  rfl

end PeerTable

namespace Discovery

/-! ## What the history tells -/

/-- The clients that have been started and have not ended, by a history with the latest first. -/
def survivors : List (Nat × Note) → List Nat
  | [] => []
  | (_, .started k) :: past => survivors past ++ [k]
  | (_, .exited k _) :: past => (survivors past).filter (· ≠ k)
  | _ :: past => survivors past

/-- A tick of the event loop. -/
structure Tick where
  /-- The losses of its sweep, and those of them that were handed over. -/
  lost : List PeerEvent
  delivered : List PeerEvent
  /-- The clients that were tracked when all had been handed over. Nothing if it did not come to that. -/
  tracked? : Option (List Nat)
  deriving DecidableEq, Repr

namespace Tick

/-- Every loss was handed over. -/
def isDelivered (t : Tick) : Bool := t.delivered = t.lost

/-- The client was tracked then. -/
def tracks (t : Tick) (k : Nat) : Bool := t.tracked?.any (k ∈ ·)

/-- It came to the pings just when every loss was handed over. -/
def IsSettled (t : Tick) : Prop := t.tracked?.isSome ↔ t.isDelivered

theorem IsSettled.isDelivered_of_tracks {t : Tick} (h : t.IsSettled) (ht : t.tracks k) : t.isDelivered := by
  refine h.mp ?_
  obtain ⟨ks, hks, -⟩ := (Option.any_eq_true _ _).mp ht
  rw [hks]
  rfl

end Tick

/-- The ticks of a history, the latest first. -/
def ticksIn : List (Nat × Note) → List Tick
  | [] => []
  | (_, .swept) :: past => { lost := [], delivered := [], tracked? := none } :: ticksIn past
  | (_, .produced (.lost a i)) :: past =>
    (ticksIn past).modifyHead fun t => { t with lost := t.lost ++ [.lost a i] }
  | (_, .accepted (.lost a i)) :: past =>
    (ticksIn past).modifyHead fun t => { t with delivered := t.delivered ++ [.lost a i] }
  | (_, .round _) :: past => (ticksIn past).modifyHead fun t => { t with tracked? := some (survivors past) }
  | _ :: past => ticksIn past

/-! ## The ledger -/

/-- The pings of a run. -/
structure Ledger where
  /-- The pings that every client counts. -/
  counters : List Nat
  tracked : List Nat
  /-- The clients that were pinged, in order. -/
  told : List Nat
  /-- The ticks, the latest first. -/
  ticks : List Tick
  /-- The losses that the tick under way still has to hand over. Nothing if none is under way. -/
  due? : Option (List PeerEvent)

namespace Ledger

/-- How a ledger can go on. -/
inductive Step (l : Ledger) : Ledger → Prop
  | stay : Step l l
  | start : l.counters.length = k →
    Step l { l with counters := l.counters ++ [1], tracked := l.tracked ++ [k], told := l.told ++ [k] }
  | exit (k : Nat) : Step l { l with tracked := l.tracked.filter (· ≠ k) }
  | sweep (es : List PeerEvent) : l.due? = none →
    Step l { l with ticks := ⟨es, [], none⟩ :: l.ticks, due? := some es }
  | deliver : l.due? = some (e :: es) →
    Step l
      { l with
        ticks := l.ticks.modifyHead fun t => { t with delivered := t.delivered ++ [e] }
        due? := some es }
  | round : l.due? = some [] →
    Step l
      { l with
        counters := l.counters.mapIdx fun k n => n + l.tracked.count k
        told := l.told ++ l.tracked
        ticks := l.ticks.modifyHead fun t => { t with tracked? := some l.tracked }
        due? := none }
  | stop : l.due? ≠ some [] → Step l { l with due? := none }

theorem Step.rest {l : Ledger} (h : l.due? = none) : Step l { l with due? := none } :=
  .stop (by rw [h]; nofun)

/-! ## The invariant -/

/-- The latest tick has these losses still to hand over, and the others are settled. -/
structure Owes (ticks : List Tick) (es : List PeerEvent) (t : Tick) (ts : List Tick) : Prop where
  ticks : ticks = t :: ts
  lost : t.lost = t.delivered ++ es
  tracked : t.tracked? = none
  settled : ∀ t ∈ ts, t.IsSettled

theorem Owes.tracks {ticks ts : List Tick} {t : Tick} (h : Owes ticks es t ts) (k : Nat) :
    t.tracks k = false := by
  rw [Tick.tracks, h.tracked]
  rfl

theorem lt_succ_of_mem_concat {ks : List Nat} (h : ∀ k ∈ ks, k < n) : ∀ k ∈ ks ++ [n], k < n + 1 := by
  intro k hk
  rcases List.mem_append.mp hk with hk | hk
  · exact Nat.lt_succ_of_lt (h k hk)
  · exact Nat.lt_succ_of_le (Nat.le_of_eq (List.mem_singleton.mp hk))

/-- A client with a new number is counted once. -/
theorem count_concat_of_lt {ks : List Nat} (h : ∀ k ∈ ks, k < n) (k : Nat) :
    (ks ++ [n]).count k = if k = n then 1 else ks.count k := by
  rw [List.count_append]
  split
  · next hk =>
    rw [hk, List.count_eq_zero.mpr fun hmem => Nat.lt_irrefl _ (h n hmem), List.count_singleton_self]
  · next hk => rw [List.count_singleton, if_neg (by simpa using Ne.symm hk), Nat.add_zero]

structure Sound (l : Ledger) : Prop where
  distinct : l.tracked.Nodup
  /-- All is about clients that have been started. -/
  tracked : ∀ k ∈ l.tracked, k < l.counters.length
  told : ∀ k ∈ l.told, k < l.counters.length
  past : ∀ t ∈ l.ticks, ∀ k, t.tracks k → k < l.counters.length
  counters : ∀ (k : Nat) n, l.counters[k]? = some n → n = l.told.count k
  account : ∀ k < l.counters.length, l.told.count k = 1 + l.ticks.countP (·.tracks k)
  settled : l.due? = none → ∀ t ∈ l.ticks, t.IsSettled
  due : ∀ es, l.due? = some es → ∃ t ts, Owes l.ticks es t ts

namespace Sound

variable {l l' : Ledger} {e : PeerEvent} {es : List PeerEvent} {t : Tick} {ts : List Tick}

theorem start (h : l.Sound) : Sound
    { l with
      counters := l.counters ++ [1], tracked := l.tracked ++ [l.counters.length]
      told := l.told ++ [l.counters.length] } := by
  have hlength : (l.counters ++ [1]).length = l.counters.length + 1 := List.length_append
  have hfresh : l.counters.length ∉ l.tracked := fun hmem => Nat.lt_irrefl _ (h.tracked _ hmem)
  refine
    { h with
      distinct := List.nodup_append_comm.mp (List.nodup_cons.mpr ⟨hfresh, h.distinct⟩)
      tracked := hlength ▸ lt_succ_of_mem_concat h.tracked
      told := hlength ▸ lt_succ_of_mem_concat h.told
      past := fun t ht k htracks => hlength ▸ Nat.lt_succ_of_lt (h.past t ht k htracks)
      counters := fun k n hn => ?_
      account := fun k hk => ?_ }
  · change (l.counters ++ [1])[k]? = some n at hn
    rw [count_concat_of_lt h.told]
    split
    · next heq =>
      rw [heq, List.getElem?_concat_length, Option.some.injEq] at hn
      exact hn.symm
    · next hne =>
      have hlt := (List.getElem?_eq_some_iff.mp hn).1
      rw [hlength] at hlt
      rw [List.getElem?_append_left (Nat.lt_of_le_of_ne (Nat.le_of_lt_succ hlt) hne)] at hn
      exact h.counters k n hn
  · change k < (l.counters ++ [1]).length at hk
    rw [hlength] at hk
    rw [count_concat_of_lt h.told]
    split
    · next heq =>
      rw [heq, List.countP_eq_zero.mpr fun t ht htracks => Nat.lt_irrefl _ (h.past t ht _ htracks)]
    · next hne => exact h.account k (Nat.lt_of_le_of_ne (Nat.le_of_lt_succ hk) hne)

theorem deliver (h : l.Sound) (howes : Owes l.ticks (e :: es) t ts) : Sound
    { l with ticks := { t with delivered := t.delivered ++ [e] } :: ts, due? := some es } := by
  have hpast := h.past
  have haccount := h.account
  have hlost := howes.lost
  rw [howes.ticks] at hpast haccount
  rw [List.append_cons] at hlost
  exact
    { h with
      past := List.forall_mem_cons.mpr (List.forall_mem_cons.mp hpast)
      account := haccount
      settled := nofun
      due := fun es' hes => by
        cases hes
        exact ⟨_, ts, rfl, hlost, howes.tracked, howes.settled⟩ }

theorem round (h : l.Sound) (howes : Owes l.ticks [] t ts) : Sound
    { l with
      counters := l.counters.mapIdx fun k n => n + l.tracked.count k
      told := l.told ++ l.tracked
      ticks := { t with tracked? := some l.tracked } :: ts
      due? := none } := by
  have hpast := h.past
  have haccount := h.account
  have hlost := howes.lost
  rw [howes.ticks] at hpast haccount
  rw [List.append_nil] at hlost
  have hlength : (l.counters.mapIdx fun k n => n + l.tracked.count k).length = l.counters.length :=
    List.length_mapIdx
  refine
    { h with
      tracked := fun k hk => hlength ▸ h.tracked k hk
      told := fun k hk => hlength ▸ (List.mem_append.mp hk).elim (h.told k) (h.tracked k)
      past := List.forall_mem_cons.mpr ⟨fun k hk => ?_, fun u hu k hk => ?_⟩
      counters := fun k n hn => ?_
      account := fun k hk => ?_
      settled := fun _ => List.forall_mem_cons.mpr ⟨?_, howes.settled⟩
      due := nofun }
  · exact hlength ▸ h.tracked k (of_decide_eq_true hk)
  · exact hlength ▸ hpast u (List.mem_cons_of_mem _ hu) k hk
  · rw [List.getElem?_mapIdx, Option.map_eq_some_iff] at hn
    obtain ⟨n, hn, rfl⟩ := hn
    rw [List.count_append, h.counters k n hn]
  · have haccount := haccount k (hlength ▸ hk)
    rw [List.countP_cons, howes.tracks] at haccount
    rw [List.count_append, List.countP_cons, haccount, h.distinct.count]
    simp [Tick.tracks, Nat.add_assoc]
  · exact ⟨fun _ => decide_eq_true hlost.symm, fun _ => rfl⟩

theorem stop (h : l.Sound) (hdue : l.due? ≠ some []) : Sound { l with due? := none } := by
  refine { h with settled := fun _ => ?_, due := nofun }
  cases hd : l.due? with
  | none => exact h.settled hd
  | some es =>
    obtain ⟨t, ts, howes⟩ := h.due es hd
    change ∀ u ∈ l.ticks, u.IsSettled
    rw [howes.ticks]
    refine List.forall_mem_cons.mpr ⟨?_, howes.settled⟩
    have hes : es ≠ [] := fun hes => hdue (hes ▸ hd)
    rw [Tick.IsSettled, howes.tracked, Tick.isDelivered, howes.lost, decide_eq_true_iff]
    simp [hes]

theorem step (h : l.Sound) (hs : l.Step l') : l'.Sound := by
  cases hs with
  | stay => exact h
  | start hk => exact hk ▸ h.start
  | exit k =>
    exact
      { h with
        distinct := h.distinct.filter _
        tracked := fun j hj => h.tracked j (List.mem_of_mem_filter hj) }
  | sweep es hdue =>
    have hsettled := h.settled hdue
    exact
      { h with
        past := List.forall_mem_cons.mpr ⟨nofun, h.past⟩
        settled := nofun
        due := fun es' hes => by
          cases hes
          exact ⟨_, l.ticks, rfl, rfl, rfl, hsettled⟩ }
  | deliver hdue =>
    obtain ⟨t, ts, howes⟩ := h.due _ hdue
    rw [howes.ticks]
    exact h.deliver howes
  | round hdue =>
    obtain ⟨t, ts, howes⟩ := h.due _ hdue
    rw [howes.ticks]
    exact h.round howes
  | stop hdue => exact h.stop hdue

end Sound
end Ledger

/-! ## From runs to ledgers -/

/-- The losses that the tick under way still has to hand over. -/
def LoopPhase.due? : LoopPhase → Option (List PeerEvent)
  | reporting es true => some es
  | _ => none

/-- Ticks report losses, and messages discoveries. -/
def LoopPhase.Sorted : LoopPhase → Prop
  | reporting es atTick => ∀ e ∈ es, e.isDiscovered = !atTick
  | _ => True

theorem sorted_reporting (h : ∀ e ∈ es, e.isDiscovered = !atTick) : (Run.reporting es atTick).Sorted := by
  rw [Run.reporting]
  split
  · trivial
  · exact h

theorem due?_reporting : (Run.reporting es atTick).due? = if atTick then some es else none := by
  cases atTick <;> cases es <;> rfl

namespace Run

/-- The clients that were pinged, in order. -/
def pinged (r : Run) : List Nat := r.trace fun | .pinged k => some k | _ => none

/-- The ticks of a run, the latest first. -/
def tickLog (r : Run) : List Tick := ticksIn r.history

def ledger (r : Run) : Ledger where
  counters := r.manager.clients.map (·.pings)
  tracked := r.manager.tracked
  told := r.pinged
  ticks := r.tickLog
  due? := r.loop.due?

theorem Step.sorted {r r' : Run} (h : Step r a r') (hs : r.loop.Sorted) : r'.loop.Sorted := by
  cases h with
  | @tick es t _ _ hsweep =>
    obtain rfl : _ = es := congrArg Prod.fst hsweep
    rw [noteAll_eq]
    exact PeerTable.isDiscovered_of_mem_sweep
  | report hl =>
    rw [hl] at hs
    exact sorted_reporting fun e he => hs e (List.mem_cons_of_mem _ he)
  | ping =>
    rw [noteAll_eq]
    trivial
  | @observe m c event t _ _ _ ho =>
    obtain rfl : _ = event := congrArg Prod.fst ho
    rw [noteAll_eq]
    exact sorted_reporting PeerTable.isDiscovered_of_mem_toList
  | stopResting | refuse | pingsQueued | started => trivial
  | _ => exact hs

theorem survivors_noteAll (r : Run) {ns : List Note} (h : ∀ n ∈ ns, n matches .produced _ | .pinged _) :
    survivors (r.noteAll ns).history = survivors r.history := by
  induction ns generalizing r with
  | nil => rfl
  | cons n ns ih =>
    obtain ⟨hn, hns⟩ := List.forall_mem_cons.mp h
    refine (ih (r.note n) hns).trans ?_
    cases n with
    | produced | pinged => rfl
    | _ => contradiction

theorem tickLog_noteAll_lost (r : Run) {es : List PeerEvent} (h : ∀ e ∈ es, e.isDiscovered = false) :
    (r.noteAll (es.map .produced)).tickLog =
      r.tickLog.modifyHead fun t => { t with lost := t.lost ++ es } := by
  induction es generalizing r with
  | nil => cases hlog : r.tickLog <;> simp [noteAll, hlog]
  | cons e es ih =>
    obtain ⟨he, hes⟩ := List.forall_mem_cons.mp h
    refine (ih (r.note (.produced e)) hes).trans ?_
    cases e with
    | discovered => contradiction
    | lost =>
      refine (List.modifyHead_modifyHead ..).trans ?_
      simp [Function.comp_def, tickLog]

theorem tickLog_noteAll_discovered (r : Run) {es : List PeerEvent} (h : ∀ e ∈ es, e.isDiscovered) :
    (r.noteAll (es.map .produced)).tickLog = r.tickLog := by
  induction es generalizing r with
  | nil => rfl
  | cons e es ih =>
    obtain ⟨he, hes⟩ := List.forall_mem_cons.mp h
    refine (ih (r.note (.produced e)) hes).trans ?_
    cases e with
    | discovered => rfl
    | lost => contradiction

theorem tickLog_noteAll_pinged (r : Run) (ks : List Nat) :
    (r.noteAll (ks.map .pinged)).tickLog = r.tickLog := by
  induction ks generalizing r with
  | nil => rfl
  | cons k ks ih => exact ih (r.note (.pinged k))

theorem ledger_noteAll_produced (r : Run) (es : List PeerEvent) :
    (r.noteAll (es.map .produced)).ledger =
      { r.ledger with ticks := (r.noteAll (es.map .produced)).tickLog } := by
  have hpinged : (r.noteAll (es.map .produced)).pinged = r.pinged := by simp [pinged, trace_noteAll]
  rw [ledger, hpinged]
  generalize (r.noteAll (es.map .produced)).tickLog = ts
  rw [noteAll_eq]
  rfl

theorem ledger_noteAll_pinged (r : Run) (ks : List Nat) :
    (r.noteAll (ks.map .pinged)).ledger = { r.ledger with told := r.pinged ++ ks } := by
  have hpinged : (r.noteAll (ks.map .pinged)).pinged = r.pinged ++ ks := by
    rw [pinged, trace_noteAll, List.filterMap_map]
    exact congrArg _ List.filterMap_some
  rw [ledger, tickLog_noteAll_pinged, hpinged, noteAll_eq]
  rfl

/-- The entries are those of the clients that have been started and have not ended. -/
theorem Step.survivors {r r' : Run} (h : Step r a r') (ht : r.manager.Tracks)
    (hr : r.manager.tracked = Discovery.survivors r.history) :
    r'.manager.tracked = Discovery.survivors r'.history := by
  cases h with
  | tick | observe =>
    rw [survivors_noteAll _ (by simp), noteAll_eq]
    exact hr
  | ping =>
    rw [survivors_noteAll _ (by simp), noteAll_eq]
    exact Manager.tracked_ping.trans hr
  | @started n c t f k _ _ _ _ hk =>
    change (r.manager.withClient n t).tracked = Discovery.survivors r.history ++ [k]
    rw [← hr, ← hk]
    exact List.map_append
  | beginClient hb => exact (Manager.pings_begin hb).2.trans hr
  | exit he =>
    change _ = (Discovery.survivors r.history).filter _
    rw [← hr]
    exact Manager.tracked_exit ht he
  | _ => exact hr

theorem Step.ledger {r r' : Run} (h : Step r a r') (ht : r.manager.Tracks) (hsorted : r.loop.Sorted)
    (hr : r.manager.tracked = Discovery.survivors r.history) : r.ledger.Step r'.ledger := by
  have hrest {l : LoopPhase} (hl : r.loop = l) (hd : l.due? = none) : r.ledger.due? = none :=
    (congrArg LoopPhase.due? hl).trans hd
  cases h with
  | @tick es t hl _ hsweep =>
    obtain rfl : _ = es := congrArg Prod.fst hsweep
    rw [ledger_noteAll_produced, tickLog_noteAll_lost _ PeerTable.isDiscovered_of_mem_sweep]
    exact .sweep _ (hrest hl rfl)
  | @report e rest atTick c hl =>
    rw [hl] at hsorted
    cases atTick with
    | true =>
      cases e with
      | discovered => exact absurd (hsorted _ List.mem_cons_self) nofun
      | lost a i =>
        change r.ledger.Step
          { r.ledger with
            ticks := r.tickLog.modifyHead fun t => { t with delivered := t.delivered ++ [.lost a i] }
            due? := (reporting rest true).due? }
        rw [due?_reporting]
        exact .deliver (congrArg LoopPhase.due? hl)
    | false =>
      cases e with
      | lost => exact absurd (hsorted _ List.mem_cons_self) nofun
      | discovered a i =>
        change r.ledger.Step { r.ledger with due? := (reporting rest false).due? }
        rw [due?_reporting]
        exact .rest (hrest hl rfl)
  | stopResting hl => exact .rest (hrest hl rfl)
  | @refuse e rest atTick hl =>
    refine .stop ?_
    rw [Run.ledger, hl]
    cases atTick <;> nofun
  | ping hl =>
    rw [ledger_noteAll_pinged]
    change r.ledger.Step
      { r.ledger with
        counters := r.manager.ping.clients.map (·.pings)
        tracked := r.manager.ping.tracked
        told := r.pinged ++ r.manager.tracked
        ticks := r.tickLog.modifyHead fun t => { t with tracked? := some (Discovery.survivors r.history) }
        due? := none }
    rw [Manager.pings_ping, Manager.tracked_ping, ← hr]
    exact .round (congrArg LoopPhase.due? hl)
  | pingsQueued hl => exact .rest (hrest hl rfl)
  | @started n c t f k hl _ _ _ hk =>
    change r.ledger.Step
      { r.ledger with
        counters := ((r.manager.withClient n t).pingClient k).clients.map (·.pings)
        tracked := (r.manager.withClient n t).tracked
        told := ((r.note (.started k)).note (.pinged k)).pinged
        due? := none }
    rw [← hk, Manager.clients_started, List.map_append, Manager.tracked, Manager.withClient,
      List.map_append, pinged, trace_note, ← hrest hl rfl]
    exact .start (List.length_map _)
  | @observe m c event t hl _ _ ho =>
    obtain rfl : _ = event := congrArg Prod.fst ho
    rw [ledger_noteAll_produced, tickLog_noteAll_discovered _ PeerTable.isDiscovered_of_mem_toList]
    change r.ledger.Step
      { r.ledger with
        due? := (reporting (r.peers.observe m.remote m.interface r.now).1.toList false).due? }
    rw [due?_reporting]
    exact .rest (hrest hl rfl)
  | @beginClient _ m hb =>
    change r.ledger.Step
      { r.ledger with counters := m.clients.map (·.pings), tracked := m.tracked }
    rw [(Manager.pings_begin hb).1, (Manager.pings_begin hb).2]
    exact .stay
  | @exit k _ m he =>
    change r.ledger.Step
      { r.ledger with counters := m.clients.map (·.pings), tracked := m.tracked }
    rw [Manager.pings_exit he, Manager.tracked_exit ht he]
    exact .exit k
  | _ => exact .stay

def Action.isTick : Action → Bool
  | tick => true
  | _ => false

/-- Every tick is in the log. -/
theorem Step.length_tickLog {r r' : Run} (h : Step r a r') :
    r'.tickLog.length = r.tickLog.length + if a.isTick then 1 else 0 := by
  cases h with
  | @tick es t _ _ hsweep =>
    obtain rfl : _ = es := congrArg Prod.fst hsweep
    rw [tickLog_noteAll_lost _ PeerTable.isDiscovered_of_mem_sweep]
    exact List.length_modifyHead
  | @observe m c event t _ _ _ ho =>
    obtain rfl : _ = event := congrArg Prod.fst ho
    rw [tickLog_noteAll_discovered _ PeerTable.isDiscovered_of_mem_toList]
    rfl
  | @report e =>
    cases e with
    | discovered => rfl
    | lost => exact List.length_modifyHead
  | ping =>
    rw [tickLog_noteAll_pinged]
    exact List.length_modifyHead
  | _ => rfl

/-! ## The main statement -/

/-- How often the clients of a run after the steps `actions` have been pinged. -/
structure Accounted (actions : List Action) (r : Run) : Prop where
  /-- When the run has returned, every client has been pinged once at its start, and at the ticks at which
  it was tracked when every loss had been handed over. -/
  total : ∀ o, r.phase = .returned o → ∀ (k : Nat) c, r.manager.clients[k]? = some c →
    c.pings = 1 + r.tickLog.countP fun t => t.isDelivered && t.tracks k
  /-- No tick was left with all its losses handed over and the pings to come. -/
  settled : ∀ o, r.phase = .returned o → ∀ t ∈ r.tickLog, t.isDelivered ↔ t.tracked?.isSome
  /-- Before that every ping is accounted for as well. -/
  soFar : ∀ (k : Nat) c, r.manager.clients[k]? = some c →
    c.pings = r.pinged.count k ∧ c.pings = 1 + r.tickLog.countP (·.tracks k)
  ticks : r.tickLog.length = actions.countP Action.isTick
  /-- A client is tracked from its start until its run has ended, whatever it has been told. -/
  tracked : r.manager.tracked = survivors r.history
  /-- A start that fails pings nobody. -/
  failed : ∀ made r' n c, r.added.receive = some (n, c) →
    n ∈ r.manager.interfaces ∨ (∃ e, made = .error e) → r.step (.startNext made) = some r' →
      r'.manager = r.manager ∧ r'.pinged = r.pinged

theorem Step.of_failed {r r' : Run} (hc : r.added.receive = some (n, c))
    (hfail : n ∈ r.manager.interfaces ∨ ∃ e, made = .error e) (h : Step r (.startNext made) r') :
    r'.manager = r.manager ∧ r'.pinged = r.pinged := by
  cases h with
  | startRefused | startFailed => exact ⟨rfl, rfl⟩
  | started _ hadded hr =>
    obtain ⟨rfl, rfl⟩ := Prod.mk.inj (Option.some.inj (hc.symm.trans hadded))
    rcases hfail with hmem | ⟨e, he⟩
    · exact absurd hmem (Manager.not_mem_of_refusal? hr)
    · contradiction

/-- What the account of the pings rests on. -/
structure Counted (past : List Action) (r : Run) : Prop where
  sorted : r.loop.Sorted
  tracked : r.manager.tracked = survivors r.history
  ledger : r.ledger.Sound
  ticks : r.tickLog.length = past.countP Action.isTick

theorem Counted.step {r r' : Run} (h : Counted past r) (ht : r.manager.Tracks) (hs : Step r a r') :
    Counted (past ++ [a]) r' where
  sorted := hs.sorted h.sorted
  tracked := hs.survivors ht h.tracked
  ledger := h.ledger.step (hs.ledger ht h.sorted h.tracked)
  ticks := by
    rw [hs.length_tickLog, h.ticks, List.countP_append, List.countP_singleton]

theorem counted_of_steps {config : DiscoveryConfig} {r : Run}
    (h : (start config capacity).steps actions = some r) : Counted actions r := by
  refine (steps_induction (P := fun past r => Ending past r ∧ Counted past r)
    (fun _ _ _ _ hp hs => ⟨hp.1.step hs, hp.2.step hp.1.tracks hs⟩) ⟨.start config capacity, ?_⟩ h).2
  exact
    { sorted := trivial
      tracked := rfl
      ticks := rfl
      ledger :=
        { distinct := List.nodup_nil
          tracked := nofun
          told := nofun
          past := nofun
          counters := nofun
          account := nofun
          settled := fun _ => nofun
          due := nofun } }

/-- However the steps of a run come one after the other, its clients have been pinged at their starts and
by the ticks that found them tracked after all losses had been handed over, and never else. -/
theorem accounted_of_steps {config : DiscoveryConfig} {capacity : Nat} {actions : List Action} {r : Run}
    (h : (start config capacity).steps actions = some r) : r.Accounted actions := by
  have hcounted := counted_of_steps h
  have hledger := hcounted.ledger
  have hpings (k : Nat) c (hc : r.manager.clients[k]? = some c) :
      c.pings = r.pinged.count k ∧ c.pings = 1 + r.tickLog.countP (·.tracks k) := by
    have hlt : k < r.ledger.counters.length := by
      rw [Run.ledger, List.length_map]
      exact (List.getElem?_eq_some_iff.mp hc).1
    have hcounter : r.ledger.counters[k]? = some c.pings := by
      rw [Run.ledger, List.getElem?_map, hc]
      rfl
    have htold := hledger.counters k _ hcounter
    exact ⟨htold, htold.trans (hledger.account k hlt)⟩
  have hsettled o (hp : r.phase = .returned o) : ∀ t ∈ r.tickLog, t.IsSettled :=
    hledger.settled (congrArg LoopPhase.due? ((ending_of_steps h).isOver hp).loop)
  refine
    { total := fun o hp k c hc => ?_
      settled := fun o hp t ht => (hsettled o hp t ht).symm
      soFar := hpings
      ticks := hcounted.ticks
      tracked := hcounted.tracked
      failed := fun made r' n c hc hfail hs => (Step.of_step hs).of_failed hc hfail }
  rw [(hpings k c hc).2]
  refine congrArg (1 + ·) (List.countP_congr fun t ht => ?_)
  rw [Bool.and_eq_true]
  exact ⟨fun htracks => ⟨(hsettled o hp t ht).isDelivered_of_tracks htracks, htracks⟩, And.right⟩

/-- A client is told to stop and pinged once more before it ends, and its successor cannot be made. The
first loss of a peer waits for room on the channel, and the second one is refused. -/
def roundsOfPings : List Action :=
  let hello : Header := .make .ping .requestServer .broadcast 0 0
  let round : List Action := [.elapse 5000, .tick, .ping, .pingsQueued]
  [.scan (.ok [.usable "eth0", .usable "eth1"]), .announce, .startNext (.ok ()), .pingsQueued, .announce,
    .startNext (.ok ()), .pingsQueued, .beginClient 0, .beginClient 1] ++ round ++
    [.scan (.ok [.usable "eth0"]), .announce, .stopNext] ++ round ++
    [.exit 1 (.ok ()), .scan (.ok [.usable "eth0", .usable "eth1"]), .announce,
      .startNext (.error (.io "no socket")), .deliver 0 (greeting 1 hello), .observe, .report,
      .elapse 60000, .tick, .consume, .report, .ping, .pingsQueued,
      .deliver 0 (greeting 1 hello), .observe, .consume, .report, .elapse 60000, .tick,
      .cancel, .stopLoop, .stopDetector, .close, .exit 0 (.ok ()), .finish]

theorem accounted_roundsOfPings : ∃ r, (start .standard 1).steps roundsOfPings = some r ∧
    r.Accounted roundsOfPings ∧ (r.phase matches .returned _) ∧
      r.manager.clients.map (·.pings) = [4, 3] ∧
      r.tickLog.map (fun t => (t.isDelivered, t.tracked?)) =
        [(false, none), (true, some [0]), (true, some [0, 1]), (true, some [0, 1])] := by
  have hany : ((start .standard 1).steps roundsOfPings).any fun r =>
      (r.phase matches .returned _) ∧ r.manager.clients.map (·.pings) = [4, 3] ∧
        r.tickLog.map (fun t => (t.isDelivered, t.tracked?)) =
          [(false, none), (true, some [0]), (true, some [0, 1]), (true, some [0, 1])] := by
    decide +kernel
  obtain ⟨r, hr, hmatch⟩ := (Option.any_eq_true _ _).mp hany
  exact ⟨r, hr, accounted_of_steps hr, of_decide_eq_true hmatch⟩

end Run
end Discovery
end AmpLink
