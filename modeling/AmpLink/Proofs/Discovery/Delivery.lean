import AmpLink.Proofs.Discovery.Steps
import AmpLink.Proofs.Peers.History

/-!
# What becomes of the events

A sweep drops peers before their losses are handed over, and the event loop can end with some of them
left. `Delivery` is the part of a run that this concerns: every step of a run is a step of it or leaves
it alone (`Run.Step.delivery`). While the loop runs, what was accepted and what it still has to hand over
is what the table gave; it ends with the first event that is refused, so nothing is ever left out in
between (`Delivery.Sound`). The main statement is `Run.faithful_of_steps`.
-/

namespace AmpLink.Discovery

/-- The events that the loop still has to hand over. Nothing if it has ended. -/
def LoopPhase.pending? : LoopPhase → Option (List PeerEvent)
  | resting | pinging => some []
  | reporting es _ => some es
  | ended => none

theorem pending?_reporting : (Run.reporting es atTick).pending? = some es := by
  rw [Run.reporting]
  split
  · next h =>
    rw [Bool.and_eq_true, List.isEmpty_iff] at h
    rw [h.1]
    rfl
  · rfl

/-- The events on their way from the table to whoever takes them. -/
structure Delivery where
  peers : PeerTable
  pending? : Option (List PeerEvent)
  events : Channel PeerEvent
  produced : List PeerEvent
  accepted : List PeerEvent
  refused : List PeerEvent
  consumed : List PeerEvent

def Run.delivery (r : Run) : Delivery where
  peers := r.peers
  pending? := r.loop.pending?
  events := r.events
  produced := r.produced
  accepted := r.accepted
  refused := r.refused
  consumed := r.consumed

namespace Delivery

/-- How a delivery can go on. -/
inductive Step (d : Delivery) : Delivery → Prop
  | stay : Step d d
  | table (x : PeerTable.Action) : d.pending? = some [] → d.peers.step x = (es, t) →
    Step d { d with peers := t, pending? := some es, produced := d.produced ++ es }
  | accept : d.pending? = some (e :: rest) → Run.push? d.events e = some c →
    Step d { d with events := c, pending? := some rest, accepted := d.accepted ++ [e] }
  | stop : d.pending? = some [] → Step d { d with pending? := none }
  | refuse : d.pending? = some (e :: rest) →
    Step d { d with pending? := none, refused := d.refused ++ [e] }
  | consume : d.events.receive = some (e, c) →
    Step d { d with events := c, consumed := d.consumed ++ [e] }
  | close : Step d { d with events := d.events.close }

theorem Step.rest {d : Delivery} (h : d.pending? = some es) : Step d { d with pending? := some es } := by
  rw [← h]
  exact .stay

/-! ## The invariant -/

/-- What holds of every delivery that has begun with an empty table. -/
structure Sound (d : Delivery) : Prop where
  table : ∃ xs, PeerTable.empty.run xs = (d.produced, d.peers)
  sent : d.accepted ++ d.refused <+: d.produced
  pending : ∀ es, d.pending? = some es → d.refused = [] ∧ d.accepted ++ es = d.produced
  held : d.consumed ++ d.events.buffer <+: d.accepted
  isOpen : d.events.isOpen → d.consumed ++ d.events.buffer = d.accepted

theorem Sound.step {d d' : Delivery} (h : d.Sound) (hs : d.Step d') : d'.Sound := by
  cases hs with
  | stay => exact h
  | table x hp hx =>
    obtain ⟨xs, hxs⟩ := h.table
    obtain ⟨hrefused, hall⟩ := h.pending _ hp
    refine { h with table := ⟨xs ++ [x], ?_⟩, sent := ?_, pending := ?_ }
    · rw [PeerTable.run_concat, hxs, hx]
    · exact h.sent.trans (List.prefix_append ..)
    · intro es' hes
      cases hes
      rw [List.append_nil] at hall
      exact ⟨hrefused, by rw [hall]⟩
  | @accept e rest c hp hc =>
    obtain ⟨hrefused, hall⟩ := h.pending _ hp
    rw [List.append_cons] at hall
    obtain ⟨⟨hopen, -⟩, rfl⟩ := Run.push?_eq_some.mp hc
    have hbuf : d.consumed ++ (d.events.buffer ++ [e]) = d.accepted ++ [e] := by
      rw [← List.append_assoc, h.isOpen hopen]
    refine { h with sent := ?_, pending := ?_, held := ?_, isOpen := fun _ => hbuf }
    · rw [hrefused, List.append_nil]
      exact ⟨rest, hall⟩
    · intro es hes
      cases hes
      exact ⟨hrefused, hall⟩
    · exact hbuf ▸ List.prefix_rfl
  | stop hp => exact { h with pending := fun _ hes => by contradiction }
  | @refuse e rest hp =>
    obtain ⟨hrefused, hall⟩ := h.pending _ hp
    rw [List.append_cons] at hall
    refine { h with sent := ?_, pending := fun _ hes => by contradiction }
    rw [hrefused, List.nil_append]
    exact ⟨rest, hall⟩
  | consume hc =>
    obtain ⟨rest, hbuf, rfl⟩ := Run.receive_eq_some.mp hc
    have hheld := h.held
    have hopen := h.isOpen
    rw [hbuf, List.append_cons] at hheld hopen
    exact { h with held := hheld, isOpen := hopen }
  | close =>
    refine { h with held := ?_, isOpen := fun h => by contradiction }
    rw [Channel.close, List.append_nil]
    exact (List.prefix_append ..).trans h.held

/-- When an event was refused, nothing is sent any more. -/
theorem Step.of_refused {d d' : Delivery} (hp : d.pending? = none) (hs : d.Step d') :
    d'.pending? = none ∧ d'.accepted = d.accepted ∧ d'.refused = d.refused := by
  cases hs with
  | stay | consume | close => exact ⟨hp, rfl, rfl⟩
  | table _ hp' | accept hp' | stop hp' | refuse hp' =>
    rw [hp] at hp'
    contradiction

end Delivery

namespace Run

theorem delivery_noteAll_produced (r : Run) (es : List PeerEvent) :
    (r.noteAll (es.map .produced)).delivery = { r.delivery with produced := r.produced ++ es } := by
  have h : (r.noteAll (es.map .produced)).produced = r.produced ++ es := by
    rw [produced, trace_noteAll, List.filterMap_map]
    exact congrArg _ List.filterMap_some
  have h' (f : Note → Option PeerEvent) (hf : ∀ e, f (.produced e) = none) :
      (r.noteAll (es.map .produced)).trace f = r.trace f := by
    simp [trace_noteAll, hf]
  rw [delivery, h, accepted, refused, consumed, h' _ fun _ => rfl, h' _ fun _ => rfl,
    h' _ fun _ => rfl, noteAll_eq]
  rfl

theorem delivery_noteAll_pinged (r : Run) (ks : List Nat) :
    (r.noteAll (ks.map .pinged)).delivery = r.delivery := by
  have h (f : Note → Option PeerEvent) (hf : ∀ k, f (.pinged k) = none) :
      (r.noteAll (ks.map .pinged)).trace f = r.trace f := by
    simp [trace_noteAll, hf]
  rw [delivery, produced, accepted, refused, consumed, h _ fun _ => rfl, h _ fun _ => rfl,
    h _ fun _ => rfl, h _ fun _ => rfl, noteAll_eq]
  rfl

theorem Step.delivery {r r' : Run} (h : Step r a r') : r.delivery.Step r'.delivery := by
  cases h with
  | @tick es t hl _ hs =>
    rw [delivery_noteAll_produced]
    exact .table (.sweep _ _) (congrArg LoopPhase.pending? hl) hs
  | @observe m _ event t hl _ _ hs =>
    rw [delivery_noteAll_produced]
    change r.delivery.Step
      { r.delivery with
        peers := t, pending? := (reporting event.toList false).pending?
        produced := r.produced ++ event.toList }
    rw [pending?_reporting]
    refine .table (.observe m.remote m.interface r.now) (congrArg LoopPhase.pending? hl) ?_
    exact congrArg (fun p => (p.1.toList, p.2)) hs
  | @report e rest atTick c hl hc =>
    change r.delivery.Step
      { r.delivery with
        events := c, pending? := (reporting rest atTick).pending?
        accepted := (r.note (.accepted e)).accepted }
    rw [pending?_reporting, accepted, trace_note]
    exact .accept (congrArg LoopPhase.pending? hl) hc
  | stopResting hl => exact .stop (congrArg LoopPhase.pending? hl)
  | @refuse e _ _ hl =>
    change r.delivery.Step
      { r.delivery with pending? := none, refused := (r.note (.refused e)).refused }
    rw [refused, trace_note]
    exact .refuse (congrArg LoopPhase.pending? hl)
  | @consume e c hc =>
    change r.delivery.Step
      { r.delivery with events := c, consumed := (r.note (.consumed e)).consumed }
    rw [consumed, trace_note]
    exact .consume hc
  | closeEvents => exact .close
  | ping hl =>
    rw [delivery_noteAll_pinged]
    exact .rest (congrArg LoopPhase.pending? hl)
  | pingsQueued hl => exact .rest (congrArg LoopPhase.pending? hl)
  | started hl => exact .rest (congrArg LoopPhase.pending? hl)
  | _ => exact .stay

theorem sound_delivery {config : DiscoveryConfig} {r : Run}
    (h : (start config capacity).steps actions = some r) : r.delivery.Sound := by
  refine steps_induction (P := fun _ r => r.delivery.Sound)
    (fun _ _ _ _ hd hs => hd.step hs.delivery) ?_ h
  exact
    { table := ⟨[], rfl⟩
      sent := List.prefix_rfl
      pending := fun es hes => by cases hes; exact ⟨rfl, rfl⟩
      held := List.prefix_rfl
      isOpen := fun _ => rfl }

theorem steps_of_refused {r r' : Run} (hp : r.delivery.pending? = none)
    (h : r.steps later = some r') : r'.accepted = r.accepted ∧ r'.refused = r.refused := by
  refine (steps_induction (P := fun _ r' => r'.delivery.pending? = none ∧
    r'.accepted = r.accepted ∧ r'.refused = r.refused) ?_ ⟨hp, rfl, rfl⟩ h).2
  rintro _ s _ s' ⟨hp, ha, hr⟩ hs
  obtain ⟨hp', ha', hr'⟩ := hs.delivery.of_refused hp
  exact ⟨hp', ha'.trans ha, hr'.trans hr⟩

/-! ## The main statement -/

/-- How a run treats its events. -/
structure Faithful (r : Run) : Prop where
  /-- The events to be handed over are those that the table has given from the beginning. -/
  table : ∃ xs, PeerTable.empty.run xs = (r.produced, r.peers)
  /-- They are accepted in order and without gaps. -/
  accepted : r.accepted <+: r.produced
  /-- What is refused is the event that comes next. -/
  sent : r.accepted ++ r.refused <+: r.produced
  /-- After that no event is sent, whatever happens. -/
  refused : r.refused ≠ [] → ∀ later r', r.steps later = some r' →
    r'.accepted = r.accepted ∧ r'.refused = r.refused
  /-- A message without a header is taken, and nothing else happens. -/
  ignored : ∀ m c r', r.received.receive = some (m, c) → m.header = none → r.step .observe = some r' →
    r' = { r with received := c }
  /-- The receiver gets what was accepted, in order, and the channel holds back the rest. -/
  consumed : r.consumed <+: r.accepted
  held : r.events.isOpen → r.consumed ++ r.events.buffer = r.accepted
  /-- For the receiver every address is discovered and lost by turns, beginning with a discovery. -/
  alternates : ∀ a, Alternates (eventsOf a r.consumed)

/-- In every run, however its steps come one after the other, events are treated faithfully. -/
theorem faithful_of_steps {config : DiscoveryConfig} {capacity : Nat} {actions : List Action} {r : Run}
    (h : (start config capacity).steps actions = some r) : r.Faithful := by
  have hd := sound_delivery h
  have haccepted : r.accepted <+: r.produced := (List.prefix_append ..).trans hd.sent
  have hconsumed : r.consumed <+: r.accepted := (List.prefix_append ..).trans hd.held
  refine
    { table := hd.table
      accepted := haccepted
      sent := hd.sent
      refused := fun hr later r' hs => steps_of_refused ?_ hs
      ignored := fun m c r' hc hm hs => ?_
      consumed := hconsumed
      held := hd.isOpen
      alternates := fun a => ?_ }
  · cases hp : r.delivery.pending? with
    | none => rfl
    | some es => exact absurd (hd.pending es hp).1 hr
  · cases Step.of_step hs with
    | ignore _ hc' _ =>
      rw [hc, Option.some.injEq, Prod.mk.injEq] at hc'
      rw [hc'.2]
    | observe _ hc' hm' _ =>
      rw [hc, Option.some.injEq, Prod.mk.injEq] at hc'
      rw [← hc'.1, hm] at hm'
      contradiction
  · obtain ⟨xs, hxs⟩ := hd.table
    have halt := (PeerTable.explains_run_empty xs).alternates a
    rw [hxs] at halt
    exact halt.of_prefix ((hconsumed.trans haccepted).filter _)

/-- A message from a port, with a header or without. -/
def greeting (port : UInt16) (header : Option Header) : Message :=
  { header, data := [], remote := .broadcast port, interface := some "eth0", client := "eth0" }

/-- Two peers are discovered, with some noise in between, and fall silent one after the other. Whoever
takes the events goes away before the second loss. -/
def silence : List Action :=
  let hello : Header := .make .ping .requestServer .broadcast 0 0
  [.scan (.ok [.usable "eth0"]), .announce, .startNext (.ok ()), .pingsQueued, .beginClient 0,
    .deliver 0 (greeting 1 hello), .observe, .report, .elapse 20000, .deliver 0 (greeting 2 none),
    .deliver 0 (greeting 2 hello), .observe, .consume, .observe, .report, .elapse 20000, .tick, .consume,
    .report, .ping, .pingsQueued, .elapse 20000, .tick, .closeEvents, .stopLoop]

theorem faithful_silence : ∃ r, (start .standard 1).steps silence = some r ∧ r.Faithful ∧
    r.refused = [.lost (.broadcast 2) (some "eth0")] := by
  have hmap : ((start .standard 1).steps silence).map refused =
      some [.lost (.broadcast 2) (some "eth0")] := by decide +kernel
  obtain ⟨r, hr, hrefused⟩ := Option.map_eq_some_iff.mp hmap
  exact ⟨r, hr, faithful_of_steps hr, hrefused⟩

end Run
end AmpLink.Discovery
