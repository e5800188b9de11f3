import AmpLink.Proofs.Discovery.Shutdown
import Mathlib.Data.List.Chain

/-!
# How long a peer may be silent

Where nothing holds the event loop up, its ticks come at the multiples of their period. `Presence` is the
part of a run that one address has to do with: when it was heard last, whether its loss is still to be
reported, and what has been told of it. At a tick the address has been silent for at most the timeout, or
its loss is reported at that very tick (`Presence.Standing`). So messages and losses of an address follow one
another as they should (`Follows`). The main statement is `Run.timely_of_steps`.
-/

namespace AmpLink.Discovery

/-- What can be told of an address: a message from it was handled, or its loss was reported. -/
inductive Sign where
  | heard
  | lost
  deriving DecidableEq, Repr

def Note.sign? (a : SocketAddress) : Note → Option Sign
  | .heard b => if b = a then some .heard else none
  | .accepted (.lost b _) => if b = a then some .lost else none
  | _ => none

/-- The first tick at which an address that was heard at `s` has been silent for too long. -/
structure IsDeadline (period timeout s t : Nat) : Prop where
  tick : period ∣ t
  late : s + timeout < t
  first : ∀ u, period ∣ u → s + timeout < u → t ≤ u
  within : t ≤ s + timeout + period

namespace IsDeadline

theorem of_le (ht : period ∣ t) (hlate : s + timeout < t) (hle : t ≤ s + timeout + period) :
    IsDeadline period timeout s t where
  tick := ht
  late := hlate
  first u hu hlt := by
    obtain ⟨k, rfl⟩ := ht
    obtain ⟨j, rfl⟩ := hu
    refine Nat.mul_le_mul_left period (Nat.le_of_lt_succ (Nat.lt_of_mul_lt_mul_left (a := period) ?_))
    rw [Nat.mul_succ]
    omega
  within := hle

theorem le (h : IsDeadline period timeout s t) (hu : period ∣ u) (hle : u ≤ s + timeout + period) :
    u ≤ t := by
  rcases Nat.lt_or_ge (s + timeout) u with hlt | hge
  · exact (of_le hu hlt hle).first t h.tick h.late
  · exact Nat.le_trans hge (Nat.le_of_lt h.late)

theorem exists_of_pos (hp : 0 < period) (timeout s : Nat) : ∃ t, IsDeadline period timeout s t := by
  have hmod := Nat.mod_lt (s + timeout) hp
  have hdiv := Nat.div_add_mod (s + timeout) period
  refine ⟨period * ((s + timeout) / period + 1), of_le (Nat.dvd_mul_right ..) ?_ ?_⟩
  all_goals
    rw [Nat.mul_succ]
    omega

end IsDeadline

/-- What may be told of an address after a message from it or after its loss. A message that comes in time
puts off the loss. -/
inductive Follows (period timeout : Nat) : Nat × Sign → Nat × Sign → Prop
  | lost : IsDeadline period timeout s t → Follows period timeout (s, .heard) (t, .lost)
  | again : IsDeadline period timeout s t → s ≤ s' → s' ≤ t →
    Follows period timeout (s, .heard) (s', .heard)
  | back : t ≤ s → Follows period timeout (t, .lost) (s, .heard)

/-- How many of the events are losses of an address. -/
def lossesOf (a : SocketAddress) (es : List PeerEvent) : Nat :=
  (eventsOf a es).countP (!·.isDiscovered)

/-- What a run has to do with one address. -/
structure Presence where
  now : Nat
  ticks : Ticker
  timeout : Nat
  lastSeen? : Option Nat
  /-- The losses that the loop still has to hand over. Nothing if it has ended. -/
  due? : Option Nat
  ticked : List Nat
  signs : List (Nat × Sign)

namespace Presence

/-- How things can go on if nothing holds up the loop. -/
inductive Step (s : Presence) : Presence → Prop
  | stay : Step s s
  | elapse (ms : Nat) : (∀ n, s.due? = some n → n = 0 ∧ s.now + ms ≤ s.ticks.next) →
    Step s { s with now := s.now + ms }
  | tick : s.due? = some 0 → s.ticks.isDue s.now →
    Step s
      { s with
        ticks := s.ticks.take s.now
        lastSeen? := s.lastSeen?.filter fun t => s.now ≤ t + s.timeout
        due? := some (s.lastSeen?.filter fun t => t + s.timeout < s.now).toList.length
        ticked := s.ticked ++ [s.now] }
  | hear : s.due? = some 0 →
    Step s { s with lastSeen? := some s.now, signs := s.signs ++ [(s.now, .heard)] }
  | report : s.due? = some (n + 1) →
    Step s { s with due? := some n, signs := s.signs ++ [(s.now, .lost)] }
  | stop : Step s { s with due? := none }

theorem Step.rest {s : Presence} (h : s.due? = some n) : Step s { s with due? := some n } := by
  rw [← h]
  exact .stay

/-! ## The invariant -/

/-- How an address stands while the loop runs, with the number of losses to be handed over. -/
inductive Standing (period timeout : Nat) (s : Presence) : Nat → Prop
  | tracked : s.lastSeen? = some t → s.signs.getLast? = some (t, .heard) →
    s.ticks.next ≤ t + timeout + period → Standing period timeout s 0
  | owed : s.lastSeen? = none → s.signs.getLast? = some (t, .heard) →
    IsDeadline period timeout t s.now → Standing period timeout s 1
  | gone : s.lastSeen? = none → (∀ x ∈ s.signs.getLast?, x.2 = .lost) → Standing period timeout s 0

structure Kept (period timeout : Nat) (s : Presence) : Prop where
  ticker : s.ticks.period = period
  limit : s.timeout = timeout
  ticks : ∃ n, s.ticked = (List.range n).map (fun k => (k + 1) * period) ∧
    s.ticks.next = (n + 1) * period
  now : s.due?.isSome → s.now ≤ s.ticks.next
  next : s.ticks.next ≤ s.now + period
  begins : ∀ x ∈ s.signs.head?, x.2 = .heard
  follows : s.signs.IsChain (Follows period timeout)
  past : ∀ x ∈ s.signs.getLast?, x.1 ≤ s.now
  standing : ∀ n, s.due? = some n → Standing period timeout s n

namespace Kept

variable {period timeout : Nat} {s s' : Presence}

theorem dvd_next (h : Kept period timeout s) : period ∣ s.ticks.next := by
  obtain ⟨n, -, hn⟩ := h.ticks
  rw [hn]
  exact Nat.dvd_mul_left ..

theorem elapse (h : Kept period timeout s) (ms : Nat)
    (hms : ∀ n, s.due? = some n → n = 0 ∧ s.now + ms ≤ s.ticks.next) :
    Kept period timeout { s with now := s.now + ms } where
  ticker := h.ticker
  limit := h.limit
  ticks := h.ticks
  now hd := by
    obtain ⟨n, hn⟩ := Option.isSome_iff_exists.mp hd
    exact (hms n hn).2
  next := by
    have hnext := h.next
    simp only
    omega
  begins := h.begins
  follows := h.follows
  past x hx := Nat.le_add_right_of_le (h.past x hx)
  standing n hn := by
    obtain ⟨rfl, -⟩ := hms n hn
    cases h.standing 0 hn with
    | tracked hseen hlast hnext => exact .tracked hseen hlast hnext
    | gone hseen hlast => exact .gone hseen hlast

theorem tick (h : Kept period timeout s) (hd : s.due? = some 0) (hdue : s.ticks.isDue s.now) :
    Kept period timeout
      { s with
        ticks := s.ticks.take s.now
        lastSeen? := s.lastSeen?.filter fun t => s.now ≤ t + s.timeout
        due? := some (s.lastSeen?.filter fun t => t + s.timeout < s.now).toList.length
        ticked := s.ticked ++ [s.now] } := by
  -- the tick is not late, since time does not pass it while the loop runs
  have hnow : s.now = s.ticks.next :=
    Nat.le_antisymm (h.now (by rw [hd]; rfl)) (of_decide_eq_true hdue)
  have htake : (s.ticks.take s.now).next = s.ticks.next + period := by
    rw [Ticker.take, h.ticker, hnow, if_neg (Nat.not_lt.mpr (Nat.le_add_right ..))]
  have hnext := h.next
  obtain ⟨n, hticked, hn⟩ := h.ticks
  refine
    { ticker := h.ticker
      limit := h.limit
      ticks := ⟨n + 1, ?_, ?_⟩
      now := fun _ => ?_
      next := ?_
      begins := h.begins
      follows := h.follows
      past := h.past
      standing := fun k hk => ?_ }
  · rw [List.range_succ, List.map_append, hticked, hnow, hn]
    rfl
  · rw [htake, hn, Nat.succ_mul (n + 1)]
  · simp only [htake]
    omega
  · rw [htake]
    exact Nat.add_le_add_right (Nat.le_of_eq hnow.symm) period
  · cases hk
    rw [h.limit]
    cases h.standing 0 hd with
    | @tracked t hseen hlast hle =>
      rcases Nat.lt_or_ge (t + timeout) s.now with hlt | hge
      · have hgone : ¬ s.now ≤ t + timeout := Nat.not_le.mpr hlt
        simp only [hseen, Option.filter_some, decide_eq_true_eq, hlt, if_pos]
        refine .owed (t := t) (by simp [hgone]) hlast (.of_le (hnow ▸ h.dvd_next) hlt ?_)
        rwa [hnow]
      · have hkept : ¬ t + timeout < s.now := Nat.not_lt.mpr hge
        simp only [hseen, Option.filter_some, decide_eq_true_eq, hkept, if_false]
        refine .tracked (t := t) (by simp [hge]) hlast ?_
        simp only [htake]
        omega
    | gone hseen hlast =>
      rw [hseen]
      exact .gone rfl hlast

/-- Something is told of the address. -/
theorem tell (h : Kept period timeout s) (sign : Sign)
    (hbegins : s.signs = [] → sign = .heard)
    (hfollows : ∀ x ∈ s.signs.getLast?, Follows period timeout x (s.now, sign))
    (hstanding : ∀ n, owed? = some n → Standing period timeout
      { s with lastSeen? := seen?, due? := owed?, signs := s.signs ++ [(s.now, sign)] } n)
    (howed : owed?.isSome → s.due?.isSome) :
    Kept period timeout
      { s with lastSeen? := seen?, due? := owed?, signs := s.signs ++ [(s.now, sign)] } where
  ticker := h.ticker
  limit := h.limit
  ticks := h.ticks
  now hd := h.now (howed hd)
  next := h.next
  begins x hx := by
    cases hs : s.signs with
    | nil =>
      simp only [hs, List.nil_append, List.head?_cons, Option.mem_some] at hx
      rw [← hx]
      exact hbegins hs
    | cons y ys =>
      simp only [hs, List.cons_append, List.head?_cons, Option.mem_some] at hx
      exact h.begins x (by rw [hs, List.head?_cons, hx]; rfl)
  follows := by
    rw [List.isChain_append]
    refine ⟨h.follows, List.isChain_singleton _, fun x hx y hy => ?_⟩
    cases hy
    exact hfollows x hx
  past x hx := by
    rw [List.getLast?_append, List.getLast?_singleton, Option.some_or, Option.mem_some] at hx
    exact Nat.le_of_eq (congrArg Prod.fst hx.symm)
  standing := hstanding

theorem hear (h : Kept period timeout s) (hp : 0 < period) (hd : s.due? = some 0) :
    Kept period timeout
      { s with lastSeen? := some s.now, signs := s.signs ++ [(s.now, .heard)] } := by
  have hnow := h.now (by rw [hd]; rfl)
  have hnext := h.next
  refine h.tell .heard (fun _ => rfl) (fun x hx => ?_) (fun n hn => ?_) id
  · have hx' := h.past x hx
    cases h.standing 0 hd with
    | tracked _ hlast hle =>
      rw [hlast] at hx
      cases hx
      obtain ⟨t, ht⟩ := IsDeadline.exists_of_pos hp timeout _
      exact .again ht hx' (Nat.le_trans hnow (ht.le h.dvd_next hle))
    | gone _ hlast =>
      obtain ⟨t, sign⟩ := x
      have hsign := hlast _ hx
      subst hsign
      exact .back hx'
  · rw [hd, Option.some.injEq] at hn
    subst hn
    refine .tracked rfl (by simp) ?_
    simp only
    omega

theorem report (h : Kept period timeout s) (hd : s.due? = some (n + 1)) :
    Kept period timeout
      { s with due? := some n, signs := s.signs ++ [(s.now, .lost)] } := by
  cases h.standing _ hd with
  | owed hseen hlast hdeadline =>
    refine h.tell .lost (fun hs => ?_) (fun x hx => ?_) (fun m hm => ?_) fun _ => by rw [hd]; rfl
    · rw [hs] at hlast
      contradiction
    · rw [hlast] at hx
      cases hx
      exact .lost hdeadline
    · cases hm
      exact .gone hseen (by simp)

theorem step (h : Kept period timeout s) (hp : 0 < period) (hs : s.Step s') :
    Kept period timeout s' := by
  cases hs with
  | stay => exact h
  | elapse ms hms => exact h.elapse ms hms
  | tick hd hdue => exact h.tick hd hdue
  | hear hd => exact h.hear hp hd
  | report hd => exact h.report hd
  | stop => exact { h with now := nofun, standing := nofun }

end Kept
end Presence

/-! ## From runs to presences -/

theorem lossesOf_cons : lossesOf a (e :: es) = lossesOf a [e] + lossesOf a es := by
  rw [lossesOf, ← List.singleton_append, eventsOf_append, List.countP_append]
  rfl

theorem sign?_accepted : (Note.accepted e).sign? a = if lossesOf a [e] = 0 then none else some .lost := by
  cases e with
  | discovered b i => by_cases h : b = a <;> simp [Note.sign?, lossesOf, eventsOf, PeerEvent.address,
      PeerEvent.isDiscovered, h]
  | lost b i => by_cases h : b = a <;> simp [Note.sign?, lossesOf, eventsOf, PeerEvent.address,
      PeerEvent.isDiscovered, h]

theorem lossesOf_singleton_le (a : SocketAddress) (e : PeerEvent) : lossesOf a [e] ≤ 1 :=
  Nat.le_trans List.countP_le_length (List.length_filter_le ..)

theorem lossesOf_observe {t : PeerTable} : lossesOf a (t.observe b i now).1.toList = 0 := by
  refine List.countP_eq_zero.mpr fun e he => ?_
  rw [PeerTable.isDiscovered_of_mem_observe (Option.mem_toList.mp (List.mem_filter.mp he).1)]
  exact Bool.false_ne_true

theorem lossesOf_sweep {t : PeerTable} : lossesOf a (t.sweep now timeout).1 =
    (((t.find? a).map Peer.lastSeen).filter fun s => s + timeout < now).toList.length := by
  rw [lossesOf, PeerTable.eventsOf_sweep]
  cases t.find? a with
  | none => rfl
  | some p =>
    have hexpired : p.isExpired now timeout = decide (p.lastSeen + timeout < now) :=
      decide_eq_decide.mpr (by omega)
    by_cases h : p.lastSeen + timeout < now <;>
      simp [Option.filter, hexpired, h, PeerTable.lossOf, PeerEvent.isDiscovered]

theorem lastSeen_sweep {t : PeerTable} : ((t.sweep now timeout).2.find? a).map Peer.lastSeen =
    ((t.find? a).map Peer.lastSeen).filter fun s => now ≤ s + timeout := by
  rw [PeerTable.find?_sweep]
  cases t.find? a with
  | none => rfl
  | some p =>
    have hexpired : (!p.isExpired now timeout) = decide (now ≤ p.lastSeen + timeout) := by
      rw [Peer.isExpired, ← decide_not]
      exact decide_eq_decide.mpr (by omega)
    by_cases h : now ≤ p.lastSeen + timeout <;> simp [Option.filter, hexpired, h]

namespace Run

/-- What is told of an address, in order, each with its instant. -/
def signs (r : Run) (a : SocketAddress) : List (Nat × Sign) := r.timed (Note.sign? a)

/-- The instants of the ticks. -/
def ticked (r : Run) : List Nat := (r.timed fun | .swept => some () | _ => none).map (·.1)

def presence (r : Run) (a : SocketAddress) : Presence where
  now := r.now
  ticks := r.ticks
  timeout := r.config.peerTimeout.toNat
  lastSeen? := (r.peers.find? a).map Peer.lastSeen
  due? := r.loop.pending?.map (lossesOf a)
  ticked := r.ticked
  signs := r.signs a

theorem exists_due {r : Run} (hl : r.loop ≠ .ended) (a : SocketAddress) :
    ∃ n, (r.presence a).due? = some n := by
  rw [presence]
  cases hloop : r.loop with
  | ended => exact absurd hloop hl
  | _ => exact ⟨_, rfl⟩

/-- Time goes by only while the event loop has nothing to do: no consumer and no client holds it up, and
it takes a tick when that is due. -/
def isPrompt (r : Run) : Action → Bool
  | .elapse ms => r.loop = .ended || (r.loop = .resting && r.now + ms ≤ r.ticks.next)
  | _ => true

theorem signs_note (r : Run) (n : Note) :
    (r.note n).signs a = r.signs a ++ ((n.sign? a).map (r.now, ·)).toList := timed_note ..

theorem presence_note_swept (r : Run) : (r.note .swept).presence a =
    { r.presence a with ticked := r.ticked ++ [r.now] } := by
  rw [presence, ticked, timed_note, signs_note]
  simp [Note.sign?, presence, ticked, Run.note]

theorem presence_noteAll_pinged (r : Run) (ks : List Nat) :
    (r.noteAll (ks.map .pinged)).presence a = r.presence a := by
  have h {α : Type} (f : Note → Option α) (hf : ∀ k, f (.pinged k) = none) :
      (r.noteAll (ks.map .pinged)).timed f = r.timed f := by
    simp [timed_noteAll, hf]
  rw [presence, ticked, signs, h _ fun _ => rfl, h _ fun _ => rfl, noteAll_eq]
  rfl

theorem presence_noteAll_produced (r : Run) (es : List PeerEvent) :
    (r.noteAll (es.map .produced)).presence a = r.presence a := by
  have h {α : Type} (f : Note → Option α) (hf : ∀ e, f (.produced e) = none) :
      (r.noteAll (es.map .produced)).timed f = r.timed f := by
    simp [timed_noteAll, hf]
  rw [presence, ticked, signs, h _ fun _ => rfl, h _ fun _ => rfl, noteAll_eq]
  rfl

theorem Step.presence {r r' : Run} (h : Step r x r') (hx : r.isPrompt x) (a : SocketAddress) :
    (r.presence a).Step (r'.presence a) := by
  have hdue {es : List PeerEvent} (hp : r.loop.pending? = some es) : (r.presence a).due? = some (lossesOf a es) :=
    congrArg (Option.map (lossesOf a)) hp
  cases h with
  | elapse ms =>
    refine .elapse ms fun n hn => ?_
    simp only [isPrompt, Bool.or_eq_true, Bool.and_eq_true, decide_eq_true_eq] at hx
    rcases hx with hl | ⟨hl, hle⟩
    · rw [Run.presence, hl] at hn
      contradiction
    · rw [hdue (congrArg LoopPhase.pending? hl)] at hn
      cases hn
      exact ⟨rfl, hle⟩
  | @tick es t hl hdue' hs =>
    obtain rfl : _ = es := congrArg Prod.fst hs
    obtain rfl : _ = t := congrArg Prod.snd hs
    rw [presence_noteAll_produced, presence_note_swept]
    change (r.presence a).Step
      { r.presence a with
        ticks := r.ticks.take r.now
        lastSeen? := ((r.peers.sweep r.now r.config.peerTimeout.toNat).2.find? a).map Peer.lastSeen
        due? := some (lossesOf a (r.peers.sweep r.now r.config.peerTimeout.toNat).1)
        ticked := r.ticked ++ [r.now] }
    rw [lastSeen_sweep, lossesOf_sweep]
    exact .tick (hdue (congrArg LoopPhase.pending? hl)) hdue'
  | @report e rest atTick c hl hc =>
    have hpending := hdue (congrArg LoopPhase.pending? hl)
    change (r.presence a).Step
      { r.presence a with
        due? := (reporting rest atTick).pending?.map (lossesOf a)
        signs := (r.note (.accepted e)).signs a }
    rw [pending?_reporting, signs_note, sign?_accepted, Option.map_some]
    rw [lossesOf_cons] at hpending
    split
    · next hzero =>
      rw [hzero, Nat.zero_add] at hpending
      rw [Option.map_none, Option.toList_none, List.append_nil]
      exact .rest hpending
    · next hpos =>
      have hone := lossesOf_singleton_le a e
      obtain hone : lossesOf a [e] = 1 := by omega
      rw [hone, Nat.add_comm] at hpending
      exact .report hpending
  | stopResting | refuse => exact .stop
  | ping hl =>
    rw [presence_noteAll_pinged]
    exact .rest (hdue (congrArg LoopPhase.pending? hl))
  | pingsQueued hl => exact .rest (hdue (congrArg LoopPhase.pending? hl))
  | started hl => exact .rest (hdue (congrArg LoopPhase.pending? hl))
  | @observe m _ event t hl _ _ hs =>
    obtain rfl : _ = event := congrArg Prod.fst hs
    obtain rfl : _ = t := congrArg Prod.snd hs
    rw [presence_noteAll_produced]
    change (r.presence a).Step
      { r.presence a with
        lastSeen? := ((r.peers.observe m.remote m.interface r.now).2.find? a).map Peer.lastSeen
        due? := (reporting (r.peers.observe m.remote m.interface r.now).1.toList false).pending?.map
          (lossesOf a)
        signs := (r.note (.heard m.remote)).signs a }
    rw [pending?_reporting, signs_note, Option.map_some, lossesOf_observe]
    by_cases ha : m.remote = a
    · subst ha
      rw [PeerTable.find?_observe_self, Note.sign?, if_pos rfl]
      have hzero : (r.presence m.remote).due? = some 0 := hdue (congrArg LoopPhase.pending? hl)
      rw [← hzero]
      exact .hear hzero
    · rw [PeerTable.find?_observe_of_ne (Ne.symm ha), Note.sign?, if_neg ha]
      rw [Option.map_none, Option.toList_none, List.append_nil]
      exact .rest (hdue (congrArg LoopPhase.pending? hl))
  | _ => exact .stay

theorem kept_of_steps {config : DiscoveryConfig} {r : Run} (hp : 0 < config.pingInterval.toNat)
    (hprompt : (start config capacity).along isPrompt actions)
    (h : (start config capacity).steps actions = some r) (a : SocketAddress) :
    (r.presence a).Kept config.pingInterval.toNat config.peerTimeout.toNat := by
  refine along_induction (P := fun r => (r.presence a).Kept config.pingInterval.toNat
    config.peerTimeout.toNat) (fun _ _ _ hk hx hs => hk.step hp (hs.presence hx a)) ?_ hprompt h
  exact
    { ticker := rfl
      limit := rfl
      ticks := ⟨0, rfl, (Nat.one_mul _).symm⟩
      now := fun _ => Nat.zero_le _
      next := Nat.le_add_left ..
      begins := nofun
      follows := .nil
      past := nofun
      standing := fun n hn => by cases hn; exact .gone rfl nofun }

/-! ## The main statement -/

/-- How a run whose event loop is not held up treats silence. -/
structure Timely (config : DiscoveryConfig) (r : Run) : Prop where
  /-- The ticks come at the multiples of the ping interval, and none is left out while the loop runs. -/
  ticks : ∃ n, r.ticked = (List.range n).map (fun k => (k + 1) * config.pingInterval.toNat) ∧
    (r.loop ≠ .ended → r.now ≤ (n + 1) * config.pingInterval.toNat)
  /-- The table has the instant of the latest message. -/
  seen : r.loop ≠ .ended → ∀ p ∈ r.peers.peers,
    (r.signs p.address).getLast? = some (p.lastSeen, .heard)
  /-- Once a tick has been handled, every peer has been silent for at most the timeout. -/
  swept : r.loop ≠ .ended → r.now ∈ r.ticked → ∀ p ∈ r.peers.peers,
    r.now - p.lastSeen ≤ config.peerTimeout.toNat
  silent : r.loop ≠ .ended → ∀ p ∈ r.peers.peers,
    r.now - p.lastSeen ≤ config.peerTimeout.toNat + config.pingInterval.toNat
  /-- Of every address, messages and losses are told as they may follow one another, … -/
  begins : ∀ a, ∀ x ∈ (r.signs a).head?, x.2 = .heard
  follows : ∀ a, (r.signs a).IsChain (Follows config.pingInterval.toNat config.peerTimeout.toNat)
  /-- … and while the loop runs no deadline passes without the loss or another message. -/
  due : r.loop ≠ .ended → ∀ a s, (r.signs a).getLast? = some (s, .heard) →
    ∃ t, IsDeadline config.pingInterval.toNat config.peerTimeout.toNat s t ∧ r.now ≤ t
  /-- The loop runs unless the run is cancelled or nobody takes events any more. -/
  running : r.isCancelled = false → r.events.isOpen → r.loop ≠ .ended

/-- A peer of the table was heard last when it says, and its silence is bounded by the next tick. -/
theorem tracked_of_kept {r : Run} (h : (r.presence p.address).Kept period timeout)
    (hl : r.loop ≠ .ended) (hp : p ∈ r.peers.peers) :
    (r.signs p.address).getLast? = some (p.lastSeen, .heard) ∧
      r.ticks.next ≤ p.lastSeen + timeout + period := by
  obtain ⟨n, hdue⟩ := exists_due hl p.address
  have hseen : (r.presence p.address).lastSeen? = some p.lastSeen :=
    congrArg (Option.map Peer.lastSeen) (PeerTable.find?_eq_some_iff.mpr ⟨hp, rfl⟩)
  cases h.standing _ hdue with
  | tracked hseen' hlast hle =>
    rw [hseen, Option.some.injEq] at hseen'
    rw [hseen']
    exact ⟨hlast, hle⟩
  | owed hnone | gone hnone =>
    rw [hseen] at hnone
    contradiction

theorem due_of_kept {r : Run} (h : (r.presence a).Kept period timeout) (hp : 0 < period)
    (hl : r.loop ≠ .ended) (hlast : (r.signs a).getLast? = some (s, .heard)) :
    ∃ t, IsDeadline period timeout s t ∧ r.now ≤ t := by
  obtain ⟨n, hdue⟩ := exists_due hl a
  have hnow : r.now ≤ r.ticks.next := h.now (by rw [hdue]; rfl)
  cases h.standing _ hdue with
  | tracked _ hlast' hle =>
    cases hlast.symm.trans hlast'
    obtain ⟨t, ht⟩ := IsDeadline.exists_of_pos hp timeout s
    exact ⟨t, ht, Nat.le_trans hnow (ht.le h.dvd_next hle)⟩
  | owed _ hlast' hdeadline =>
    cases hlast.symm.trans hlast'
    exact ⟨_, hdeadline, Nat.le_refl _⟩
  | gone _ hgone =>
    have hlost := hgone _ hlast
    contradiction

/-- Whatever messages come, a run whose event loop is not held up keeps track of silence in time. -/
theorem timely_of_steps {config : DiscoveryConfig} {capacity : Nat} {actions : List Action} {r : Run}
    (hp : 0 < config.pingInterval.toNat)
    (hprompt : (start config capacity).along isPrompt actions)
    (h : (start config capacity).steps actions = some r) : r.Timely config := by
  have hk := kept_of_steps hp hprompt h
  obtain ⟨n, hticked, hnext⟩ := (hk (.broadcast 0)).ticks
  have hnow (hl : r.loop ≠ .ended) : r.now ≤ r.ticks.next := by
    obtain ⟨m, hdue⟩ := exists_due hl (.broadcast 0)
    exact (hk (.broadcast 0)).now (by rw [hdue]; rfl)
  refine
    { ticks := ⟨n, hticked, fun hl => hnext ▸ hnow hl⟩
      seen := fun hl p hmem => (tracked_of_kept (hk _) hl hmem).1
      swept := fun hl hmem p hp' => ?_
      silent := fun hl p hp' => ?_
      begins := fun a => (hk a).begins
      follows := fun a => (hk a).follows
      due := fun hl a s => due_of_kept (hk a) hp hl
      running := fun hc ho hl => ?_ }
  · have hle := (tracked_of_kept (hk _) hl hp').2
    have hlast : r.now + config.pingInterval.toNat ≤ r.ticks.next := by
      change r.now ∈ (r.presence (.broadcast 0)).ticked at hmem
      rw [hticked] at hmem
      obtain ⟨k, hk', hnow⟩ := List.mem_map.mp hmem
      change r.ticks.next = _ at hnext
      rw [hnext, ← hnow, Nat.succ_mul n]
      exact Nat.add_le_add_right (Nat.mul_le_mul_right _ (List.mem_range.mp hk')) _
    omega
  · have hle := (tracked_of_kept (hk _) hl hp').2
    have hnow := hnow hl
    omega
  · have hf := followed_of_steps h
    rcases hf.loop hl with hstopped | ⟨-, hclosed⟩
    · rw [hf.isCancelled_iff.mpr hstopped] at hc
      contradiction
    · rw [ho] at hclosed
      contradiction

/-- Ticks every ten milliseconds, and a timeout of two of them. -/
def shortLived : DiscoveryConfig := { DiscoveryConfig.standard with pingInterval := 10, peerTimeout := 20 }

/-- Two peers are heard at a tick. Three ticks later one of them is heard again in time, and the other has
been silent for longer than the timeout. -/
def vigil : List Action :=
  let hello : Header := .make .ping .requestServer .broadcast 0 0
  let round : List Action := [.elapse 10, .tick, .ping, .pingsQueued]
  [.scan (.ok [.usable "eth0"]), .announce, .startNext (.ok ()), .pingsQueued, .beginClient 0] ++ round ++
    [.deliver 0 (greeting 1 hello), .observe, .report, .deliver 0 (greeting 2 hello), .observe, .report] ++
    round ++ round ++
    [.elapse 10, .deliver 0 (greeting 2 hello), .observe, .tick, .report, .ping, .pingsQueued, .elapse 7]

theorem timely_vigil : 0 < shortLived.pingInterval.toNat ∧
    (start shortLived 8).along isPrompt vigil ∧
    ∃ r, (start shortLived 8).steps vigil = some r ∧ r.Timely shortLived ∧
      r.signs (.broadcast 1) = [(10, .heard), (40, .lost)] ∧
      r.signs (.broadcast 2) = [(10, .heard), (40, .heard)] := by
  have hp : 0 < shortLived.pingInterval.toNat := by decide
  have hprompt : (start shortLived 8).along isPrompt vigil := by decide +kernel
  have hany : ((start shortLived 8).steps vigil).any
      (fun r => r.signs (.broadcast 1) = [(10, .heard), (40, .lost)] ∧
        r.signs (.broadcast 2) = [(10, .heard), (40, .heard)]) := by
    decide +kernel
  obtain ⟨r, hr, hmatch⟩ := (Option.any_eq_true _ _).mp hany
  exact ⟨hp, hprompt, r, hr, timely_of_steps hp hprompt hr, of_decide_eq_true hmatch⟩

end Run
end AmpLink.Discovery
