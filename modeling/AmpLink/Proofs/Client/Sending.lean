import AmpLink.Proofs.Client.Queue
import AmpLink.Proofs.Wire.Demands

/-!
# What a client sends

Calls are numbered from one, those that are refused included, and the others (`Endpoint.accepted`) have a frame
each, which bears the number modulo 65536 (`Endpoint.Bears`). The socket takes the frames of the first of them,
in their order and once each. The main statement is `Endpoint.State.sent_of_steps`.
-/

namespace AmpLink

namespace Command

def demand : Command → Demand
  | .ping => .ping
  | .recall index => .recallByIndex index
  | .volume v => .masterVolume v

/-- The command asks for a volume that is no number from zero to one. -/
def IsRefused : Command → Prop
  | .volume v => ¬ v.InUnit
  | _ => False

instance : DecidablePred IsRefused
  | .ping | .recall _ => inferInstanceAs (Decidable False)
  | .volume v => inferInstanceAs (Decidable (¬ v.InUnit))

theorem request?_eq : ∀ c : Command, c.request? = c.demand.request.toOption
  | .ping | .recall _ => rfl
  | .volume v => by
    rw [request?, demand, Demand.request]
    cases MasterVolume.ofVolume v with
    | ok | error => rfl

theorem isRefused_iff : ∀ {c : Command}, c.IsRefused ↔ ∃ e, c.demand.frame number component = .error e
  | .ping | .recall _ => by
    refine iff_of_false id ?_
    rintro ⟨_, he⟩
    obtain ⟨_, hv, -⟩ := Demand.frame_eq_error_iff.mp he
    cases hv
  | .volume v => by
    constructor
    · exact fun hv => ⟨_, Demand.frame_eq_error_iff.mpr ⟨v, rfl, hv, rfl⟩⟩
    · rintro ⟨_, he⟩
      obtain ⟨_, hv, h, -⟩ := Demand.frame_eq_error_iff.mp he
      cases hv
      exact h

end Command

namespace Endpoint

theorem frame?_eq (component : UInt8) (number : UInt16) (c : Command) :
    frame? component number c = (c.demand.frame number component).toOption := by
  rw [frame?, c.request?_eq, Demand.frame]
  cases c.demand.request with
  | ok | error => rfl

variable {component : UInt8} {number : UInt16}

theorem frame?_eq_some_iff : frame? component number c = some f ↔
    c.demand.frame number component = .ok f := by
  rw [frame?_eq]
  cases c.demand.frame number component with
  | ok g => exact Option.some_inj.trans (Except.ok.injEq g f ▸ Iff.rfl)
  | error => exact iff_of_false nofun nofun

theorem frame?_eq_none_iff : frame? component number c = none ↔ c.IsRefused := by
  rw [frame?_eq, Command.isRefused_iff]
  cases c.demand.frame number component with
  | ok => exact iff_of_false nofun nofun
  | error e => exact iff_of_true rfl ⟨e, rfl⟩

/-- The calls that are not refused, with their numbers. -/
def accepted (cs : List Command) : List (Command × Nat) :=
  (cs.zipIdx 1).filter fun call => ¬ call.1.IsRefused

/-- The frame reads as that of a call, under its number. -/
def Bears (component : UInt8) (call : Command × Nat) (f : Bytes) : Prop :=
  ∃ number : UInt16, number.toNat = call.2 % 65536 ∧
    call.1.demand.frame number component = .ok f ∧ call.1.demand.Legible number component f

theorem toNat_add_one (h : number.toNat = n % 65536) :
    (number + 1).toNat = (n + 1) % 65536 := by
  rw [UInt16.toNat_add, h, UInt16.toNat_one, Nat.mod_add_mod]

theorem bears_frames (h : number.toNat = n % 65536) :
    List.Forall₂ (Bears component) ((cs.zipIdx n).filter fun call => ¬ call.1.IsRefused)
      (frames component number cs) := by
  -- the number of the first call is free, because it grows also with calls that are refused
  induction cs generalizing n number with
  | nil => exact .nil
  | cons c rest ih =>
    have hrest := ih (toNat_add_one h)
    rw [List.zipIdx_cons, frames, List.filter_cons]
    cases hf : frame? component number c with
    | none =>
      have hrefused : c.IsRefused := frame?_eq_none_iff.mp hf
      rw [if_neg (Bool.eq_false_iff.mp (decide_eq_false (not_not_intro hrefused)))]
      exact hrest
    | some f =>
      have haccepted : ¬ c.IsRefused := by
        rw [← frame?_eq_none_iff, hf]
        exact Option.some_ne_none f
      rw [if_pos (decide_eq_true haccepted)]
      have hframe := frame?_eq_some_iff.mp hf
      exact .cons ⟨number, h, hframe, Demand.legible_of_frame hframe⟩ hrest

namespace State

/-! ## The main statement -/

/-- How a client that was made for `e`, with a queue of `capacity`, stands after its actions. -/
structure Sent (e : Endpoint) (capacity : Nat) (actions : List Action) (s : State) : Prop where
  /-- The number that the next call gets. -/
  number : s.number.toNat = ((commands actions).length + 1) % 65536
  /-- A call that is refused takes its number and does nothing else. -/
  refused : ∀ c, c.IsRefused →
    s.call c = (none, { s with number := s.number + 1, calls := s.calls + 1 })
  /-- Every other call has a frame of its own, in the order of the calls. -/
  made : List.Forall₂ (Bears e.component) (accepted (commands actions)) s.made.reverse
  written : s.written <+: s.made.reverse
  /-- What the socket has taken are the frames of the first calls. -/
  taken : List.Forall₂ (Bears e.component) ((accepted (commands actions)).take s.written.length) s.written
  /-- The other frames are in the queue or behind it as long as there is one. -/
  enqueued : s.queue.isOpen →
    s.written ++ (s.queue.buffer ++ s.queue.waiting.map Prod.snd) = s.made.reverse
  capacity_eq : s.queue.capacity = capacity
  bounded : s.queue.buffer.length ≤ capacity
  /-- A call waits only while the queue is full. -/
  full : s.queue.isOpen → s.queue.waiting ≠ [] → s.queue.buffer.length = capacity

/-- Whatever is called for and whenever frames are written, the socket gets the frames of the calls in the
order of their numbers. -/
theorem sent_of_steps (h : (start e capacity receivedCapacity).steps actions = some s) :
    Sent e capacity actions s := by
  have hq := queued_of_steps h
  have hmade : List.Forall₂ (Bears e.component) (accepted (commands actions)) s.made.reverse := by
    rw [hq.made]
    exact bears_frames rfl
  have hbounded : s.queue.buffer.length ≤ capacity := hq.capacity_eq ▸ hq.bounded
  refine
    { number := ?_
      refused := fun c hc => call_of_frame?_eq_none (frame?_eq_none_iff.mpr hc)
      made := hmade
      written := hq.written
      taken := ?_
      enqueued := hq.enqueued
      capacity_eq := hq.capacity_eq
      bounded := hbounded
      full := fun ho hw => le_antisymm hbounded (hq.capacity_eq ▸ hq.full ho hw) }
  · rw [hq.number, UInt16.toNat_add, UInt16.toNat_ofNat', Nat.add_mod_mod, Nat.add_comm]
    rfl
  · have htake := List.forall₂_take s.written.length hmade
    rwa [← List.prefix_iff_eq_take.mp hq.written] at htake

/-- A client whose queue has room for one frame. -/
def narrow : State := start ⟨.v4 .loopback 5001, none, 0xff, .standard⟩ 1 32

/-- The second call is refused, the third waits until the first frame is written, and then the fourth waits. -/
def backPressure : List Action :=
  [.call (.recall 7), .call (.volume ⟨0x40000000⟩), .call .ping, .run (.ok ()), .write .sent, .call .ping]

theorem sent_backPressure : ∃ s, narrow.steps backPressure = some s ∧
    Sent narrow.endpoint 1 backPressure s ∧
    accepted (commands backPressure) = [(.recall 7, 1), (.ping, 3), (.ping, 4)] ∧
    s.written.length = 1 ∧ s.queue.buffer.length = 1 ∧ s.queue.waiting.length = 1 := by
  have h : ∃ s, narrow.steps backPressure = some s ∧ s.written.length = 1 ∧
    s.queue.buffer.length = 1 ∧ s.queue.waiting.length = 1 := ⟨_, rfl, rfl, rfl, rfl⟩
  obtain ⟨s, hs, hlengths⟩ := h
  exact ⟨s, hs, sent_of_steps hs, by decide +kernel, hlengths⟩

end State
end Endpoint
end AmpLink
