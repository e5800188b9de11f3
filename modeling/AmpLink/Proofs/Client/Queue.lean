import AmpLink.Client.Endpoint
import AmpLink.Proofs.Steps
import AmpLink.Proofs.Task.Channel

/-!
# The queue of a client

Commands get their numbers and frames in the order of the calls, and frames keep this order from the call to
the socket (`Endpoint.State.queued_of_steps`). The queue holds no more than its capacity, and a call has to
wait only while it is full, so no later call overtakes it.
-/

namespace AmpLink

namespace Endpoint

theorem frames_append (component : UInt8) (number : UInt16) (as bs : List Command) :
    frames component number (as ++ bs) =
      frames component number as ++ frames component (number + .ofNat as.length) bs := by
  induction as generalizing number with
  | nil => simp [frames]
  | cons c as ih =>
    have hnumber : number + 1 + .ofNat as.length = number + .ofNat (c :: as).length := by
      rw [List.length_cons, UInt16.ofNat_add]
      grind
    rw [List.cons_append, frames, frames, ih, List.append_assoc, hnumber]

namespace State

/-- The commands that are called for, in order. -/
def commands (actions : List Action) : List Command :=
  actions.filterMap fun
    | .call c => some c
    | _ => none

/-- The frames that the socket has taken, and those that it has not got yet. -/
def enqueued (s : State) : List Bytes := s.written ++ (s.queue.buffer ++ s.queue.waiting.map Prod.snd)

theorem steps_eq_foldlM (s : State) (actions : List Action) :
    s.steps actions = actions.foldlM step s :=
  eq_foldlM (fun _ => rfl) (fun _ _ _ => rfl) s actions

/-- The calls, numbers and frames of a client with a queue of `capacity` after the actions `past`. -/
structure Queued (e : Endpoint) (capacity : Nat) (past : List Action) (s : State) : Prop where
  endpoint : s.endpoint = e
  number : s.number = firstNumber + .ofNat (commands past).length
  made : s.made.reverse = frames e.component firstNumber (commands past)
  enqueued : s.queue.isOpen → s.enqueued = s.made.reverse
  /-- A call waits for room only. -/
  full : s.queue.isOpen → s.queue.waiting ≠ [] → s.queue.capacity ≤ s.queue.buffer.length
  closed : s.queue.isOpen = false → s.queue.buffer = []
  written : s.written <+: s.made.reverse
  capacity_eq : s.queue.capacity = capacity
  bounded : s.queue.buffer.length ≤ s.queue.capacity

variable {e : Endpoint} {s s' : State} {past : List Action} {a : Action}

namespace Queued

theorem start (e : Endpoint) (capacity receivedCapacity : Nat) :
    Queued e capacity [] (.start e capacity receivedCapacity) where
  endpoint := rfl
  number := rfl
  made := rfl
  enqueued _ := rfl
  full _ := nofun
  closed := nofun
  written := List.prefix_rfl
  capacity_eq := rfl
  bounded := Nat.zero_le _

/-- An action that is no call. -/
theorem other (h : Queued e capacity past s) (hc : commands [a] = []) :
    Queued e capacity (past ++ [a]) s := by
  have hcommands : commands (past ++ [a]) = commands past := by
    rw [commands, List.filterMap_append]
    exact (congrArg _ hc).trans (List.append_nil _)
  exact { h with number := hcommands ▸ h.number, made := hcommands ▸ h.made }

/-- The frame of a call joins the queue at its end. -/
theorem send (h : Queued e capacity past s) (ho : s.queue.isOpen) (call : Nat) (f : Bytes) :
    (s.queue.send call f).2.buffer ++ (s.queue.send call f).2.waiting.map Prod.snd =
        s.queue.buffer ++ s.queue.waiting.map Prod.snd ++ [f] ∧
      ((s.queue.send call f).2.waiting ≠ [] →
        (s.queue.send call f).2.capacity ≤ (s.queue.send call f).2.buffer.length) := by
  rcases Channel.send_cases ho call f with ⟨hroom, heq⟩ | ⟨hroom, heq⟩
  · have hnone : s.queue.waiting = [] := by
      by_contra hwaiting
      have hfull := h.full ho hwaiting
      omega
    rw [heq, hnone]
    exact ⟨by simp, fun hne => absurd rfl hne⟩
  · rw [heq]
    refine ⟨by simp, fun _ => ?_⟩
    by_cases hwaiting : s.queue.waiting = []
    · rwa [hwaiting] at hroom
    · exact h.full ho hwaiting

theorem call (h : Queued e capacity past s) (c : Command) :
    Queued e capacity (past ++ [.call c]) (s.call c).2 := by
  have hcommands : commands (past ++ [.call c]) = commands past ++ [c] := by
    rw [commands, List.filterMap_append]
    rfl
  have hnumber : s.number + 1 = firstNumber + .ofNat (commands (past ++ [.call c])).length := by
    rw [hcommands, List.length_append, UInt16.ofNat_add, h.number, UInt16.add_assoc]
    rfl
  have hframes : frames e.component firstNumber (commands (past ++ [.call c])) =
      s.made.reverse ++ (frame? s.endpoint.component s.number c).toList := by
    rw [hcommands, frames_append, h.made, h.endpoint, h.number, frames, frames, List.append_nil]
  rw [State.call]
  cases hf : frame? s.endpoint.component s.number c with
  | none =>
    rw [hf, Option.toList_none, List.append_nil] at hframes
    exact { h with number := hnumber, made := hframes.symm }
  | some f =>
    rw [hf] at hframes
    have hmade : (f :: s.made).reverse = s.made.reverse ++ [f] := List.reverse_cons
    have hopen := Channel.isOpen_send s.queue s.calls f
    have hcapacity := Channel.capacity_send s.queue s.calls f
    refine
      { endpoint := h.endpoint
        number := hnumber
        made := hmade.trans hframes.symm
        enqueued := fun ho => ?_
        full := fun ho => (h.send (hopen ▸ ho) s.calls f).2
        closed := fun hc => ?_
        written := h.written.trans (hmade ▸ List.prefix_append ..)
        capacity_eq := hcapacity.trans h.capacity_eq
        bounded := Channel.bounded_send h.bounded s.calls f }
    · have ho : s.queue.isOpen := hopen ▸ ho
      refine Eq.trans (congrArg (s.written ++ ·) (h.send ho s.calls f).1) ?_
      rw [← List.append_assoc, ← State.enqueued, h.enqueued ho, hmade]
    · have hc : s.queue.isOpen = false := hopen ▸ hc
      change (s.queue.send s.calls f).2.buffer = []
      rw [Channel.send_of_closed hc]
      exact h.closed hc

/-- The oldest frame leaves an open queue, and the others keep their order. -/
theorem take (h : Queued e capacity past s) (ht : State.take s.queue = some (f, q)) : s.queue.isOpen ∧
    q.isOpen ∧
    s.queue.buffer ++ s.queue.waiting.map Prod.snd = f :: (q.buffer ++ q.waiting.map Prod.snd) ∧
    (q.waiting ≠ [] → q.capacity ≤ q.buffer.length) ∧ q.capacity = s.queue.capacity ∧
    q.buffer.length ≤ q.capacity := by
  rw [State.take, Channel.receive] at ht
  cases hb : s.queue.buffer with
  | nil =>
    rw [hb] at ht
    contradiction
  | cons g rest =>
    have ho : s.queue.isOpen := by
      by_contra hc
      rw [h.closed (Bool.eq_false_iff.mpr hc)] at hb
      contradiction
    have hbounded : rest.length + 1 ≤ s.queue.capacity := by
      have hle := h.bounded
      rwa [hb] at hle
    rw [hb] at ht
    cases hw : s.queue.waiting with
    | nil =>
      simp only [Option.map_some, hw, Option.some.injEq, Prod.mk.injEq] at ht
      obtain ⟨rfl, rfl⟩ := ht
      exact ⟨ho, ho, rfl, fun hne => absurd rfl hne, rfl, Nat.le_of_succ_le hbounded⟩
    | cons c waiting =>
      have hfull := h.full ho (by simp [hw])
      simp only [Option.map_some, hw, Option.some.injEq, Prod.mk.injEq] at ht
      obtain ⟨rfl, rfl⟩ := ht
      rw [hb, List.length_cons] at hfull
      have hlength : (rest ++ [c.2]).length = rest.length + 1 := List.length_append
      exact ⟨ho, ho, by simp, fun _ => hlength ▸ hfull, rfl, hlength ▸ hbounded⟩

theorem finish (h : Queued e capacity past s) (task : Nat) (r : Outcome) :
    Queued e capacity past (s.finish task r) := by
  rw [State.finish]
  split
  · exact h
  · exact { h with }

/-- The queue is dropped, whatever is left of it. -/
theorem endSender (h : Queued e capacity past s) {q : Channel Bytes}
    (hq : q.capacity = s.queue.capacity) (r : Outcome) :
    Queued e capacity past ({ s with queue := q }.endSender r) := by
  have hclose : Queued e capacity past { s with queue := q.close, sender := .ended } :=
    { h with
      enqueued := nofun
      full := nofun
      closed := fun _ => rfl
      capacity_eq := hq.trans h.capacity_eq
      bounded := Nat.zero_le _ }
  exact hclose.finish senderTask r

theorem write (h : Queued e capacity past s) (hs : s.write w = some s') : Queued e capacity past s' := by
  rw [State.write] at hs
  split at hs
  · next f q _ ht =>
    obtain ⟨ho, hq, horder, hfull, hcapacity, hbounded⟩ := h.take ht
    have hmade := h.enqueued ho
    cases w with
    | sent =>
      cases hs
      have henqueued : s.written ++ [f] ++ (q.buffer ++ q.waiting.map Prod.snd) = s.made.reverse := by
        rw [← hmade, State.enqueued, horder, List.append_assoc]
        rfl
      exact
        { h with
          enqueued := fun _ => henqueued
          full := fun _ => hfull
          closed := fun hc => absurd hq (Bool.eq_false_iff.mp hc)
          written := henqueued ▸ List.prefix_append ..
          capacity_eq := hcapacity.trans h.capacity_eq
          bounded := hbounded }
    | failed | timedOut =>
      cases hs
      exact h.endSender hcapacity _
  · contradiction

theorem run (h : Queued e capacity past s) (hs : s.run bound = .ok s') : Queued e capacity past s' := by
  rw [State.run.eq_def] at hs
  split at hs
  · contradiction
  · cases bound with
    | error r =>
      cases hs
      exact { h with enqueued := nofun, full := nofun, closed := fun _ => rfl, bounded := Nat.zero_le _ }
    | ok =>
      cases hs
      exact { h with }

theorem endReceiver (h : Queued e capacity past s) (r : Outcome) :
    Queued e capacity past (s.endReceiver r) := by
  have hended : Queued e capacity past { s with receiver := .ended } := { h with }
  exact hended.finish receiverTask r

theorem stopReceiver (h : Queued e capacity past s) (hs : s.stopReceiver = some s') :
    Queued e capacity past s' := by
  rw [State.stopReceiver] at hs
  split at hs
  · obtain ⟨-, hs⟩ := Option.ite_none_right_eq_some.mp hs
    cases hs
    exact h.endReceiver (.ok ())
  · obtain ⟨-, hs⟩ := Option.ite_none_right_eq_some.mp hs
    cases hs
    exact h.endReceiver (.ok ())
  · contradiction

theorem hand (h : Queued e capacity past s) (hs : s.hand = some s') : Queued e capacity past s' := by
  rw [State.hand] at hs
  split at hs
  · obtain ⟨-, hs⟩ := Option.ite_none_right_eq_some.mp hs
    cases hs
    exact { h with }
  · contradiction

theorem receive (h : Queued e capacity past s) (hs : s.receive data remote = some s') :
    Queued e capacity past s' := by
  rw [State.receive] at hs
  split at hs
  · cases hs
    exact { h with }
  · contradiction

theorem failRead (h : Queued e capacity past s) (hs : s.failRead detail = some s') :
    Queued e capacity past s' := by
  rw [State.failRead] at hs
  split at hs
  · cases hs
    exact h.endReceiver _
  · contradiction

theorem step (h : Queued e capacity past s) (hs : s.step a = some s') :
    Queued e capacity (past ++ [a]) s' := by
  cases a with
  | call c =>
    cases hs
    exact h.call c
  | run bound =>
    cases hr : s.run bound with
    | error r =>
      rw [State.step, hr] at hs
      contradiction
    | ok t =>
      rw [State.step, hr] at hs
      cases hs
      exact (h.run hr).other rfl
  | write w => exact (h.write hs).other rfl
  | stopSender =>
    obtain ⟨-, hs⟩ := Option.ite_none_right_eq_some.mp hs
    cases hs
    exact (h.endSender rfl (.ok ())).other rfl
  | receive data remote => exact (h.receive hs).other rfl
  | readTimeout =>
    obtain ⟨-, hs⟩ := Option.ite_none_right_eq_some.mp hs
    cases hs
    exact h.other rfl
  | failRead detail => exact (h.failRead hs).other rfl
  | hand => exact (h.hand hs).other rfl
  | stopReceiver => exact (h.stopReceiver hs).other rfl
  | consume =>
    obtain ⟨x, -, rfl⟩ := Option.map_eq_some_iff.mp hs
    have hq : Queued e capacity past { s with received := x.2 } := { h with }
    exact hq.other rfl
  | closeReceived =>
    cases hs
    have hq : Queued e capacity past { s with received := s.received.close } := { h with }
    exact hq.other rfl
  | cancel =>
    cases hs
    have hq : Queued e capacity past { s with tokens := s.tokens.cancel s.outer } := { h with }
    exact hq.other rfl

end Queued

/-- A command without a frame takes a number only. -/
theorem call_of_frame?_eq_none (h : frame? s.endpoint.component s.number c = none) :
    s.call c = (none, { s with number := s.number + 1, calls := s.calls + 1 }) := by
  rw [call, h]

/-- Once the run has ended nothing is enqueued. -/
theorem enqueued_call_of_closed (h : s.queue.isOpen = false) (c : Command) :
    (s.call c).2.enqueued = s.enqueued := by
  rw [call]
  cases frame? s.endpoint.component s.number c with
  | none => rfl
  | some f =>
    change s.written ++ ((s.queue.send s.calls f).2.buffer ++
      (s.queue.send s.calls f).2.waiting.map Prod.snd) = s.enqueued
    rw [Channel.send_of_closed h]
    rfl

theorem queued_of_steps (h : (start e capacity receivedCapacity).steps actions = some s) :
    Queued e capacity actions s :=
  foldlM_induction (fun _ _ _ _ => Queued.step) (.start e capacity receivedCapacity)
    (steps_eq_foldlM .. ▸ h)

end State
end Endpoint
end AmpLink
