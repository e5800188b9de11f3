import AmpLink.Proofs.Client.Queue
import AmpLink.Proofs.Wire.Frame

/-!
# What a client hands on

A client hands on a message for every datagram that it reads, in the order in which it has read them, with the
bytes as they came (`Endpoint.Tells`). Only the last message can get lost, if the client ends before somebody
takes it. Datagrams that are too short for a header are handed on like the others. The main statement is
`Endpoint.State.received_of_steps`, and `Message.opens` says what the payload of any message is.
-/

namespace AmpLink

/-! ## Payloads of messages -/

namespace Message

/-- How the payload of a message comes out, wherever header and data are from. -/
structure Opens (m : Message) : Prop where
  none_iff : m.payload? = none ↔ m.header = none ∨ m.data.length < 12
  some_iff : ∀ r, m.payload? = some r ↔
    ∃ h, m.header = some h ∧ 12 ≤ m.data.length ∧ r = Payload.decode h (m.data.drop 12)
  /-- A payload is refused only because it is too short. -/
  error : ∀ e, m.payload? = some (.error e) →
    ∃ n, m.data.length - 12 < n ∧ e = .shortBuffer n (m.data.length - 12)

variable {m : Message} {h : Header}

theorem payload?_of_none (hh : m.header = none) : m.payload? = none := by
  rw [payload?, hh]

theorem payload?_of_lt (hl : m.data.length < 12) : m.payload? = none := by
  rw [payload?]
  cases m.header with
  | none => rfl
  | some h => exact if_neg (Nat.not_le.mpr hl)

theorem payload?_of_le (hh : m.header = some h) (hl : 12 ≤ m.data.length) :
    m.payload? = some (Payload.decode h (m.data.drop 12)) := by
  rw [payload?, hh]
  exact if_pos hl

theorem opens (m : Message) : m.Opens := by
  have hsome (r) : m.payload? = some r ↔
      ∃ h, m.header = some h ∧ 12 ≤ m.data.length ∧ r = Payload.decode h (m.data.drop 12) := by
    constructor
    · intro hr
      cases hh : m.header with
      | none =>
        rw [payload?_of_none hh] at hr
        contradiction
      | some h =>
        rcases Nat.lt_or_ge m.data.length 12 with hl | hl
        · rw [payload?_of_lt hl] at hr
          contradiction
        · rw [payload?_of_le hh hl] at hr
          cases hr
          exact ⟨h, rfl, hl, rfl⟩
    · rintro ⟨h, hh, hl, rfl⟩
      exact payload?_of_le hh hl
  refine ⟨?_, hsome, ?_⟩
  · constructor
    · intro hnone
      cases hh : m.header with
      | none => exact .inl rfl
      | some h =>
        refine .inr (Nat.lt_of_not_le fun hl => ?_)
        rw [payload?_of_le hh hl] at hnone
        contradiction
    · rintro (hh | hl)
      · exact payload?_of_none hh
      · exact payload?_of_lt hl
  · intro e he
    obtain ⟨h, -, -, hd⟩ := (hsome _).mp he
    obtain ⟨-, n, -, hlt, rfl⟩ := Payload.error_decode_iff.mp hd.symm
    rw [List.length_drop] at hlt ⊢
    exact ⟨n, hlt, rfl⟩

end Message

namespace Endpoint

/-- The message says who sent a datagram, where it was read and what it says. -/
structure Tells (e : Endpoint) (d : Bytes × SocketAddress) (m : Message) : Prop where
  data : m.data = d.1
  remote : m.remote = d.2
  interface : m.interface = e.interface
  client : m.client = e.name
  /-- There is a header exactly if the datagram is long enough for one. -/
  header_none_iff : m.header = none ↔ d.1.length < 12
  header_some_iff : ∀ h, m.header = some h ↔ Header.parse d.1 = .ok h

/-- The message of a datagram. -/
def message (e : Endpoint) (d : Bytes × SocketAddress) : Message :=
  .ofDatagram d.1 d.2 e.interface e.name

theorem tells_message (e : Endpoint) (d : Bytes × SocketAddress) : e.Tells d (e.message d) where
  data := rfl
  remote := rfl
  interface := rfl
  client := rfl
  header_none_iff := by
    change (Header.parse d.1).toOption = none ↔ _
    rcases Nat.lt_or_ge d.1.length 12 with hl | hl
    · rw [Header.parse_of_lt hl]
      exact iff_of_true rfl hl
    · obtain ⟨h, hp, -⟩ := Header.codec.parse_of_le d.1 hl
      rw [hp]
      exact iff_of_false nofun (Nat.not_lt.mpr hl)
  header_some_iff h := by
    change (Header.parse d.1).toOption = some h ↔ _
    cases Header.parse d.1 with
    | ok h' => exact Option.some_inj.trans (Except.ok.injEq h' h ▸ Iff.rfl)
    | error => exact iff_of_false nofun nofun

variable {e : Endpoint} {d : Bytes × SocketAddress} {m : Message} {h : Header}

/-- What a datagram says has a payload exactly if it has a header. -/
theorem Tells.payload?_none_iff (ht : e.Tells d m) : m.payload? = none ↔ m.header = none := by
  rw [m.opens.none_iff, ht.header_none_iff, ht.data, or_self]

theorem Tells.payload?_of_header (ht : e.Tells d m) (hh : m.header = some h) :
    m.payload? = some (Payload.decode h (m.data.drop 12)) := by
  refine Message.payload?_of_le hh (Nat.le_of_not_lt fun hl => ?_)
  rw [ht.data, ← ht.header_none_iff, hh] at hl
  contradiction

namespace State

/-! ## The loop that reads -/

/-- The datagrams that come, and who sent them. What does not fit in is cut off. -/
def datagrams (actions : List Action) : List (Bytes × SocketAddress) :=
  actions.filterMap fun
    | .receive data remote => some (data.take maxDatagram, remote)
    | _ => none

/-- The loop is about to read: it waits for a datagram, or has not begun. -/
def IsFree (r : Receiver) : Prop := r = .idle ∨ r = .resting

theorem not_isFree_ended : ¬ IsFree .ended := by simp [IsFree]

theorem not_isFree_handing (m : Message) : ¬ IsFree (.handing m) := by simp [IsFree]

/-- What has been read and handed on after the actions `past`. -/
structure Receiving (e : Endpoint) (past : List Action) (s : State) : Prop where
  endpoint : s.endpoint = e
  read : s.read = datagrams past
  /-- Between two datagrams everything has been handed on. -/
  free : IsFree s.receiver → s.handed = s.read.map e.message
  handing : ∀ m, s.receiver = .handing m → s.handed ++ [m] = s.read.map e.message
  handed : s.handed <+: s.read.map e.message
  lost : s.read.length ≤ s.handed.length + 1
  /-- The receiver of the messages gets them in their order. -/
  buffer : s.received.buffer <:+ s.handed
  idle : s.taken = false → s.receiver = .idle

variable {s s' : State} {past : List Action} {a : Action}

namespace Receiving

theorem start (e : Endpoint) (capacity room : Nat) : Receiving e [] (.start e capacity room) where
  endpoint := rfl
  read := rfl
  free _ := rfl
  handing _ hm := Receiver.noConfusion hm
  handed := List.prefix_rfl
  lost := Nat.zero_le _
  buffer := List.suffix_rfl
  idle _ := rfl

/-- An action that brings no datagram. -/
theorem other (h : Receiving e past s) (hd : datagrams [a] = []) : Receiving e (past ++ [a]) s := by
  have hdatagrams : datagrams (past ++ [a]) = datagrams past := by
    rw [datagrams, List.filterMap_append]
    exact (congrArg _ hd).trans (List.append_nil _)
  exact { h with read := hdatagrams ▸ h.read }

theorem finish (h : Receiving e past s) (task : Nat) (r : Outcome) : Receiving e past (s.finish task r) := by
  rw [State.finish]
  split
  · exact h
  · exact { h with }

theorem endReceiver (h : Receiving e past s) (ht : s.receiver ≠ .idle) (r : Outcome) :
    Receiving e past (s.endReceiver r) := by
  have hended : Receiving e past { s with receiver := .ended } :=
    { h with
      free := fun hfree => absurd hfree not_isFree_ended
      handing := fun _ hm => Receiver.noConfusion hm
      idle := fun hf => absurd (h.idle hf) ht }
  exact hended.finish receiverTask r

theorem call (h : Receiving e past s) (c : Command) : Receiving e past (s.call c).2 := by
  rw [State.call]
  cases frame? s.endpoint.component s.number c with
  | none | some => exact { h with }

theorem write (h : Receiving e past s) (hs : s.write w = some s') : Receiving e past s' := by
  rw [State.write] at hs
  split at hs
  · next f q _ _ =>
    cases w with
    | sent =>
      cases hs
      exact { h with }
    | failed | timedOut =>
      cases hs
      have hended : Receiving e past { s with queue := q.close, sender := .ended } := { h with }
      exact hended.finish senderTask _
  · contradiction

/-- A client that has not been run has read nothing. -/
theorem run (h : Receiving e past s) (hs : s.run bound = .ok s') : Receiving e past s' := by
  rw [State.run.eq_def] at hs
  split at hs
  · contradiction
  · next htaken =>
    have hhanded := h.free (.inl (h.idle (Bool.eq_false_iff.mpr htaken)))
    cases bound with
    | error r =>
      cases hs
      exact
        { h with
          free := fun hfree => absurd hfree not_isFree_ended
          handing := fun _ hm => Receiver.noConfusion hm
          idle := fun hf => Bool.noConfusion hf }
    | ok =>
      cases hs
      exact
        { h with
          free := fun _ => hhanded
          handing := fun _ hm => Receiver.noConfusion hm
          idle := fun hf => Bool.noConfusion hf }

theorem receive (h : Receiving e past s) (hs : s.receive data remote = some s') :
    Receiving e (past ++ [.receive data remote]) s' := by
  have hdatagrams : datagrams (past ++ [.receive data remote]) =
      datagrams past ++ [(data.take maxDatagram, remote)] := by
    rw [datagrams, List.filterMap_append]
    rfl
  rw [State.receive] at hs
  split at hs
  · next hresting =>
    cases hs
    have hhanded := h.free (.inr hresting)
    have hmap : (s.read ++ [(data.take maxDatagram, remote)]).map e.message =
        s.handed ++ [e.message (data.take maxDatagram, remote)] := by
      rw [List.map_append, ← hhanded]
      rfl
    refine
      { h with
        read := ?_
        free := fun hfree => absurd hfree (not_isFree_handing _)
        handing := ?_
        handed := ?_
        lost := ?_
        idle := fun hf => ?_ }
    · rw [h.read, hdatagrams]
    · intro m hm
      cases hm
      rw [hmap, h.endpoint]
      rfl
    · rw [hmap]
      exact List.prefix_append ..
    · rw [List.length_append, hhanded, List.length_map]
      exact Nat.le_refl _
    · have hidle := h.idle hf
      rw [hresting] at hidle
      contradiction
  · contradiction

theorem hand (h : Receiving e past s) (hs : s.hand = some s') : Receiving e past s' := by
  rw [State.hand] at hs
  split at hs
  · next m hhanding =>
    obtain ⟨-, hs⟩ := Option.ite_none_right_eq_some.mp hs
    cases hs
    have hhanded := h.handing m hhanding
    have hlength : s.handed.length + 1 = s.read.length := by
      rw [← List.length_map (f := e.message), ← hhanded, List.length_append]
      rfl
    obtain ⟨before, hbefore⟩ := h.buffer
    refine
      { h with
        free := fun _ => hhanded
        handing := fun _ hm => Receiver.noConfusion hm
        handed := hhanded ▸ List.prefix_rfl
        lost := ?_
        buffer := ⟨before, ?_⟩
        idle := fun hf => ?_ }
    · rw [← hlength, List.length_append]
      exact Nat.le_succ _
    · rw [← List.append_assoc, hbefore]
    · have hidle := h.idle hf
      rw [hhanding] at hidle
      contradiction
  · contradiction

theorem failRead (h : Receiving e past s) (hs : s.failRead detail = some s') : Receiving e past s' := by
  rw [State.failRead] at hs
  split at hs
  · next hresting =>
    cases hs
    exact h.endReceiver (by simp [hresting]) _
  · contradiction

theorem stopReceiver (h : Receiving e past s) (hs : s.stopReceiver = some s') : Receiving e past s' := by
  rw [State.stopReceiver] at hs
  split at hs
  · next hresting =>
    obtain ⟨-, hs⟩ := Option.ite_none_right_eq_some.mp hs
    cases hs
    exact h.endReceiver (by simp [hresting]) (.ok ())
  · next hhanding =>
    obtain ⟨-, hs⟩ := Option.ite_none_right_eq_some.mp hs
    cases hs
    exact h.endReceiver (by simp [hhanding]) (.ok ())
  · contradiction

theorem consume (h : Receiving e past s) (hs : s.received.receive = some (m, c)) :
    Receiving e past { s with received := c } := by
  rw [Channel.receive] at hs
  split at hs
  · contradiction
  · next hbuffer =>
    cases hs
    have hsuffix := h.buffer
    rw [hbuffer] at hsuffix
    exact { h with buffer := (List.suffix_cons ..).trans hsuffix }

theorem step (h : Receiving e past s) (hs : s.step a = some s') : Receiving e (past ++ [a]) s' := by
  cases a with
  | call c =>
    cases hs
    exact (h.call c).other rfl
  | run bound =>
    cases hr : s.run bound with
    | error r =>
      rw [State.step, hr] at hs
      contradiction
    | ok t =>
      rw [State.step, hr] at hs
      cases hs
      exact (h.run hr).other rfl
  | write w => exact (h.write hs).other rfl
  | stopSender =>
    obtain ⟨-, hs⟩ := Option.ite_none_right_eq_some.mp hs
    cases hs
    have hended : Receiving e past { s with sender := .ended, queue := s.queue.close } := { h with }
    exact (hended.finish senderTask (.ok ())).other rfl
  | receive data remote => exact h.receive hs
  | readTimeout =>
    obtain ⟨-, hs⟩ := Option.ite_none_right_eq_some.mp hs
    cases hs
    exact h.other rfl
  | failRead detail => exact (h.failRead hs).other rfl
  | hand => exact (h.hand hs).other rfl
  | stopReceiver => exact (h.stopReceiver hs).other rfl
  | consume =>
    obtain ⟨⟨m, c⟩, hx, rfl⟩ := Option.map_eq_some_iff.mp hs
    exact (h.consume hx).other rfl
  | closeReceived =>
    cases hs
    have hclosed : Receiving e past { s with received := s.received.close } :=
      { h with buffer := List.nil_suffix }
    exact hclosed.other rfl
  | cancel =>
    cases hs
    have hcancelled : Receiving e past { s with tokens := s.tokens.cancel s.outer } := { h with }
    exact hcancelled.other rfl

end Receiving

theorem receiving_of_steps {capacity room : Nat} (h : (State.start e capacity room).steps actions = some s) :
    Receiving e actions s :=
  foldlM_induction (fun _ _ _ _ => Receiving.step) (.start e capacity room) (steps_eq_foldlM .. ▸ h)

/-! ## The main statement -/

/-- What a client that was made for `e` has handed on after its actions. -/
structure Received (e : Endpoint) (actions : List Action) (s : State) : Prop where
  read : s.read = datagrams actions
  /-- The messages are those of the first datagrams, in their order and one for each. -/
  handed : List.Forall₂ (Tells e) (s.read.take s.handed.length) s.handed
  /-- Only the last datagram can be without a message. -/
  lost : s.read.length ≤ s.handed.length + 1
  /-- What waits in the channel was handed on last. -/
  buffer : s.received.buffer <:+ s.handed
  /-- Every datagram is going to be handed on, also one that has no header. -/
  receive : s.receiver = .resting → ∀ data remote, ∃ m s', s.step (.receive data remote) = some s' ∧
    s'.receiver = .handing m ∧ e.Tells (data.take maxDatagram, remote) m
  payload : ∀ m ∈ s.handed, (m.payload? = none ↔ m.header = none) ∧
    ∀ h, m.header = some h → m.payload? = some (Payload.decode h (m.data.drop 12))

/-- Whatever is received, handed on or cancelled, the messages are those of the datagrams in their order. -/
theorem received_of_steps {capacity room : Nat} (h : (State.start e capacity room).steps actions = some s) :
    Received e actions s ∧ ∀ m : Message, m.Opens := by
  have hr := receiving_of_steps h
  have hhanded := List.prefix_iff_eq_take.mp hr.handed
  rw [← List.map_take] at hhanded
  have htells : List.Forall₂ (Tells e) (s.read.take s.handed.length) s.handed := by
    generalize s.handed.length = n at hhanded
    rw [hhanded, List.forall₂_map_right_iff, List.forall₂_same]
    exact fun d _ => e.tells_message d
  refine ⟨{ hr with handed := htells, receive := ?_, payload := ?_ }, Message.opens⟩
  · intro hresting data remote
    have hstep : s.step (.receive data remote) = some { s with
        receiver := .handing (s.endpoint.message (data.take maxDatagram, remote))
        read := s.read ++ [(data.take maxDatagram, remote)] } := by
      rw [step, State.receive, hresting]
      rfl
    exact ⟨_, _, hstep, rfl, hr.endpoint ▸ s.endpoint.tells_message _⟩
  · intro m hm
    rw [hhanded] at hm
    obtain ⟨d, -, rfl⟩ := List.mem_map.mp hm
    exact ⟨(e.tells_message d).payload?_none_iff, fun h hh => (e.tells_message d).payload?_of_header hh⟩

/-- A client whose messages are taken one at a time. -/
def listener : State := .start ⟨.v4 .loopback 5001, some "eth0", 0xff, .standard⟩ 1 1

/-- Three bytes come and then the header of an answer. The third datagram finds no room until the client is
cancelled. -/
def lateDatagram : List Action :=
  [.run (.ok ()), .readTimeout, .receive [1, 2, 3] (.v4 .loopback 5001), .hand, .consume,
    .receive [0, 1, 2, 0, 1, 2, 3, 4, 1, 0, 0xff, 1] (.v4 .loopback 5001), .hand,
    .receive [] (.v4 .loopback 5001), .cancel, .stopReceiver]

theorem received_lateDatagram : ∃ s, listener.steps lateDatagram = some s ∧
    Received listener.endpoint lateDatagram s ∧ s.read.length = 3 ∧
    s.handed.map Message.payload? = [none, some (.ok .empty)] := by
  have h : ∃ s, listener.steps lateDatagram = some s ∧ s.read.length = 3 ∧
    s.handed.map Message.payload? = [none, some (.ok .empty)] := ⟨_, rfl, rfl, rfl⟩
  obtain ⟨s, hs, hlength, hpayload⟩ := h
  exact ⟨s, hs, (received_of_steps hs).1, hlength, hpayload⟩

end State
end Endpoint
end AmpLink
