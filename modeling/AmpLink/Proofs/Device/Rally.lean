import AmpLink.Proofs.Device.Handling

/-!
# Devices that answer each other

A device goes by the message type of a datagram, so it answers the answers of other devices like any ping
(`Device.handle_reply`). A datagram that one of two devices answers is sent back and forth between them for
ever. The main statement is `Rally.rebounds`.
-/

namespace AmpLink

namespace Device

variable {d : Device} {s : DeviceState} {b : Bytes}

/-- The first bytes of the datagrams that a device answers. -/
def knownBytes : List UInt8 := [0, 1, 2, 4, 5]

theorem knows_iff {t : MessageType} (ht : t.normalized = t) : knows t ↔ t.toByte ∈ knownBytes := by
  cases t with
  | vendor b =>
    have hassigned : knownBytes ⊆ MessageType.assigned := by decide
    exact ⟨nofun, fun hb => (MessageType.normalized_eq_self_iff.mp ht b (hassigned hb) rfl).elim⟩
  | _ => decide

theorem head?_of_parse {h : Header} (hp : Header.parse b = .ok h) :
    b.head? = some h.messageType.toByte := by
  have he := Header.codec.encode_of_parse hp
  rw [Header.encode_eq] at he
  have hhead := congrArg List.head? he
  rw [List.head?_take] at hhead
  exact hhead.symm

/-- A device answers the datagrams with a whole header whose first byte it knows, whatever the status. -/
theorem isSome_handle_iff (d : Device) (s : DeviceState) (b : Bytes) :
    (d.handle s b).1.isSome ↔ 12 ≤ b.length ∧ ∃ t ∈ knownBytes, b.head? = some t := by
  cases hp : Header.parse b with
  | error e =>
    have hlt := (Header.codec.error_iff.mp hp).1
    have hsplit : Header.split b = .error e := by
      rw [Header.split, hp]
      rfl
    rw [handle, hsplit]
    exact iff_of_false Bool.false_ne_true fun hb => absurd hb.1 (Nat.not_le.mpr hlt)
  | ok h =>
    have hsplit : Header.split b = .ok (h, b.drop Header.size) := by
      rw [Header.split, hp]
      rfl
    have hknown := knows_iff (Header.normalized_eq_self_iff.mp (Header.normalized_of_parse hp)).1
    have hlength : 12 ≤ b.length := Header.codec.le_length hp
    rw [head?_of_parse hp, and_iff_right hlength, handle, hsplit]
    cases hk : knows h.messageType <;> simp [hk, ← hknown]

/-- So it answers the answers of other devices. -/
theorem handle_reply (d : Device) (s : DeviceState) (request : Header) (deviceId : DeviceId)
    (component : UInt8) : d.handle s (request.reply deviceId component).encode =
      (some (request.reply d.deviceId d.component).encode, { s with requests := s.requests + 1 }) :=
  handle_of_knows (Header.split_reply ..) rfl

theorem handle_of_none (h : (d.handle s b).1 = none) : d.handle s b = (none, s) := by
  rcases d.handle_cases s b with ⟨_, _, -, -, heq⟩ | ⟨-, heq⟩
  · rw [heq] at h
    contradiction
  · exact heq

end Device

/-- A datagram on its way to a device that sends its answers to `peer`, and the other way round. -/
structure Rally where
  device : Device
  state : DeviceState
  peer : Device
  peerState : DeviceState
  datagram : Bytes

namespace Rally

/-- The device answers, if it does, and the answer is on its way to the other one. -/
def step (x : Rally) : Option Rally :=
  match x.device.handle x.state x.datagram with
  | (some r, s) => some ⟨x.peer, x.peerState, x.device, s, r⟩
  | (none, _) => none

/-- What it has come to after `n` answers, if there are as many. -/
def after : Nat → Rally → Option Rally
  | 0, x => some x
  | n + 1, x => x.step.bind (after n)

/-- The datagram is what a device has sent back. -/
def IsReply (x : Rally) : Prop :=
  ∃ (request : Header) (deviceId : DeviceId) (component : UInt8),
    x.datagram = (request.reply deviceId component).encode

variable {x y : Rally}

theorem isSome_step (x : Rally) : x.step.isSome ↔ (x.device.handle x.state x.datagram).1.isSome := by
  rw [step]
  split <;> next h => simp [h]

theorem isReply_of_step (h : x.step = some y) : y.IsReply := by
  rw [step] at h
  split at h
  · next a s ha =>
    cases h
    obtain ⟨-, request, hr⟩ := Device.answer_of_handle ha
    exact ⟨request, _, _, hr⟩
  · contradiction

/-- What a device has sent back is answered. -/
theorem step_of_isReply (h : x.IsReply) : ∃ a, x.device.IsAnswer x.datagram a ∧ x.step =
    some ⟨x.peer, x.peerState, x.device, { x.state with requests := x.state.requests + 1 }, a⟩ := by
  obtain ⟨request, deviceId, component, hd⟩ := h
  have hh := Device.handle_reply x.device x.state request deviceId component
  rw [← hd] at hh
  exact ⟨_, (Device.answer_of_handle hh).1, by rw [step, hh]⟩

theorem isSome_after_of_isReply (h : x.IsReply) (n : Nat) : (after n x).isSome := by
  induction n generalizing x with
  | zero => rfl
  | succ n ih =>
    obtain ⟨a, -, hs⟩ := step_of_isReply h
    rw [after, hs]
    exact ih (isReply_of_step hs)

/-- There is an end only if there is no answer at all. -/
theorem exists_after_eq_none : (∃ n, after n x = none) ↔ x.step = none := by
  constructor
  · rintro ⟨n, hn⟩
    cases n with
    | zero => contradiction
    | succ n =>
      cases hs : x.step with
      | none => rfl
      | some y =>
        rw [after, hs] at hn
        have hsome := isSome_after_of_isReply (isReply_of_step hs) n
        rw [Option.bind_some] at hn
        rw [hn] at hsome
        contradiction
  · exact fun hs => ⟨1, by rw [after, hs]; rfl⟩

/-! ## The main statement -/

/-- What comes of a datagram that reaches one of two devices. -/
structure Rebounds (x : Rally) : Prop where
  /-- The device goes by the first byte, whatever the status. -/
  answered_iff : x.step.isSome ↔
    12 ≤ x.datagram.length ∧ ∃ t ∈ Device.knownBytes, x.datagram.head? = some t
  ignored : x.step = none → x.device.handle x.state x.datagram = (none, x.state)
  /-- The answer is answered by the other device, with its own ids and the same number, and only the count
  of that device changes. -/
  answered : ∀ y, x.step = some y → ∃ a, y.device.IsAnswer y.datagram a ∧ y.step =
    some ⟨y.peer, y.peerState, y.device, { y.state with requests := y.state.requests + 1 }, a⟩
  /-- Answers come for ever, unless there is none. -/
  ends_iff : (∃ n, after n x = none) ↔ x.step = none

theorem rebounds (x : Rally) : x.Rebounds where
  answered_iff := x.isSome_step.trans (Device.isSome_handle_iff ..)
  ignored h := Device.handle_of_none (by simpa [h] using x.isSome_step)
  answered _ h := step_of_isReply (isReply_of_step h)
  ends_iff := exists_after_eq_none

/-- The device that was given no id answers a ping, and another device answers the answer. -/
theorem not_silent_of_reply : ¬ ∀ (d d' : Device) (s s' : DeviceState) (b r : Bytes) (t : DeviceState),
    d.handle s b = (some r, t) → d'.handle s' r = (none, s') := by
  intro h
  have hsilent := h ⟨.standard, 0xff⟩ ⟨#v[0xaa, 0xbb, 0xcc, 0xdd], 0xff⟩ .initial .initial
    [0x00, 0x01, 0x06, 0x00, 0, 0, 0, 0, 0x05, 0x00, 0xff, 0x01]
    [0x00, 0x01, 0x01, 0x00, 0, 1, 2, 3, 0x05, 0x00, 0xff, 0x01] _ rfl
  cases hsilent

end Rally
end AmpLink
