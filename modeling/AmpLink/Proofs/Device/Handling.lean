import AmpLink.Device
import AmpLink.Proofs.Wire.Request

/-!
# What a device does with a datagram

Only the header decides whether a device answers (`Device.handle_cases`). It answers the frame of every
request and takes over what the payload sets (`Device.handle_frame`), and so for frames that come one after
the other (`Device.deliver`).
-/

namespace AmpLink

theorem DeviceState.requests_apply (s : DeviceState) (p : Payload) :
    (s.apply p).requests = s.requests := by
  rw [apply.eq_def]
  split <;> rfl

theorem DeviceState.apply_masterVolume (s : DeviceState) (v : MasterVolume) :
    (s.apply (.masterVolume v)).activePreset = s.activePreset ∧
      (s.apply (.masterVolume v)).volume = v.volume := by
  have h : s.apply (.masterVolume v) = { s with volume := v.volume } := rfl
  -- the volume is a number like any other here, and is not to be worked out
  generalize v.volume = x at h ⊢
  rw [h]
  exact ⟨rfl, rfl⟩

namespace Device

variable {d : Device} {s t : DeviceState} {a b body : Bytes} {h : Header} {i : Nat}

theorem requests_absorb (s : DeviceState) (h : Header) (body : Bytes) :
    (absorb s h body).requests = s.requests := by
  rw [absorb]
  split
  · split
    · exact s.requests_apply _
    · rfl
  · split
    · exact s.requests_apply _
    · rfl
  · rfl

theorem handle_of_knows (hs : Header.split b = .ok (h, body)) (hk : knows h.messageType) :
    d.handle s b = (some (h.reply d.deviceId d.component).encode,
      { absorb s h body with requests := s.requests + 1 }) := by
  rw [handle, hs]
  simp only [hk, if_true, requests_absorb]

/-- A device answers a datagram with a whole header whose type it knows, and nothing else touches it. -/
theorem handle_cases (d : Device) (s : DeviceState) (b : Bytes) :
    (∃ h body, Header.split b = .ok (h, body) ∧ knows h.messageType ∧
      d.handle s b = (some (h.reply d.deviceId d.component).encode,
        { absorb s h body with requests := s.requests + 1 })) ∨
    ((∀ h body, Header.split b = .ok (h, body) → knows h.messageType = false) ∧
      d.handle s b = (none, s)) := by
  cases hs : Header.split b with
  | error e => exact .inr ⟨nofun, by rw [handle, hs]⟩
  | ok x =>
    obtain ⟨h, body⟩ := x
    cases hk : knows h.messageType with
    | true => exact .inl ⟨h, body, rfl, hk, handle_of_knows hs hk⟩
    | false =>
      refine .inr ⟨fun h' body' heq => ?_, by rw [handle, hs]; simp [hk]⟩
      cases heq
      exact hk

/-- The answer of a device to a datagram: a ping response with the ids of the device, which repeats the
number of the datagram. -/
def IsAnswer (d : Device) (b answer : Bytes) : Prop :=
  ∃ request r : Header, Header.parse b = .ok request ∧ Header.parse answer = .ok r ∧
    r.messageType = .ping ∧ r.status = .responseServer ∧ r.deviceId = d.deviceId ∧
      r.component = d.component ∧ r.sequence = request.sequence

/-- What a device sends back is the header of an answer, and nothing else. -/
theorem answer_of_handle (h : d.handle s b = (some a, t)) : d.IsAnswer b a ∧
    ∃ request : Header, a = (request.reply d.deviceId d.component).encode := by
  rcases d.handle_cases s b with ⟨request, _, hs, -, heq⟩ | ⟨-, heq⟩
  · rw [heq] at h
    cases h
    have hp := Header.parse_of_split hs
    have hp' := Header.parse_reply request d.deviceId d.component
    exact ⟨⟨request, _, hp, hp', rfl, rfl, rfl, rfl, rfl⟩, request, rfl⟩
  · rw [heq] at h
    cases h

/-! ## Frames of requests -/

theorem absorb_frame (s : DeviceState) (r : Request) (sequence : UInt16) (component : UInt8) :
    absorb s (r.header sequence component) r.payload.encode = s.apply r.payload := by
  have hd := r.decode_payload sequence component
  cases r with
  | ping | live => rfl
  | recallByIndex | recallByPosition | masterVolume | deviceData =>
    rw [absorb, hd]
    rfl

theorem handle_frame (d : Device) (s : DeviceState) (r : Request) (sequence : UInt16)
    (component : UInt8) : d.handle s (r.frame sequence component) =
      (some ((r.header sequence component).reply d.deviceId d.component).encode,
        { s.apply r.payload with requests := s.requests + 1 }) := by
  have hk : knows (r.header sequence component).messageType := by cases r <;> rfl
  rw [handle_of_knows (r.split_frame sequence component) hk, absorb_frame]

/-- The answers to datagrams that come one after the other, and the state after them. -/
def deliver (d : Device) (s : DeviceState) : List Bytes → List (Option Bytes) × DeviceState
  | [] => ([], s)
  | b :: rest =>
    let (r, s) := d.handle s b
    let (rs, s) := d.deliver s rest
    (r :: rs, s)

theorem getElem?_deliver (d : Device) (s : DeviceState) {bs : List Bytes} (h : bs[i]? = some b) :
    ∃ s', (d.deliver s bs).1[i]? = some (d.handle s' b).1 := by
  induction bs generalizing s i with
  | nil => contradiction
  | cons c rest ih =>
    cases i with
    | zero =>
      cases h
      exact ⟨s, rfl⟩
    | succ i => exact ih _ h

end Device
end AmpLink
