import AmpLink.Proofs.Number.Fraction
import AmpLink.Proofs.Wire.Request

/-!
# Frames that say what they are for

A demand is a request before it is made, with a volume as it is given. `Demand.Says` lists the type, the
status and the payload that a frame has to have for each demand, and a frame is `Legible` if a receiver reads
these out of it. So nobody can take it for the frame of another demand (`Demand.Legible.unique`), and that the
frames of all demands are legible is the main statement, `Demand.framed`.
-/

namespace AmpLink

theorem map_eq_ok_iff {x : Except ε α} {f : α → β} : x.map f = .ok b ↔ ∃ a, x = .ok a ∧ f a = b := by
  cases x with
  | error e =>
    refine iff_of_false nofun ?_
    rintro ⟨_, ha, -⟩
    contradiction
  | ok a => simp [Except.map]

theorem map_eq_error_iff {x : Except ε α} {f : α → β} : x.map f = .error e ↔ x = .error e := by
  cases x with
  | error e' => simp [Except.map]
  | ok a => exact iff_of_false nofun nofun

/-- What a caller asks for. -/
inductive Demand where
  | ping
  | recallByIndex (index : UInt8)
  | recallByPosition (position : UInt8)
  | masterVolume (volume : Binary32)
  | deviceData
  | live (command : LiveCommand)

namespace Demand

def request : Demand → Except ProtocolError Request
  | ping => .ok .ping
  | recallByIndex index => .ok (.recallByIndex index)
  | recallByPosition position => .ok (.recallByPosition position)
  | masterVolume v => (MasterVolume.ofVolume v).map .masterVolume
  | deviceData => .ok .deviceData
  | live command => .ok (.live command)

/-- The datagram that is sent. There is none if a volume is refused. -/
def frame (d : Demand) (sequence : UInt16) (component : UInt8) : Except ProtocolError Bytes :=
  d.request.map fun r => r.frame sequence component

/-- Type, status and payload of a demand. -/
inductive Says : Demand → MessageType → Status → Payload → Prop
  | ping : Says ping .ping .requestServer .empty
  | recallByIndex : Says (recallByIndex index) .presetRecall .commandClient
    (.presetRecall { crtFlags := 0, optFlags := 0, indexPosition := index, reserved := 0 })
  | recallByPosition : Says (recallByPosition position) .presetRecall .commandClient
    (.presetRecall { crtFlags := 2, optFlags := 0, indexPosition := position, reserved := 0 })
  | masterVolume : MasterVolume.ofVolume v = .ok m →
    Says (masterVolume v) .deviceData .commandClient (.masterVolume m)
  | deviceData : Says deviceData .deviceData .requestServer
    (.deviceDataRequest { crtFlags := 0, optFlags := 0 })
  | live : Says (live command) .liveCmd .commandClient (.liveCmd command)

/-- The same demand, up to volumes with the same gain. -/
inductive SameAs : Demand → Demand → Prop
  | refl : SameAs d d
  | masterVolume : MasterVolume.ofVolume v = .ok m → MasterVolume.ofVolume v' = .ok m →
    SameAs (masterVolume v) (masterVolume v')

end Demand

theorem MasterVolume.ofVolume_eq_error_iff : ofVolume v = .error e ↔
    ¬ v.InUnit ∧ e = .invalidVolume v := by
  rw [ofVolume, ← Binary32.isFraction_iff]
  split
  · next hv => exact iff_of_false nofun fun h => h.1 hv
  · next hv => rw [and_iff_right hv, Except.error.injEq, eq_comm]

/-- The header and the payload that a receiver reads out of a frame. -/
structure Reads (f : Bytes) (h : Header) (p : Payload) : Prop where
  split : Header.split f = .ok (h, p.encode)
  decode : Payload.decode h p.encode = .ok p
  /-- The payload takes every byte of the body. -/
  whole : ∀ body, body <+: p.encode → Payload.decode h body = .ok p → body = p.encode

theorem Reads.unique (h : Reads f x p) (h' : Reads f x' p') : x = x' ∧ p = p' := by
  have hsplit := h.split
  rw [h'.split, Except.ok.injEq, Prod.mk.injEq] at hsplit
  obtain ⟨rfl, hbody⟩ := hsplit
  have hdecode := h.decode
  rw [← hbody, h'.decode, Except.ok.injEq] at hdecode
  exact ⟨rfl, hdecode.symm⟩

theorem Request.reads_frame (r : Request) (sequence : UInt16) (component : UInt8) :
    Reads (r.frame sequence component) (r.header sequence component) r.payload where
  split := r.split_frame sequence component
  decode := r.decode_payload sequence component
  whole body hbody hdecode := by
    have hp := (Payload.encode_of_carries (Payload.ok_decode_iff.mp hdecode)).1
    exact hbody.eq_of_length_le hp.length_le

namespace Demand

variable {d d' : Demand} {sequence sequence' : UInt16} {component component' : UInt8}

theorem says_of_request (h : d.request = .ok r) : d.Says r.messageType r.status r.payload := by
  cases d with
  | masterVolume v =>
    obtain ⟨m, hm, rfl⟩ := map_eq_ok_iff.mp h
    exact .masterVolume hm
  | ping | recallByIndex _ | recallByPosition _ | deviceData | live _ =>
    cases h
    constructor

/-- The payload alone tells demands apart. -/
theorem Says.sameAs (h : d.Says t s p) (h' : d'.Says t' s' p) : d.SameAs d' := by
  cases h with
  | masterVolume hm =>
    cases h' with
    | masterVolume hm' => exact .masterVolume hm hm'
  | ping | recallByIndex | recallByPosition | deviceData | live =>
    cases h'
    exact .refl

/-- The frame reads as this demand, under its number and for its component. -/
def Legible (d : Demand) (sequence : UInt16) (component : UInt8) (f : Bytes) : Prop :=
  ∃ t s p, d.Says t s p ∧
    Reads f
      { messageType := t, protocolId := 1, status := s, deviceId := .replicate 4 0, sequence, component,
        reserved := 1 } p

theorem Legible.unique (h : d.Legible sequence component f) (h' : d'.Legible sequence' component' f) :
    d.SameAs d' ∧ sequence = sequence' ∧ component = component' := by
  obtain ⟨t, s, p, htold, hreads⟩ := h
  obtain ⟨t', s', p', htold', hreads'⟩ := h'
  obtain ⟨hheader, rfl⟩ := hreads.unique hreads'
  exact ⟨htold.sameAs htold', congrArg Header.sequence hheader, congrArg Header.component hheader⟩

theorem legible_of_frame (h : d.frame sequence component = .ok f) : d.Legible sequence component f := by
  obtain ⟨r, hr, rfl⟩ := map_eq_ok_iff.mp h
  -- the types and statuses of requests are the named ones, which reading gives back
  have hheader : r.header sequence component =
      { messageType := r.messageType, protocolId := 1, status := r.status, deviceId := .replicate 4 0
        sequence, component, reserved := 1 } := by
    cases r <;> rfl
  exact ⟨_, _, _, says_of_request hr, hheader ▸ r.reads_frame sequence component⟩

theorem SameAs.frame_eq (h : d.SameAs d') (sequence : UInt16) (component : UInt8) :
    d'.frame sequence component = d.frame sequence component := by
  cases h with
  | refl => rfl
  | masterVolume hm hm' => rw [frame, request, hm', frame, request, hm]

theorem frame_eq_error_iff : d.frame sequence component = .error e ↔
    ∃ v, d = .masterVolume v ∧ ¬ v.InUnit ∧ e = .invalidVolume v := by
  cases d with
  | masterVolume v =>
    rw [frame, map_eq_error_iff, request, map_eq_error_iff, MasterVolume.ofVolume_eq_error_iff]
    constructor
    · exact fun h => ⟨v, rfl, h⟩
    · rintro ⟨_, hv, h⟩
      cases hv
      exact h
  | ping | recallByIndex _ | recallByPosition _ | deviceData | live _ =>
    refine iff_of_false nofun ?_
    rintro ⟨_, hv, -⟩
    contradiction

/-! ## The main statement -/

/-- How a demand, a number and a component go into a frame. -/
structure Framed (d : Demand) (sequence : UInt16) (component : UInt8) : Prop where
  legible : ∀ f, d.frame sequence component = .ok f → d.Legible sequence component f
  /-- Nothing is refused but a volume that is no number from zero to one. -/
  refused_iff : ∀ e, d.frame sequence component = .error e ↔
    ∃ v, d = .masterVolume v ∧ ¬ v.InUnit ∧ e = .invalidVolume v
  /-- No other demand, number or component gives the same frame. -/
  frame_eq_iff : ∀ f, d.frame sequence component = .ok f → ∀ d' sequence' component',
    d'.frame sequence' component' = .ok f ↔
      d.SameAs d' ∧ sequence = sequence' ∧ component = component'

/-- Every frame tells its demand, its number and its component. -/
theorem framed (d : Demand) (sequence : UInt16) (component : UInt8) : d.Framed sequence component where
  legible _ hf := legible_of_frame hf
  refused_iff _ := frame_eq_error_iff
  frame_eq_iff f hf d' sequence' component' := by
    constructor
    · intro hf'
      exact (legible_of_frame hf).unique (legible_of_frame hf')
    · rintro ⟨hsame, rfl, rfl⟩
      rw [hsame.frame_eq, hf]

/-- One half and the next volume have one gain, and a preset is not recalled alike by index and position. -/
theorem framed_neighbours :
    (masterVolume ⟨0x3f000001⟩).frame 9 0xff = (masterVolume ⟨0x3f000000⟩).frame 9 0xff ∧
      (recallByPosition 3).frame 9 0xff ≠ (recallByIndex 3).frame 9 0xff := by
  have hhalf := (framed (masterVolume ⟨0x3f000000⟩) 9 0xff).frame_eq_iff _ rfl
  have hindex := (framed (recallByIndex 3) 9 0xff).frame_eq_iff _ rfl
  have hgain : MasterVolume.ofVolume ⟨0x3f000001⟩ = .ok ⟨500⟩ := by decide +kernel
  have hgain' : MasterVolume.ofVolume ⟨0x3f000000⟩ = .ok ⟨500⟩ := by decide +kernel
  refine ⟨(hhalf _ 9 0xff).mpr ⟨.masterVolume hgain' hgain, rfl, rfl⟩, fun h => ?_⟩
  obtain ⟨hsame, -⟩ := (hindex _ 9 0xff).mp h
  cases hsame

end Demand
end AmpLink
