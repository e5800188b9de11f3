import AmpLink.Proofs.Wire.Frame

/-!
# Frames of requests

The frame of a request is taken apart into its header and its payload (`Request.decodeFrame_frame`). So is
the answer of a device, which is a header alone (`Header.split_reply`).
-/

namespace AmpLink

namespace Header

theorem normalized_make (t : MessageType) (s : Status) (deviceId : DeviceId) (sequence : UInt16)
    (component : UInt8) :
    (make t s deviceId sequence component).normalized = make t s deviceId sequence component := by
  simp [make, normalized, MessageType.normalized, Status.normalized]

theorem split_append {h : Header} (hn : h.normalized = h) (body : Bytes) :
    split (h.encode ++ body) = .ok (h, body) := by
  have hdrop : (h.encode ++ body).drop size = body := List.drop_left' (length_encode h)
  rw [split, parse_append, hn]
  exact congrArg (fun body => Except.ok (h, body)) hdrop

theorem parse_reply (request : Header) (deviceId : DeviceId) (component : UInt8) :
    parse (request.reply deviceId component).encode = .ok (request.reply deviceId component) := by
  have hp := parse_append (request.reply deviceId component) []
  rwa [List.append_nil, reply, normalized_make] at hp

theorem split_reply (request : Header) (deviceId : DeviceId) (component : UInt8) :
    split (request.reply deviceId component).encode = .ok (request.reply deviceId component, []) := by
  have hs := split_append (normalized_make .ping .responseServer deviceId request.sequence component) []
  rwa [List.append_nil] at hs

theorem parse_of_split {h : Header} (hs : split b = .ok (h, body)) : parse b = .ok h := by
  rw [split] at hs
  cases hp : parse b with
  | error e =>
    rw [hp] at hs
    contradiction
  | ok h' =>
    rw [hp] at hs
    cases hs
    rfl

end Header

theorem Header.HasForm.carries {h : Header} {l : Layout α} {form : α → Payload}
    (hf : h.HasForm l form) (hl : 0 < l.size) (p : α) : h.Carries (l.encode p) (form p) := by
  have hb : l.encode p ≠ [] := List.ne_nil_of_length_pos (l.length_encode p ▸ hl)
  exact .form hb hf List.prefix_rfl

namespace Request

variable (r : Request) (sequence : UInt16) (component : UInt8)

/-- The payload of a request is of the form that its header asks for. -/
theorem carries : (r.header sequence component).Carries r.payload.encode r.payload := by
  cases r with
  | ping => exact .empty rfl
  | recallByIndex index => exact Header.HasForm.carries (.presetRecall rfl) (by decide) (.byIndex index)
  | recallByPosition position =>
    exact Header.HasForm.carries (.presetRecall rfl) (by decide) (.byPosition position)
  | masterVolume v => exact .masterVolume rfl rfl List.prefix_rfl
  | deviceData => exact Header.HasForm.carries (.deviceDataRequest rfl rfl) (by decide) ⟨0, 0⟩
  | live c => exact Header.HasForm.carries (.liveCmd rfl) (by decide) c

theorem split_frame :
    Header.split (r.frame sequence component) = .ok (r.header sequence component, r.payload.encode) :=
  Header.split_append (Header.normalized_make ..) _

theorem decode_payload :
    Payload.decode (r.header sequence component) r.payload.encode = .ok r.payload :=
  Payload.ok_decode_iff.mpr (r.carries sequence component)

theorem decodeFrame_frame : decodeFrame (r.frame sequence component) =
    .ok (r.header sequence component, .ok r.payload) := by
  rw [decodeFrame, split_frame]
  exact congrArg (fun p => Except.ok (_, p)) (r.decode_payload sequence component)

end Request
end AmpLink
