import AmpLink.Proofs.Wire.Codec
import AmpLink.Wire.Header
import Mathlib.Data.Set.Function

/-!
# Headers and their twelve bytes

A header is read back in its normalized form, in which assigned message types and statuses have their
names (`MessageType.normalized_eq_self_iff`, `Status.normalized_eq_self_iff`), and twelve bytes are
written back as they were read. So headers in normalized form and strings of twelve bytes stand for each
other, which is what the main statement `Header.bijective_codec` says.
-/

namespace AmpLink

/-- The numbers that stand for a named type. -/
def MessageType.assigned : List UInt8 := [0, 1, 2, 4, 5, 255]

theorem MessageType.normalized_eq_self_iff {t : MessageType} :
    t.normalized = t ↔ ∀ b ∈ assigned, t ≠ .vendor b := by
  cases t with
  | vendor b =>
    have hnamed : ∀ b ∈ assigned, ofByte b ≠ vendor b := by simp [assigned, ofByte]
    simp only [normalized, toByte, ne_eq, vendor.injEq]
    constructor
    · rintro h _ hb rfl
      exact hnamed b hb h
    · intro h
      simp only [assigned, List.forall_mem_cons] at h
      simp [ofByte, h]
  | _ => simp [normalized, toByte, ofByte]

/-- The numbers that stand for a named status. -/
def Status.assigned : List UInt16 :=
  [0x0102, 0x0106, 0x0101, 0x0109, 0x0141, 0x0002, 0x0006, 0x0001, 0x0009, 0x0041]

theorem Status.normalized_eq_self_iff {s : Status} :
    s.normalized = s ↔ ∀ w ∈ assigned, s ≠ .other w := by
  cases s with
  | other w =>
    have hnamed : ∀ w ∈ assigned, ofWord w ≠ other w := by simp [assigned, ofWord]
    simp only [normalized, toWord, ne_eq, other.injEq]
    constructor
    · rintro h _ hw rfl
      exact hnamed w hw h
    · intro h
      simp only [assigned, List.forall_mem_cons] at h
      simp [ofWord, h]
  | _ => simp [normalized, toWord, ofWord]

namespace Header

/-- The form of a header that reading its bytes gives. -/
def normalized (h : Header) : Header :=
  { h with messageType := h.messageType.normalized, status := h.status.normalized }

theorem normalized_eq_self_iff {h : Header} : h.normalized = h ↔
    h.messageType.normalized = h.messageType ∧ h.status.normalized = h.status := by
  cases h
  simp [normalized]

@[simp] theorem normalized_ofFields (v : UInt8 × UInt8 × UInt16 × DeviceId × UInt16 × UInt8 × UInt8) :
    (ofFields v).normalized = ofFields v := by
  simp [normalized, ofFields]

@[simp] theorem encode_ofFields (v : UInt8 × UInt8 × UInt16 × DeviceId × UInt16 × UInt8 × UInt8) :
    (ofFields v).encode = fieldLayout.encode v := by
  simp [encode, ofFields]

theorem parse_of_lt {b : Bytes} (h : b.length < size) :
    parse b = .error (.shortBuffer size b.length) := if_pos h

theorem parse_of_le {b : Bytes} (h : size ≤ b.length) :
    parse b = .ok (ofFields (fieldLayout.decode b)) := if_neg (Nat.not_lt.mpr h)

theorem parse_append (h : Header) (t : Bytes) : parse (h.encode ++ t) = .ok h.normalized := by
  have hle : size ≤ (h.encode ++ t).length := by simp
  rw [parse_of_le hle, encode, fieldLayout.decode_append]
  rfl

theorem codec : Codec size encode parse normalized (·.take size) where
  length_encode := length_encode
  parse_append := parse_append
  parse_of_lt _ := parse_of_lt
  parse_of_le b hb := by
    refine ⟨_, parse_of_le hb, ?_⟩
    rw [encode_ofFields, fieldLayout.encode_decode b hb]
    rfl

theorem normalized_of_parse {b : Bytes} {h : Header} (hp : parse b = .ok h) : h.normalized = h := by
  rw [parse_of_le (codec.le_length hp), Except.ok.injEq] at hp
  rw [← hp, normalized_ofFields]

/-- Twelve bytes are read as the one normalized header that is written so. -/
theorem parse_eq_ok_iff {b : Bytes} {h : Header} (hb : b.length = size) :
    parse b = .ok h ↔ h.normalized = h ∧ h.encode = b := by
  constructor
  · intro hp
    refine ⟨normalized_of_parse hp, ?_⟩
    rw [codec.encode_of_parse hp, ← hb, List.take_length]
  · rintro ⟨hn, rfl⟩
    have hp := parse_append h []
    rwa [List.append_nil, hn] at hp

theorem encode_eq (h : Header) : h.encode =
    [h.messageType.toByte, h.protocolId, h.status.toWord.toUInt8, (h.status.toWord >>> 8).toUInt8] ++
      h.deviceId.toList ++
        [h.sequence.toUInt8, (h.sequence >>> 8).toUInt8, h.component, h.reserved] := by
  simp [encode, fieldLayout, Layout.pair, Layout.byte, Layout.bytes, Layout.encode_word16]

theorem bijOn_encode : Set.BijOn encode {h | h.normalized = h} {b | b.length = size} := by
  -- reading is the inverse: it tells written headers apart, and finds the one for any twelve bytes
  refine ⟨fun h _ => length_encode h, fun h hn h' hn' he => ?_, fun b hb => ?_⟩
  · have hp := (parse_eq_ok_iff (length_encode h)).mpr ⟨hn, rfl⟩
    have hp' := (parse_eq_ok_iff (length_encode h')).mpr ⟨hn', rfl⟩
    have he : h.encode = h'.encode := he
    rw [he, hp', Except.ok.injEq] at hp
    exact hp.symm
  · obtain ⟨h, hp, -⟩ := codec.parse_of_le b (Nat.le_of_eq hb.symm)
    exact ⟨h, (parse_eq_ok_iff hb).mp hp⟩

/-! ## The main statement -/

/-- Reading gives back what was written in normalized form, writing gives back the twelve bytes that were
read, and nothing behind them matters. -/
theorem bijective_codec :
    (∀ h : Header, parse h.encode = .ok h.normalized ∧
      (parse h.encode = .ok h ↔
        h.messageType.normalized = h.messageType ∧ h.status.normalized = h.status)) ∧
    (∀ h : Header, h.normalized = h ↔ (∀ b ∈ MessageType.assigned, h.messageType ≠ .vendor b) ∧
      ∀ w ∈ Status.assigned, h.status ≠ .other w) ∧
    (∀ b : Bytes, 12 ≤ b.length → ∃ h, parse b = .ok h ∧ h.encode = b.take 12 ∧ h.normalized = h ∧
      parse (b.take 12) = .ok h ∧ split b = .ok (h, b.drop 12)) ∧
    (∀ b : Bytes, b.length < 12 → parse b = .error (.shortBuffer 12 b.length) ∧
      split b = .error (.shortBuffer 12 b.length)) ∧
    (∀ (h : Header) (buffer : Bytes), h.encodeInto buffer = buffer ++ h.encode) ∧
    (∀ h : Header, h.encode =
      [h.messageType.toByte, h.protocolId, h.status.toWord.toUInt8, (h.status.toWord >>> 8).toUInt8] ++
        h.deviceId.toList ++
          [h.sequence.toUInt8, (h.sequence >>> 8).toUInt8, h.component, h.reserved]) ∧
    Set.BijOn encode {h | h.normalized = h} {b | b.length = 12} ∧
    ∀ (h : Header) (b : Bytes), b.length = 12 →
      (parse b = .ok h ↔ h.normalized = h ∧ h.encode = b) := by
  refine ⟨fun h => ?_, fun h => ?_, fun b hb => ?_, fun b hb => ?_, fun _ _ => rfl, encode_eq,
    bijOn_encode, fun _ _ => parse_eq_ok_iff⟩
  · have hp := parse_append h []
    rw [List.append_nil] at hp
    exact ⟨hp, by rw [hp, Except.ok.injEq, normalized_eq_self_iff]⟩
  · rw [normalized_eq_self_iff, MessageType.normalized_eq_self_iff, Status.normalized_eq_self_iff]
  · obtain ⟨h, hp, he⟩ := codec.parse_of_le b hb
    refine ⟨h, hp, he, normalized_of_parse hp, codec.parse_take hb ▸ hp, ?_⟩
    rw [split, hp]
    rfl
  · have hp := parse_of_lt hb
    refine ⟨hp, ?_⟩
    rw [split, hp]
    rfl

/-- A vendor's message with a command's status and two bytes behind the header. -/
def vendorMessage : Bytes := [0x2a, 0x01, 0x02, 0x01, 1, 2, 3, 4, 0x34, 0x12, 0xff, 0x00, 9, 9]

theorem bijective_codec_vendorMessage :
    (12 ≤ vendorMessage.length ∧
      ∃ h, split vendorMessage = .ok (h, [9, 9]) ∧ h.encode = vendorMessage.take 12) ∧
    ((vendorMessage.take 11).length < 12 ∧
      parse (vendorMessage.take 11) = .error (.shortBuffer 12 11)) ∧
    ((vendorMessage.take 12).length = 12 ∧ ∀ h, parse (vendorMessage.take 12) = .ok h ↔
      h.normalized = h ∧ h.encode = vendorMessage.take 12) := by
  obtain ⟨-, -, hlong, hshort, -, -, -, hexact⟩ := bijective_codec
  obtain ⟨h, -, he, -, -, hs⟩ := hlong vendorMessage (by decide)
  exact ⟨⟨by decide, h, hs, he⟩, ⟨by decide, (hshort _ (by decide)).1⟩,
    ⟨by decide, fun h => hexact h _ (by decide)⟩⟩

end Header
end AmpLink
