import AmpLink.Proofs.Wire.Codec

/-!
# The codecs of the payloads

Four payloads have a layout each, and a master volume stands behind a selector that its parser passes
over. All five are codecs of their size; they keep the bytes that they have read, except that the
selector is written whatever stood in its place. The main statement `Payload.codecs` also says in which
order the fields stand, so that writing and reading cannot agree on a wrong one.
-/

namespace AmpLink

theorem DeviceDataResponse.encode_eq (p : DeviceDataResponse) : layout.encode p =
    [p.crtFlags, p.optFlags] ++ Layout.word16.encode p.deviceTypeId ++
      [p.subnetPrefixLength, p.diagnosticState] ++ Layout.word32.encode p.firmwareVersion ++
      Layout.word16.encode p.serialNumber ++ Layout.word32.encode p.reserved ++ p.gatewayIp.toList ++
      p.staticIp.toList ++ Layout.word32.encode p.hardwareFeatures ++ [p.startPresetId] ++
      p.reserved2.toList ++ p.deviceName.toList ++ [p.vendorId] := by
  simp [layout, packing, Layout.map, Layout.pair, Layout.byte, Layout.bytes]

theorem LiveCommand.encode_eq (c : LiveCommand) :
    layout.encode c = [c.crtFlags, c.optFlags] ++ c.path.toList ++ Layout.word32.encode c.value := by
  simp [layout, packing, Layout.map, Layout.pair, Layout.byte, Layout.bytes]

namespace MasterVolume

theorem parse_of_lt {b : Bytes} (h : b.length < size) :
    parse b = .error (.shortBuffer size b.length) := if_pos h

theorem parse_of_le {b : Bytes} (h : size ≤ b.length) :
    parse b = .ok ⟨Layout.word32.decode (b.drop selector.length)⟩ := if_neg (Nat.not_lt.mpr h)

theorem length_encode (v : MasterVolume) : v.encode.length = size := by
  rw [encode, List.length_append, Layout.word32.length_encode]
  rfl

theorem codec : Codec size encode parse id (fun b => selector ++ (b.drop 4).take 4) where
  length_encode := length_encode
  parse_append v t := by
    have hle : size ≤ (v.encode ++ t).length := by simp [length_encode]
    rw [parse_of_le hle, encode, List.append_assoc, List.drop_left, Layout.word32.decode_append]
    rfl
  parse_of_lt _ := parse_of_lt
  parse_of_le b hb := by
    refine ⟨_, parse_of_le hb, ?_⟩
    have hword : Layout.word32.size ≤ (b.drop selector.length).length := by
      rw [List.length_drop]
      exact Nat.le_sub_of_add_le hb
    rw [encode, Layout.word32.encode_decode _ hword]
    rfl

/-- Only a body with the selector is kept as it is. -/
theorem selector_append_eq_take_iff {b : Bytes} :
    selector ++ (b.drop 4).take 4 = b.take 8 ↔ b.take 4 = selector := by
  rw [show 8 = 4 + 4 from rfl, List.take_add, List.append_left_inj, eq_comm]

end MasterVolume

namespace Payload

/-- Every payload is written with its size and read back whatever follows, and every body that is long
enough is read and written back as it was, up to the selector of a master volume. -/
theorem codecs :
    (Codec 4 PresetRecall.layout.encode PresetRecall.layout.parse id (·.take 4) ∧
      Codec 2 DeviceDataRequest.layout.encode DeviceDataRequest.layout.parse id (·.take 2) ∧
      Codec 68 DeviceDataResponse.layout.encode DeviceDataResponse.layout.parse id (·.take 68) ∧
      Codec 16 LiveCommand.layout.encode LiveCommand.layout.parse id (·.take 16) ∧
      Codec 8 MasterVolume.encode MasterVolume.parse id
        (fun b => MasterVolume.selector ++ (b.drop 4).take 4)) ∧
    (∀ b : Bytes,
      MasterVolume.selector ++ (b.drop 4).take 4 = b.take 8 ↔ b.take 4 = MasterVolume.selector) ∧
    -- the order of the fields, and of the bytes of a word
    (∀ p : PresetRecall,
      PresetRecall.layout.encode p = [p.crtFlags, p.optFlags, p.indexPosition, p.reserved]) ∧
    (∀ p : DeviceDataRequest, DeviceDataRequest.layout.encode p = [p.crtFlags, p.optFlags]) ∧
    (∀ p : DeviceDataResponse, DeviceDataResponse.layout.encode p =
      [p.crtFlags, p.optFlags] ++ Layout.word16.encode p.deviceTypeId ++
        [p.subnetPrefixLength, p.diagnosticState] ++ Layout.word32.encode p.firmwareVersion ++
        Layout.word16.encode p.serialNumber ++ Layout.word32.encode p.reserved ++ p.gatewayIp.toList ++
        p.staticIp.toList ++ Layout.word32.encode p.hardwareFeatures ++ [p.startPresetId] ++
        p.reserved2.toList ++ p.deviceName.toList ++ [p.vendorId]) ∧
    (∀ c : LiveCommand, LiveCommand.layout.encode c =
      [c.crtFlags, c.optFlags] ++ c.path.toList ++ Layout.word32.encode c.value) ∧
    (∀ v : MasterVolume, v.encode = [0x01, 0x00, 0x03, 0x06] ++ Layout.word32.encode v.gain) ∧
    (∀ w : UInt16, Layout.word16.encode w = [w.toUInt8, (w >>> 8).toUInt8]) ∧
    ∀ w : UInt32, Layout.word32.encode w =
      [w.toUInt8, (w >>> 8).toUInt8, (w >>> 16).toUInt8, (w >>> 24).toUInt8] := by
  refine ⟨⟨PresetRecall.layout.codec, DeviceDataRequest.layout.codec, DeviceDataResponse.layout.codec,
    LiveCommand.layout.codec, MasterVolume.codec⟩, ?_⟩
  refine ⟨fun _ => MasterVolume.selector_append_eq_take_iff, fun _ => rfl, fun _ => rfl,
    DeviceDataResponse.encode_eq, LiveCommand.encode_eq, fun _ => rfl, ?_⟩
  exact ⟨Layout.encode_word16, Layout.encode_word32⟩

/-- Nine bytes that begin like a master volume with another selector. -/
def unselected : Bytes := [0x01, 0x00, 0x03, 0x07, 0xf4, 0x01, 0x00, 0x00, 0xff]

theorem codecs_unselected : 8 ≤ unselected.length ∧ ∃ v, MasterVolume.parse unselected = .ok v ∧
    v.encode = MasterVolume.selector ++ [0xf4, 0x01, 0x00, 0x00] ∧ v.encode ≠ unselected.take 8 := by
  obtain ⟨⟨-, -, -, -, hcodec⟩, hselector, -⟩ := codecs
  have hlength : 8 ≤ unselected.length := by decide
  obtain ⟨v, hp, he⟩ := hcodec.parse_of_le unselected hlength
  refine ⟨hlength, v, hp, he, ?_⟩
  rw [he, Ne, hselector]
  decide

end Payload
end AmpLink
