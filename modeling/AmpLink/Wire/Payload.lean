import AmpLink.Text.Utf8
import AmpLink.Wire.Header
import AmpLink.Wire.LiveCommand

/-!
# Payloads

What follows the header, by message type and status. Every payload has a fixed size; reading checks
that enough bytes are there and nothing else, and ignores bytes behind the payload.
-/

namespace AmpLink

/-- Reads the value of a layout from the start of `b`, which has to be long enough. -/
def Layout.parse (l : Layout α) (b : Bytes) : Except ProtocolError α :=
  if b.length < l.size then .error (.shortBuffer l.size b.length) else .ok (l.decode b)

theorem Layout.parse_append (l : Layout α) (a : α) (t : Bytes) :
    l.parse (l.encode a ++ t) = .ok a := by
  have : ¬ (l.encode a ++ t).length < l.size := by simp [l.length_encode]
  simp only [parse, this, if_false, l.decode_append]

structure PresetRecall where
  crtFlags : UInt8
  optFlags : UInt8
  indexPosition : UInt8
  reserved : UInt8
  deriving DecidableEq, Repr

namespace PresetRecall

/-- The fields in the order in which they are sent. -/
def packing : Packing (UInt8 × UInt8 × UInt8 × UInt8) PresetRecall where
  pack := fun (crtFlags, optFlags, indexPosition, reserved) =>
    { crtFlags, optFlags, indexPosition, reserved }
  unpack p := (p.crtFlags, p.optFlags, p.indexPosition, p.reserved)
  pack_unpack _ := rfl
  unpack_pack _ := rfl

def layout : Layout PresetRecall :=
  (Layout.pair .byte <| .pair .byte <| .pair .byte .byte).map packing

/-- The preset stored under an index. -/
def byIndex (index : UInt8) : PresetRecall :=
  { crtFlags := 0, optFlags := 0, indexPosition := index, reserved := 0 }

/-- The preset at a place of the list. -/
def byPosition (position : UInt8) : PresetRecall :=
  { crtFlags := 2, optFlags := 0, indexPosition := position, reserved := 0 }

end PresetRecall

structure DeviceDataRequest where
  crtFlags : UInt8
  optFlags : UInt8
  deriving DecidableEq, Repr

namespace DeviceDataRequest

/-- The fields in the order in which they are sent. -/
def packing : Packing (UInt8 × UInt8) DeviceDataRequest where
  pack := fun (crtFlags, optFlags) => { crtFlags, optFlags }
  unpack p := (p.crtFlags, p.optFlags)
  pack_unpack _ := rfl
  unpack_pack _ := rfl

def layout : Layout DeviceDataRequest := (Layout.pair .byte .byte).map packing

end DeviceDataRequest

/-- Identity and network settings of a device. -/
structure DeviceDataResponse where
  crtFlags : UInt8
  optFlags : UInt8
  deviceTypeId : UInt16
  subnetPrefixLength : UInt8
  diagnosticState : UInt8
  firmwareVersion : UInt32
  serialNumber : UInt16
  reserved : UInt32
  gatewayIp : Vector UInt8 4
  staticIp : Vector UInt8 4
  hardwareFeatures : UInt32
  startPresetId : UInt8
  reserved2 : Vector UInt8 6
  deviceName : Vector UInt8 32
  vendorId : UInt8
  deriving DecidableEq, Repr

namespace DeviceDataResponse

/-- The fields in the order in which they are sent. -/
def packing :
    Packing (UInt8 × UInt8 × UInt16 × UInt8 × UInt8 × UInt32 × UInt16 × UInt32 × Vector UInt8 4 ×
      Vector UInt8 4 × UInt32 × UInt8 × Vector UInt8 6 × Vector UInt8 32 × UInt8)
      DeviceDataResponse where
  pack := fun (crtFlags, optFlags, deviceTypeId, subnetPrefixLength, diagnosticState,
      firmwareVersion, serialNumber, reserved, gatewayIp, staticIp, hardwareFeatures, startPresetId,
      reserved2, deviceName, vendorId) =>
    { crtFlags, optFlags, deviceTypeId, subnetPrefixLength, diagnosticState, firmwareVersion,
      serialNumber, reserved, gatewayIp, staticIp, hardwareFeatures, startPresetId, reserved2,
      deviceName, vendorId }
  unpack p :=
    (p.crtFlags, p.optFlags, p.deviceTypeId, p.subnetPrefixLength, p.diagnosticState,
      p.firmwareVersion, p.serialNumber, p.reserved, p.gatewayIp, p.staticIp, p.hardwareFeatures,
      p.startPresetId, p.reserved2, p.deviceName, p.vendorId)
  pack_unpack _ := rfl
  unpack_pack _ := rfl

def layout : Layout DeviceDataResponse :=
  (Layout.pair .byte <| .pair .byte <| .pair .word16 <| .pair .byte <| .pair .byte <|
    .pair .word32 <| .pair .word16 <| .pair .word32 <| .pair (.bytes 4) <| .pair (.bytes 4) <|
    .pair .word32 <| .pair .byte <| .pair (.bytes 6) <| .pair (.bytes 32) .byte).map packing

/-- The bytes of the name field before the first zero. -/
def nameBytes (field : Bytes) : Bytes := field.takeWhile (· ≠ 0)

/-- The name, with a replacement character for each run of bytes that is no text. -/
def name (p : DeviceDataResponse) : String := Utf8.decodeLossy (nameBytes p.deviceName.toList)

end DeviceDataResponse

/-- The gain of the whole device: 1000 is full scale. -/
structure MasterVolume where
  gain : UInt32
  deriving DecidableEq, Repr

namespace MasterVolume

/-- Four fixed bytes before the gain. -/
def selector : Bytes := [0x01, 0x00, 0x03, 0x06]

/-- The gain of volume one. -/
def fullScale : Binary32 := .ofNat 1000

/-- Bytes of a master volume command. -/
def size : Nat := 8

def encode (v : MasterVolume) : Bytes := selector ++ Layout.word32.encode v.gain

/-- Reads the gain behind the selector, whatever bytes stand in its place. -/
def parse (b : Bytes) : Except ProtocolError MasterVolume :=
  if b.length < size then .error (.shortBuffer size b.length)
  else .ok ⟨Layout.word32.decode (b.drop selector.length)⟩

/-- Whether a body is a master volume command. -/
def isSelected (b : Bytes) : Bool := size ≤ b.length && b.take selector.length = selector

/-- The gain of a volume between zero and one. -/
def ofVolume (volume : Binary32) : Except ProtocolError MasterVolume :=
  if volume.isFraction then .ok ⟨(volume * fullScale).toUInt32⟩ else .error (.invalidVolume volume)

def volume (v : MasterVolume) : Binary32 := .ofNat v.gain.toNat / fullScale

end MasterVolume

/-- A decoded payload. -/
inductive Payload where
  | empty
  | presetRecall (p : PresetRecall)
  | deviceDataRequest (p : DeviceDataRequest)
  | deviceDataResponse (p : DeviceDataResponse)
  | masterVolume (p : MasterVolume)
  | liveCmd (p : LiveCommand)
  /-- A body without a known form. -/
  | raw (body : Bytes)
  deriving DecidableEq, Repr

namespace Payload

/-- Chooses the form of a body by message type and status. -/
def decode (h : Header) (body : Bytes) : Except ProtocolError Payload :=
  if body.isEmpty then .ok .empty
  else match h.messageType with
    | .presetRecall => (PresetRecall.layout.parse body).map .presetRecall
    | .liveCmd => (LiveCommand.layout.parse body).map .liveCmd
    | .deviceData =>
      if h.status.isRequest then (DeviceDataRequest.layout.parse body).map .deviceDataRequest
      else if h.status.isResponse then
        (DeviceDataResponse.layout.parse body).map .deviceDataResponse
      else if h.status.isCommand ∧ MasterVolume.isSelected body then
        (MasterVolume.parse body).map .masterVolume
      else .ok (.raw body)
    | _ => .ok (.raw body)

def encode : Payload → Bytes
  | empty => []
  | presetRecall p => PresetRecall.layout.encode p
  | deviceDataRequest p => DeviceDataRequest.layout.encode p
  | deviceDataResponse p => DeviceDataResponse.layout.encode p
  | masterVolume p => p.encode
  | liveCmd p => LiveCommand.layout.encode p
  | raw body => body

end Payload
end AmpLink
