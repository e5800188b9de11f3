import AmpLink.Wire.Frame

/-!
# A simulated device

The device answers every datagram whose message type it knows, whatever its status and body, and keeps
what it was told: the preset recalled last, the master volume and how many requests it has answered.
-/

namespace AmpLink

/-- What can be observed of a simulated device. -/
structure DeviceState where
  activePreset : Option UInt8
  volume : Binary32
  /-- How many requests have been answered. The count is not bounded. -/
  requests : Nat
  deriving DecidableEq, Repr

namespace DeviceState

def initial : DeviceState := { activePreset := none, volume := .zero, requests := 0 }

/-- Takes over what a payload sets. -/
def apply (s : DeviceState) : Payload → DeviceState
  | .presetRecall p => { s with activePreset := some p.indexPosition }
  | .masterVolume v => { s with volume := v.volume }
  | _ => s

end DeviceState

/-- The fixed data of a simulated device. -/
structure Device where
  deviceId : DeviceId
  component : UInt8
  deriving DecidableEq, Repr

/-- The id of a device that was given none. -/
def DeviceId.standard : DeviceId := #v[0, 1, 2, 3]

/-- The component id of clients and devices that were given none. -/
def standardComponent : UInt8 := 0xff

namespace Device

/-- Message types that a device answers. -/
def knows : MessageType → Bool
  | .ping | .liveCmd | .deviceData | .presetRecall | .presetSave => true
  | _ => false

/-- The state after the body of a known message. A body that cannot be decoded changes nothing. -/
def absorb (s : DeviceState) (h : Header) (body : Bytes) : DeviceState :=
  match h.messageType with
  | .deviceData | .presetRecall =>
    match Payload.decode h body with
    | .ok p => s.apply p
    | .error _ => s
  | _ => s

/-- The answer to a datagram, if there is one, and the state after it. -/
def handle (d : Device) (s : DeviceState) (data : Bytes) : Option Bytes × DeviceState :=
  match Header.split data with
  | .error _ => (none, s)
  | .ok (h, body) =>
    if knows h.messageType then
      let s := absorb s h body
      (some (h.reply d.deviceId d.component).encode, { s with requests := s.requests + 1 })
    else (none, s)

end Device
end AmpLink
