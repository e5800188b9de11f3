import AmpLink.Wire.Payload

/-!
# Frames

A frame is a whole datagram: a header and the payload that belongs to it. A request names what a
controller asks of a device; its frame carries the broadcast device id, because the device is chosen
by address. A device answers every request with the header of a ping response that repeats the
sequence number.
-/

namespace AmpLink

/-- What a controller can ask of a device. -/
inductive Request where
  | ping
  | recallByIndex (index : UInt8)
  | recallByPosition (position : UInt8)
  | masterVolume (volume : MasterVolume)
  | deviceData
  | live (command : LiveCommand)
  deriving DecidableEq, Repr

namespace Request

def messageType : Request → MessageType
  | ping => .ping
  | recallByIndex _ | recallByPosition _ => .presetRecall
  | masterVolume _ | deviceData => .deviceData
  | live _ => .liveCmd

def status : Request → Status
  | ping | deviceData => .requestServer
  | _ => .commandClient

def payload : Request → Payload
  | ping => .empty
  | recallByIndex index => .presetRecall (.byIndex index)
  | recallByPosition position => .presetRecall (.byPosition position)
  | masterVolume volume => .masterVolume volume
  | deviceData => .deviceDataRequest { crtFlags := 0, optFlags := 0 }
  | live command => .liveCmd command

def header (r : Request) (sequence : UInt16) (component : UInt8) : Header :=
  .make r.messageType r.status .broadcast sequence component

/-- The datagram of a request. -/
def frame (r : Request) (sequence : UInt16) (component : UInt8) : Bytes :=
  (r.header sequence component).encode ++ r.payload.encode

end Request

/-- The header of a device's answer. -/
def Header.reply (request : Header) (deviceId : DeviceId) (component : UInt8) : Header :=
  .make .ping .responseServer deviceId request.sequence component

/-- The header of a frame and its decoded payload. -/
def decodeFrame (b : Bytes) : Except ProtocolError (Header × Except ProtocolError Payload) :=
  (Header.split b).map fun (h, body) => (h, Payload.decode h body)

end AmpLink
