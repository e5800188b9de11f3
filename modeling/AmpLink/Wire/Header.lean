import AmpLink.Error
import AmpLink.Layout

/-!
# Message headers

Every datagram starts with twelve bytes: message type, protocol id, status, device id, sequence
number, component id and a reserved byte. A header value may spell an assigned message type or status
by its number; `normalized` gives the one named form that reading produces, so writing and reading
are inverse to each other between normalized headers and strings of twelve bytes.
-/

namespace AmpLink

inductive MessageType where
  | ping
  | liveCmd
  | deviceData
  | presetRecall
  | presetSave
  | unknown
  /-- A type without a name of its own. -/
  | vendor (byte : UInt8)
  deriving DecidableEq, Repr

/-- Who asks, answers, commands or fails. `Client` values come from a device that acts for a
controller, `Server` values concern the device itself. -/
inductive Status where
  | commandClient
  | requestClient
  | responseClient
  | errorClient
  | waitClient
  | commandServer
  | requestServer
  | responseServer
  | errorServer
  | waitServer
  /-- A value without a name of its own. -/
  | other (value : UInt16)
  deriving DecidableEq, Repr

namespace MessageType

def ofByte (b : UInt8) : MessageType :=
  if b = 0 then ping
  else if b = 1 then liveCmd
  else if b = 2 then deviceData
  else if b = 4 then presetRecall
  else if b = 5 then presetSave
  else if b = 255 then unknown
  else vendor b

def toByte : MessageType → UInt8
  | ping => 0
  | liveCmd => 1
  | deviceData => 2
  | presetRecall => 4
  | presetSave => 5
  | unknown => 255
  | vendor b => b

/-- The form that reading the type's byte gives. -/
def normalized (t : MessageType) : MessageType := ofByte t.toByte

@[simp] theorem toByte_ofByte (b : UInt8) : (ofByte b).toByte = b := by
  unfold ofByte
  repeat' split
  all_goals simp_all [toByte]

@[simp] theorem normalized_ofByte (b : UInt8) : (ofByte b).normalized = ofByte b := by
  simp [normalized]

/-- The name of a type, or of the form that holds a number. -/
def name : MessageType → String
  | ping => "Ping"
  | liveCmd => "LiveCmd"
  | deviceData => "DeviceData"
  | presetRecall => "PresetRecall"
  | presetSave => "PresetSave"
  | unknown => "Unknown"
  | vendor _ => "Vendor"

end MessageType

namespace Status

def ofWord (w : UInt16) : Status :=
  if w = 0x0102 then commandClient
  else if w = 0x0106 then requestClient
  else if w = 0x0101 then responseClient
  else if w = 0x0109 then errorClient
  else if w = 0x0141 then waitClient
  else if w = 0x0002 then commandServer
  else if w = 0x0006 then requestServer
  else if w = 0x0001 then responseServer
  else if w = 0x0009 then errorServer
  else if w = 0x0041 then waitServer
  else other w

def toWord : Status → UInt16
  | commandClient => 0x0102
  | requestClient => 0x0106
  | responseClient => 0x0101
  | errorClient => 0x0109
  | waitClient => 0x0141
  | commandServer => 0x0002
  | requestServer => 0x0006
  | responseServer => 0x0001
  | errorServer => 0x0009
  | waitServer => 0x0041
  | other w => w

/-- The form that reading the status word gives. -/
def normalized (s : Status) : Status := ofWord s.toWord

@[simp] theorem toWord_ofWord (w : UInt16) : (ofWord w).toWord = w := by
  unfold ofWord
  repeat' split
  all_goals simp_all [toWord]

@[simp] theorem normalized_ofWord (w : UInt16) : (ofWord w).normalized = ofWord w := by
  simp [normalized]

def isRequest : Status → Bool
  | requestClient | requestServer => true
  | _ => false

def isResponse : Status → Bool
  | responseClient | responseServer => true
  | _ => false

def isCommand : Status → Bool
  | commandClient | commandServer => true
  | _ => false

/-- The name of a status, or of the form that holds a number. -/
def name : Status → String
  | commandClient => "CommandClient"
  | requestClient => "RequestClient"
  | responseClient => "ResponseClient"
  | errorClient => "ErrorClient"
  | waitClient => "WaitClient"
  | commandServer => "CommandServer"
  | requestServer => "RequestServer"
  | responseServer => "ResponseServer"
  | errorServer => "ErrorServer"
  | waitServer => "WaitServer"
  | other _ => "Other"

end Status

/-- Four bytes that tell devices apart. -/
abbrev DeviceId := Vector UInt8 4

/-- The id that stands for any device. -/
def DeviceId.broadcast : DeviceId := #v[0, 0, 0, 0]

structure Header where
  messageType : MessageType
  protocolId : UInt8
  status : Status
  deviceId : DeviceId
  sequence : UInt16
  component : UInt8
  reserved : UInt8
  deriving DecidableEq, Repr

namespace Header

/-- Bytes of a header. -/
def size : Nat := 12

/-- The protocol id of every header that is built here. -/
def currentProtocol : UInt8 := 1

/-- A header as senders build it: current protocol, reserved byte one, named forms. -/
def make (messageType : MessageType) (status : Status) (deviceId : DeviceId) (sequence : UInt16)
    (component : UInt8) : Header :=
  { messageType := messageType.normalized, protocolId := currentProtocol,
    status := status.normalized, deviceId, sequence, component, reserved := 1 }

/-- The fields in the order in which they are sent. -/
def fieldLayout :
    Layout (UInt8 × UInt8 × UInt16 × DeviceId × UInt16 × UInt8 × UInt8) :=
  .pair .byte <| .pair .byte <| .pair .word16 <| .pair (.bytes 4) <| .pair .word16 <|
    .pair .byte .byte

def encode (h : Header) : Bytes :=
  fieldLayout.encode (h.messageType.toByte, h.protocolId, h.status.toWord, h.deviceId, h.sequence,
    h.component, h.reserved)

/-- Appends the header to what has been written so far. -/
def encodeInto (h : Header) (buffer : Bytes) : Bytes := buffer ++ h.encode

def ofFields : UInt8 × UInt8 × UInt16 × DeviceId × UInt16 × UInt8 × UInt8 → Header
  | (t, protocolId, s, deviceId, sequence, component, reserved) =>
    { messageType := .ofByte t, protocolId, status := .ofWord s, deviceId, sequence, component,
      reserved }

/-- Reads the first twelve bytes and ignores what follows. -/
def parse (b : Bytes) : Except ProtocolError Header :=
  if b.length < size then .error (.shortBuffer size b.length)
  else .ok (ofFields (fieldLayout.decode b))

/-- The header and the bytes behind it. -/
def split (b : Bytes) : Except ProtocolError (Header × Bytes) :=
  (parse b).map fun h => (h, b.drop size)

@[simp] theorem length_encode (h : Header) : h.encode.length = size := fieldLayout.length_encode _

end Header
end AmpLink
