import AmpLink.Config
import AmpLink.Json.Form
import AmpLink.Json.Parser
import AmpLink.Wire.Frame

/-!
# The JSON forms of headers, payloads and settings
-/

namespace AmpLink

open Json

namespace MessageType

/-- The types that have a name of their own. -/
def named : List MessageType := [ping, liveCmd, deviceData, presetRecall, presetSave, unknown]

def form : Form MessageType :=
  .variant named name "Vendor" (fun | vendor b => some b | _ => none) vendor .byte
    (fun a h => by cases a <;> simp_all [named, name])
    (fun a b h => by cases a <;> simp_all)

end MessageType

namespace Status

/-- The statuses that have a name of their own. -/
def named : List Status :=
  [commandClient, requestClient, responseClient, errorClient, waitClient, commandServer,
    requestServer, responseServer, errorServer, waitServer]

def form : Form Status :=
  .variant named name "Other" (fun | other w => some w | _ => none) other .word16
    (fun a h => by cases a <;> simp_all [named, name])
    (fun a b h => by cases a <;> simp_all)

end Status

def LevelType.form : Form LevelType :=
  .enumeration LevelType.all LevelType.name fun a => by cases a <;> simp [LevelType.all, LevelType.name]

def EqType.form : Form EqType :=
  .enumeration EqType.all EqType.name fun a => by cases a <;> simp [EqType.all, EqType.name]

/-- A run of bytes as a list of numbers. -/
def byteForm (n : Nat) : Form (Vector UInt8 n) := .vector n .byte

def Header.form : Form Header :=
  .record
    ((Fields.one "message_type" MessageType.form).and <| (Fields.one "protocol_id" .byte).and <|
      (Fields.one "status" Status.form).and <| (Fields.one "device_unique_id" (byteForm 4)).and <|
      (Fields.one "sequence_number" .word16).and <| (Fields.one "component_id" .byte).and <|
      .one "reserved" .byte)
    { pack := fun (messageType, protocolId, status, deviceId, sequence, component, reserved) =>
        { messageType, protocolId, status, deviceId, sequence, component, reserved }
      unpack h := (h.messageType, h.protocolId, h.status, h.deviceId, h.sequence, h.component,
        h.reserved)
      pack_unpack _ := rfl, unpack_pack _ := rfl }
    (by decide)

def PresetRecall.form : Form PresetRecall :=
  .record
    ((Fields.one "crt_flags" .byte).and <| (Fields.one "opt_flags" .byte).and <|
      (Fields.one "index_position" .byte).and <| .one "reserved" .byte)
    packing (by decide)

def DeviceDataRequest.form : Form DeviceDataRequest :=
  .record ((Fields.one "crt_flags" .byte).and <| .one "opt_flags" .byte)
    packing (by decide)

def DeviceDataResponse.form : Form DeviceDataResponse :=
  .record
    ((Fields.one "crt_flags" .byte).and <| (Fields.one "opt_flags" .byte).and <|
      (Fields.one "device_type_id" .word16).and <| (Fields.one "subnet_prefix_length" .byte).and <|
      (Fields.one "diagnostic_state" .byte).and <| (Fields.one "firmware_version" .word32).and <|
      (Fields.one "serial_number" .word16).and <| (Fields.one "reserved" .word32).and <|
      (Fields.one "gateway_ip" (byteForm 4)).and <| (Fields.one "static_ip" (byteForm 4)).and <|
      (Fields.one "hardware_features" .word32).and <| (Fields.one "start_preset_id" .byte).and <|
      (Fields.one "reserved2" (byteForm 6)).and <| (Fields.one "device_name" (byteForm 32)).and <|
      .one "vendor_id" .byte)
    packing (by decide)

def MasterVolume.form : Form MasterVolume :=
  .record (.one "gain" .word32) ⟨fun gain => { gain }, (·.gain), fun _ => rfl, fun _ => rfl⟩ (by decide)

def LiveCommand.form : Form LiveCommand :=
  .record
    ((Fields.one "crt_flags" .byte).and <| (Fields.one "opt_flags" .byte).and <|
      (Fields.one "path" (byteForm 10)).and <| .one "value" .word32)
    packing (by decide)

def ClientConfig.form : Form ClientConfig :=
  .record
    ((Fields.one "send_queue_capacity" .word64).and <| (Fields.one "read_timeout" .word64).and <|
      .one "write_timeout" .word64)
    { pack := fun (sendQueueCapacity, readTimeout, writeTimeout) =>
        { sendQueueCapacity, readTimeout, writeTimeout }
      unpack c := (c.sendQueueCapacity, c.readTimeout, c.writeTimeout)
      pack_unpack _ := rfl, unpack_pack _ := rfl }
    (by decide)

def DiscoveryConfig.form : Form DiscoveryConfig :=
  .record
    ((Fields.one "port" .word16).and <| (Fields.one "allowed_interfaces" (.list .text)).and <|
      (Fields.one "scan_interval" .word64).and <| (Fields.one "ping_interval" .word64).and <|
      .one "peer_timeout" .word64)
    { pack := fun (port, allowedInterfaces, scanInterval, pingInterval, peerTimeout) =>
        { port, allowedInterfaces, scanInterval, pingInterval, peerTimeout }
      unpack c := (c.port, c.allowedInterfaces, c.scanInterval, c.pingInterval, c.peerTimeout)
      pack_unpack _ := rfl, unpack_pack _ := rfl }
    (by decide)

namespace Json

/-- Reads a text as a value of a type. -/
def Form.ofText? (f : Form α) (s : String) : Option α := (parse? s.toList).bind f.read?

/-- The compact text of a value. -/
def Form.toText (f : Form α) (a : α) : String := (f.write a).text

/-- A text read as a value of the type of that name, and written again. -/
def reformat? (type : String) (s : String) : Option String :=
  match type with
  | "MessageType" => again MessageType.form
  | "Status" => again Status.form
  | "Header" => again Header.form
  | "PresetRecall" => again PresetRecall.form
  | "DeviceDataRequest" => again DeviceDataRequest.form
  | "DeviceDataResponse" => again DeviceDataResponse.form
  | "MasterVolume" => again MasterVolume.form
  | "LiveCmd" => again LiveCommand.form
  | "LevelType" => again LevelType.form
  | "EqType" => again EqType.form
  | "ClientConfig" => again ClientConfig.form
  | "DiscoveryConfig" => again DiscoveryConfig.form
  | _ => none
where
  /-- Reads a value and writes it again. -/
  again {α : Type} (f : Form α) : Option String := (f.ofText? s).map f.toText

end Json
end AmpLink
