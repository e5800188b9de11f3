import AmpLink.Client.Message
import AmpLink.Device
import AmpLink.Discovery.Peers
import AmpLink.Json.Basic
import AmpLink.Report.Grid
import AmpLink.Report.Timestamp
import AmpLink.Text.Blank
import AmpLink.Wire.HexDump

/-!
# Reports

What a command prints: lines and tables for people, or one JSON object on a line for programs. The
fields of an object are in alphabetical order. Reports do not read the clock; the time that they show
is given to them.
-/

namespace AmpLink

/-- What is known of a peer at the end of a discovery. -/
structure PeerRow where
  address : SocketAddress
  interface : Option String
  online : Bool
  since : Timestamp
  deriving DecidableEq, Repr

/-- How reports are written. -/
inductive ReportStyle where
  | json
  | table (colored : Bool)
  deriving DecidableEq, Repr

namespace Report

def jsonText : Option String → Json
  | some s => .str s
  | none => .null

def jsonByte (b : UInt8) : Json := .int b.toNat

/-! ## JSON -/

def eventFields : PeerEvent → List (String × Json)
  | .discovered a i => [("address", .str a.text), ("event", .str "discovered"), ("interface", jsonText i)]
  | .lost a i => [("address", .str a.text), ("event", .str "lost"), ("interface", jsonText i)]

/-- A peer event without a time. -/
def eventJson (e : PeerEvent) : Json := .obj (eventFields e)

def peerEventJson (now : Timestamp) (e : PeerEvent) : Json :=
  .obj (eventFields e ++ [("timestamp", .str now.full)])

def messageJson (now : Timestamp) (m : Message) (dump : Bool) : Json :=
  let part (f : Header → List (String × Json)) : List (String × Json) := (m.header.map f).getD []
  .obj <|
    [("client", .str m.client)] ++
    part (fun h => [("component_id", jsonByte h.component),
      ("device_id", .str (Hex.text h.deviceId.toList))]) ++
    (if dump then [("dump", .str (HexDump.text m.data))] else []) ++
    [("from", .str m.remote.text), ("interface", jsonText m.interface), ("len", .int m.data.length)] ++
    part (fun h => [("sequence", .int h.sequence.toNat), ("status", .str h.status.text)]) ++
    [("timestamp", .str now.full)] ++
    part (fun h => [("type", .str h.messageType.text)])

def rowJson (r : PeerRow) : Json :=
  .obj [("address", .str r.address.text), ("interface", jsonText r.interface),
    ("online", .bool r.online), ("since", .str r.since.full)]

def online (rows : List PeerRow) : Nat := rows.countP (·.online)

def peersJson (rows : List PeerRow) : Json :=
  .obj [("count", .int rows.length), ("online", .int (online rows)), ("peers", .arr (rows.map rowJson))]

/-- A number of single precision as one of double precision; what is no finite number has no form. -/
def numberJson (x : Binary32) : Json :=
  match x.doubleText with
  | some t => .real t
  | none => .null

def stateJson (s : DeviceState) : Json :=
  .obj [("active_preset", match s.activePreset with | some p => jsonByte p | none => .null),
    ("requests", .int s.requests), ("volume", numberJson s.volume)]

def deviceJson (address : String) (s : DeviceState) : Json :=
  .obj [("address", .str address), ("state", stateJson s)]

def noticeJson (text : String) : Json := .obj [("message", .str text)]

/-! ## Text -/

/-- A text between the code of a colour or weight and the code that ends it. -/
def painted (colored : Bool) (code : String) (s : String) : String :=
  if colored then "\x1b[" ++ code ++ "m" ++ s ++ "\x1b[0m" else s

def peerEventText (colored : Bool) (now : Timestamp) (e : PeerEvent) : String :=
  let mark := if e.isDiscovered then painted colored "32" "[+]" else painted colored "31" "[-]"
  " ".intercalate [now.clock, mark, e.address.text, "via", e.interface.getD "-"]

/-- The dump below a message, without its last newline. -/
def dumpText (data : Bytes) : String := .ofList ('\n' :: trimEnd (HexDump.chars data))

def messageText (colored : Bool) (now : Timestamp) (m : Message) (dump : Bool) : String :=
  let remote := painted colored "1" m.remote.text
  let client := "(" ++ painted colored "2" m.client ++ ")"
  let line := match m.header with
    | some h =>
      " ".intercalate [now.clock, remote, h.messageType.text ++ "/" ++ h.status.text,
        "seq=" ++ toString h.sequence.toNat, "id=" ++ Hex.text h.deviceId.toList, client]
    | none =>
      " ".intercalate [now.clock, remote, toString m.data.length, "bytes without header", client]
  if dump then line ++ dumpText m.data else line

def peersText (rows : List PeerRow) : String :=
  if rows.isEmpty then "No devices found."
  else
    Grid.text ["Address", "Interface", "Status", "Since"]
      (rows.map fun r => [r.address.text, r.interface.getD "-", if r.online then "online" else "lost",
        r.since.clock]) ++
      "\n\nFound " ++ toString rows.length ++ " device(s), " ++ toString (online rows) ++ " online"

def deviceText (address : String) (s : DeviceState) : String :=
  let preset := match s.activePreset with
    | some p => toString p.toNat
    | none => "-"
  "\n".intercalate ["Simulated device on " ++ address, "  Active preset: " ++ preset,
    "  Volume:        " ++ s.volume.fixed 3, "  Requests:      " ++ toString s.requests]

/-! ## Either style -/

def peerEvent (now : Timestamp) (e : PeerEvent) : ReportStyle → String
  | .json => (peerEventJson now e).text
  | .table colored => peerEventText colored now e

def message (now : Timestamp) (m : Message) (dump : Bool) : ReportStyle → String
  | .json => (messageJson now m dump).text
  | .table colored => messageText colored now m dump

def peers (rows : List PeerRow) : ReportStyle → String
  | .json => (peersJson rows).text
  | .table _ => peersText rows

/-- The state of a device. Its address is a text, because it may be chosen by the host. -/
def device (address : String) (s : DeviceState) : ReportStyle → String
  | .json => (deviceJson address s).text
  | .table _ => deviceText address s

def notice (text : String) : ReportStyle → String
  | .json => (noticeJson text).text
  | .table _ => text

end Report
end AmpLink
