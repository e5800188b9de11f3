import AmpLink.Wire.Header
import AmpLink.Text.Hex

/-!
# Texts of values for people

`text` is the short name that reports show; `inspect` spells a value out with the names of its fields.
-/

namespace AmpLink

def MessageType.text : MessageType → String
  | .vendor b => .ofList ("Vendor(0x".toList ++ Hex.byte b ++ [')'])
  | t => t.name

def Status.text : Status → String
  | .other w => .ofList ("Other(0x".toList ++ Hex.padded 4 w.toNat ++ [')'])
  | s => s.name

namespace Inspect

/-- A list in brackets. -/
def list (items : List String) : String := "[" ++ ", ".intercalate items ++ "]"

/-- A record: its name and its fields in braces. -/
def record (name : String) (fields : List (String × String)) : String :=
  name ++ " \x7b " ++ ", ".intercalate (fields.map fun f => f.1 ++ ": " ++ f.2) ++ " \x7d"

/-- A value that may be missing. -/
def optional (show' : α → String) : Option α → String
  | none => "None"
  | some a => "Some(" ++ show' a ++ ")"

def bytes (b : Bytes) : String := list (b.map fun x => toString x.toNat)

end Inspect

def MessageType.inspect : MessageType → String
  | .vendor b => "Vendor(" ++ toString b.toNat ++ ")"
  | t => t.name

def Status.inspect : Status → String
  | .other w => "Other(" ++ toString w.toNat ++ ")"
  | s => s.name

def Header.inspect (h : Header) : String :=
  Inspect.record "Header" [("message_type", h.messageType.inspect),
    ("protocol_id", toString h.protocolId.toNat), ("status", h.status.inspect),
    ("device_unique_id", Inspect.bytes h.deviceId.toList),
    ("sequence_number", toString h.sequence.toNat), ("component_id", toString h.component.toNat),
    ("reserved", toString h.reserved.toNat)]

end AmpLink
