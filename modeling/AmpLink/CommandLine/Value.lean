import AmpLink.Net.Resolve
import AmpLink.Text.Hex
import AmpLink.Wire.Header

/-!
# Values of options

A byte is a decimal number or a hexadecimal one behind `0x`. A device id is eight hexadecimal digits,
which may stand behind any number of `0x`.
-/

namespace AmpLink

/-- Reads a byte. -/
def readByte (cs : List Char) : Except IntegerFault UInt8 :=
  (match cs with
    | '0' :: 'x' :: ds | '0' :: 'X' :: ds => readNat 16 255 ds
    | ds => readNat 10 255 ds).map UInt8.ofNat

def readByteMessage (text : String) (f : IntegerFault) : String :=
  "invalid byte '" ++ text ++ "': " ++ f.message

namespace DeviceId

def ofBytes? (b : Bytes) : Option DeviceId :=
  if h : b.toArray.size = 4 then some ⟨b.toArray, h⟩ else none

/-- Drops every `0x` at the start. -/
def dropMarks : List Char → List Char
  | '0' :: 'x' :: rest => dropMarks rest
  | cs => cs

/-- The id of eight hexadecimal digits. -/
def read? (cs : List Char) : Option DeviceId :=
  (Hex.bytes? (dropMarks cs)).bind ofBytes?

def readMessage (text : String) : String := "unique id '" ++ text ++ "' must be 8 hex digits"

def hex (id : DeviceId) : String := Hex.text id.toList

end DeviceId
end AmpLink
