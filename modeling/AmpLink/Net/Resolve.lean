import AmpLink.CommandLine.Error
import AmpLink.Net.SocketAddress
import AmpLink.Text.Blank

/-!
# Naming a device

A device is named by an address with or without a port. What is no address is a host name, which may
carry a port of its own behind the last colon. Host names are known to the host only, so what it says of
them is left open.
-/

namespace AmpLink

/-- What a host says of a name and a port: the addresses that it knows, the preferred ones first, or why
there are none. -/
abbrev Resolver := List Char → UInt16 → Except String (List SocketAddress)

namespace Resolve

variable (resolver : Resolver)

/-- The text before the last colon and the text behind it. -/
def splitLastColon (cs : List Char) : Option (List Char × List Char) :=
  let r := cs.reverse
  match r.dropWhile (· ≠ ':') with
  | _ :: front => some (front.reverse, (r.takeWhile (· ≠ ':')).reverse)
  | [] => none

/-- The first address of version 4 that the host knows. -/
def lookup (address host : List Char) (port : UInt16) : Except ArgumentFault SocketAddress :=
  match resolver host port with
  | .error detail => .error (.unresolved (.ofList address) (.unknownHost detail))
  | .ok known =>
    match known.find? SocketAddress.isV4 with
    | some a => .ok a
    | none => .error (.notV4 (.ofList address))

/-- The address that a text names, with `port` if it has none of its own. -/
def address (text : List Char) (port : UInt16) : Except ArgumentFault SocketAddress :=
  let text := trim text
  match SocketAddress.parse? text with
  | some a => .ok a
  | none =>
    match IpAddress.parse? text with
    | some ip => .ok (.ofIp ip port)
    | none =>
      match splitLastColon text with
      | none => lookup resolver text text port
      | some (host, digits) =>
        match readNat 10 0xffff digits with
        | .ok p => lookup resolver text host (.ofNat p)
        | .error _ => .error (.unresolved (.ofList text) .invalidPort)

/-- The addresses of a list of texts; blank ones are passed over. -/
def addresses (texts : List (List Char)) (port : UInt16) : Except ArgumentFault (List SocketAddress) :=
  (texts.filter fun t => !(trim t).isEmpty).mapM fun t => address resolver t port

end Resolve
end AmpLink
