import AmpLink.Net.Ip

/-!
# Socket addresses

An internet address with a port, and for version 6 also flow information and a scope. The order puts
version 4 first and then compares address, port, flow information and scope.
-/

namespace AmpLink

inductive SocketAddress where
  | v4 (ip : Ipv4) (port : UInt16)
  | v6 (ip : Ipv6) (port : UInt16) (flow scope : UInt32)
  deriving DecidableEq, Repr

namespace SocketAddress

def ofIp (ip : IpAddress) (port : UInt16) : SocketAddress :=
  match ip with
  | .v4 ip => v4 ip port
  | .v6 ip => v6 ip port 0 0

def isV4 : SocketAddress → Bool
  | v4 .. => true
  | v6 .. => false

/-- The address of everyone on the local network. -/
def broadcast (port : UInt16) : SocketAddress := v4 .broadcast port

/-- The numbers that decide the order, the first difference first. -/
def key : SocketAddress → List Nat
  | v4 ip port => 0 :: ip.octets.toList.map UInt8.toNat ++ [port.toNat]
  | v6 ip port flow scope =>
    1 :: ip.groups.toList.map UInt16.toNat ++ [port.toNat, flow.toNat, scope.toNat]

/-- Not after in the order of addresses. -/
def le (a b : SocketAddress) : Bool := !b.key.lex a.key (· < ·)

def chars : SocketAddress → List Char
  | v4 ip port => ip.chars ++ ':' :: Decimal.digits port.toNat
  | v6 ip port _ scope =>
    '[' :: ip.chars ++ (if scope = 0 then [] else '%' :: Decimal.digits scope.toNat) ++
      ']' :: ':' :: Decimal.digits port.toNat

def text (a : SocketAddress) : String := .ofList a.chars

/-- A colon and a port. -/
def readPort (cs : List Char) : Option (UInt16 × List Char) := do
  let rest ← Ip.readChar ':' cs
  let (n, rest) ← Ip.readNumber 10 0xffff none true rest
  return (.ofNat n, rest)

/-- A percent sign and a scope; without one the scope is zero. -/
def readScope (cs : List Char) : UInt32 × List Char :=
  match (Ip.readChar '%' cs).bind (Ip.readNumber 10 0xffffffff none true) with
  | some (n, rest) => (.ofNat n, rest)
  | none => (0, cs)

def readV4 (cs : List Char) : Option (SocketAddress × List Char) := do
  let (ip, rest) ← Ipv4.read cs
  let (port, rest) ← readPort rest
  return (v4 ip port, rest)

def readV6 (cs : List Char) : Option (SocketAddress × List Char) := do
  let rest ← Ip.readChar '[' cs
  let (ip, rest) ← Ipv6.read rest
  let (scope, rest) := readScope rest
  let rest ← Ip.readChar ']' rest
  let (port, rest) ← readPort rest
  return (v6 ip port 0 scope, rest)

/-- The address that a whole text names. -/
def parse? (cs : List Char) : Option SocketAddress :=
  match readV4 cs <|> readV6 cs with
  | some (a, []) => some a
  | _ => none

end SocketAddress
end AmpLink
