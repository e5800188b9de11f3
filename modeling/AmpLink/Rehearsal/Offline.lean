import AmpLink.Net.Resolve

/-!
# Names without a network

A host that reaches no network knows its own name and the names that spell out an address or a number.
-/

namespace AmpLink.Resolver

/-- One part of a dotted host number: decimal, octal behind a zero, hexadecimal behind `0x`. -/
def hostPart? (cs : List Char) : Option Nat :=
  let (base, ds) : Nat × List Char := match cs with
    | '0' :: 'x' :: ds | '0' :: 'X' :: ds => (16, ds)
    | '0' :: ds => (8, '0' :: ds)
    | ds => (10, ds)
  match Ip.readNumber base 0xffffffff none true ds with
  | some (n, []) => some n
  | _ => none

/-- A host number of up to four parts, the last of which fills the bytes that remain. -/
def hostNumber? (cs : List Char) : Option Ipv4 := do
  let parts ← (cs.splitOnP (· = '.')).mapM hostPart?
  let last ← parts.getLast?
  let front := parts.dropLast
  if 3 < front.length ∨ front.any (255 < ·) ∨ Nat.pow 256 (4 - front.length) ≤ last then none
  else
    let n := front.foldl (fun n p => n * 256 + p) 0 * Nat.pow 256 (4 - front.length) + last
    return .ofOctets (.ofNat (n / 0x1000000)) (.ofNat (n / 0x10000)) (.ofNat (n / 0x100)) (.ofNat n)

/-- An address of version 6 and a scope that is given by its number. -/
def scoped? (cs : List Char) (port : UInt16) : Option SocketAddress :=
  match Ipv6.read cs with
  | some (ip, '%' :: scope) =>
    match Ip.readNumber 10 0xffffffff none true scope with
    | some (n, []) => some (.v6 ip port 0 (.ofNat n))
    | _ => none
  | _ => none

/-- The addresses of the host itself. -/
def localhost (port : UInt16) : List SocketAddress :=
  [.v6 (.ofParts [] [1]) port 0 0, .v4 (.ofOctets 127 0 0 1) port]

def offline (host : List Char) (port : UInt16) : Except String (List SocketAddress) :=
  match IpAddress.parse? host with
  | some ip => .ok [.ofIp ip port]
  | none =>
    match (hostNumber? host).map (SocketAddress.v4 · port) <|> scoped? host port with
    | some a => .ok [a]
    | none =>
      if String.ofList host = "localhost" then .ok (localhost port)
      else .error "failed to lookup address information: Name or service not known"

example : Resolve.address offline "localhost".toList 5002 = .ok (.v4 (.ofOctets 127 0 0 1) 5002) := rfl

end AmpLink.Resolver
