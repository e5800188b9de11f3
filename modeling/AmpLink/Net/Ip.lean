import AmpLink.Number.Reading

/-!
# Internet addresses

Addresses of both versions with their text forms. An address of version 6 is written with the longest
run of at least two zero groups left out, the first of equally long runs; an address that embeds one
of version 4 ends with its dotted form. Reading accepts every such text and the usual longer ones.
-/

namespace AmpLink

structure Ipv4 where
  octets : Vector UInt8 4
  deriving DecidableEq, Repr

structure Ipv6 where
  groups : Vector UInt16 8
  deriving DecidableEq, Repr

inductive IpAddress where
  | v4 (ip : Ipv4)
  | v6 (ip : Ipv6)
  deriving DecidableEq, Repr

namespace Ip

/-- Texts put together with a separator between them. -/
def joined (separator : Char) : List (List Char) → List Char
  | [] => []
  | [t] => t
  | t :: u :: rest => t ++ separator :: joined separator (u :: rest)

/-- The longest run of zero groups, by its start and length; the first of equally long ones. -/
def longestZeros (groups : List UInt16) : Nat × Nat := go 0 0 (0, 0) groups
where
  /-- `i` is the position reached and `run` the number of zeros right before it. -/
  go (i run : Nat) (best : Nat × Nat) : List UInt16 → Nat × Nat
    | [] => best
    | g :: rest =>
      if g = 0 then
        go (i + 1) (run + 1) (if best.2 < run + 1 then (i - run, run + 1) else best) rest
      else go (i + 1) 0 best rest

/-! ## Reading -/

/-- A number of at most `limit` at the start of a text, with at most `width` digits if that is given.
Zeros before other digits are refused unless they are allowed. -/
def readNumber (base limit : Nat) (width : Option Nat) (leadingZeros : Bool) (cs : List Char) :
    Option (Nat × List Char) :=
  let ds := cs.takeWhile fun c => (digitValue? base c).isSome
  let n := ds.foldl (fun n c => n * base + (digitValue? base c).getD 0) 0
  if ds.isEmpty ∨ limit < n ∨ width.any (· < ds.length) ∨
      (!leadingZeros ∧ 1 < ds.length ∧ ds.head? = some '0') then none
  else some (n, cs.drop ds.length)

/-- The text behind a given character. -/
def readChar (c : Char) : List Char → Option (List Char)
  | d :: rest => if d = c then some rest else none
  | [] => none

/-- The separator, except before the first of several parts. -/
def readSeparator (c : Char) (first : Bool) (cs : List Char) : Option (List Char) :=
  if first then some cs else readChar c cs

end Ip

open Ip

namespace Ipv4

def ofOctets (a b c d : UInt8) : Ipv4 := ⟨#v[a, b, c, d]⟩

def unspecified : Ipv4 := ofOctets 0 0 0 0
def broadcast : Ipv4 := ofOctets 255 255 255 255
def loopback : Ipv4 := ofOctets 127 0 0 1

/-- An address that never leaves this host. -/
def isLoopback (ip : Ipv4) : Bool := ip.octets[0] = 127

def chars (ip : Ipv4) : List Char :=
  joined '.' (ip.octets.toList.map fun b => Decimal.digits b.toNat)

def readOctet (first : Bool) (cs : List Char) : Option (UInt8 × List Char) := do
  let rest ← readSeparator '.' first cs
  let (n, rest) ← readNumber 10 255 (some 3) false rest
  return (.ofNat n, rest)

/-- Four decimal numbers with points between them. -/
def read (cs : List Char) : Option (Ipv4 × List Char) := do
  let (a, rest) ← readOctet true cs
  let (b, rest) ← readOctet false rest
  let (c, rest) ← readOctet false rest
  let (d, rest) ← readOctet false rest
  return (ofOctets a b c d, rest)

end Ipv4

namespace Ipv6

/-- The address of version 4 in the last two groups, if the first six say so. -/
def mapped? (ip : Ipv6) : Option Ipv4 :=
  let g := ip.groups
  if g.toList.take 6 = [0, 0, 0, 0, 0, 0xffff] then
    some (.ofOctets (.ofNat (g[6].toNat / 256)) (.ofNat g[6].toNat) (.ofNat (g[7].toNat / 256))
      (.ofNat g[7].toNat))
  else none

def groupChars (g : UInt16) : List Char := Nat.toDigits 16 g.toNat

def chars (ip : Ipv6) : List Char :=
  match ip.mapped? with
  | some v4 => "::ffff:".toList ++ v4.chars
  | none =>
    let gs := ip.groups.toList
    let (start, length) := longestZeros gs
    if 1 < length then
      joined ':' ((gs.take start).map groupChars) ++ ':' :: ':' ::
        joined ':' ((gs.drop (start + length)).map groupChars)
    else joined ':' (gs.map groupChars)

/-- The groups of a dotted address. -/
def groupsOf (ip : Ipv4) : List UInt16 :=
  let o := ip.octets
  [.ofNat (o[0].toNat * 256 + o[1].toNat), .ofNat (o[2].toNat * 256 + o[3].toNat)]

/-- Up to `n` groups, whether they end with a dotted address, and what follows. -/
def readGroups : Nat → Bool → List Char → List UInt16 × Bool × List Char
  | 0, _, cs => ([], false, cs)
  | n + 1, first, cs =>
    let dotted :=
      if 0 < n then (readSeparator ':' first cs).bind Ipv4.read else none
    match dotted with
    | some (v4, rest) => (groupsOf v4, true, rest)
    | none =>
      match (readSeparator ':' first cs).bind (readNumber 16 0xffff (some 4) true) with
      | some (g, rest) =>
        let (gs, dotted, rest) := readGroups n false rest
        (.ofNat g :: gs, dotted, rest)
      | none => ([], false, cs)

/-- The address of these groups with as many zeros between them as are missing. -/
def ofParts (head tail : List UInt16) : Ipv6 :=
  let gs := head ++ List.replicate (8 - head.length - tail.length) 0 ++ tail
  ⟨.ofFn fun i => gs.getD i 0⟩

/-- Eight groups, or fewer with one gap. A dotted address can only come last. -/
def read (cs : List Char) : Option (Ipv6 × List Char) :=
  let (head, dotted, rest) := readGroups 8 true cs
  if head.length = 8 then some (ofParts head [], rest)
  else if dotted then none
  else do
    let rest ← readChar ':' rest
    let rest ← readChar ':' rest
    let (tail, _, rest) := readGroups (7 - head.length) true rest
    return (ofParts head tail, rest)

end Ipv6

namespace IpAddress

def chars : IpAddress → List Char
  | v4 ip => ip.chars
  | v6 ip => ip.chars

/-- The address that a whole text names. -/
def parse? (cs : List Char) : Option IpAddress :=
  match Ipv4.read cs with
  | some (ip, []) => some (v4 ip)
  | _ =>
    match Ipv6.read cs with
    | some (ip, []) => some (v6 ip)
    | _ => none

end IpAddress
end AmpLink
