import AmpLink.Number.Reading
import AmpLink.Layout

/-!
# Hexadecimal text

Lowercase digits, two for each byte. `ofHex?` takes digits of either case and an even number of them.
-/

namespace AmpLink.Hex

/-- The digit of a value below sixteen. -/
def digit (n : Nat) : Char := Nat.digitChar n

/-- `n` as at least `width` digits. -/
def padded (width n : Nat) : List Char :=
  let ds := Nat.toDigits 16 n
  List.replicate (width - ds.length) '0' ++ ds

def byte (b : UInt8) : List Char := [digit (b.toNat / 16), digit (b.toNat % 16)]

def chars (b : Bytes) : List Char := b.flatMap byte

/-- The digits of a run of bytes, two for each. -/
def text (b : Bytes) : String := .ofList (chars b)

/-- Reads pairs of digits. -/
def bytes? : List Char → Option Bytes
  | [] => some []
  | [_] => none
  | h :: l :: rest => do
    let h ← digitValue? 16 h
    let l ← digitValue? 16 l
    let tail ← bytes? rest
    return .ofNat (16 * h + l) :: tail

end AmpLink.Hex
