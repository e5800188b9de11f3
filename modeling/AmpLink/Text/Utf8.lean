import AmpLink.Layout

/-!
# Reading UTF-8 with replacement

Bytes that are no UTF-8 are replaced: each longest run that could still have become a character, and
otherwise each single byte, gives one replacement character. What is valid is kept as it is.
-/

namespace AmpLink.Utf8

/-- The character that stands for bytes that are no text. -/
def replacement : Char := '\ufffd'

/-- Bytes of the character that starts with `lead`, zero if none does. -/
def width (lead : UInt8) : Nat :=
  if lead < 0x80 then 1
  else if lead < 0xc2 then 0
  else if lead < 0xe0 then 2
  else if lead < 0xf0 then 3
  else if lead < 0xf5 then 4
  else 0

def isContinuation (b : UInt8) : Bool := 0x80 ≤ b && b ≤ 0xbf

/-- The second byte is restricted further: no long form of a short character, no surrogate, nothing
past the last character. -/
def allowsSecond (lead second : UInt8) : Bool :=
  (if lead = 0xe0 then 0xa0 else if lead = 0xf0 then 0x90 else 0x80) ≤ second &&
    second ≤ (if lead = 0xed then 0x9f else if lead = 0xf4 then 0x8f else 0xbf)

/-- The longest run behind `lead` that fits, up to `n` bytes. -/
def continuation (lead : UInt8) (n : Nat) : Bytes → Bytes
  | [] => []
  | b :: rest =>
    if 0 < n ∧ allowsSecond lead b then b :: (rest.take (n - 1)).takeWhile isContinuation else []

/-- The bits of the lead byte that belong to the character. -/
def leadBits (lead : UInt8) : Nat :=
  match width lead with
  | 2 => lead.toNat % 32
  | 3 => lead.toNat % 16
  | 4 => lead.toNat % 8
  | _ => lead.toNat

/-- The character at the start of `lead :: rest`, or the replacement, and how many bytes of `rest`
belong to it. -/
def step (lead : UInt8) (rest : Bytes) : Char × Nat :=
  let run := continuation lead (width lead - 1) rest
  if 0 < width lead ∧ run.length = width lead - 1 then
    (.ofNat (run.foldl (fun n b => n * 64 + b.toNat % 64) (leadBits lead)), run.length)
  else (replacement, run.length)

def decodeChars : Bytes → List Char
  | [] => []
  | lead :: rest =>
    let (c, n) := step lead rest
    c :: decodeChars (rest.drop n)
termination_by b => b.length
decreasing_by simp only [List.length_drop, List.length_cons]; omega

/-- The text of the bytes, with replacements. -/
def decodeLossy (b : Bytes) : String := .ofList (decodeChars b)

end AmpLink.Utf8
