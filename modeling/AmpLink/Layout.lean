/-!
# Fixed byte layouts

A layout says how a value is written as a fixed number of bytes. Words are little-endian. The three
laws in the structure say that writing and reading are inverse to each other: reading what was
written gives the value back whatever bytes follow, and writing what was read gives back the bytes
that were read. Products, fixed runs of bytes and changes of representation keep the laws, so a
record gets its codec and the proof of it from the order of its fields.
-/

namespace AmpLink

/-- The bytes of a datagram in the order in which they are sent. -/
abbrev Bytes := List UInt8

/-- A type whose values are those of another one, packed up. -/
structure Packing (α β : Type) where
  pack : α → β
  unpack : β → α
  pack_unpack : ∀ b, pack (unpack b) = b
  unpack_pack : ∀ a, unpack (pack a) = a

/-- A value written as `size` bytes. -/
structure Layout (α : Type) where
  size : Nat
  encode : α → Bytes
  /-- Reads the first `size` bytes. Missing bytes read as zero. -/
  decode : Bytes → α
  length_encode : ∀ a, (encode a).length = size
  decode_append : ∀ a t, decode (encode a ++ t) = a
  encode_decode : ∀ b, size ≤ b.length → encode (decode b) = b.take size

namespace Layout

theorem decode_encode (l : Layout α) (a : α) : l.decode (l.encode a) = a := by
  simpa using l.decode_append a []

theorem encode_injective (l : Layout α) {a b : α} (h : l.encode a = l.encode b) : a = b := by
  rw [← l.decode_encode a, h, l.decode_encode]

/-- One byte. -/
def byte : Layout UInt8 where
  size := 1
  encode v := [v]
  decode b := b.headD 0
  length_encode _ := rfl
  decode_append _ _ := rfl
  encode_decode b h := by cases b <;> simp_all

/-- The fields of `l` followed by the fields of `r`. -/
def pair (l : Layout α) (r : Layout β) : Layout (α × β) where
  size := l.size + r.size
  encode v := l.encode v.1 ++ r.encode v.2
  decode b := (l.decode b, r.decode (b.drop l.size))
  length_encode v := by simp [l.length_encode, r.length_encode]
  decode_append v t := by
    have h : (l.encode v.1 ++ (r.encode v.2 ++ t)).drop l.size = r.encode v.2 ++ t := by
      rw [← l.length_encode v.1, List.drop_left]
    rw [List.append_assoc, l.decode_append, h, r.decode_append]
  encode_decode b h := by
    rw [l.encode_decode b (by omega), r.encode_decode _ (by simp; omega), List.take_add]

/-- The same bytes read as another type. -/
def map (l : Layout α) (p : Packing α β) : Layout β where
  size := l.size
  encode v := l.encode (p.unpack v)
  decode b := p.pack (l.decode b)
  length_encode v := l.length_encode _
  decode_append v t := by rw [l.decode_append, p.pack_unpack]
  encode_decode b h := by rw [p.unpack_pack, l.encode_decode b h]

/-- The first `n` bytes. Missing bytes are zero. -/
def takeBytes (n : Nat) (b : Bytes) : Vector UInt8 n := .ofFn fun i => b.getD i 0

theorem takeBytes_append {n : Nat} (v : Vector UInt8 n) (t : Bytes) :
    takeBytes n (v.toList ++ t) = v :=
  Vector.ext fun i h => by simp [takeBytes, List.getElem?_append]

theorem toList_takeBytes {n : Nat} {b : Bytes} (h : n ≤ b.length) :
    (takeBytes n b).toList = b.take n := by
  apply List.ext_getElem
  · simp; omega
  · intro i h₁ h₂
    have : i < b.length := by simp at h₂; omega
    simp [takeBytes, this]

/-- A run of `n` bytes. -/
def bytes (n : Nat) : Layout (Vector UInt8 n) where
  size := n
  encode v := v.toList
  decode b := takeBytes n b
  length_encode _ := Vector.length_toList
  decode_append := takeBytes_append
  encode_decode _ := toList_takeBytes

/-- A 16-bit word from its low and its high byte. -/
def packing16 : Packing (UInt8 × UInt8) UInt16 where
  pack p := .ofNat (p.1.toNat + 256 * p.2.toNat)
  unpack v := (.ofNat v.toNat, .ofNat (v.toNat / 256))
  pack_unpack v := by
    have := v.toNat_lt
    apply UInt16.toNat_inj.1
    simp only [UInt16.toNat_ofNat', UInt8.toNat_ofNat']
    omega
  unpack_pack p := by
    have := p.1.toNat_lt
    have := p.2.toNat_lt
    refine Prod.ext (UInt8.toNat_inj.1 ?_) (UInt8.toNat_inj.1 ?_) <;>
      simp only [UInt16.toNat_ofNat', UInt8.toNat_ofNat'] <;>
      omega

/-- A 32-bit word from its low and its high half. -/
def packing32 : Packing (UInt16 × UInt16) UInt32 where
  pack p := .ofNat (p.1.toNat + 65536 * p.2.toNat)
  unpack v := (.ofNat v.toNat, .ofNat (v.toNat / 65536))
  pack_unpack v := by
    have := v.toNat_lt
    apply UInt32.toNat_inj.1
    simp only [UInt32.toNat_ofNat', UInt16.toNat_ofNat']
    omega
  unpack_pack p := by
    have := p.1.toNat_lt
    have := p.2.toNat_lt
    refine Prod.ext (UInt16.toNat_inj.1 ?_) (UInt16.toNat_inj.1 ?_) <;>
      simp only [UInt32.toNat_ofNat', UInt16.toNat_ofNat'] <;>
      omega

/-- A 16-bit word, low byte first. -/
def word16 : Layout UInt16 := (byte.pair byte).map packing16

/-- A 32-bit word, low byte first. -/
def word32 : Layout UInt32 := (word16.pair word16).map packing32

end Layout
end AmpLink
