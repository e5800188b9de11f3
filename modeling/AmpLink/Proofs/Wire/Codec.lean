import AmpLink.Wire.Payload

/-!
# Codecs of fixed size

`Codec` says how writing and reading of one kind of record fit together: every value gives `size` bytes,
reading takes them from the start of any longer run of bytes, and a shorter run is refused. The parser of
a layout is such a codec (`Layout.codec`), and a codec that keeps its bytes reads nothing behind them
(`Codec.parse_take`). Words are written low byte first (`Layout.encode_word16`, `Layout.encode_word32`).
-/

namespace AmpLink

/-- A codec that reads a value `a` back as `canonical a` and writes what it has read from `b` as
`kept b`. -/
structure Codec (size : Nat) (encode : α → Bytes) (parse : Bytes → Except ProtocolError α)
    (canonical : α → α) (kept : Bytes → Bytes) : Prop where
  length_encode : ∀ a, (encode a).length = size
  /-- What was written is read back, whatever follows it. -/
  parse_append : ∀ a t, parse (encode a ++ t) = .ok (canonical a)
  parse_of_lt : ∀ b, b.length < size → parse b = .error (.shortBuffer size b.length)
  /-- Any bytes that are enough can be read. -/
  parse_of_le : ∀ b, size ≤ b.length → ∃ a, parse b = .ok a ∧ encode a = kept b

namespace Codec

variable {size : Nat} {encode : α → Bytes} {parse : Bytes → Except ProtocolError α}
  {canonical : α → α} {kept : Bytes → Bytes} {b : Bytes} {a : α}

theorem le_length (h : Codec size encode parse canonical kept) (hp : parse b = .ok a) :
    size ≤ b.length := by
  refine Nat.le_of_not_lt fun hlt => ?_
  rw [h.parse_of_lt b hlt] at hp
  contradiction

theorem encode_of_parse (h : Codec size encode parse canonical kept) (hp : parse b = .ok a) :
    encode a = kept b := by
  obtain ⟨a', hp', ha'⟩ := h.parse_of_le b (h.le_length hp)
  rw [hp, Except.ok.injEq] at hp'
  rw [hp', ha']

theorem error_iff (h : Codec size encode parse canonical kept) :
    parse b = .error e ↔ b.length < size ∧ e = .shortBuffer size b.length := by
  rcases Nat.lt_or_ge b.length size with hb | hb
  · rw [h.parse_of_lt b hb, Except.error.injEq, and_iff_right hb, eq_comm]
  · obtain ⟨a, ha, -⟩ := h.parse_of_le b hb
    rw [ha]
    exact ⟨nofun, fun hlt => absurd hlt.1 (Nat.not_lt.mpr hb)⟩

theorem parse_of_isPrefix (h : Codec size encode parse canonical kept) (hp : encode a <+: b) :
    parse b = .ok (canonical a) := by
  obtain ⟨t, rfl⟩ := hp
  exact h.parse_append a t

/-- A value is read exactly where it is written. -/
theorem ok_iff (h : Codec size encode parse id (·.take size)) :
    parse b = .ok a ↔ encode a <+: b := by
  refine ⟨fun hp => ?_, h.parse_of_isPrefix⟩
  rw [h.encode_of_parse hp]
  exact List.take_prefix size b

/-- A codec that keeps the bytes that it has read depends on these only. -/
theorem parse_take (h : Codec size encode parse canonical (·.take size)) (hb : size ≤ b.length) :
    parse b = parse (b.take size) := by
  obtain ⟨a, -, ha⟩ := h.parse_of_le b hb
  -- the written bytes stand at the start of both, and nothing behind them is read
  have hstart : encode a <+: b := ha ▸ List.take_prefix size b
  have hall : encode a <+: b.take size := ha ▸ List.prefix_rfl
  rw [h.parse_of_isPrefix hstart, h.parse_of_isPrefix hall]

end Codec

namespace Layout

/-- Fewer bytes are followed by zeros. -/
theorem toList_takeBytes_of_length_le {n : Nat} {b : Bytes} (h : b.length ≤ n) :
    (takeBytes n b).toList = b ++ List.replicate (n - b.length) 0 := by
  apply List.ext_getElem
  · simp only [Vector.length_toList, List.length_append, List.length_replicate]
    omega
  · intro i _ _
    rcases Nat.lt_or_ge i b.length with hi | hi
    · simp [takeBytes, hi]
    · simp [takeBytes, List.getElem_append, Nat.not_lt.mpr hi]

theorem encode_word16 (w : UInt16) : word16.encode w = [w.toUInt8, (w >>> 8).toUInt8] := by
  have hhigh : UInt8.ofNat (w.toNat / 256) = (w >>> 8).toUInt8 := by
    rw [← UInt8.toNat_inj]
    simp [Nat.shiftRight_eq_div_pow]
  exact congrArg (fun b => [w.toUInt8, b]) hhigh

theorem encode_word32 (w : UInt32) : word32.encode w =
    [w.toUInt8, (w >>> 8).toUInt8, (w >>> 16).toUInt8, (w >>> 24).toUInt8] := by
  change word16.encode (.ofNat w.toNat) ++ word16.encode (.ofNat (w.toNat / 65536)) = _
  simp only [encode_word16, List.cons_append, List.nil_append, List.cons.injEq, and_true,
    ← UInt8.toNat_inj]
  refine ⟨?_, ?_, ?_, ?_⟩
  all_goals simp [Nat.shiftRight_eq_div_pow]
  all_goals omega

variable (l : Layout α)

theorem parse_of_lt {b : Bytes} (h : b.length < l.size) :
    l.parse b = .error (.shortBuffer l.size b.length) := if_pos h

theorem parse_of_le {b : Bytes} (h : l.size ≤ b.length) : l.parse b = .ok (l.decode b) :=
  if_neg (Nat.not_lt.mpr h)

theorem codec : Codec l.size l.encode l.parse id (·.take l.size) where
  length_encode := l.length_encode
  parse_append := l.parse_append
  parse_of_lt _ := l.parse_of_lt
  parse_of_le b hb := ⟨l.decode b, l.parse_of_le hb, l.encode_decode b hb⟩

end Layout
end AmpLink
