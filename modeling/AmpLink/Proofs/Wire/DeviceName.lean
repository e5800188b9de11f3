import AmpLink.Proofs.Text.Utf8
import AmpLink.Proofs.Wire.Codec

/-!
# The names of devices

A field holds a name up to its first zero, or up to its end (`DeviceDataResponse.Holds`). A text without zeros that
fits is read back from its field; otherwise the characters of the field are kept in their order, with one
replacement for each fault among them. The main statement is `DeviceDataResponse.readsNames`.
-/

namespace AmpLink.DeviceDataResponse

open Utf8

variable {field front behind : Bytes} {p : DeviceDataResponse} {s : String}

/-- The bytes of a field in front of its first zero, or all of them. -/
structure Holds (field front : Bytes) : Prop where
  isPrefix : front <+: field
  zero_not_mem : 0 ∉ front
  ended : front ≠ field → front ++ [0] <+: field

theorem Holds.of_append (hfront : 0 ∉ front) (hbehind : ∀ b ∈ behind.head?, b = 0) :
    Holds (front ++ behind) front where
  isPrefix := List.prefix_append ..
  zero_not_mem := hfront
  ended hne := by
    cases behind with
    | nil => exact absurd (List.append_nil front).symm hne
    | cons b behind =>
      obtain rfl := hbehind b rfl
      rw [List.prefix_append_right_inj]
      exact List.cons_prefix_cons.mpr ⟨rfl, List.nil_prefix⟩

/-- Every field holds what is read of it. -/
theorem holds_nameBytes (field : Bytes) : Holds field (nameBytes field) := by
  have hfront : 0 ∉ nameBytes field := by
    intro hmem
    have hne := List.mem_takeWhile_imp hmem
    exact of_decide_eq_true hne rfl
  have hbehind : ∀ b ∈ (field.dropWhile (· ≠ 0)).head?, b = 0 := by
    intro b hb
    have hstop := List.head?_dropWhile_not (fun b : UInt8 => decide (b ≠ 0)) field
    rw [Option.mem_def.mp hb] at hstop
    simpa using hstop
  have h := Holds.of_append hfront hbehind
  rwa [nameBytes, List.takeWhile_append_dropWhile] at h

theorem holds_iff : Holds field front ↔ nameBytes field = front := by
  constructor
  · rintro ⟨⟨behind, rfl⟩, hfront, hended⟩
    have hall : ∀ b ∈ front, decide (b ≠ 0) = true := fun b hb => decide_eq_true (ne_of_mem_of_not_mem hb hfront)
    rw [nameBytes, List.takeWhile_append_of_pos hall]
    cases behind with
    | nil => exact List.append_nil front
    | cons b behind =>
      have hzero := hended (by simp)
      rw [List.prefix_append_right_inj, List.cons_prefix_cons] at hzero
      rw [← hzero.1]
      exact List.append_nil front
  · rintro rfl
    exact holds_nameBytes field

/-- A field made of bytes that fit holds them if nothing or a zero is behind them. -/
theorem holds_takeBytes (hfront : 0 ∉ front) (hlength : front.length ≤ n) (hbehind : ∀ b ∈ behind.head?, b = 0) :
    Holds (Layout.takeBytes n (front ++ behind)).toList front := by
  rcases Nat.le_total n (front ++ behind).length with hle | hle
  · rw [Layout.toList_takeBytes hle, List.take_append, List.take_of_length_le hlength]
    refine .of_append hfront fun b hb => hbehind b ?_
    rw [List.head?_take] at hb
    split at hb
    · contradiction
    · exact hb
  · rw [Layout.toList_takeBytes_of_length_le hle, List.append_assoc]
    refine .of_append hfront fun b hb => ?_
    rw [List.head?_append] at hb
    rcases Option.or_eq_some_iff.mp hb with hb | ⟨-, hb⟩
    · exact hbehind b hb
    · exact List.eq_of_mem_replicate (List.mem_of_mem_head? hb)

/-- The name is what is read with replacement of what the field holds. -/
theorem toList_name (h : Holds p.deviceName.toList front) : p.name.toList = decodeChars front := by
  rw [name, holds_iff.mp h, decodeLossy, String.toList_ofList]

theorem name_of_holds (h : Holds p.deviceName.toList (encode s.toList)) : p.name = s := by
  rw [← String.toList_inj, toList_name h, decodeChars_encode]

/-- A text that fits is sent and read back. -/
theorem map_name_parse (p : DeviceDataResponse) (behind rest : Bytes) (hzero : '\x00' ∉ s.toList)
    (hsize : s.utf8ByteSize ≤ 32) (hbehind : ∀ b ∈ behind.head?, b = 0) :
    (layout.parse (layout.encode { p with deviceName := Layout.takeBytes 32 (encode s.toList ++ behind) } ++
      rest)).map name = .ok s := by
  rw [← zero_mem_encode_iff] at hzero
  rw [← length_encode] at hsize
  rw [layout.parse_append]
  exact congrArg Except.ok (name_of_holds (holds_takeBytes hzero hsize hbehind))

/-- What is read of the names of devices. -/
structure ReadsNames : Prop where
  /-- A text without zeros that fits is sent, with zeros behind it, and read back. -/
  padded (p : DeviceDataResponse) {s : String} (rest : Bytes) : '\x00' ∉ s.toList → s.utf8ByteSize ≤ 32 →
    (layout.parse (layout.encode { p with deviceName := Layout.takeBytes 32 (encode s.toList) } ++ rest)).map
      name = .ok s
  /-- So it is with one zero and any bytes behind it, as many of them as fit. -/
  ended (p : DeviceDataResponse) {s : String} (behind rest : Bytes) : '\x00' ∉ s.toList → s.utf8ByteSize ≤ 32 →
    (layout.parse (layout.encode { p with deviceName := Layout.takeBytes 32 (encode s.toList ++ 0 :: behind) } ++
      rest)).map name = .ok s
  /-- Of any field the part in front of its first zero is read, each fault as a replacement. -/
  reads (p : DeviceDataResponse) : ∃ front, Holds p.deviceName.toList front ∧ Replaces front p.name.toList
  only {p : DeviceDataResponse} {front : Bytes} {cs : List Char} : Holds p.deviceName.toList front →
    Replaces front cs → p.name.toList = cs
  same {p q : DeviceDataResponse} {front : Bytes} : Holds p.deviceName.toList front →
    Holds q.deviceName.toList front → p.name = q.name
  noZero (p : DeviceDataResponse) : '\x00' ∉ p.name.toList
  valid {p : DeviceDataResponse} {s : String} : Holds p.deviceName.toList (encode s.toList) → p.name = s
  /-- A last character that is cut off is one fault. -/
  cut {p : DeviceDataResponse} {cs : List Char} {c : Char} {run : Bytes} :
    Holds p.deviceName.toList (encode cs ++ run) → run ≠ [] → run <+: String.utf8EncodeChar c →
      run.length < (String.utf8EncodeChar c).length → p.name.toList = cs ++ [replacement]

theorem readsNames : ReadsNames where
  padded p s rest hzero hsize := by
    have h := map_name_parse p [] rest hzero hsize nofun
    rwa [List.append_nil] at h
  ended p s behind rest hzero hsize :=
    map_name_parse p (0 :: behind) rest hzero hsize fun b hb => (Option.some.inj hb).symm
  reads p := by
    refine ⟨_, holds_nameBytes _, ?_⟩
    rw [toList_name (holds_nameBytes _)]
    exact replaces_decodeChars _
  only hholds hreplaces := (toList_name hholds).trans (replaces_iff.mp hreplaces)
  same hp hq := String.toList_inj.mp ((toList_name hp).trans (toList_name hq).symm)
  noZero p hmem := by
    have hholds := holds_nameBytes p.deviceName.toList
    rw [toList_name hholds] at hmem
    exact hholds.zero_not_mem ((replaces_decodeChars _).zero_mem hmem)
  valid := name_of_holds
  cut {p cs c run} hholds hne hrun hlt := by
    have hfault := Replaces.fault (isFault_of_cut hne hrun hlt) .nil
    rw [List.append_nil] at hfault
    rw [toList_name hholds]
    exact replaces_iff.mp (hfault.append_encode cs)

end AmpLink.DeviceDataResponse
