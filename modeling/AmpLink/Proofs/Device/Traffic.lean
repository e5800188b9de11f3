import AmpLink.Proofs.Device.Agreement
import AmpLink.Proofs.Device.Rally
import AmpLink.Proofs.Wire.Frame

/-!
# A device among arbitrary datagrams

What a device does with a datagram can be read off its bytes: whether it answers (`Device.answers`), which
preset the datagram recalls (`Device.recalled?`) and which gain it sets (`Device.gain?`). Everything else in a
datagram is passed over (`Device.handle_eq`), so after any number of them the device is as the last ones with
something to say have left it. The main statement is `Device.endures`.
-/

namespace AmpLink

/-- The number that bytes stand for, the lowest first. -/
def Layout.littleEndian (b : Bytes) : Nat := b.foldr (fun x n => x.toNat + 256 * n) 0

theorem Layout.decode_word32 (h : 4 ≤ b.length) :
    word32.decode b = .ofNat (littleEndian (b.take 4)) := by
  obtain ⟨b₀, b₁, b₂, b₃, rest, rfl⟩ : ∃ b₀ b₁ b₂ b₃ rest, b = b₀ :: b₁ :: b₂ :: b₃ :: rest := by
    match b, h with
    | b₀ :: b₁ :: b₂ :: b₃ :: rest, _ => exact ⟨b₀, b₁, b₂, b₃, rest, rfl⟩
  have h₀ := b₀.toNat_lt
  have h₁ := b₁.toNat_lt
  have h₂ := b₂.toNat_lt
  have h₃ := b₃.toNat_lt
  change UInt32.ofNat ((UInt16.ofNat (b₀.toNat + 256 * b₁.toNat)).toNat +
    65536 * (UInt16.ofNat (b₂.toNat + 256 * b₃.toNat)).toNat) = _
  congr 1
  simp only [UInt16.toNat_ofNat', littleEndian, List.take_succ_cons, List.take_zero, List.foldr_cons,
    List.foldr_nil]
  omega

theorem Status.isCommand_iff {s : Status} (hs : s.normalized = s) : s.isCommand ↔
    s.toWord.toUInt8 = 2 ∧ ((s.toWord >>> 8).toUInt8 = 0 ∨ (s.toWord >>> 8).toUInt8 = 1) := by
  cases s with
  | other w =>
    have hnamed := Status.normalized_eq_self_iff.mp hs
    refine iff_of_false nofun ?_
    rintro ⟨hlow, hhigh⟩
    rw [toWord] at hlow hhigh
    -- a word with these bytes has a name
    have hword (v : UInt16) (hv : Layout.word16.encode w = Layout.word16.encode v)
        (hassigned : v ∈ assigned) : False :=
      hnamed v hassigned (congrArg other (Layout.word16.encode_injective hv))
    rcases hhigh with hhigh | hhigh
    · exact hword 0x0002 (by rw [Layout.encode_word16, hlow, hhigh]; rfl) (by decide)
    · exact hword 0x0102 (by rw [Layout.encode_word16, hlow, hhigh]; rfl) (by decide)
  | _ => decide

namespace Device

/-- The datagrams that are answered have a whole header and one of five types. -/
def answers (b : Bytes) : Bool := 12 ≤ b.length && b[0]?.any (· ∈ knownBytes)

/-- The answer of a device: twelve bytes, of which two are the number of the datagram. -/
def answer (d : Device) (b : Bytes) : Bytes :=
  [0x00, 0x01, 0x01, 0x00] ++ d.deviceId.toList ++ (b.drop 8).take 2 ++ [d.component, 0x01]

/-- The preset that a datagram recalls. -/
def recalled? (b : Bytes) : Option UInt8 :=
  if b[0]? = some 4 ∧ 16 ≤ b.length then b[14]? else none

/-- The gain that a datagram sets. Its status is a command, and its body starts with the selector. -/
def gain? (b : Bytes) : Option UInt32 :=
  if b[0]? = some 2 ∧ b[2]? = some 2 ∧ (b[3]? = some 0 ∨ b[3]? = some 1) ∧ 20 ≤ b.length ∧
      [0x01, 0x00, 0x03, 0x06] <+: b.drop 12 then
    some (.ofNat (Layout.littleEndian ((b.drop 16).take 4)))
  else none

end Device

namespace Header

variable {h : Header} {b : Bytes}

/-- The bytes of a header that has been read. -/
theorem take_of_parse (hp : parse b = .ok h) : b.take 12 =
    [h.messageType.toByte, h.protocolId, h.status.toWord.toUInt8, (h.status.toWord >>> 8).toUInt8] ++
      h.deviceId.toList ++
        [h.sequence.toUInt8, (h.sequence >>> 8).toUInt8, h.component, h.reserved] :=
  (codec.encode_of_parse hp).symm.trans (encode_eq h)

theorem getElem?_of_parse (hp : parse b = .ok h) : b[0]? = some h.messageType.toByte ∧
    b[2]? = some h.status.toWord.toUInt8 ∧ b[3]? = some (h.status.toWord >>> 8).toUInt8 ∧
      (b.drop 8).take 2 = [h.sequence.toUInt8, (h.sequence >>> 8).toUInt8] := by
  have htake := take_of_parse hp
  have hget (i : Nat) (hi : i < 12) : b[i]? = (b.take 12)[i]? := (List.getElem?_take_of_lt hi).symm
  have hdrop : (b.drop 8).take 2 = ((b.take 12).drop 8).take 2 := by
    rw [List.drop_take, List.take_take]
    rfl
  rw [hget 0 (by decide), hget 2 (by decide), hget 3 (by decide), hdrop, htake,
    List.drop_left' (by simp)]
  exact ⟨rfl, rfl, rfl, rfl⟩

theorem messageType_eq_iff (hp : parse b = .ok h) {t : MessageType} (ht : t.normalized = t) :
    h.messageType = t ↔ b[0]? = some t.toByte := by
  have hn := (normalized_eq_self_iff.mp (normalized_of_parse hp)).1
  rw [(getElem?_of_parse hp).1, Option.some.injEq]
  refine ⟨fun he => he ▸ rfl, fun he => ?_⟩
  rw [← hn, ← ht, MessageType.normalized, MessageType.normalized, he]

theorem isCommand_iff (hp : parse b = .ok h) :
    h.status.isCommand ↔ b[2]? = some 2 ∧ (b[3]? = some 0 ∨ b[3]? = some 1) := by
  obtain ⟨-, hlow, hhigh, -⟩ := getElem?_of_parse hp
  rw [Status.isCommand_iff (normalized_eq_self_iff.mp (normalized_of_parse hp)).2, hlow, hhigh]
  simp only [Option.some.injEq]

end Header

namespace Device

variable {d : Device} {s : DeviceState} {h : Header} {b : Bytes}

/-- A recall with a whole body says which preset. -/
theorem recalled?_of_le (hp : Header.parse b = .ok h) (ht : h.messageType = .presetRecall)
    (hlength : 16 ≤ b.length) : ∃ p, Payload.decode h (b.drop 12) = .ok (.presetRecall p) ∧
      recalled? b = some p.indexPosition := by
  have hbody : PresetRecall.layout.size ≤ (b.drop 12).length := by
    rw [List.length_drop]
    exact Nat.le_sub_of_add_le hlength
  have hne : b.drop 12 ≠ [] := List.ne_nil_of_length_pos (Nat.lt_of_lt_of_le (by decide) hbody)
  obtain ⟨p, hparse, hencode⟩ := PresetRecall.layout.codec.parse_of_le _ hbody
  refine ⟨p, by rw [Payload.decode_of_hasForm (.presetRecall ht) hne, hparse]; rfl, ?_⟩
  have hget : b[14]? = ((b.drop 12).take 4)[2]? := by
    rw [List.getElem?_take_of_lt (by decide), List.getElem?_drop]
  rw [recalled?, if_pos ⟨(Header.messageType_eq_iff hp rfl).mp ht, hlength⟩, hget]
  exact congrArg (·[2]?) hencode.symm

theorem recalled?_of_not (hp : Header.parse b = .ok h)
    (hn : ¬ (h.messageType = .presetRecall ∧ 16 ≤ b.length)) : recalled? b = none := by
  refine if_neg fun hb => hn ⟨?_, hb.2⟩
  exact (Header.messageType_eq_iff hp (t := .presetRecall) rfl).mpr hb.1

theorem selects_iff (hp : Header.parse b = .ok h) : h.Selects (b.drop 12) ↔
    b[0]? = some 2 ∧ b[2]? = some 2 ∧ (b[3]? = some 0 ∨ b[3]? = some 1) ∧ 20 ≤ b.length ∧
      [0x01, 0x00, 0x03, 0x06] <+: b.drop 12 := by
  have hlength : 8 ≤ (b.drop 12).length ↔ 20 ≤ b.length := by
    rw [List.length_drop]
    omega
  rw [Header.Selects, Header.messageType_eq_iff hp (t := .deviceData) rfl, Header.isCommand_iff hp, hlength,
    and_assoc]
  rfl

/-- What a master volume says stands behind the selector. -/
theorem gain?_of_selects (hp : Header.parse b = .ok h) (hs : h.Selects (b.drop 12)) :
    ∃ v, Payload.decode h (b.drop 12) = .ok (.masterVolume v) ∧ gain? b = some v.gain := by
  have hlength : 4 ≤ (b.drop 16).length := by
    have hbody := hs.2.2.1
    rw [List.length_drop] at hbody ⊢
    omega
  have hdrop : (b.drop 12).drop MasterVolume.selector.length = b.drop 16 := List.drop_drop
  refine ⟨⟨Layout.word32.decode (b.drop 16)⟩, ?_, ?_⟩
  · rw [Payload.decode_of_selects hs, MasterVolume.parse_of_le hs.2.2.1, hdrop]
    rfl
  · rw [gain?, if_pos ((selects_iff hp).mp hs), Layout.decode_word32 hlength]

theorem gain?_of_not_selects (hp : Header.parse b = .ok h) (hs : ¬ h.Selects (b.drop 12)) :
    gain? b = none := if_neg fun hgain => hs ((selects_iff hp).mpr hgain)

/-- The volume that a datagram sets. -/
def volume? (b : Bytes) : Option Binary32 := (gain? b).map fun gain => MasterVolume.volume ⟨gain⟩

theorem absorb_eq (hk : h.messageType = .presetRecall ∨ h.messageType = .deviceData) (s : DeviceState)
    (body : Bytes) : absorb s h body = (Payload.decode h body).toOption.elim s s.apply := by
  rcases hk with ht | ht <;> rw [absorb, ht] <;> cases Payload.decode h body <;> rfl

theorem absorb_presetRecall (hp : Header.parse b = .ok h) (ht : h.messageType = .presetRecall)
    (s : DeviceState) : absorb s h (b.drop 12) =
      { s with activePreset := (recalled? b).or s.activePreset } := by
  rw [absorb_eq (.inl ht)]
  by_cases hlength : 16 ≤ b.length
  · obtain ⟨p, hd, hr⟩ := recalled?_of_le hp ht hlength
    rw [hd, hr]
    rfl
  · rw [recalled?_of_not hp fun hb => hlength hb.2, Option.none_or]
    by_cases hne : b.drop 12 = []
    · rw [hne]
      rfl
    · have hbody : (b.drop 12).length < PresetRecall.layout.size := by
        rw [List.length_drop]
        change b.length - 12 < 4
        omega
      rw [Payload.decode_of_hasForm (.presetRecall ht) hne, PresetRecall.layout.parse_of_lt hbody]
      rfl

theorem absorb_deviceData (hp : Header.parse b = .ok h) (ht : h.messageType = .deviceData)
    (s : DeviceState) : absorb s h (b.drop 12) =
      { s with volume := (volume? b).getD s.volume } := by
  rw [absorb_eq (.inr ht)]
  by_cases hs : h.Selects (b.drop 12)
  · obtain ⟨v, hd, hg⟩ := gain?_of_selects hp hs
    rw [hd, volume?, hg, Option.map_some, Option.getD_some]
    rfl
  · rw [volume?, gain?_of_not_selects hp hs]
    by_cases hne : b.drop 12 = []
    · rw [hne]
      rfl
    · rcases Payload.decode_cases (h := h) hne with ⟨α, l, form, hf, hd⟩ | ⟨hs', -⟩ | ⟨-, -, hd⟩
      · rw [hd]
        cases l.parse (b.drop 12) with
        | error e => rfl
        | ok q =>
          cases hf with
          | presetRecall ht' => rw [ht] at ht'; contradiction
          | liveCmd | deviceDataRequest | deviceDataResponse => rfl
      · exact absurd hs' hs
      · rw [hd]
        rfl

theorem volume?_of_not (hp : Header.parse b = .ok h) (ht : h.messageType ≠ .deviceData) :
    volume? b = none := by
  rw [volume?, gain?_of_not_selects hp fun hs => ht hs.1]
  rfl

/-- What a device takes over can be read off the bytes. -/
theorem absorb_of_parse (hp : Header.parse b = .ok h) (s : DeviceState) : absorb s h (b.drop 12) =
    { s with
      activePreset := (recalled? b).or s.activePreset
      volume := (volume? b).getD s.volume } := by
  by_cases hr : h.messageType = .presetRecall
  · rw [absorb_presetRecall hp hr, volume?_of_not hp (by rw [hr]; decide)]
    rfl
  · rw [recalled?_of_not hp fun hb => hr hb.1, Option.none_or]
    by_cases hd : h.messageType = .deviceData
    · exact absorb_deviceData hp hd s
    · rw [volume?_of_not hp hd, absorb]
      cases ht : h.messageType with
      | presetRecall => exact absurd ht hr
      | deviceData => exact absurd ht hd
      | _ => rfl

theorem answers_iff : answers b ↔ 12 ≤ b.length ∧ ∃ t ∈ knownBytes, b[0]? = some t := by
  rw [answers, Bool.and_eq_true, decide_eq_true_iff, Option.any_eq_true]
  simp only [decide_eq_true_iff, and_comm]

theorem not_answers (hb : answers b = false) : recalled? b = none ∧ volume? b = none := by
  have hn := answers_iff.not.mp (Bool.eq_false_iff.mp hb)
  constructor
  · refine if_neg fun hr => hn ⟨?_, 4, by decide, hr.1⟩
    exact Nat.le_trans (by decide) hr.2
  · rw [volume?, Option.map_eq_none_iff]
    refine if_neg fun hg => hn ⟨?_, 2, by decide, hg.1⟩
    exact Nat.le_trans (by decide) hg.2.2.2.1

theorem encode_reply (hp : Header.parse b = .ok h) (d : Device) :
    (h.reply d.deviceId d.component).encode = d.answer b := by
  have hstatus : (h.reply d.deviceId d.component).status = .responseServer := rfl
  have hhigh : (Status.responseServer.toWord >>> 8).toUInt8 = 0 := by decide
  rw [Header.encode_eq, answer, (Header.getElem?_of_parse hp).2.2.2, List.append_assoc _ [_, _] [_, _],
    hstatus, hhigh]
  rfl

/-- What a device holds has no say in whether it answers. -/
theorem answers_of_handle (d : Device) (s : DeviceState) (b : Bytes) :
    answers b = (d.handle s b).1.isSome := by
  rw [Bool.eq_iff_iff, answers_iff, d.isSome_handle_iff, List.head?_eq_getElem?]

/-- What a device does with any bytes at all. -/
theorem handle_eq (d : Device) (s : DeviceState) (b : Bytes) : d.handle s b =
    (if answers b then some (d.answer b) else none,
      { activePreset := (recalled? b).or s.activePreset
        volume := (volume? b).getD s.volume
        requests := s.requests + if answers b then 1 else 0 }) := by
  rcases d.handle_cases s b with ⟨h, body, hs, -, heq⟩ | ⟨-, heq⟩
  · have hanswers : answers b = true := by
      rw [d.answers_of_handle s, heq]
      rfl
    have hp := Header.parse_of_split hs
    obtain rfl : b.drop 12 = body := by
      rw [Header.split, hp] at hs
      cases hs
      rfl
    rw [heq, if_pos hanswers, if_pos hanswers, absorb_of_parse hp, encode_reply hp]
  · have hanswers : answers b = false := by
      rw [d.answers_of_handle s, heq]
      rfl
    obtain ⟨hrecalled, hvolume⟩ := not_answers hanswers
    have hn : ¬ answers b := Bool.eq_false_iff.mp hanswers
    rw [heq, if_neg hn, if_neg hn, hrecalled, hvolume, Option.none_or, Option.getD_none]
    rfl

/-- A recall whose body is too short is answered and changes nothing. -/
example : handle ⟨.standard, 0xff⟩ .initial [4, 9, 2, 1, 0, 0, 0, 0, 7, 1, 0xff, 1, 0, 0, 9] =
    (some [0, 1, 1, 0, 0, 1, 2, 3, 7, 1, 0xff, 1], { DeviceState.initial with requests := 1 }) := by
  decide

/-- The device is as the last datagrams have left it that had something to say. -/
theorem deliver_eq (d : Device) (s : DeviceState) (bs : List Bytes) : d.deliver s bs =
    (bs.map fun b => if answers b then some (d.answer b) else none,
      { activePreset := (bs.filterMap recalled?).getLast?.or s.activePreset
        volume := (bs.filterMap volume?).getLast?.getD s.volume
        requests := s.requests + bs.countP answers }) := by
  induction bs generalizing s with
  | nil => rfl
  | cons b rest ih =>
    rw [deliver, handle_eq]
    simp only [ih]
    rw [getLast?_filterMap_cons, getLast?_filterMap_cons, Option.or_assoc, Option.getD_or, List.countP_cons,
      Nat.add_assoc, Nat.add_comm (rest.countP answers), List.map_cons]

/-! ## The main statement -/

/-- How the device `d`, as it is from the start, fares with the datagrams `bs`. -/
structure Endures (d : Device) (bs : List Bytes) : Prop where
  length : (d.deliver .initial bs).1.length = bs.length
  /-- A whole header with one of five types is what it takes to be answered, and nothing else matters. -/
  answered : ∀ (i : Nat) b, bs[i]? = some b → ∃ r, (d.deliver .initial bs).1[i]? = some r ∧
    (r.isSome ↔ 12 ≤ b.length ∧ ∃ t ∈ ([0, 1, 2, 4, 5] : List UInt8), b[0]? = some t)
  /-- An answer has twelve bytes, among them the number of the datagram. -/
  answer : ∀ (i : Nat) b a, bs[i]? = some b → (d.deliver .initial bs).1[i]? = some (some a) →
    a.length = 12 ∧ (a.drop 8).take 2 = (b.drop 8).take 2 ∧ d.IsAnswer b a
  requests : (d.deliver .initial bs).2.requests = (d.deliver .initial bs).1.countP Option.isSome
  activePreset : (d.deliver .initial bs).2.activePreset = (bs.filterMap recalled?).getLast?
  volume : (d.deliver .initial bs).2.volume =
    ((bs.filterMap gain?).getLast?.map fun gain => MasterVolume.volume ⟨gain⟩).getD .zero
  /-- Any other datagram leaves preset and volume alone, and counts if it is answered. -/
  ignored : ∀ s b, recalled? b = none → gain? b = none →
    (d.handle s b).2 = { s with requests := s.requests + if (d.handle s b).1.isSome then 1 else 0 }

theorem isAnswer_answer (d : Device) (hb : answers b) : d.IsAnswer b (d.answer b) := by
  have hh := d.handle_eq .initial b
  rw [if_pos hb] at hh
  exact (answer_of_handle hh).1

theorem length_answer (d : Device) (hb : 12 ≤ b.length) : (d.answer b).length = 12 := by
  simp [answer]
  omega

theorem number_answer (d : Device) (hb : 12 ≤ b.length) :
    ((d.answer b).drop 8).take 2 = (b.drop 8).take 2 := by
  have hnumber : ((b.drop 8).take 2).length = 2 := by
    rw [List.length_take, List.length_drop]
    omega
  rw [answer, List.append_assoc, List.drop_left' (by simp), List.take_left' hnumber]

/-- However hostile the datagrams are, and in whatever order. -/
theorem endures (d : Device) (bs : List Bytes) : d.Endures bs := by
  have hget (i : Nat) (b : Bytes) (hi : bs[i]? = some b) : (d.deliver .initial bs).1[i]? =
      some (if answers b then some (d.answer b) else none) := by
    rw [deliver_eq, List.getElem?_map, hi]
    rfl
  refine
    { length := by rw [deliver_eq, List.length_map]
      answered := fun i b hi => ⟨_, hget i b hi, ?_⟩
      answer := fun i b a hi ha => ?_
      requests := ?_
      activePreset := ?_
      volume := ?_
      ignored := fun s b hrecalled hgain => ?_ }
  · rw [← knownBytes, ← answers_iff]
    cases answers b <;> simp
  · rw [hget i b hi, Option.some.injEq, Option.ite_none_right_eq_some, Option.some.injEq] at ha
    obtain ⟨hb, rfl⟩ := ha
    have hlength := (answers_iff.mp hb).1
    exact ⟨d.length_answer hlength, d.number_answer hlength, d.isAnswer_answer hb⟩
  · rw [deliver_eq, List.countP_map]
    refine (Nat.zero_add _).trans (List.countP_congr fun b _ => ?_)
    by_cases hb : answers b <;> simp [hb]
  · rw [deliver_eq]
    exact Option.or_none
  · rw [deliver_eq, ← List.getLast?_map, List.map_filterMap]
    rfl
  · rw [handle_eq, hrecalled, volume?, hgain]
    cases answers b <;> rfl

end Device
end AmpLink
