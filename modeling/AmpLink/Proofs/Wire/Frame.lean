import AmpLink.Proofs.Wire.Header
import AmpLink.Proofs.Wire.Payload
import AmpLink.Wire.Frame

/-!
# What becomes of a frame

The header of a frame says which form its body has to have (`Header.HasForm`); a command for device data
chooses by its selector. `Header.Carries` lists the payloads that a frame can carry, each with the bytes
that stand for it, and decoding finds exactly these (`Payload.ok_decode_iff`). It fails only if a body is
shorter than its form. The main statement is `exact_decodeFrame`.
-/

namespace AmpLink

theorem Status.isRequest_eq_false {s : Status} (h : s.isResponse) : s.isRequest = false := by
  cases s with
  | responseClient | responseServer => rfl
  | _ => contradiction

theorem Status.isCommand_cases {s : Status} (h : s.isCommand) :
    s.isRequest = false ∧ s.isResponse = false := by
  cases s with
  | commandClient | commandServer => exact ⟨rfl, rfl⟩
  | _ => contradiction

namespace Header

/-- The layout of a body and the kind of payload, where type and status fix them. -/
inductive HasForm (h : Header) : {α : Type} → Layout α → (α → Payload) → Prop
  | presetRecall : h.messageType = .presetRecall → HasForm h PresetRecall.layout .presetRecall
  | liveCmd : h.messageType = .liveCmd → HasForm h LiveCommand.layout .liveCmd
  | deviceDataRequest : h.messageType = .deviceData → h.status.isRequest →
    HasForm h DeviceDataRequest.layout .deviceDataRequest
  | deviceDataResponse : h.messageType = .deviceData → h.status.isResponse →
    HasForm h DeviceDataResponse.layout .deviceDataResponse

/-- The bytes that a body has to have unless it is empty. -/
def Requires (h : Header) (n : Nat) : Prop :=
  ∃ (α : Type) (l : Layout α) (form : α → Payload), h.HasForm l form ∧ l.size = n

/-- The body is a master volume. -/
def Selects (h : Header) (body : Bytes) : Prop :=
  h.messageType = .deviceData ∧ h.status.isCommand ∧ 8 ≤ body.length ∧
    MasterVolume.selector <+: body

/-- What a frame can carry. -/
inductive Carries (h : Header) (body : Bytes) : Payload → Prop
  | empty : body = [] → Carries h body .empty
  | form {α : Type} {l : Layout α} {form : α → Payload} {p : α} :
    body ≠ [] → h.HasForm l form → l.encode p <+: body → Carries h body (form p)
  | masterVolume : h.messageType = .deviceData → h.status.isCommand → v.encode <+: body →
    Carries h body (.masterVolume v)
  | raw : body ≠ [] → (∀ n, ¬ h.Requires n) → ¬ h.Selects body → Carries h body (.raw body)

end Header

namespace Payload

variable {h : Header} {body : Bytes}

/-! ## Decoding by cases -/

theorem decode_of_hasForm {α : Type} {l : Layout α} {form : α → Payload} (hf : h.HasForm l form)
    (hb : body ≠ []) : decode h body = (l.parse body).map form := by
  rw [decode, if_neg (by simpa using hb)]
  cases hf with
  | presetRecall ht | liveCmd ht => rw [ht]
  | deviceDataRequest ht hs => rw [ht, if_pos hs]
  | deviceDataResponse ht hs => rw [ht, if_neg (by simp [Status.isRequest_eq_false hs]), if_pos hs]

theorem decode_of_selects (hs : h.Selects body) :
    decode h body = (MasterVolume.parse body).map .masterVolume := by
  obtain ⟨ht, hcommand, hlength, hselector⟩ := hs
  have hb : body ≠ [] := List.ne_nil_of_length_pos (Nat.lt_of_lt_of_le (by decide) hlength)
  obtain ⟨hrequest, hresponse⟩ := Status.isCommand_cases hcommand
  have hselected : MasterVolume.isSelected body := by
    rw [MasterVolume.isSelected, Bool.and_eq_true, decide_eq_true_iff, decide_eq_true_iff]
    exact ⟨hlength, (List.prefix_iff_eq_take.mp hselector).symm⟩
  simp [decode, hb, ht, hrequest, hresponse, hcommand, hselected]

theorem decode_of_not (hb : body ≠ []) (hn : ∀ n, ¬ h.Requires n) (hs : ¬ h.Selects body) :
    decode h body = .ok (.raw body) := by
  have hform {α : Type} {l : Layout α} {form : α → Payload} (hf : h.HasForm l form) : False :=
    hn l.size ⟨α, l, form, hf, rfl⟩
  rw [decode, if_neg (by simpa using hb)]
  split
  · next ht => exact (hform (.presetRecall ht)).elim
  · next ht => exact (hform (.liveCmd ht)).elim
  · next ht =>
    rw [if_neg fun hr => hform (.deviceDataRequest ht hr),
      if_neg fun hr => hform (.deviceDataResponse ht hr), if_neg]
    rintro ⟨hcommand, hselected⟩
    rw [MasterVolume.isSelected, Bool.and_eq_true, decide_eq_true_iff, decide_eq_true_iff] at hselected
    exact hs ⟨ht, hcommand, hselected.1, List.prefix_iff_eq_take.mpr hselected.2.symm⟩
  · rfl

theorem exists_decode_of_selects (hs : h.Selects body) :
    ∃ v, MasterVolume.encode v <+: body ∧ decode h body = .ok (.masterVolume v) := by
  obtain ⟨v, hv, he⟩ := MasterVolume.codec.parse_of_le body hs.2.2.1
  have hselector := (List.prefix_iff_eq_take.mp hs.2.2.2).symm
  refine ⟨v, ?_, by rw [decode_of_selects hs, hv]; rfl⟩
  rw [he, MasterVolume.selector_append_eq_take_iff.mpr hselector]
  exact List.take_prefix _ _

/-- A body has a form, or is a master volume, or is left as it is. -/
theorem decode_cases (hb : body ≠ []) :
    (∃ (α : Type) (l : Layout α) (form : α → Payload), h.HasForm l form ∧
      decode h body = (l.parse body).map form) ∨
    (h.Selects body ∧ ∃ v, MasterVolume.encode v <+: body ∧ decode h body = .ok (.masterVolume v)) ∨
    ((∀ n, ¬ h.Requires n) ∧ ¬ h.Selects body ∧ decode h body = .ok (.raw body)) := by
  -- type and status fix a form before the body is looked at for a selector
  by_cases hn : ∃ n, h.Requires n
  · obtain ⟨_, α, l, form, hf, -⟩ := hn
    exact .inl ⟨α, l, form, hf, decode_of_hasForm hf hb⟩
  by_cases hs : h.Selects body
  · exact .inr (.inl ⟨hs, exists_decode_of_selects hs⟩)
  · exact .inr (.inr ⟨not_exists.mp hn, hs, decode_of_not hb (not_exists.mp hn) hs⟩)

theorem selects_of_isPrefix (ht : h.messageType = .deviceData) (hs : h.status.isCommand)
    {v : MasterVolume} (hp : v.encode <+: body) : h.Selects body := by
  have hlength := hp.length_le
  rw [MasterVolume.length_encode] at hlength
  exact ⟨ht, hs, hlength, (List.prefix_append _ _).trans hp⟩

/-- Decoding finds what a frame carries. -/
theorem ok_decode_iff {p : Payload} : decode h body = .ok p ↔ h.Carries body p := by
  constructor
  · intro hp
    by_cases hb : body = []
    · subst hb
      cases hp
      exact .empty rfl
    rcases decode_cases (h := h) hb with
      ⟨α, l, form, hf, hd⟩ | ⟨hs, v, hv, hd⟩ | ⟨hn, hs, hd⟩
    · rw [hd] at hp
      cases hq : l.parse body with
      | error e =>
        rw [hq] at hp
        contradiction
      | ok q =>
        rw [hq] at hp
        cases hp
        exact .form hb hf (l.codec.ok_iff.mp hq)
    · rw [hd] at hp
      cases hp
      exact .masterVolume hs.1 hs.2.1 hv
    · rw [hd] at hp
      cases hp
      exact .raw hb hn hs
  · intro hp
    cases hp with
    | empty hb =>
      rw [hb]
      rfl
    | @form _ l _ _ hb hf hp =>
      rw [decode_of_hasForm hf hb, l.codec.ok_iff.mpr hp]
      rfl
    | masterVolume ht hs hp =>
      rw [decode_of_selects (selects_of_isPrefix ht hs hp), MasterVolume.codec.parse_of_isPrefix hp]
      rfl
    | raw hb hn hs => exact decode_of_not hb hn hs

/-- Decoding fails only if a body is shorter than its form. -/
theorem error_decode_iff : decode h body = .error e ↔
    body ≠ [] ∧ ∃ n, h.Requires n ∧ body.length < n ∧ e = .shortBuffer n body.length := by
  constructor
  · intro he
    by_cases hb : body = []
    · subst hb
      contradiction
    refine ⟨hb, ?_⟩
    rcases decode_cases (h := h) hb with ⟨α, l, form, hf, hd⟩ | ⟨-, v, -, hd⟩ | ⟨-, -, hd⟩
    · rw [hd] at he
      cases hq : l.parse body with
      | error e' =>
        rw [hq] at he
        cases he
        exact ⟨l.size, ⟨α, l, form, hf, rfl⟩, l.codec.error_iff.mp hq⟩
      | ok q =>
        rw [hq] at he
        contradiction
    · rw [hd] at he
      contradiction
    · rw [hd] at he
      contradiction
  · rintro ⟨hb, _, ⟨α, l, form, hf, rfl⟩, hlt⟩
    rw [decode_of_hasForm hf hb, l.codec.error_iff.mpr hlt]
    rfl

/-! ## What is left of the body -/

/-- The part of a body that a payload stands for: nothing, all of it, or the bytes of its form. -/
def extent (body : Bytes) : Payload → Bytes
  | empty => []
  | presetRecall _ => body.take 4
  | deviceDataRequest _ => body.take 2
  | deviceDataResponse _ => body.take 68
  | masterVolume _ => body.take 8
  | liveCmd _ => body.take 16
  | raw _ => body

theorem encode_of_carries {p : Payload} (hp : h.Carries body p) :
    p.encode <+: body ∧ p.encode = p.extent body := by
  have htake {x : Bytes} {n : Nat} (hx : x <+: body) (hn : x.length = n) : x = body.take n :=
    hn ▸ List.prefix_iff_eq_take.mp hx
  cases hp with
  | empty => exact ⟨List.nil_prefix, rfl⟩
  | @form _ l _ q hb hf hq =>
    have he := htake hq (l.length_encode q)
    cases hf with
    | presetRecall | liveCmd | deviceDataRequest | deviceDataResponse => exact ⟨hq, he⟩
  | masterVolume _ _ hv => exact ⟨hv, htake hv (MasterVolume.length_encode _)⟩
  | raw => exact ⟨List.prefix_rfl, rfl⟩

end Payload

/-! ## The main statement -/

/-- How the decoding of a body comes out. -/
structure Decoded (h : Header) (body : Bytes) (r : Except ProtocolError Payload) : Prop where
  /-- The payload is what the frame carries. -/
  ok_iff : ∀ p, r = .ok p ↔ h.Carries body p
  /-- Written again, it gives the part of the body that it stands for, from the start. -/
  encode : ∀ p, r = .ok p → p.encode <+: body ∧ p.encode = p.extent body
  /-- A body is refused exactly if there is one and it is shorter than its form. -/
  error_iff : ∀ e, r = .error e ↔
    body ≠ [] ∧ ∃ n, h.Requires n ∧ body.length < n ∧ e = .shortBuffer n body.length
  /-- Types and statuses that fix a form, and its size. -/
  requires_iff : ∀ n, h.Requires n ↔
    (h.messageType = .presetRecall ∧ n = 4) ∨ (h.messageType = .liveCmd ∧ n = 16) ∨
    (h.messageType = .deviceData ∧ h.status.isRequest ∧ n = 2) ∨
    (h.messageType = .deviceData ∧ h.status.isResponse ∧ n = 68)
  /-- A command for device data is a master volume exactly if it carries the selector, and otherwise
  left as it is. -/
  command : h.messageType = .deviceData → h.status.isCommand → (∀ e, r ≠ .error e) ∧
    ((∃ v, r = .ok (.masterVolume v)) ↔ 8 ≤ body.length ∧ MasterVolume.selector <+: body) ∧
    (r = .ok (.raw body) ↔ body ≠ [] ∧ ¬ (8 ≤ body.length ∧ MasterVolume.selector <+: body))
  /-- Any other body is left as it is. -/
  other : body ≠ [] → (∀ n, ¬ h.Requires n) →
    ¬ (h.messageType = .deviceData ∧ h.status.isCommand) → r = .ok (.raw body)
  empty_iff : r = .ok .empty ↔ body = []

namespace Header

theorem requires_iff {h : Header} : h.Requires n ↔
    (h.messageType = .presetRecall ∧ n = 4) ∨ (h.messageType = .liveCmd ∧ n = 16) ∨
    (h.messageType = .deviceData ∧ h.status.isRequest ∧ n = 2) ∨
    (h.messageType = .deviceData ∧ h.status.isResponse ∧ n = 68) := by
  constructor
  · rintro ⟨α, l, form, hf, rfl⟩
    cases hf with
    | presetRecall ht => exact .inl ⟨ht, rfl⟩
    | liveCmd ht => exact .inr (.inl ⟨ht, rfl⟩)
    | deviceDataRequest ht hs => exact .inr (.inr (.inl ⟨ht, hs, rfl⟩))
    | deviceDataResponse ht hs => exact .inr (.inr (.inr ⟨ht, hs, rfl⟩))
  · rintro (⟨ht, rfl⟩ | ⟨ht, rfl⟩ | ⟨ht, hs, rfl⟩ | ⟨ht, hs, rfl⟩)
    · exact ⟨_, _, _, .presetRecall ht, rfl⟩
    · exact ⟨_, _, _, .liveCmd ht, rfl⟩
    · exact ⟨_, _, _, .deviceDataRequest ht hs, rfl⟩
    · exact ⟨_, _, _, .deviceDataResponse ht hs, rfl⟩

/-- A command for device data fixes no form. -/
theorem not_requires_of_isCommand {h : Header} (ht : h.messageType = .deviceData)
    (hs : h.status.isCommand) (n : Nat) : ¬ h.Requires n := by
  obtain ⟨hrequest, hresponse⟩ := Status.isCommand_cases hs
  rw [requires_iff, ht, hrequest, hresponse]
  simp

end Header

namespace Payload

variable {h : Header} {body : Bytes}

theorem exists_masterVolume_iff :
    (∃ v, decode h body = .ok (.masterVolume v)) ↔ h.Selects body := by
  constructor
  · rintro ⟨v, hv⟩
    generalize hp : Payload.masterVolume v = p at hv
    cases ok_decode_iff.mp hv with
    | masterVolume ht hs hpre => exact selects_of_isPrefix ht hs hpre
    | form _ hf => cases hf <;> contradiction
    | empty | raw => contradiction
  · intro hs
    obtain ⟨v, -, hd⟩ := exists_decode_of_selects hs
    exact ⟨v, hd⟩

theorem raw_iff : decode h body = .ok (.raw body) ↔
    body ≠ [] ∧ (∀ n, ¬ h.Requires n) ∧ ¬ h.Selects body := by
  constructor
  · intro hr
    generalize hp : Payload.raw body = p at hr
    cases ok_decode_iff.mp hr with
    | raw hb hn hs => exact ⟨hb, hn, hs⟩
    | form _ hf => cases hf <;> contradiction
    | empty | masterVolume => contradiction
  · rintro ⟨hb, hn, hs⟩
    exact decode_of_not hb hn hs

theorem empty_iff : decode h body = .ok .empty ↔ body = [] := by
  constructor
  · intro he
    generalize hp : Payload.empty = p at he
    cases ok_decode_iff.mp he with
    | empty hb => exact hb
    | form _ hf => cases hf <;> contradiction
    | masterVolume | raw => contradiction
  · rintro rfl
    rfl

theorem decoded (h : Header) (body : Bytes) : Decoded h body (decode h body) where
  ok_iff _ := ok_decode_iff
  encode _ hp := encode_of_carries (ok_decode_iff.mp hp)
  error_iff _ := error_decode_iff
  requires_iff _ := Header.requires_iff
  command ht hs := by
    have hselects : h.Selects body ↔ 8 ≤ body.length ∧ MasterVolume.selector <+: body :=
      ⟨fun h => h.2.2, fun h => ⟨ht, hs, h⟩⟩
    have hn := Header.not_requires_of_isCommand ht hs
    refine ⟨fun e he => ?_, ?_, ?_⟩
    · obtain ⟨-, n, hr, -⟩ := error_decode_iff.mp he
      exact hn n hr
    · rw [exists_masterVolume_iff, hselects]
    · rw [raw_iff, hselects, and_iff_right hn]
  other hb hn hd := decode_of_not hb hn fun hs => hd ⟨hs.1, hs.2.1⟩
  empty_iff := empty_iff

end Payload

/-- Every frame with a whole header is taken apart without loss, and its body is decoded exactly. -/
theorem exact_decodeFrame {b : Bytes} (hb : 12 ≤ b.length) :
    ∃ h, Header.split b = .ok (h, b.drop 12) ∧ h.encode ++ b.drop 12 = b ∧
      decodeFrame b = .ok (h, Payload.decode h (b.drop 12)) ∧
      Decoded h (b.drop 12) (Payload.decode h (b.drop 12)) := by
  obtain ⟨h, hp, he⟩ := Header.codec.parse_of_le b hb
  have hs : Header.split b = .ok (h, b.drop 12) := by
    rw [Header.split, hp]
    rfl
  refine ⟨h, hs, ?_, ?_, Payload.decoded h _⟩
  · rw [he]
    exact List.take_append_drop 12 b
  · rw [decodeFrame, hs]
    rfl

/-- A live command of which three bytes have come. -/
def cutLive : Bytes := [0x01, 0x01, 0x02, 0x01, 0, 0, 0, 0, 0x07, 0x00, 0xff, 0x01, 0x00, 0x00, 0x02]

theorem exact_decodeFrame_cutLive : 12 ≤ cutLive.length ∧
    ∃ h, decodeFrame cutLive = .ok (h, .error (.shortBuffer 16 3)) := by
  have hlength : 12 ≤ cutLive.length := by decide
  obtain ⟨h, hs, -, hd, hx⟩ := exact_decodeFrame hlength
  refine ⟨hlength, h, ?_⟩
  have ht : h.messageType = .liveCmd := by
    cases hs
    rfl
  rw [hd, (hx.error_iff _).mpr ⟨by decide, 16, ?_, by decide, rfl⟩]
  · rfl
  · exact (hx.requires_iff 16).mpr (.inr (.inl ⟨ht, rfl⟩))

end AmpLink
