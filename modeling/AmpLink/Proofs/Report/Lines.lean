import AmpLink.Proofs.Json.Forms
import AmpLink.Proofs.Net.Resolve
import AmpLink.Proofs.Text.Hex
import AmpLink.Report.Basic

/-!
# Reports for programs

Whatever texts a report takes in, it is written without control characters and read back as one object, whose
fields give what was reported (`Report.singleLines`). Names of types and statuses are told apart by their texts.
Addresses are read from theirs up to flow information, which no text of an address has: an address that has none
is given back, any other one is not (`SocketAddress.parse?_text_eq_iff`).
-/

namespace AmpLink

/-! ## Texts without control characters -/

namespace Json

/-- No control character, a newline least of all. -/
def IsPrintable (cs : List Char) : Prop := ∀ c ∈ cs, 0x20 ≤ c.toNat

instance : DecidablePred IsPrintable := fun cs => List.decidableBAll (fun c : Char => 0x20 ≤ c.toNat) cs

theorem IsPrintable.append (h : IsPrintable cs) (h' : IsPrintable ds) : IsPrintable (cs ++ ds) :=
  List.forall_mem_append.mpr ⟨h, h'⟩

theorem IsPrintable.cons (hc : 0x20 ≤ c.toNat) (h : IsPrintable cs) : IsPrintable (c :: cs) :=
  List.forall_mem_cons.mpr ⟨hc, h⟩

theorem toNat_of_simpleEscape? (h : simpleEscape? e = some c) : 0x20 ≤ e.toNat := by
  rcases Nat.lt_or_ge e.toNat 128 with hlt | hge
  · have hall := of_ascii (P := fun e => (simpleEscape? e).isSome → 0x20 ≤ e.toNat) (by decide) hlt
    exact hall (Option.isSome_of_eq_some h)
  · exact Nat.le_trans (by decide) hge

theorem isPrintable_escape (c : Char) : IsPrintable (escape c) := by
  have hdigit : ∀ d < 16, 0x20 ≤ d.digitChar.toNat := by decide
  have hlead : IsPrintable ['\\', 'u', '0', '0'] := by decide
  rcases escape_cases c with ⟨e, hc, he⟩ | ⟨hlt, hc⟩ | ⟨-, -, hle, hc⟩
  · rw [hc]
    exact .cons (by decide) (.cons (toNat_of_simpleEscape? he) nofun)
  · rw [hc]
    exact hlead.append (.cons (hdigit _ (by omega)) (.cons (hdigit _ (by omega)) nofun))
  · rw [hc]
    exact .cons (Nat.not_lt.mp hle) nofun

theorem isPrintable_printString (s : String) : IsPrintable (printString s) := by
  refine .cons (by decide) (IsPrintable.append ?_ (by decide))
  intro c hc
  obtain ⟨d, -, hd⟩ := List.mem_flatMap.mp hc
  exact isPrintable_escape d c hd

theorem isPrintable_printInt (n : Int) : IsPrintable (printInt n) := by
  have hdigits : IsPrintable (Decimal.digits n.natAbs) := by
    intro c hc
    have hle := (Char.isDigit_iff_toNat.mp (isDigit_digits _ c hc)).1
    exact Nat.le_trans (by decide) hle
  rw [printInt]
  split
  · exact .cons (by decide) hdigits
  · exact hdigits

mutual

theorem isPrintable_print : ∀ (j : Json), j.isPlain → IsPrintable j.print
  | .null, _ => by decide
  | .bool true, _ => by decide
  | .bool false, _ => by decide
  | .int n, _ => isPrintable_printInt n
  | .str s, _ => isPrintable_printString s
  | .arr items, h => .cons (by decide) (.append (isPrintable_printItems items h) (by decide))
  | .obj fields, h => .cons (by decide) (.append (isPrintable_printFields fields h) (by decide))

theorem isPrintable_printItems : ∀ (js : List Json), arePlain js → IsPrintable (printItems js)
  | [], _ => nofun
  | [j], h => by
    rw [arePlain, Bool.and_eq_true] at h
    exact isPrintable_print j h.1
  | j :: k :: rest, h => by
    rw [arePlain, Bool.and_eq_true] at h
    exact .append (isPrintable_print j h.1) (.cons (by decide) (isPrintable_printItems (k :: rest) h.2))

theorem isPrintable_printFields : ∀ (fs : List (String × Json)), havePlain fs → IsPrintable (printFields fs)
  | [], _ => nofun
  | [(name, j)], h => by
    rw [havePlain, Bool.and_eq_true] at h
    exact .append (isPrintable_printString name) (.cons (by decide) (isPrintable_print j h.1))
  | (name, j) :: f :: rest, h => by
    rw [havePlain, Bool.and_eq_true] at h
    have hrest := isPrintable_printFields (f :: rest) h.2
    exact .append (isPrintable_printString name)
      (.cons (by decide) (.append (isPrintable_print j h.1) (.cons (by decide) hrest)))

end

/-! ## Lines -/

/-- A text is one line that is read as one object, in which no field occurs twice. -/
structure IsLine (text : String) (fields : List (String × Json)) : Prop where
  printable : ∀ c ∈ text.toList, 0x20 ≤ c.toNat
  parse : parse? text.toList = some (.obj fields)
  names : (fields.map (·.1)).Nodup

theorem isLine_text {fields : List (String × Json)} (hplain : ∀ p ∈ fields, p.2.isPlain)
    (hnames : (fields.map (·.1)).Nodup) : IsLine (obj fields).text fields where
  printable := by
    rw [text, String.toList_ofList]
    exact isPrintable_print (.obj fields) (havePlain_iff.mpr hplain)
  parse := parse?_text (j := .obj fields) (havePlain_iff.mpr hplain)
  names := hnames

end Json

/-! ## What the texts say -/

/-- Texts tell values apart if some values have names, which do so, and all others a code in brackets. -/
theorem injective_of_codes {text : α → String} {named : List α} {coded : β → α} {code : β → List Char}
    (tag : List Char) (hcases : ∀ a, a ∈ named ∨ ∃ b, a = coded b)
    (hnamed : ∀ a ∈ named, ∀ a' ∈ named, text a = text a' → a = a')
    (hlast : ∀ a ∈ named, (text a).toList.getLast? ≠ some ')')
    (hcoded : ∀ b, text (coded b) = .ofList (tag ++ code b ++ [')'])) (hcode : Function.Injective code) :
    Function.Injective text := by
  have hend (b : β) : (text (coded b)).toList.getLast? = some ')' := by
    rw [hcoded, String.toList_ofList, List.getLast?_concat]
  intro a a' h
  rcases hcases a with ha | ⟨b, rfl⟩
  · rcases hcases a' with ha' | ⟨b', rfl⟩
    · exact hnamed a ha a' ha' h
    · exact absurd (h ▸ hend b') (hlast a ha)
  · rcases hcases a' with ha' | ⟨b', rfl⟩
    · exact absurd (h ▸ hend b) (hlast a' ha')
    · rw [hcoded, hcoded] at h
      have hchars := List.append_inj_left' (String.ofList_injective h) rfl
      rw [hcode (List.append_cancel_left hchars)]

theorem MessageType.text_injective : Function.Injective MessageType.text := by
  have hbyte : Function.Injective Hex.byte := by
    intro b b' h
    have hread : Hex.bytes? (Hex.byte b) = some [b] := Hex.bytes?_chars [b]
    have hread' : Hex.bytes? (Hex.byte b') = some [b'] := Hex.bytes?_chars [b']
    rw [h, hread'] at hread
    cases hread
    rfl
  have hcases (t : MessageType) : t ∈ named ∨ ∃ b, t = vendor b := by
    cases t with
    | vendor b => exact .inr ⟨b, rfl⟩
    | _ => exact .inl (by decide)
  exact injective_of_codes "Vendor(0x".toList hcases (by decide) (by decide) (fun _ => rfl) hbyte

theorem Status.text_injective : Function.Injective Status.text := by
  have hword : Function.Injective fun w : UInt16 => Hex.padded 4 w.toNat := by
    intro w w' h
    have hvalue := congrArg (digitsValue 16) h
    dsimp only at hvalue
    rw [Hex.digitsValue_padded, Hex.digitsValue_padded] at hvalue
    exact UInt16.toNat_inj.mp hvalue
  have hcases (s : Status) : s ∈ named ∨ ∃ w, s = other w := by
    cases s with
    | other w => exact .inr ⟨w, rfl⟩
    | _ => exact .inl (by decide)
  exact injective_of_codes "Other(0x".toList hcases (by decide) (by decide) (fun _ => rfl) hword

namespace SocketAddress

/-- An address without its flow information, which is not part of its text. -/
def nameable : SocketAddress → SocketAddress
  | v4 ip port => v4 ip port
  | v6 ip port _ scope => v6 ip port 0 scope

theorem parse?_text (a : SocketAddress) : parse? a.text.toList = some a.nameable := by
  rw [text, String.toList_ofList]
  cases a with
  | v4 ip port => exact parse?_chars (a := v4 ip port) trivial
  | v6 ip port flow scope => exact parse?_chars (a := v6 ip port 0 scope) rfl

theorem nameable_eq_iff {a : SocketAddress} : a.nameable = a ↔ a.IsNameable := by
  cases a with
  | v4 => exact iff_of_true rfl trivial
  | v6 ip port flow scope =>
    rw [nameable, v6.injEq]
    exact ⟨fun h => h.2.2.1.symm, fun h => ⟨rfl, rfl, h.symm, rfl⟩⟩

/-- An address is given back by its text just if it has no flow information. -/
theorem parse?_text_eq_iff {a : SocketAddress} : parse? a.text.toList = some a ↔ a.IsNameable := by
  rw [parse?_text, Option.some.injEq, nameable_eq_iff]

end SocketAddress

namespace Report

open Json

/-! ## The reports -/

/-- The address that is read from a field. -/
def addressIn? (fields : List (String × Json)) (name : String) : Option SocketAddress :=
  match field? fields name with
  | some (.str text) => SocketAddress.parse? text.toList
  | _ => none

/-- A field holds the text of an address, which is the address itself if that has no flow information. -/
structure ShowsAddress (fields : List (String × Json)) (name : String) (a : SocketAddress) : Prop where
  text : field? fields name = some (.str a.text)
  read : addressIn? fields name = some a.nameable
  exact : addressIn? fields name = some a ↔ a.IsNameable

theorem showsAddress {fields : List (String × Json)} {a : SocketAddress}
    (h : field? fields name = some (.str a.text)) : ShowsAddress fields name a where
  text := h
  read := by
    rw [addressIn?, h]
    exact SocketAddress.parse?_text a
  exact := by
    rw [addressIn?, h]
    exact SocketAddress.parse?_text_eq_iff

/-- The fields of a peer event. -/
structure ShowsEvent (fields : List (String × Json)) (e : PeerEvent) : Prop where
  event : field? fields "event" = some (.str (if e.isDiscovered then "discovered" else "lost"))
  address : ShowsAddress fields "address" e.address
  interface : field? fields "interface" = some (e.interface.elim .null .str)

/-- The fields of a message: those of a header if there is one, and a dump if it is wanted. -/
structure ShowsMessage (fields : List (String × Json)) (m : Message) (dump : Bool) : Prop where
  sender : ShowsAddress fields "from" m.remote
  interface : field? fields "interface" = some (m.interface.elim .null .str)
  client : field? fields "client" = some (.str m.client)
  length : field? fields "len" = some (.int m.data.length)
  type : field? fields "type" = m.header.map fun h => .str h.messageType.text
  status : field? fields "status" = m.header.map fun h => .str h.status.text
  sequence : field? fields "sequence" = m.header.map fun h => .int h.sequence.toNat
  deviceId : field? fields "device_id" = m.header.map fun h => .str (Hex.text h.deviceId.toList)
  component : field? fields "component_id" = m.header.map fun h => .int h.component.toNat
  dump : field? fields "dump" = if dump then some (.str (HexDump.text m.data)) else none

structure ShowsRow (fields : List (String × Json)) (r : PeerRow) : Prop where
  address : ShowsAddress fields "address" r.address
  interface : field? fields "interface" = some (r.interface.elim .null .str)
  online : field? fields "online" = some (.bool r.online)
  since : field? fields "since" = some (.str r.since.full)

/-- The rows in their order, how many they are and how many of them are online. -/
structure ShowsPeers (fields : List (String × Json)) (rows : List PeerRow) : Prop where
  count : field? fields "count" = some (.int rows.length)
  online : field? fields "online" = some (.int (rows.countP (·.online)))
  peers : ∃ items, field? fields "peers" = some (.arr (items.map .obj)) ∧ List.Forall₂ ShowsRow items rows

theorem jsonText_eq (s : Option String) : jsonText s = s.elim .null .str := by
  cases s with
  | none | some => rfl

theorem isPlain_jsonText (s : Option String) : (jsonText s).isPlain := by
  cases s with
  | none | some => rfl

theorem exists_peerEvent (now : Timestamp) (e : PeerEvent) :
    ∃ fields, IsLine (peerEvent now e .json) fields ∧ ShowsEvent fields e := by
  cases e with
  | discovered a i | lost a i =>
    refine ⟨_, isLine_text (by simp [eventFields, isPlain, isPlain_jsonText]) (by simp [eventFields]), ?_⟩
    constructor
    case address => exact showsAddress (by simp [eventFields, field?, PeerEvent.address])
    all_goals simp [eventFields, field?, jsonText_eq, PeerEvent.isDiscovered, PeerEvent.interface]

theorem exists_message (now : Timestamp) (m : Message) (dump : Bool) :
    ∃ fields, IsLine (message now m dump .json) fields ∧ ShowsMessage fields m dump := by
  obtain ⟨header, data, remote, interface, client⟩ := m
  -- Which fields there are depends on the header and on the dump, what stands in them does not.
  cases header with
  | none | some =>
    cases dump with
    | false | true =>
      refine ⟨_, isLine_text (by simp [isPlain, isPlain_jsonText, jsonByte]) (by simp), ?_⟩
      constructor
      case sender => exact showsAddress (by simp [field?])
      all_goals simp [field?, jsonText_eq, jsonByte]

theorem exists_row (r : PeerRow) : ∃ fields, rowJson r = .obj fields ∧ (rowJson r).isPlain ∧ ShowsRow fields r := by
  refine ⟨_, rfl, by simp [rowJson, isPlain, havePlain, isPlain_jsonText], ?_⟩
  constructor
  case address => exact showsAddress (by simp [field?])
  all_goals simp [field?, jsonText_eq]

theorem exists_rows (rows : List PeerRow) :
    ∃ items, rows.map rowJson = items.map .obj ∧ arePlain (rows.map rowJson) ∧ List.Forall₂ ShowsRow items rows := by
  induction rows with
  | nil => exact ⟨[], rfl, rfl, .nil⟩
  | cons r rows ih =>
    obtain ⟨fields, hrow, hplain, hshows⟩ := exists_row r
    obtain ⟨items, hrows, hplains, hall⟩ := ih
    refine ⟨fields :: items, ?_, ?_, .cons hshows hall⟩
    · rw [List.map_cons, hrow, hrows, List.map_cons]
    · rw [List.map_cons, arePlain, hplain, hplains, Bool.and_self]

theorem exists_peers (rows : List PeerRow) :
    ∃ fields, IsLine (peers rows .json) fields ∧ ShowsPeers fields rows := by
  obtain ⟨items, hrows, hplain, hall⟩ := exists_rows rows
  refine ⟨_, isLine_text (by simp [isPlain, hplain]) (by simp), ?_⟩
  constructor
  case count => simp [field?]
  case online => simp [field?, Report.online]
  case peers => exact ⟨items, by simp [field?, hrows], hall⟩

/-- What is written for programs is one object on one line and says all that is reported but flow information. -/
structure SingleLines : Prop where
  peerEvent (now : Timestamp) (e : PeerEvent) :
    ∃ fields, IsLine (Report.peerEvent now e .json) fields ∧ ShowsEvent fields e
  message (now : Timestamp) (m : Message) (dump : Bool) :
    ∃ fields, IsLine (Report.message now m dump .json) fields ∧ ShowsMessage fields m dump
  peers (rows : List PeerRow) : ∃ fields, IsLine (Report.peers rows .json) fields ∧ ShowsPeers fields rows
  notice (text : String) :
    ∃ fields, IsLine (Report.notice text .json) fields ∧ field? fields "message" = some (.str text)
  /-- The texts in the fields stand for one value each. -/
  address (a : SocketAddress) : SocketAddress.parse? a.text.toList = some a.nameable
  nameable {a : SocketAddress} : a.nameable = a ↔ a.IsNameable
  type : Function.Injective MessageType.text
  status : Function.Injective Status.text
  deviceId (id : DeviceId) : Hex.bytes? (Hex.text id.toList).toList = some id.toList

theorem singleLines : SingleLines where
  peerEvent := exists_peerEvent
  message := exists_message
  peers := exists_peers
  notice text := ⟨_, isLine_text (by simp [isPlain]) (by simp), by simp [field?]⟩
  address := SocketAddress.parse?_text
  nameable := SocketAddress.nameable_eq_iff
  type := MessageType.text_injective
  status := Status.text_injective
  deviceId id := by rw [Hex.text, String.toList_ofList, Hex.bytes?_chars]

/-- An address on a link for each flow. -/
def labelled (flow : UInt32) : SocketAddress := .v6 (.ofParts [0xfe80] [1]) 5001 flow 0

def noticed (flow : UInt32) : PeerEvent := .discovered (labelled flow) (some "eth0")

def heard (flow : UInt32) : Message := .ofDatagram [] (labelled flow) (some "eth0") (clientName (labelled flow))

/-- Addresses of different flows have one line, from which nothing finds each of them. -/
theorem flow_not_shown :
    labelled 0 ≠ labelled 1 ∧
      (∀ now, peerEvent now (noticed 0) .json = peerEvent now (noticed 1) .json) ∧
      (¬ ∃ address : String → SocketAddress, ∀ now e, address (peerEvent now e .json) = e.address) ∧
      ¬ ∃ sender : String → SocketAddress, ∀ now m dump, sender (message now m dump .json) = m.remote := by
  have hne : labelled 0 ≠ labelled 1 := by decide
  refine ⟨hne, fun _ => rfl, ?_, ?_⟩
  · rintro ⟨address, h⟩
    exact hne ((h (.ofUnix 0) (noticed 0)).symm.trans (h (.ofUnix 0) (noticed 1)))
  · rintro ⟨sender, h⟩
    exact hne ((h (.ofUnix 0) (heard 0) false).symm.trans (h (.ofUnix 0) (heard 1) false))

end Report

end AmpLink
