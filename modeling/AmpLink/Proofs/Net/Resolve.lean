import AmpLink.Net.Resolve
import AmpLink.Proofs.Net.Text
import AmpLink.Proofs.Steps
import AmpLink.Proofs.Text.Blank

/-!
# Naming addresses

The text of a socket address is read as that address (`SocketAddress.parse?_chars`) unless it has flow
information, and that of an internet address is no socket address (`IpAddress.parse?_socket`), so each is
resolved as what it is, whatever white space is put around it (`Resolve.Names.address`). A list of such texts is
resolved in its order (`Resolve.Lists.addresses`).
-/

namespace AmpLink

open Ip

variable {cs rest : List Char} {c : Char} {port : UInt16}

/-! ## The characters of a text -/

/-- A character that stands in the texts of addresses. -/
def IsAddressChar (c : Char) : Prop := IsDigit c ∨ c ∈ marks

instance : DecidablePred IsAddressChar := fun _ => inferInstanceAs (Decidable (_ ∨ _))

theorem IsAddressChar.not_white (h : IsAddressChar c) : isWhiteSpace c = false := by
  have hall : ("0123456789abcdef".toList ++ marks).all fun c => !isWhiteSpace c := by decide
  have hc := List.all_eq_true.mp hall c (List.mem_append.mpr h)
  rwa [Bool.not_eq_true'] at hc

theorem isAddressChar_of_mem_digits {n : Nat} (h : c ∈ Decimal.digits n) : IsAddressChar c :=
  .inl (isBase_ten.isDigit_of_mem_toDigits (by decide) h)

theorem isAddressChar_of_mem_joined {separator : Char} {ts : List (List Char)} (hseparator : separator ∈ marks)
    (hts : ∀ t ∈ ts, ∀ c ∈ t, IsAddressChar c) (h : c ∈ joined separator ts) : IsAddressChar c := by
  cases ts with
  | nil => contradiction
  | cons t ts =>
    rw [joined_cons] at h
    rcases List.mem_append.mp h with h | h
    · exact hts t List.mem_cons_self c h
    · obtain ⟨u, hu, h⟩ := List.mem_flatMap.mp h
      rcases List.mem_cons.mp h with rfl | h
      · exact .inr hseparator
      · exact hts u (List.mem_cons_of_mem t hu) c h

namespace Ipv4

theorem isAddressChar_of_mem_chars {ip : Ipv4} (h : c ∈ ip.chars) : IsAddressChar c := by
  refine isAddressChar_of_mem_joined (by decide) ?_ h
  intro t ht c hc
  obtain ⟨b, -, rfl⟩ := List.mem_map.mp ht
  exact isAddressChar_of_mem_digits hc

end Ipv4

namespace Ipv6

variable {ip : Ipv6} {groups : List UInt16}

theorem isAddressChar_of_mem_groups (h : c ∈ joined ':' (groups.map groupChars)) : IsAddressChar c := by
  refine isAddressChar_of_mem_joined (by decide) ?_ h
  intro t ht c hc
  obtain ⟨g, -, rfl⟩ := List.mem_map.mp ht
  exact .inl (isBase_sixteen.isDigit_of_mem_toDigits (Nat.le_refl 16) hc)

theorem Form.isAddressChar (h : ip.Form cs) (hc : c ∈ cs) : IsAddressChar c := by
  cases h with
  | mapped v4 h =>
    rcases List.mem_append.mp hc with hc | hc
    · have hall : "::ffff:".toList.all IsAddressChar := by decide
      exact of_decide_eq_true (List.all_eq_true.mp hall c hc)
    · exact Ipv4.isAddressChar_of_mem_chars hc
  | gap head tail n hn h =>
    simp only [List.mem_append, List.mem_cons] at hc
    rcases hc with hc | rfl | rfl | hc
    · exact isAddressChar_of_mem_groups hc
    · exact .inr (by decide)
    · exact .inr (by decide)
    · exact isAddressChar_of_mem_groups hc
  | full => exact isAddressChar_of_mem_groups hc

/-- A text begins with a colon or with a group and a colon. -/
theorem Form.exists_colon (h : ip.Form cs) : ∃ t u, cs = t ++ ':' :: u ∧ ∀ c ∈ t, IsDigit c := by
  have hgroup (g : UInt16) : ∀ c ∈ groupChars g, IsDigit c :=
    fun c => isBase_sixteen.isDigit_of_mem_toDigits (Nat.le_refl 16)
  cases h with
  | mapped v4 h => exact ⟨[], _, rfl, nofun⟩
  | gap head tail n hn h =>
    match head with
    | [] => exact ⟨[], _, rfl, nofun⟩
    | [g] => exact ⟨groupChars g, _, rfl, hgroup g⟩
    | g :: g' :: rest => exact ⟨groupChars g, _, List.append_assoc .., hgroup g⟩
  | full =>
    obtain ⟨a, b, c, d, e, f, g, h, rfl⟩ := ip.exists_groups
    exact ⟨groupChars a, _, rfl, hgroup a⟩

/-- The text of an address of version 6 is none of version 4. -/
theorem Form.read_v4 (h : ip.Form cs) : Ipv4.read cs = none := by
  obtain ⟨t, u, rfl, ht⟩ := h.exists_colon
  have hdot : ¬IsDigit '.' := by decide
  exact Ipv4.read_append_eq_none (fun h => hdot (ht _ h)) (atMark_cons (by decide) u) (by simp)

end Ipv6

namespace IpAddress

variable (ip : IpAddress)

theorem parse?_chars : parse? ip.chars = some ip := by
  cases ip with
  | v4 ip =>
    have hread := ip.read_chars atMark_nil
    rw [List.append_nil] at hread
    rw [parse?, chars, hread]
  | v6 ip =>
    have hread : Ipv6.read (ip.chars ++ []) = some (ip, []) := ip.form_chars.read_append nofun
    rw [List.append_nil] at hread
    rw [parse?, chars, ip.form_chars.read_v4, hread]

theorem isAddressChar_of_mem_chars {ip : IpAddress} (h : c ∈ ip.chars) : IsAddressChar c := by
  cases ip with
  | v4 ip => exact Ipv4.isAddressChar_of_mem_chars h
  | v6 ip => exact ip.form_chars.isAddressChar h

theorem readChar_bracket {t : List Char} (ht : ∀ c ∈ t, IsDigit c) (hc : c ≠ '[') (u : List Char) :
    readChar '[' (t ++ c :: u) = none := by
  cases t with
  | nil => exact if_neg hc
  | cons d t =>
    have hbracket : ¬IsDigit '[' := by decide
    refine if_neg ?_
    rintro rfl
    exact hbracket (ht _ List.mem_cons_self)

theorem readChar_chars : readChar '[' ip.chars = none := by
  cases ip with
  | v4 ip =>
    obtain ⟨a, b, c, d, rfl⟩ := ip.exists_eq_ofOctets
    exact readChar_bracket (fun _ => isBase_ten.isDigit_of_mem_toDigits (by decide)) (by decide) _
  | v6 ip =>
    obtain ⟨t, u, htu, ht⟩ := ip.form_chars.exists_colon
    rw [chars, htu]
    exact readChar_bracket ht (by decide) u

theorem readV4_chars : SocketAddress.readV4 ip.chars = none := by
  cases ip with
  | v4 ip =>
    have hread := ip.read_chars atMark_nil
    rw [List.append_nil] at hread
    rw [SocketAddress.readV4, chars, hread]
    rfl
  | v6 ip =>
    rw [SocketAddress.readV4, chars, ip.form_chars.read_v4]
    rfl

/-- The text of an address without a port is none of a socket address. -/
theorem parse?_socket : SocketAddress.parse? ip.chars = none := by
  rw [SocketAddress.parse?, ip.readV4_chars, SocketAddress.readV6, ip.readChar_chars]
  rfl

end IpAddress

namespace SocketAddress

variable {a : SocketAddress}

theorem readPort_digits (port : UInt16) : readPort (':' :: Decimal.digits port.toNat) = some (port, []) := by
  have hlt := port.toNat_lt
  have hread : readNumber 10 0xffff none true (Nat.toDigits 10 port.toNat ++ []) = some (port.toNat, []) :=
    readNumber_toDigits true isBase_ten (Nat.le_of_lt_succ hlt) nofun atMark_nil.ends_ten
  rw [List.append_nil] at hread
  simp only [readPort, readChar, if_true, Decimal.digits, Option.bind_eq_bind, Option.bind_some, hread,
    UInt16.ofNat_toNat]
  rfl

/-- The part of a text that names the scope. -/
def scopeChars (scope : UInt32) : List Char := if scope = 0 then [] else '%' :: Decimal.digits scope.toNat

theorem readScope_scopeChars (scope : UInt32) (cs : List Char) :
    readScope (scopeChars scope ++ ']' :: cs) = (scope, ']' :: cs) := by
  rw [scopeChars]
  split
  · next h =>
    subst h
    rfl
  · have hlt := scope.toNat_lt
    have hread : readNumber 10 0xffffffff none true (Nat.toDigits 10 scope.toNat ++ ']' :: cs) =
        some (scope.toNat, ']' :: cs) :=
      readNumber_toDigits true isBase_ten (Nat.le_of_lt_succ hlt) nofun (atMark_cons (by decide) cs).ends_ten
    rw [readScope, List.cons_append, readChar, if_pos rfl, Option.bind_some, Decimal.digits, hread]
    dsimp only
    rw [UInt32.ofNat_toNat]

/-- An address whose text says all of it: there is no flow information. -/
def IsNameable : SocketAddress → Prop
  | v4 .. => True
  | v6 _ _ flow _ => flow = 0

theorem readV4_v4 (ip : Ipv4) (port : UInt16) : readV4 (v4 ip port).chars = some (v4 ip port, []) := by
  have hread := ip.read_chars (atMark_cons (c := ':') (by decide) (Decimal.digits port.toNat))
  simp only [readV4, chars, hread, readPort_digits, Option.bind_eq_bind, Option.bind_some]
  rfl

theorem chars_v6 (ip : Ipv6) (port : UInt16) (flow scope : UInt32) : (v6 ip port flow scope).chars =
    '[' :: (ip.chars ++ (scopeChars scope ++ ']' :: ':' :: Decimal.digits port.toNat)) := by
  rw [chars, List.append_assoc]
  rfl

theorem endsAddress_scopeChars (scope : UInt32) (cs : List Char) :
    Ipv6.EndsAddress (scopeChars scope ++ ']' :: cs) := by
  rw [scopeChars]
  split
  · rintro _ ⟨⟩
    exact .inr rfl
  · rintro _ ⟨⟩
    exact .inl rfl

theorem readV4_v6 (ip : Ipv6) (port : UInt16) (flow scope : UInt32) :
    readV4 (v6 ip port flow scope).chars = none := by
  rw [readV4, chars_v6, Ipv4.read_of_atMark (atMark_cons (by decide) _) (by simp)]
  rfl

theorem readV6_v6 (ip : Ipv6) (port : UInt16) (flow scope : UInt32) :
    readV6 (v6 ip port flow scope).chars = some (v6 ip port 0 scope, []) := by
  have hread := ip.form_chars.read_append (endsAddress_scopeChars scope (':' :: Decimal.digits port.toNat))
  simp only [readV6, chars_v6, readChar, if_true, Option.bind_eq_bind, Option.bind_some, hread,
    readScope_scopeChars, readPort_digits]
  rfl

/-- An address is read from its text. -/
theorem parse?_chars (h : a.IsNameable) : parse? a.chars = some a := by
  cases a with
  | v4 ip port =>
    rw [parse?, readV4_v4]
    rfl
  | v6 ip port flow scope =>
    obtain rfl : flow = 0 := h
    rw [parse?, readV4_v6, readV6_v6]
    rfl

theorem isAddressChar_of_mem_chars (h : c ∈ a.chars) : IsAddressChar c := by
  cases a with
  | v4 ip port =>
    simp only [chars, List.mem_append, List.mem_cons] at h
    rcases h with h | rfl | h
    · exact Ipv4.isAddressChar_of_mem_chars h
    · exact .inr (by decide)
    · exact isAddressChar_of_mem_digits h
  | v6 ip port flow scope =>
    simp only [chars, List.mem_append, List.mem_cons] at h
    rcases h with ((rfl | h) | h) | rfl | rfl | h
    · exact .inr (by decide)
    · exact ip.form_chars.isAddressChar h
    · split at h
      · contradiction
      · rcases List.mem_cons.mp h with rfl | h
        · exact .inr (by decide)
        · exact isAddressChar_of_mem_digits h
    · exact .inr (by decide)
    · exact .inr (by decide)
    · exact isAddressChar_of_mem_digits h

theorem isNameable_of_readV4 (h : readV4 cs = some (a, rest)) : a.IsNameable := by
  obtain ⟨⟨ip, rest'⟩, -, h⟩ := Option.bind_eq_some_iff.mp h
  obtain ⟨⟨port, rest'⟩, -, h⟩ := Option.bind_eq_some_iff.mp h
  cases h
  exact trivial

theorem isNameable_of_readV6 (h : readV6 cs = some (a, rest)) : a.IsNameable := by
  obtain ⟨behind, -, h⟩ := Option.bind_eq_some_iff.mp h
  obtain ⟨⟨ip, behind⟩, -, h⟩ := Option.bind_eq_some_iff.mp h
  obtain ⟨behind, -, h⟩ := Option.bind_eq_some_iff.mp h
  obtain ⟨⟨port, behind⟩, -, h⟩ := Option.bind_eq_some_iff.mp h
  cases h
  exact rfl

/-- Flow information cannot be given. -/
theorem isNameable_of_parse? (h : parse? cs = some a) : a.IsNameable := by
  rw [parse?] at h
  split at h
  · next hread =>
    cases h
    cases hv4 : readV4 cs with
    | some r =>
      rw [hv4] at hread
      cases hread
      exact isNameable_of_readV4 hv4
    | none =>
      rw [hv4] at hread
      exact isNameable_of_readV6 hread
  · contradiction

theorem isNameable_ofIp (ip : IpAddress) (port : UInt16) : (ofIp ip port).IsNameable := by
  cases ip with
  | v4 => exact trivial
  | v6 => exact rfl

end SocketAddress

/-! ## Naming -/

namespace Resolve

variable {text before after : List Char} {a : SocketAddress}

/-- A text that names an address, by itself or with a default port, with any white space around it. -/
inductive Names (port : UInt16) : List Char → SocketAddress → Prop where
  | socket {before after : List Char} {a : SocketAddress} (hbefore : IsBlank before) (hafter : IsBlank after)
    (ha : a.IsNameable) : Names port (before ++ a.chars ++ after) a
  | ip {before after : List Char} (hbefore : IsBlank before) (hafter : IsBlank after) (ip : IpAddress) :
    Names port (before ++ ip.chars ++ after) (.ofIp ip port)

/-- Texts each of which names an address or is blank. -/
inductive Lists (port : UInt16) : List (List Char) → List SocketAddress → Prop where
  | nil : Lists port [] []
  | blank {text texts addresses} (htext : IsBlank text) (h : Lists port texts addresses) :
    Lists port (text :: texts) addresses
  | cons {text a texts addresses} (htext : Names port text a) (h : Lists port texts addresses) :
    Lists port (text :: texts) (a :: addresses)

theorem trim_of_isAddressChar (hbefore : IsBlank before) (hafter : IsBlank after)
    (h : ∀ c ∈ cs, IsAddressChar c) : trim (before ++ cs ++ after) = cs :=
  trim_padded hbefore hafter (fun c hc => (h c (List.mem_of_mem_head? hc)).not_white)
    fun c hc => (h c (List.mem_of_getLast? hc)).not_white

/-- Without the white space around it, a text that names an address is that of the address or of one without a port. -/
theorem Names.trim_cases (h : Names port text a) : (a.IsNameable ∧ trim text = a.chars) ∨
    ∃ ip : IpAddress, a = .ofIp ip port ∧ trim text = ip.chars := by
  cases h with
  | socket hbefore hafter ha =>
    exact .inl ⟨ha, trim_of_isAddressChar hbefore hafter fun c => a.isAddressChar_of_mem_chars⟩
  | ip hbefore hafter ip =>
    exact .inr ⟨ip, rfl, trim_of_isAddressChar hbefore hafter fun c => ip.isAddressChar_of_mem_chars⟩

/-- No text that names an address is blank. -/
theorem Names.trim_ne_nil (h : Names port text a) : trim text ≠ [] := by
  intro hnil
  rcases h.trim_cases with ⟨ha, htrim⟩ | ⟨ip, -, htrim⟩
  · have hparse := SocketAddress.parse?_chars ha
    rw [← htrim, hnil] at hparse
    contradiction
  · have hparse := ip.parse?_chars
    rw [← htrim, hnil] at hparse
    contradiction

variable {resolver : Resolver}

/-- A text that names an address is resolved to it, whatever names the host knows. -/
theorem Names.address (h : Names port text a) : address resolver text port = .ok a := by
  rcases h.trim_cases with ⟨ha, htrim⟩ | ⟨ip, rfl, htrim⟩
  · rw [Resolve.address, htrim, SocketAddress.parse?_chars ha]
  · rw [Resolve.address, htrim, ip.parse?_socket, ip.parse?_chars]

/-- The texts that are not blank are resolved in their order. -/
theorem Lists.addresses {texts : List (List Char)} {addresses : List SocketAddress}
    (h : Lists port texts addresses) : Resolve.addresses resolver texts port = .ok addresses := by
  apply mapM_of_forall₂ (m := Except ArgumentFault)
  induction h with
  | nil => exact .nil
  | blank htext _ ih =>
    rw [List.filter_cons_of_neg]
    · exact ih
    · rw [trim_of_isBlank htext]
      decide
  | cons htext _ ih =>
    rw [List.filter_cons_of_pos]
    · exact .cons htext.address ih
    · rw [Bool.not_eq_true', List.isEmpty_eq_false_iff]
      exact htext.trim_ne_nil

/-- Of what a host knows, addresses of version 4 are taken. -/
theorem isNameable_of_lookup {host : List Char} (h : lookup resolver text host port = .ok a) : a.IsNameable := by
  rw [lookup] at h
  split at h
  · contradiction
  · split at h
    · next hfind =>
      cases h
      have hv4 := List.find?_some hfind
      cases a with
      | v4 => exact trivial
      | v6 => contradiction
    · contradiction

theorem isNameable_of_address (h : address resolver text port = .ok a) : a.IsNameable := by
  rw [address] at h
  split at h
  · next hparse =>
    cases h
    exact SocketAddress.isNameable_of_parse? hparse
  · split at h
    · cases h
      exact SocketAddress.isNameable_ofIp ..
    · split at h
      · exact isNameable_of_lookup h
      · split at h
        · exact isNameable_of_lookup h
        · contradiction

theorem isNameable_of_addresses {texts : List (List Char)} {addresses : List SocketAddress}
    (h : Resolve.addresses resolver texts port = .ok addresses) : ∀ a ∈ addresses, a.IsNameable := by
  intro a ha
  obtain ⟨text, -, htext⟩ := exists_of_mem_mapM h ha
  exact isNameable_of_address htext

end Resolve
end AmpLink
