import AmpLink.Net.SocketAddress
import AmpLink.Proofs.Net.Reading
import Mathlib.Data.List.Basic

/-!
# The texts of internet addresses

An address of version 4 is read from its text (`Ipv4.read_chars`). A text of version 6 has one of three forms
(`Ipv6.Form`): a dotted end, a gap for zeros, or all eight groups. An address is written in one of them
(`Ipv6.form_chars`) and read from any of them (`Ipv6.Form.read_append`). Before each group a dotted address is
looked for, and none is found there as long as no point comes behind the first number
(`Ipv4.read_append_eq_none`).
-/

namespace AmpLink

open Ip

variable {cs rest : List Char}

namespace Ipv4

theorem exists_eq_ofOctets (ip : Ipv4) : ∃ a b c d, ip = ofOctets a b c d := by
  obtain ⟨⟨⟨octets⟩, hsize⟩⟩ := ip
  match octets, hsize with
  | [a, b, c, d], _ => exact ⟨a, b, c, d, rfl⟩

theorem chars_ofOctets (a b c d : UInt8) : chars (ofOctets a b c d) =
    Nat.toDigits 10 a.toNat ++ '.' :: (Nat.toDigits 10 b.toNat ++ '.' :: (Nat.toDigits 10 c.toNat ++ '.' ::
      Nat.toDigits 10 d.toNat)) := rfl

theorem readOctet_first (b : UInt8) (h : Ends 10 rest) :
    readOctet true (Nat.toDigits 10 b.toNat ++ rest) = some (b, rest) := by
  have hlt := b.toNat_lt
  have hread : readNumber 10 255 (some 3) false (Nat.toDigits 10 b.toNat ++ rest) = some (b.toNat, rest) := by
    refine readNumber_toDigits false isBase_ten (Nat.le_of_lt_succ hlt) ?_ h
    rintro _ ⟨⟩
    exact (Nat.length_toDigits_le_iff (by decide) (by decide)).mpr (by omega)
  rw [readOctet, readSeparator, if_pos rfl]
  simp only [Option.bind_eq_bind, Option.bind_some, hread, UInt8.ofNat_toNat]
  rfl

theorem readOctet_next (b : UInt8) (h : Ends 10 rest) :
    readOctet false ('.' :: (Nat.toDigits 10 b.toNat ++ rest)) = some (b, rest) := readOctet_first b h

/-- A dotted address is read from its text. -/
theorem read_chars (ip : Ipv4) (h : AtMark rest) : read (ip.chars ++ rest) = some (ip, rest) := by
  obtain ⟨a, b, c, d, rfl⟩ := ip.exists_eq_ofOctets
  have hdot (cs : List Char) : Ends 10 ('.' :: cs) := (atMark_cons (by decide) cs).ends_ten
  have ha (cs : List Char) := readOctet_first a (hdot cs)
  have hb (cs : List Char) := readOctet_next b (hdot cs)
  have hc (cs : List Char) := readOctet_next c (hdot cs)
  have hd := readOctet_next d h.ends_ten
  simp only [read, chars_ofOctets, List.append_assoc, List.cons_append, ha, hb, hc, hd, Option.bind_eq_bind,
    Option.bind_some]
  rfl

/-- Without a point behind the first number there is no dotted address. -/
theorem read_eq_none (h : (cs.dropWhile fun c => (digitValue? 10 c).isSome).head? ≠ some '.') :
    read cs = none := by
  rw [read]
  cases ha : readOctet true cs with
  | none => rfl
  | some r =>
    obtain ⟨a, rest⟩ := r
    have hrest : rest = cs.dropWhile fun c => (digitValue? 10 c).isSome := by
      simp only [readOctet, readSeparator, if_true, Option.bind_eq_bind, Option.bind_some] at ha
      obtain ⟨⟨n, rest'⟩, hn, hr⟩ := Option.bind_eq_some_iff.mp ha
      cases hr
      exact eq_dropWhile_of_readNumber hn
    have hchar : readChar '.' rest = none := by
      rw [← hrest] at h
      cases rest with
      | nil => rfl
      | cons c rest => exact if_neg fun hc => h (congrArg some hc)
    have hb : readOctet false rest = none := by
      rw [readOctet, readSeparator, if_neg Bool.false_ne_true, hchar]
      rfl
    simp only [Option.bind_eq_bind, Option.bind_some, hb, Option.bind_none]

theorem read_append_eq_none {t : List Char} (ht : '.' ∉ t) (hmark : AtMark rest)
    (hdot : rest.head? ≠ some '.') : read (t ++ rest) = none := by
  apply read_eq_none
  rw [List.dropWhile_append, dropWhile_of_ends hmark.ends_ten]
  split
  · exact hdot
  · next hne =>
    cases hcs : t.dropWhile fun c => (digitValue? 10 c).isSome with
    | nil =>
      rw [hcs] at hne
      contradiction
    | cons c cs =>
      have hmem : c ∈ t.dropWhile fun c => (digitValue? 10 c).isSome := by
        rw [hcs]
        exact List.mem_cons_self
      rintro ⟨⟩
      exact ht ((List.dropWhile_sublist _).subset hmem)

/-- There is no dotted address behind a mark. -/
theorem read_of_atMark (hmark : AtMark rest) (hdot : rest.head? ≠ some '.') : read rest = none :=
  read_append_eq_none List.not_mem_nil hmark hdot

end Ipv4

/-! ## Runs of zeros -/

namespace Ip

/-- A run of zeros, by its start and length. -/
def IsZeroRun (groups : List UInt16) (run : Nat × Nat) : Prop :=
  ∃ front back, groups = front ++ List.replicate run.2 0 ++ back ∧ front.length = run.1

theorem IsZeroRun.append {groups : List UInt16} {run : Nat × Nat} (h : IsZeroRun groups run) (more : List UInt16) :
    IsZeroRun (groups ++ more) run := by
  obtain ⟨front, back, rfl, hfront⟩ := h
  exact ⟨front, back ++ more, List.append_assoc .., hfront⟩

/-- Every run that is found on the way is one of zeros. -/
theorem isZeroRun_go {count : Nat} {best : Nat × Nat} (before groups : List UInt16)
    (hcount : ∃ front, before = front ++ List.replicate count 0) (hbest : IsZeroRun before best) :
    IsZeroRun (before ++ groups) (longestZeros.go before.length count best groups) := by
  induction groups generalizing before count best with
  | nil => exact hbest.append []
  | cons g rest ih =>
    have hlen : before.length + 1 = (before ++ [g]).length := by rw [List.length_append, List.length_singleton]
    rw [longestZeros.go, hlen, List.append_cons]
    split
    · next hg =>
      subst hg
      obtain ⟨front, hfront⟩ := hcount
      have hnext : before ++ [0] = front ++ List.replicate (count + 1) 0 := by
        rw [hfront, List.append_assoc, List.replicate_succ']
      refine ih _ ⟨front, hnext⟩ ?_
      split
      · have hstart : front.length = before.length - count := by
          rw [hfront, List.length_append, List.length_replicate, Nat.add_sub_cancel]
        exact ⟨front, [], by rw [hnext, List.append_nil], hstart⟩
      · exact hbest.append [0]
    · exact ih _ ⟨before ++ [g], (List.append_nil _).symm⟩ (hbest.append [g])

theorem isZeroRun_longestZeros (groups : List UInt16) : IsZeroRun groups (longestZeros groups) :=
  isZeroRun_go [] groups ⟨[], rfl⟩ ⟨[], [], rfl, rfl⟩

theorem joined_cons (separator : Char) (t : List Char) (ts : List (List Char)) :
    joined separator (t :: ts) = t ++ ts.flatMap (separator :: ·) := by
  induction ts generalizing t with
  | nil => rw [joined, List.flatMap_nil, List.append_nil]
  | cons u rest ih => rw [joined, ih, List.flatMap_cons]; rfl

end Ip

namespace Ipv6

/-! ## The forms of a text -/

theorem exists_groups (ip : Ipv6) : ∃ a b c d e f g h, ip = ⟨#v[a, b, c, d, e, f, g, h]⟩ := by
  obtain ⟨⟨⟨groups⟩, hsize⟩⟩ := ip
  match groups, hsize with
  | [a, b, c, d, e, f, g, h], _ => exact ⟨a, b, c, d, e, f, g, h, rfl⟩

theorem length_groups (ip : Ipv6) : ip.groups.toList.length = 8 := ip.groups.length_toList

/-- The forms of a text that names an address. -/
inductive Form (ip : Ipv6) : List Char → Prop where
  | mapped (v4 : Ipv4) (h : ip.groups.toList = [0, 0, 0, 0, 0, 0xffff] ++ groupsOf v4) :
    Form ip ("::ffff:".toList ++ v4.chars)
  /-- There may be any number of zeros in the gap. -/
  | gap (head tail : List UInt16) (n : Nat) (hn : 0 < n)
    (h : ip.groups.toList = head ++ List.replicate n 0 ++ tail) :
    Form ip (joined ':' (head.map groupChars) ++ ':' :: ':' :: joined ':' (tail.map groupChars))
  | full : Form ip (joined ':' (ip.groups.toList.map groupChars))

theorem groupsOf_halves (g h : UInt16) : groupsOf (.ofOctets (.ofNat (g.toNat / 256)) (.ofNat g.toNat)
    (.ofNat (h.toNat / 256)) (.ofNat h.toNat)) = [g, h] := by
  have hhalves (g : UInt16) :
      UInt16.ofNat ((UInt8.ofNat (g.toNat / 256)).toNat * 256 + (UInt8.ofNat g.toNat).toNat) = g := by
    have hlt := g.toNat_lt
    rw [UInt8.toNat_ofNat', UInt8.toNat_ofNat']
    have hsum : g.toNat / 256 % 2 ^ 8 * 256 + g.toNat % 2 ^ 8 = g.toNat := by omega
    rw [hsum, UInt16.ofNat_toNat]
  exact congrArg₂ (fun g h => [g, h]) (hhalves g) (hhalves h)

theorem form_chars (ip : Ipv6) : ip.Form ip.chars := by
  rw [chars]
  split
  · next v4 h =>
    refine .mapped v4 ?_
    obtain ⟨a, b, c, d, e, f, g, h, rfl⟩ := ip.exists_groups
    rw [mapped?] at h
    dsimp only at h
    split at h
    · next hfront =>
      cases h
      exact congrArg₂ (· ++ ·) hfront (groupsOf_halves g h).symm
    · contradiction
  · have hzeros := isZeroRun_longestZeros ip.groups.toList
    dsimp only
    generalize longestZeros ip.groups.toList = run at hzeros ⊢
    obtain ⟨start, n⟩ := run
    obtain ⟨head, tail, hrun, rfl⟩ := hzeros
    split
    · next hn =>
      have htake : ip.groups.toList.take head.length = head := by rw [hrun, List.append_assoc, List.take_left]
      have hdrop : ip.groups.toList.drop (head.length + n) = tail := by
        have hlen : (head ++ List.replicate n 0).length = head.length + n := by
          rw [List.length_append, List.length_replicate]
        rw [hrun, List.drop_left' hlen]
      rw [htake, hdrop]
      exact .gap head tail n (Nat.lt_of_succ_lt hn) hrun
    · exact .full

/-! ## Reading groups -/

/-- No group comes next, with or without a colon before it: the address ends or a gap begins. -/
structure EndsGroups (rest : List Char) : Prop where
  atMark : AtMark rest
  head?_ne : rest.head? ≠ some '.'
  head?_of_colon : ∀ cs, rest = ':' :: cs → cs.head? = some ':'

theorem dot_notMem_groupChars (g : UInt16) : '.' ∉ groupChars g := by
  intro hdot
  have hall : ¬IsDigit '.' := by decide
  exact hall (isBase_sixteen.isDigit_of_mem_toDigits (Nat.le_refl 16) hdot)

theorem readNumber_groupChars (g : UInt16) (h : AtMark rest) :
    readNumber 16 0xffff (some 4) true (groupChars g ++ rest) = some (g.toNat, rest) := by
  have hlt := g.toNat_lt
  refine readNumber_toDigits true isBase_sixteen (Nat.le_of_lt_succ hlt) ?_ h.ends_sixteen
  rintro _ ⟨⟩
  exact (Nat.length_toDigits_le_iff (by decide) (by decide)).mpr hlt

/-- Where a group comes next it is read, and then what follows it. -/
theorem readGroups_succ {first : Bool} {g : UInt16} (n : Nat)
    (hsep : readSeparator ':' first cs = some (groupChars g ++ rest)) (hmark : AtMark rest)
    (hdot : rest.head? ≠ some '.') :
    readGroups (n + 1) first cs = (g :: (readGroups n false rest).1, (readGroups n false rest).2) := by
  have hv4 : (if 0 < n then (readSeparator ':' first cs).bind Ipv4.read else none) = none := by
    rw [hsep, Option.bind_some, Ipv4.read_append_eq_none (dot_notMem_groupChars g) hmark hdot, ite_self]
  rw [readGroups, hv4, hsep, Option.bind_some, readNumber_groupChars g hmark]
  dsimp only
  rw [UInt16.ofNat_toNat]

theorem EndsGroups.behind {first : Bool} (h : EndsGroups rest) (hcs : readSeparator ':' first rest = some cs) :
    AtMark cs ∧ cs.head? ≠ some '.' := by
  cases first with
  | true =>
    cases hcs
    exact ⟨h.atMark, h.head?_ne⟩
  | false =>
    cases rest with
    | nil => contradiction
    | cons c rest =>
      obtain ⟨rfl, ⟨⟩⟩ := Option.ite_none_right_eq_some.mp hcs
      have hcolon := h.head?_of_colon cs rfl
      rw [AtMark, hcolon]
      exact ⟨fun c hc => by cases hc; decide, by decide⟩

theorem readGroups_of_endsGroups (n : Nat) (first : Bool) (h : EndsGroups rest) :
    readGroups n first rest = ([], false, rest) := by
  cases n with
  | zero => rfl
  | succ n =>
    cases hsep : readSeparator ':' first rest with
    | none => rw [readGroups, hsep, Option.bind_none, Option.bind_none, ite_self]
    | some cs =>
      obtain ⟨hmark, hdot⟩ := h.behind hsep
      have hv4 : Ipv4.read cs = none := Ipv4.read_of_atMark hmark hdot
      have hnumber : readNumber 16 0xffff (some 4) true cs = none := readNumber_of_ends hmark.ends_sixteen
      rw [readGroups, hsep, Option.bind_some, Option.bind_some, hv4, hnumber, ite_self]

theorem readGroups_dotted {n : Nat} (hn : 0 < n) (v4 : Ipv4) (h : AtMark rest) :
    readGroups (n + 1) false (':' :: (v4.chars ++ rest)) = (groupsOf v4, true, rest) := by
  have hsep : readSeparator ':' false (':' :: (v4.chars ++ rest)) = some (v4.chars ++ rest) := rfl
  rw [readGroups, if_pos hn, hsep, Option.bind_some, Ipv4.read_chars v4 h]

theorem readGroups_mapped (v4 : Ipv4) (h : AtMark rest) :
    readGroups 7 true ("ffff:".toList ++ v4.chars ++ rest) = (0xffff :: groupsOf v4, true, rest) := by
  have hsep : readSeparator ':' true ("ffff:".toList ++ v4.chars ++ rest) =
      some (groupChars 0xffff ++ ':' :: (v4.chars ++ rest)) := rfl
  rw [readGroups_succ 6 hsep (atMark_cons (by decide) _) (by simp), readGroups_dotted (by decide) v4 h]

/-- Groups behind colons. -/
def tailChars (groups : List UInt16) : List Char := groups.flatMap fun g => ':' :: groupChars g

theorem atMark_tailChars (groups : List UInt16) (h : EndsGroups rest) :
    AtMark (tailChars groups ++ rest) ∧ (tailChars groups ++ rest).head? ≠ some '.' := by
  cases groups with
  | nil => exact ⟨h.atMark, h.head?_ne⟩
  | cons g rest => exact ⟨atMark_cons (by decide) _, by simp [tailChars]⟩

theorem readGroups_tailChars {groups : List UInt16} {n : Nat} (hn : groups.length ≤ n) (h : EndsGroups rest) :
    readGroups n false (tailChars groups ++ rest) = (groups, false, rest) := by
  induction groups generalizing n with
  | nil => exact readGroups_of_endsGroups n false h
  | cons g groups ih =>
    obtain ⟨n, rfl⟩ := Nat.exists_eq_add_of_le' (Nat.le_trans (Nat.succ_pos _) hn)
    have hsep : readSeparator ':' false (tailChars (g :: groups) ++ rest) =
        some (groupChars g ++ (tailChars groups ++ rest)) := by
      rw [tailChars, List.flatMap_cons, List.append_assoc]
      rfl
    obtain ⟨hmark, hdot⟩ := atMark_tailChars groups h
    rw [readGroups_succ n hsep hmark hdot, ih (Nat.le_of_succ_le_succ hn)]

theorem joined_groupChars (g : UInt16) (groups : List UInt16) :
    joined ':' ((g :: groups).map groupChars) = groupChars g ++ tailChars groups := by
  rw [List.map_cons, joined_cons, List.flatMap_map]
  rfl

/-- Groups are read from their text. -/
theorem readGroups_joined {n : Nat} (groups : List UInt16) (hn : groups.length ≤ n) (h : EndsGroups rest) :
    readGroups n true (joined ':' (groups.map groupChars) ++ rest) = (groups, false, rest) := by
  cases groups with
  | nil => exact readGroups_of_endsGroups n true h
  | cons g groups =>
    obtain ⟨n, rfl⟩ := Nat.exists_eq_add_of_le' (Nat.le_trans (Nat.succ_pos _) hn)
    rw [joined_groupChars, List.append_assoc]
    obtain ⟨hmark, hdot⟩ := atMark_tailChars groups h
    rw [readGroups_succ n rfl hmark hdot, readGroups_tailChars (Nat.le_of_succ_le_succ hn) h]

/-! ## Reading addresses -/

theorem ofParts_eq {ip : Ipv6} {head tail : List UInt16} {n : Nat}
    (h : ip.groups.toList = head ++ List.replicate n 0 ++ tail) : ofParts head tail = ip := by
  have hlen := ip.length_groups
  rw [h, List.length_append, List.length_append, List.length_replicate] at hlen
  obtain rfl : n = 8 - head.length - tail.length := by omega
  rw [ofParts, ← h]
  obtain ⟨a, b, c, d, e, f, g, h, rfl⟩ := ip.exists_groups
  rfl

/-- What may stand behind an address: nothing, a scope, or the end of the brackets. -/
def EndsAddress (rest : List Char) : Prop := ∀ c ∈ rest.head?, c = '%' ∨ c = ']'

theorem EndsAddress.endsGroups (h : EndsAddress rest) : EndsGroups rest := by
  cases rest with
  | nil => exact ⟨atMark_nil, nofun, nofun⟩
  | cons c rest =>
    rcases h c rfl with rfl | rfl
    · exact ⟨atMark_cons (by decide) rest, by simp, by simp⟩
    · exact ⟨atMark_cons (by decide) rest, by simp, by simp⟩

theorem endsGroups_gap (cs : List Char) : EndsGroups (':' :: ':' :: cs) where
  atMark := atMark_cons (by decide) _
  head?_ne := by simp
  head?_of_colon := by
    rintro _ ⟨⟩
    rfl

theorem read_of_gap {head tail : List UInt16} {behind : List Char} {dotted : Bool}
    (hhead : readGroups 8 true cs = (head, false, ':' :: ':' :: behind)) (hlen : head.length < 8)
    (htail : readGroups (7 - head.length) true behind = (tail, dotted, rest)) :
    read cs = some (ofParts head tail, rest) := by
  rw [read, hhead]
  dsimp only
  rw [if_neg (Nat.ne_of_lt hlen), if_neg Bool.false_ne_true]
  simp only [readChar, if_true, Option.bind_eq_bind, Option.bind_some, htail]
  rfl

/-- An address is read from every form of its text. -/
theorem Form.read_append {ip : Ipv6} (h : ip.Form cs) (hrest : EndsAddress rest) :
    read (cs ++ rest) = some (ip, rest) := by
  have hends := hrest.endsGroups
  cases h with
  | mapped v4 h =>
    have hhead := readGroups_of_endsGroups 8 true (endsGroups_gap ("ffff:".toList ++ v4.chars ++ rest))
    have hparts : ofParts [] (0xffff :: groupsOf v4) = ip := ofParts_eq (n := 5) h
    have hread := read_of_gap hhead (by decide) (readGroups_mapped v4 hends.atMark)
    rwa [hparts] at hread
  | gap head tail n hn h =>
    have hlen := ip.length_groups
    rw [h, List.length_append, List.length_append, List.length_replicate] at hlen
    have hhead := readGroups_joined (n := 8) head (by omega)
      (endsGroups_gap (joined ':' (tail.map groupChars) ++ rest))
    have htail := readGroups_joined (n := 7 - head.length) tail (by omega) hends
    have hread := read_of_gap hhead (by omega) htail
    rwa [ofParts_eq h, ← List.cons_append, ← List.cons_append, ← List.append_assoc] at hread
  | full =>
    have hlen := ip.length_groups
    have hgroups : ip.groups.toList = ip.groups.toList ++ List.replicate 0 0 ++ [] := by
      rw [List.append_nil, List.replicate_zero, List.append_nil]
    rw [read, readGroups_joined _ (Nat.le_of_eq hlen) hends]
    dsimp only
    rw [if_pos hlen, ofParts_eq hgroups]

end Ipv6
end AmpLink
