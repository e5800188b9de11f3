import AmpLink.Net.SocketAddress
import Mathlib.Data.List.Basic

/-!
# The order of socket addresses

The numbers of an address that decide the order also determine the address (`SocketAddress.key_injective`),
so the order is a total one. `SocketAddress.Precedes` is the same order part by part.
-/

namespace AmpLink.SocketAddress

variable {a b c : SocketAddress}

theorem key_injective (h : a.key = b.key) : a = b := by
  cases a with
  | v4 ip port =>
    cases b with
    | v4 ip' port' =>
      simp only [key, List.cons_append, List.cons.injEq, true_and] at h
      obtain ⟨hip, hport⟩ := List.append_inj' h rfl
      have hoctets := List.map_injective_iff.mpr (fun _ _ => UInt8.toNat_inj.mp) hip
      obtain rfl : ip = ip' := congrArg Ipv4.mk (Vector.toList_inj.mp hoctets)
      obtain rfl : port = port' := UInt16.toNat_inj.mp (List.cons.inj hport).1
      rfl
    | v6 => simp [key] at h
  | v6 ip port flow scope =>
    cases b with
    | v4 => simp [key] at h
    | v6 ip' port' flow' scope' =>
      simp only [key, List.cons_append, List.cons.injEq, true_and] at h
      obtain ⟨hip, hrest⟩ := List.append_inj' h rfl
      simp only [List.cons.injEq, and_true, UInt16.toNat_inj, UInt32.toNat_inj] at hrest
      have hgroups := List.map_injective_iff.mpr (fun _ _ => UInt16.toNat_inj.mp) hip
      obtain rfl : ip = ip' := congrArg Ipv6.mk (Vector.toList_inj.mp hgroups)
      obtain ⟨rfl, rfl, rfl⟩ := hrest
      rfl

theorem le_iff : a.le b ↔ ¬ b.key < a.key := by
  rw [le, Bool.not_eq_true', ← Bool.not_eq_true, List.lex_eq_true_iff_lt]

theorem le_refl (a : SocketAddress) : a.le a := le_iff.mpr (List.lt_irrefl _)

theorem le_trans (h : a.le b) (h' : b.le c) : a.le c := by
  rw [le_iff, List.not_lt] at h h' ⊢
  exact List.le_trans h h'

theorem le_antisymm (h : a.le b) (h' : b.le a) : a = b := by
  rw [le_iff, List.not_lt] at h h'
  exact key_injective (List.le_antisymm h h')

theorem le_total (a b : SocketAddress) : a.le b ∨ b.le a := by
  rw [le_iff, le_iff, List.not_lt, List.not_lt]
  exact List.le_total ..

/-- Strictly earlier in the order. -/
def IsBefore (a b : SocketAddress) : Prop := a.le b ∧ a ≠ b

theorem IsBefore.trans (h : a.IsBefore b) (h' : b.IsBefore c) : a.IsBefore c := by
  refine ⟨le_trans h.1 h'.1, ?_⟩
  rintro rfl
  exact h.2 (le_antisymm h.1 h'.1)

theorem isBefore_of_not_le (h : ¬ a.le b) : b.IsBefore a := by
  refine ⟨(le_total a b).resolve_left h, ?_⟩
  rintro rfl
  exact h (le_refl _)

theorem isBefore_iff_key_lt : a.IsBefore b ↔ a.key < b.key := by
  constructor
  · rintro ⟨hle, hne⟩
    rw [le_iff, List.not_lt, List.le_iff_lt_or_eq] at hle
    exact hle.resolve_right fun h => hne (key_injective h)
  · intro h
    refine ⟨le_iff.mpr fun h' => List.lt_asymm h h', ?_⟩
    rintro rfl
    exact List.lt_irrefl _ h

/-! ## Part by part -/

/-- Runs of one length are compared by their members before anything that follows them. -/
theorem map_append_lt_iff [LT α] {f : α → Nat} (hlt : ∀ x y, f x < f y ↔ x < y)
    (heq : ∀ x y, f x = f y ↔ x = y) {l l' : List α} (h : l.length = l'.length) (r r' : List Nat) :
    l.map f ++ r < l'.map f ++ r' ↔ l < l' ∨ l = l' ∧ r < r' := by
  induction l generalizing l' with
  | nil =>
    obtain rfl := List.eq_nil_of_length_eq_zero h.symm
    simp
  | cons x l ih =>
    cases l' with
    | nil => contradiction
    | cons y l' =>
      have htail := ih (Nat.succ.inj h)
      rw [List.map_cons, List.map_cons, List.cons_append, List.cons_append, List.cons_lt_cons_iff,
        List.cons_lt_cons_iff, htail, hlt, heq, List.cons.injEq]
      grind

/-- Version 4 first, then by address, port, flow information and scope. -/
def Precedes : SocketAddress → SocketAddress → Prop
  | v4 ip port, v4 ip' port' => ip.octets.toList < ip'.octets.toList ∨ ip = ip' ∧ port < port'
  | v4 .., v6 .. => True
  | v6 .., v4 .. => False
  | v6 ip port flow scope, v6 ip' port' flow' scope' =>
    ip.groups.toList < ip'.groups.toList ∨
      ip = ip' ∧ (port < port' ∨ port = port' ∧ (flow < flow' ∨ flow = flow' ∧ scope < scope'))

theorem precedes_iff_key_lt : a.Precedes b ↔ a.key < b.key := by
  cases a with
  | v4 ip port =>
    cases b with
    | v4 ip' port' =>
      have hip : ip = ip' ↔ ip.octets.toList = ip'.octets.toList := by
        rw [Vector.toList_inj, Ipv4.mk.injEq]
      have hlength : ip.octets.toList.length = ip'.octets.toList.length := by simp
      have hkey := map_append_lt_iff (fun _ _ => UInt8.lt_iff_toNat_lt.symm)
        (fun _ _ => UInt8.toNat_inj) hlength [port.toNat] [port'.toNat]
      simp only [Precedes, key, List.cons_append, List.cons_lt_cons_iff, hkey, hip,
        UInt16.lt_iff_toNat_lt]
      simp
    | v6 => simp [Precedes, key, List.cons_lt_cons_iff]
  | v6 ip port flow scope =>
    cases b with
    | v4 => simp [Precedes, key, List.cons_lt_cons_iff]
    | v6 ip' port' flow' scope' =>
      have hip : ip = ip' ↔ ip.groups.toList = ip'.groups.toList := by
        rw [Vector.toList_inj, Ipv6.mk.injEq]
      have hlength : ip.groups.toList.length = ip'.groups.toList.length := by simp
      have hkey := map_append_lt_iff (fun _ _ => UInt16.lt_iff_toNat_lt.symm)
        (fun _ _ => UInt16.toNat_inj) hlength [port.toNat, flow.toNat, scope.toNat]
          [port'.toNat, flow'.toNat, scope'.toNat]
      simp only [Precedes, key, List.cons_append, List.cons_lt_cons_iff, hkey, hip,
        UInt16.lt_iff_toNat_lt, UInt32.lt_iff_toNat_lt, UInt16.toNat_inj, UInt32.toNat_inj]
      simp

theorem isBefore_iff_precedes : a.IsBefore b ↔ a.Precedes b := by
  rw [isBefore_iff_key_lt, precedes_iff_key_lt]

theorem Precedes.asymm (h : a.Precedes b) : ¬ b.Precedes a := by
  rw [precedes_iff_key_lt] at h ⊢
  exact List.lt_asymm h

end AmpLink.SocketAddress
