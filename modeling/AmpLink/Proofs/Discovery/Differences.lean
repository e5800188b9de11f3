import AmpLink.Proofs.Discovery.Interfaces
import Mathlib.Order.BooleanAlgebra.Set

/-!
# What a difference of names leads to

Lists of names stand for sets (`members`), and a strictly increasing list is known by its members
(`eq_of_members_eq`). Carrying out a difference leads to `settled`: the names that are both allowed and valid, and
the known ones that are valid whether they are allowed or not. From there a second difference is empty. The
main statement is `InterfaceDiff.settles`.
-/

namespace AmpLink

/-- The set that a list of names stands for. -/
def members (names : List String) : Set String := {n | n ∈ names}

@[simp] theorem mem_members {names : List String} : n ∈ members names ↔ n ∈ names := Iff.rfl

/-- A strictly increasing list is known by its members. -/
theorem eq_of_members_eq {names names' : List String} (h : names.Pairwise (· < ·))
    (h' : names'.Pairwise (· < ·)) (hm : members names = members names') : names = names' := by
  have hperm := (List.perm_ext_iff_of_nodup (nodup_of_pairwise h) (nodup_of_pairwise h')).mpr
    (Set.ext_iff.mp hm)
  exact hperm.eq_of_pairwise (fun _ _ _ _ hab hba => absurd hba (String.lt_asymm hab)) h h'

theorem NetInterface.isValid_iff {i : NetInterface} :
    i.isValid ↔ i.up ∧ i.broadcast ∧ i.loopback = false ∧ i.hasIpv4 := by
  rw [isValid, Bool.and_eq_true, Bool.and_eq_true, Bool.and_eq_true, Bool.not_eq_true', and_assoc,
    and_assoc]

theorem members_validNames (interfaces : List NetInterface) : members (validNames interfaces) =
    {n | ∃ i ∈ interfaces, i.name = n ∧ i.up ∧ i.broadcast ∧ i.loopback = false ∧ i.hasIpv4} := by
  refine Set.ext fun n => ?_
  rw [mem_members, mem_validNames]
  refine exists_congr fun i => and_congr_right fun _ => ?_
  rw [NetInterface.isValid_iff, and_comm]

/-- Neither the order nor repetitions of what the source reports matter. -/
theorem validNames_congr {interfaces interfaces' : List NetInterface}
    (h : ∀ i, i ∈ interfaces' ↔ i ∈ interfaces) : validNames interfaces' = validNames interfaces := by
  refine eq_of_members_eq (pairwise_nameSet _) (pairwise_nameSet _) ?_
  rw [members_validNames, members_validNames]
  simp only [h]

namespace InterfaceDiff

/-- The names that an allow-list lets through. An empty one lets everything through. -/
def permitted (allowed : List String) : Set String := {n | allowed = [] ∨ n ∈ allowed}

theorem isAllowed_iff {allowed : List String} : isAllowed allowed n ↔ n ∈ permitted allowed := by
  rw [isAllowed, Bool.or_eq_true, List.isEmpty_iff, decide_eq_true_eq]
  rfl

/-- An allow-list goes by its members only. -/
theorem permitted_congr {allowed allowed' : List String} (h : members allowed' = members allowed) :
    permitted allowed' = permitted allowed := by
  have hnil : allowed' = [] ↔ allowed = [] := by
    rw [List.eq_nil_iff_forall_not_mem, List.eq_nil_iff_forall_not_mem]
    exact forall_congr' fun n => not_congr (Set.ext_iff.mp h n)
  exact Set.ext fun n => or_congr hnil (Set.ext_iff.mp h n)

variable {known valid allowed known' valid' allowed' : List String}

theorem members_added : members (of known valid allowed).added =
    (members valid ∩ permitted allowed) \ members known := by
  refine Set.ext fun n => ?_
  rw [mem_members, mem_added, isAllowed_iff, Set.mem_sdiff, Set.mem_inter_iff, mem_members, mem_members]
  exact ⟨fun ⟨hv, hk, ha⟩ => ⟨⟨hv, ha⟩, hk⟩, fun ⟨⟨hv, ha⟩, hk⟩ => ⟨hv, hk, ha⟩⟩

theorem members_removed :
    members (of known valid allowed).removed = members known \ members valid :=
  Set.ext fun _ => mem_removed

/-- Known, valid and allowed names count as sets. -/
theorem of_congr (hk : members known' = members known) (hv : members valid' = members valid)
    (ha : members allowed' = members allowed) : of known' valid' allowed' = of known valid allowed := by
  have hadded : (of known' valid' allowed').added = (of known valid allowed).added := by
    refine eq_of_members_eq (pairwise_nameSet _) (pairwise_nameSet _) ?_
    rw [members_added, members_added, hk, hv, permitted_congr ha]
  have hremoved : (of known' valid' allowed').removed = (of known valid allowed).removed := by
    refine eq_of_members_eq (pairwise_nameSet _) (pairwise_nameSet _) ?_
    rw [members_removed, members_removed, hk, hv]
  exact (InterfaceDiff.mk.injEq ..).mpr ⟨hadded, hremoved⟩

/-! ## Carrying it out -/

/-- The names that are known once a difference from `known` to `valid` has been carried out. -/
def settled (known valid allowed : List String) : Set String :=
  members valid ∩ permitted allowed ∪ members known ∩ members valid

theorem carry_out : (members known ∪ members (of known valid allowed).added) \
    members (of known valid allowed).removed = settled known valid allowed := by
  rw [members_added, members_removed, settled]
  refine Set.ext fun n => ?_
  simp only [Set.mem_sdiff, Set.mem_union, Set.mem_inter_iff]
  by_cases hk : n ∈ members known
  · by_cases hv : n ∈ members valid <;> simp [hk, hv]
  · simp [hk]

/-- Where only allowed names are known, no others ever are. -/
theorem settled_of_subset (h : members known ⊆ permitted allowed) :
    settled known valid allowed = members valid ∩ permitted allowed := by
  refine Set.union_eq_self_of_subset_right fun n hn => ?_
  exact ⟨hn.2, h hn.1⟩

theorem isEmpty_iff_members {d : InterfaceDiff} :
    d.isEmpty ↔ members d.added = ∅ ∧ members d.removed = ∅ := by
  rw [isEmpty, Bool.and_eq_true, List.isEmpty_iff, List.isEmpty_iff, List.eq_nil_iff_forall_not_mem,
    List.eq_nil_iff_forall_not_mem, Set.eq_empty_iff_forall_notMem, Set.eq_empty_iff_forall_notMem]
  exact Iff.rfl

theorem isEmpty_iff :
    (of known valid allowed).isEmpty ↔ members known = settled known valid allowed := by
  rw [isEmpty_iff_members, members_added, members_removed, Set.sdiff_eq_empty, Set.sdiff_eq_empty, settled]
  constructor
  · rintro ⟨hadded, hremoved⟩
    rw [Set.inter_eq_self_of_subset_left hremoved, Set.union_eq_self_of_subset_left hadded]
  · intro h
    refine ⟨h ▸ Set.subset_union_left, fun n hn => ?_⟩
    rw [h] at hn
    exact hn.elim And.left And.right

/-- Where a difference has been carried out, nothing is left to do. -/
theorem settled_of_eq (h : members known' = settled known valid allowed) :
    settled known' valid allowed = members known' := by
  have hvalid : members known' ⊆ members valid := by
    intro n hn
    rw [h] at hn
    exact hn.elim And.left And.right
  have hpermitted : members valid ∩ permitted allowed ⊆ members known' := by
    rw [h]
    exact Set.subset_union_left
  rw [settled, Set.inter_eq_self_of_subset_left hvalid, Set.union_eq_self_of_subset_left hpermitted]

/-! ## The main statement -/

/-- How the difference `d` fits the names that are known, valid and allowed. -/
structure Settles (known valid allowed : List String) (d : InterfaceDiff) : Prop where
  sorted_added : d.added.Pairwise (· < ·)
  sorted_removed : d.removed.Pairwise (· < ·)
  added_disjoint : members d.added ∩ members known = ∅
  removed_subset : members d.removed ⊆ members known
  disjoint : members d.added ∩ members d.removed = ∅
  /-- A known name stays as long as it is valid, whether it is allowed or not. -/
  carried_out : (members known ∪ members d.added) \ members d.removed =
    members valid ∩ permitted allowed ∪ members known ∩ members valid
  restricted : members known ⊆ permitted allowed →
    (members known ∪ members d.added) \ members d.removed = members valid ∩ permitted allowed
  again : ∀ known', members known' = (members known ∪ members d.added) \ members d.removed →
    of known' valid allowed = ⟨[], []⟩
  isEmpty_iff : d.isEmpty ↔
    members known = members valid ∩ permitted allowed ∪ members known ∩ members valid
  /-- Neither order nor repetitions of the three lists matter. -/
  of_members : ∀ known' valid' allowed', members known' = members known →
    members valid' = members valid → members allowed' = members allowed → of known' valid' allowed' = d

theorem settles_of (known valid allowed : List String) :
    Settles known valid allowed (of known valid allowed) where
  sorted_added := pairwise_nameSet _
  sorted_removed := pairwise_nameSet _
  added_disjoint := by
    rw [members_added]
    exact Set.sdiff_inter_self
  removed_subset := by
    rw [members_removed]
    exact Set.sdiff_subset
  disjoint := Set.eq_empty_iff_forall_notMem.mpr fun n hn => disjoint_added_removed n hn.1 hn.2
  carried_out := carry_out
  restricted h := carry_out.trans (settled_of_subset h)
  again known' h := by
    rw [carry_out] at h
    have hempty := isEmpty_iff.mpr (settled_of_eq h).symm
    rw [isEmpty, Bool.and_eq_true, List.isEmpty_iff, List.isEmpty_iff] at hempty
    exact (InterfaceDiff.mk.injEq ..).mpr hempty
  isEmpty_iff := isEmpty_iff
  of_members _ _ _ hk hv ha := of_congr hk hv ha

/-- Whatever is known, a difference leads to the names that are valid and either allowed or known before, and
a scan is the difference to the names with a usable interface. -/
theorem settles (known allowed : List String) :
    (∀ valid, Settles known valid allowed (of known valid allowed)) ∧
    (∀ interfaces, scan (.ok interfaces) known allowed =
      .ok (of known (validNames interfaces) allowed)) ∧
    (∀ interfaces, members (validNames interfaces) =
      {n | ∃ i ∈ interfaces, i.name = n ∧ i.up ∧ i.broadcast ∧ i.loopback = false ∧ i.hasIpv4}) ∧
    (∀ interfaces interfaces', (∀ i, i ∈ interfaces' ↔ i ∈ interfaces) →
      scan (.ok interfaces') known allowed = scan (.ok interfaces) known allowed) ∧
    ∀ e, scan (.error e) known allowed = .error e := by
  refine ⟨fun valid => settles_of known valid allowed, fun _ => rfl, members_validNames, ?_, fun _ => rfl⟩
  intro interfaces interfaces' h
  exact congrArg (fun valid => Except.ok (of known valid allowed)) (validNames_congr h)

/-- One interface is new and told twice, one is down, and one of the known ones has gone. -/
def rearranged : List NetInterface :=
  [.usable "eth1", { NetInterface.usable "wlan0" with up := false }, .usable "eth0", .usable "eth1"]

theorem settles_rearranged :
    (∀ i, i ∈ rearranged.reverse ↔ i ∈ rearranged) ∧
    scan (.ok rearranged.reverse) ["eth0", "lan1"] ["eth1", "eth1"] =
      scan (.ok rearranged) ["eth0", "lan1"] ["eth1", "eth1"] ∧
    scan (.ok rearranged) ["eth0", "lan1"] ["eth1", "eth1"] = .ok ⟨["eth1"], ["lan1"]⟩ := by
  have hmem : ∀ i, i ∈ rearranged.reverse ↔ i ∈ rearranged := fun _ => List.mem_reverse
  obtain ⟨-, -, -, hscan, -⟩ := settles ["eth0", "lan1"] ["eth1", "eth1"]
  exact ⟨hmem, hscan _ _ hmem, by decide +kernel⟩

end InterfaceDiff
end AmpLink
