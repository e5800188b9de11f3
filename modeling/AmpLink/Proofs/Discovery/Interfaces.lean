import AmpLink.Discovery.Run
import AmpLink.Proofs.Manager.Moves

/-!
# Sets of names and their difference

A set of names is strictly increasing, so it has no name twice. No name is both new and gone for a scan.
The names that a scan has found are with the detector until it has handed them over.
-/

namespace AmpLink

theorem lt_of_not_lt_of_ne {a b : String} (h : ¬ a < b) (hne : a ≠ b) : b < a := by
  refine Classical.byContradiction fun h' => hne ?_
  exact String.le_antisymm (String.not_lt.mp h') (String.not_lt.mp h)

theorem pairwise_insertName {names : List String} (h : names.Pairwise (· < ·)) (name : String) :
    (insertName name names).Pairwise (· < ·) := by
  induction names with
  | nil => exact List.pairwise_singleton ..
  | cons n names ih =>
    obtain ⟨hn, hnames⟩ := List.pairwise_cons.mp h
    rw [insertName]
    split
    · next hlt =>
      refine List.pairwise_cons.mpr ⟨fun m hm => ?_, h⟩
      rcases List.mem_cons.mp hm with rfl | hm
      · exact hlt
      · exact String.lt_trans hlt (hn m hm)
    · next hlt =>
      split
      · exact h
      · next hne =>
        refine List.pairwise_cons.mpr ⟨fun m hm => ?_, ih hnames⟩
        rcases mem_insertName.mp hm with rfl | hm
        · exact lt_of_not_lt_of_ne hlt hne
        · exact hn m hm

theorem pairwise_nameSet (names : List String) : (nameSet names).Pairwise (· < ·) := by
  induction names with
  | nil => exact .nil
  | cons n names ih => exact pairwise_insertName ih n

theorem nodup_of_pairwise {names : List String} (h : names.Pairwise (· < ·)) : names.Nodup := by
  refine h.imp fun {a b} hlt => ?_
  rintro rfl
  exact String.lt_irrefl _ hlt

theorem nodup_nameSet (names : List String) : (nameSet names).Nodup :=
  nodup_of_pairwise (pairwise_nameSet names)

theorem mem_validNames {interfaces : List NetInterface} :
    n ∈ validNames interfaces ↔ ∃ i ∈ interfaces, i.isValid ∧ i.name = n := by
  rw [validNames, mem_nameSet, List.mem_map]
  simp only [List.mem_filter, and_assoc]

namespace InterfaceDiff

variable {known valid allowed : List String}

theorem mem_added : n ∈ (of known valid allowed).added ↔
    n ∈ valid ∧ n ∉ known ∧ isAllowed allowed n := by
  rw [of, mem_nameSet, List.mem_filter, Bool.decide_and, Bool.and_eq_true, decide_eq_true_eq,
    decide_eq_true_eq]

theorem mem_removed : n ∈ (of known valid allowed).removed ↔ n ∈ known ∧ n ∉ valid := by
  rw [of, mem_nameSet, List.mem_filter, decide_eq_true_eq]

theorem disjoint_added_removed : ∀ n ∈ (of known valid allowed).added,
    n ∉ (of known valid allowed).removed :=
  fun _ hn hn' => (mem_added.mp hn).2.1 (mem_removed.mp hn').1

theorem nodup_added : (of known valid allowed).added.Nodup := nodup_nameSet _

end InterfaceDiff

namespace Discovery

/-! ## Names on their way -/

/-- The names that the detector still has to hand over. -/
def DetectorPhase.added : DetectorPhase → List String
  | announcing ns _ => ns
  | _ => []

def DetectorPhase.removed : DetectorPhase → List String
  | announcing _ ls => ls
  | _ => []

@[simp] theorem DetectorPhase.added_announcing : (announcing ns ls).added = ns := rfl

@[simp] theorem DetectorPhase.removed_announcing : (announcing ns ls).removed = ls := rfl

namespace Run

@[simp] theorem added_announcing : (announcing ns ls).added = ns := by
  rw [announcing]
  split
  · next h =>
    rw [Bool.and_eq_true, List.isEmpty_iff] at h
    exact h.1.symm
  · rfl

@[simp] theorem removed_announcing : (announcing ns ls).removed = ls := by
  rw [announcing]
  split
  · next h =>
    rw [Bool.and_eq_true, List.isEmpty_iff, List.isEmpty_iff] at h
    exact h.2.symm
  · rfl

end Run
end Discovery
end AmpLink
