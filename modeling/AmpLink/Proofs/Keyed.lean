/-!
# Lists with keys

Where no two members of a list have the same key, filtering by a key and looking for it come to the same.
-/

namespace AmpLink

variable {key : α → β} [DecidableEq β] {l : List α}

theorem filter_key_eq_find? (h : (l.map key).Nodup) :
    l.filter (key · = k) = (l.find? (key · = k)).toList := by
  induction l with
  | nil => rfl
  | cons x l ih =>
    rw [List.map_cons, List.nodup_cons] at h
    by_cases hx : key x = k
    · have hrest : l.filter (key · = k) = [] := by
        refine List.filter_eq_nil_iff.mpr fun y hy hyk => h.1 ?_
        rw [hx, ← of_decide_eq_true hyk]
        exact List.mem_map_of_mem hy
      simp [hx, hrest]
    · simp [hx, ih h.2]

theorem find?_key_eq_some_iff (h : (l.map key).Nodup) :
    l.find? (key · = k) = some x ↔ x ∈ l ∧ key x = k := by
  constructor
  · intro hx
    exact ⟨List.mem_of_find?_eq_some hx, of_decide_eq_true (List.find?_some hx :)⟩
  · rintro ⟨hx, rfl⟩
    have hm : x ∈ l.filter (key · = key x) := List.mem_filter.mpr ⟨hx, by simp⟩
    rw [filter_key_eq_find? h, Option.mem_toList] at hm
    exact hm

theorem filter_key_eq_singleton (h : (l.map key).Nodup) (hx : x ∈ l) :
    l.filter (key · = key x) = [x] := by
  rw [filter_key_eq_find? h, (find?_key_eq_some_iff h).mpr ⟨hx, rfl⟩]
  rfl

end AmpLink
