import AmpLink.Task.Token

/-!
# Tokens and what lies below them
-/

namespace AmpLink

namespace Token

variable {t u v : Token}

theorem isWithin_iff : t.isWithin u ↔ u.path <+: t.path := List.isPrefixOf_iff_prefix

theorem isWithin_refl (t : Token) : t.isWithin t := isWithin_iff.mpr List.prefix_rfl

theorem isWithin_trans (h : t.isWithin u) (h' : u.isWithin v) : t.isWithin v :=
  isWithin_iff.mpr ((isWithin_iff.mp h').trans (isWithin_iff.mp h))

/-- Within `u`, but not at its place. -/
def IsBelow (t u : Token) : Prop := t.isWithin u ∧ u.isWithin t = false

theorem IsBelow.ne (h : t.IsBelow u) : t ≠ u := by
  rintro rfl
  have hself := h.2
  rw [isWithin_refl] at hself
  contradiction

/-- Nothing lies within two tokens right below the same token. -/
theorem eq_of_isWithin_child {token : Token} {j k : Nat} (h : t.isWithin ⟨token.path ++ [j]⟩)
    (h' : t.isWithin ⟨token.path ++ [k]⟩) : j = k := by
  have hp := isWithin_iff.mp h
  have hp' := isWithin_iff.mp h'
  have heq := (List.prefix_of_prefix_length_le hp hp' (by simp)).eq_of_length (by simp)
  simpa using heq

end Token

namespace TokenForest

theorem isWithin_child (f : TokenForest) (parent : Token) : (f.child parent).1.isWithin parent :=
  Token.isWithin_iff.mpr (List.prefix_append ..)

theorem isBelow_child (f : TokenForest) (parent : Token) : (f.child parent).1.IsBelow parent := by
  refine ⟨f.isWithin_child parent, Bool.eq_false_iff.mpr fun h => ?_⟩
  have hlength := (Token.isWithin_iff.mp h).length_le
  rw [child, List.length_append] at hlength
  exact Nat.not_succ_le_self _ hlength

theorem isCancelled_iff {f : TokenForest} :
    f.isCancelled t ↔ ∃ u ∈ f.cancelled, t.isWithin u := by
  rw [isCancelled, List.any_eq_true]

theorem isCancelled_cancel {f : TokenForest} :
    (f.cancel u).isCancelled t ↔ t.isWithin u ∨ f.isCancelled t := Bool.or_eq_true_iff

theorem isCancelled_child {f : TokenForest} :
    (f.child parent).2.isCancelled t = f.isCancelled t := rfl

theorem isCancelled_of_isWithin {f : TokenForest} (h : t.isWithin u) (hc : f.isCancelled u) :
    f.isCancelled t := by
  obtain ⟨v, hv, hwithin⟩ := isCancelled_iff.mp hc
  exact isCancelled_iff.mpr ⟨v, hv, Token.isWithin_trans h hwithin⟩

/-- From `f` to `f'` nothing is cancelled but tokens within `token`. -/
structure CancelsWithin (token : Token) (f f' : TokenForest) : Prop where
  mono : ∀ t, f.isCancelled t → f'.isCancelled t
  within : ∀ t, f'.isCancelled t → f.isCancelled t ∨ t.isWithin token

namespace CancelsWithin

variable {f f' f'' : TokenForest}

theorem refl (token : Token) (f : TokenForest) : CancelsWithin token f f := ⟨fun _ => id, fun _ => .inl⟩

theorem child (token : Token) (f : TokenForest) (parent : Token) :
    CancelsWithin token f (f.child parent).2 := ⟨fun _ => id, fun _ => .inl⟩

theorem trans (h : CancelsWithin token f f') (h' : CancelsWithin token f' f'') :
    CancelsWithin token f f'' where
  mono t ht := h'.mono t (h.mono t ht)
  within t ht := (h'.within t ht).elim (h.within t) .inr

theorem widen (h : CancelsWithin token f f') (hw : token.isWithin token') :
    CancelsWithin token' f f' where
  mono := h.mono
  within t ht := (h.within t ht).imp_right fun hwithin => Token.isWithin_trans hwithin hw

theorem cancel (token : Token) (f : TokenForest) : CancelsWithin token f (f.cancel token) where
  mono _ ht := isCancelled_cancel.mpr (.inr ht)
  within _ ht := (isCancelled_cancel.mp ht).symm

theorem iff_of_isWithin_eq_false (h : CancelsWithin token f f') (ht : t.isWithin token = false) :
    f'.isCancelled t ↔ f.isCancelled t := by
  refine ⟨fun hc => (h.within t hc).resolve_right ?_, h.mono t⟩
  rw [ht]
  nofun

end CancelsWithin

end TokenForest
end AmpLink
