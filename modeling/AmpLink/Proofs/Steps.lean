import Mathlib.Data.List.Forall2
import Mathlib.Data.List.Induction

/-!
# Steps one after the other

Where each step leads to a state or is not possible, what a single step keeps holds after any number of
them.
-/

namespace AmpLink

/-- Steps that follow each other are those of a fold. -/
theorem eq_foldlM {step : σ → α → Option σ} {steps : σ → List α → Option σ}
    (hnil : ∀ s, steps s [] = some s)
    (hcons : ∀ s a rest, steps s (a :: rest) = (step s a).bind fun s' => steps s' rest)
    (s : σ) (actions : List α) : steps s actions = actions.foldlM step s := by
  induction actions generalizing s with
  | nil => exact hnil s
  | cons a rest ih =>
    rw [hcons, List.foldlM_cons]
    exact congrArg _ (funext ih)

/-- What holds of no steps and is kept by every step holds of any steps. -/
theorem foldlM_induction {step : σ → α → Option σ} {P : List α → σ → Prop}
    (hstep : ∀ past s a s', P past s → step s a = some s' → P (past ++ [a]) s') {s s' : σ}
    (hs : P [] s) (h : actions.foldlM step s = some s') : P actions s' := by
  induction actions using List.reverseRecOn generalizing s' with
  | nil =>
    cases h
    exact hs
  | append_singleton past a ih =>
    rw [List.foldlM_append] at h
    obtain ⟨t, ht, h⟩ := Option.bind_eq_some_iff.mp h
    rw [List.foldlM_cons] at h
    obtain ⟨u, hu, h⟩ := Option.bind_eq_some_iff.mp h
    cases h
    exact hstep past t a _ (ih ht) hu

/-- Steps that all succeed succeed together. -/
theorem mapM_of_forall₂ [Monad m] [LawfulMonad m] {f : α → m β} {l : List α} {results : List β}
    (h : List.Forall₂ (fun a b => f a = pure b) l results) : l.mapM f = pure results := by
  induction h with
  | nil => rfl
  | cons ha _ ih => rw [List.mapM_cons, ha, ih, pure_bind, pure_bind]

/-- Every result is that of a step. -/
theorem exists_of_mem_mapM {f : α → Except ε β} {l : List α} {results : List β} (h : l.mapM f = .ok results)
    (hb : b ∈ results) : ∃ a ∈ l, f a = .ok b := by
  induction l generalizing results with
  | nil =>
    cases h
    contradiction
  | cons a l ih =>
    rw [List.mapM_cons] at h
    cases ha : f a with
    | error e =>
      rw [ha] at h
      contradiction
    | ok first =>
      rw [ha] at h
      cases hl : l.mapM f with
      | error e =>
        rw [hl] at h
        contradiction
      | ok rest =>
        rw [hl] at h
        cases h
        rcases List.mem_cons.mp hb with rfl | hb
        · exact ⟨a, List.mem_cons_self, ha⟩
        · obtain ⟨a', ha', hok⟩ := ih hl hb
          exact ⟨a', List.mem_cons_of_mem a ha', hok⟩

end AmpLink
