import AmpLink.Proofs.Discovery.Steps
import AmpLink.Proofs.Manager.Tracking
import AmpLink.Proofs.Task.Group
import AmpLink.Proofs.Task.Tokens

/-!
# The tokens of a discovery run

Everything that a run cancels lies within its own token: the token itself and those of its clients
(`Run.Scoped`). The token of the caller lies above, so it is cancelled by the caller or not at all.
-/

namespace AmpLink.Discovery.Run

/-- What holds of the tokens of a run after the steps `past`. -/
structure Scoped (past : List Action) (r : Run) : Prop where
  below : r.outer.isWithin r.scope = false
  group : r.group.token = r.scope
  entries : ∀ e ∈ r.manager.entries, e.token.isWithin r.scope
  cancelled : ∀ t ∈ r.tokens.cancelled, t.isWithin r.scope ∨ t = r.outer
  outer : r.outer ∈ r.tokens.cancelled ↔ .cancel ∈ past

namespace Scoped

variable {past : List Action} {r r' : Run} {a : Action}

/-- What is tracked and what is cancelled may come in from within the scope. -/
theorem grow (h : Scoped past r) (ha : a ≠ .cancel) (ho : r'.outer = r.outer)
    (hs : r'.scope = r.scope) (hg : r'.group.token = r.group.token)
    (he : ∀ e ∈ r'.manager.entries, e ∈ r.manager.entries ∨ e.token.isWithin r.scope)
    (hc : r'.tokens.cancelled = r.tokens.cancelled ∨
      ∃ t, t.isWithin r.scope ∧ r'.tokens.cancelled = t :: r.tokens.cancelled) :
    Scoped (past ++ [a]) r' where
  below := by rw [ho, hs, h.below]
  group := by rw [hg, hs, h.group]
  entries e hmem := by
    rw [hs]
    exact (he e hmem).elim (h.entries e) id
  cancelled t hmem := by
    rw [hs, ho]
    rcases hc with hc | ⟨u, hu, hc⟩
    · exact h.cancelled t (hc ▸ hmem)
    · rw [hc, List.mem_cons] at hmem
      rcases hmem with rfl | hmem
      · exact .inl hu
      · exact h.cancelled t hmem
  outer := by
    rw [ho, List.mem_append, List.mem_singleton, or_iff_left (Ne.symm ha), ← h.outer]
    rcases hc with hc | ⟨u, hu, hc⟩
    · rw [hc]
    · have hne : r.outer ≠ u := by
        rintro rfl
        rw [h.below] at hu
        contradiction
      rw [hc, List.mem_cons, or_iff_right hne]

theorem finish (h : Scoped past r) (task : Nat) (o : Outcome) :
    (r.group.finish r.tokens task o).1.token = r.group.token ∧
      ((r.group.finish r.tokens task o).2.cancelled = r.tokens.cancelled ∨
        ∃ t, t.isWithin r.scope ∧
          (r.group.finish r.tokens task o).2.cancelled = t :: r.tokens.cancelled) := by
  obtain ⟨ht, hc⟩ := TaskGroup.token_finish r.group r.tokens task o
  refine ⟨ht, hc.imp (congrArg _) fun hc => ⟨r.group.token, ?_, congrArg _ hc⟩⟩
  rw [h.group]
  exact Token.isWithin_refl _

theorem step (h : Scoped past r) (hs : Step r a r') : Scoped (past ++ [a]) r' := by
  cases hs with
  | scanFailed =>
    obtain ⟨hg, hc⟩ := h.finish detectorTask (.error _)
    exact h.grow nofun rfl rfl hg (fun _ => .inl) hc
  | stopDetector =>
    obtain ⟨hg, hc⟩ := h.finish detectorTask (.ok ())
    exact h.grow nofun rfl rfl hg (fun _ => .inl) hc
  | stopResting | refuse =>
    obtain ⟨hg, hc⟩ := h.finish loopTask (.ok ())
    exact h.grow nofun rfl rfl hg (fun _ => .inl) hc
  | started _ _ _ hchild _ =>
    cases hchild
    refine h.grow nofun rfl rfl rfl (fun e he => ?_) (.inl rfl)
    refine (List.mem_append.mp he).imp_right fun he => ?_
    rw [List.mem_singleton.mp he]
    exact TokenForest.isWithin_child r.tokens r.scope
  | stopClient _ _ hf =>
    have he := h.entries _ (Manager.mem_of_find? hf).1
    exact h.grow nofun rfl rfl rfl (fun _ => .inl) (.inr ⟨_, he, rfl⟩)
  | exit he =>
    obtain ⟨c, -, -, rfl⟩ := Manager.exit_eq_some.mp he
    exact h.grow nofun rfl rfl rfl (fun _ he => .inl (List.mem_filter.mp he).1) (.inl rfl)
  | beginClient hb =>
    obtain ⟨c, -, -, rfl⟩ := Manager.begin_eq_some.mp hb
    exact h.grow nofun rfl rfl rfl (fun _ => .inl) (.inl rfl)
  | cancel =>
    refine { h with cancelled := fun t ht => ?_, outer := by simp [TokenForest.cancel] }
    rcases List.mem_cons.mp ht with rfl | ht
    · exact .inr rfl
    · exact h.cancelled t ht
  | close => exact h.grow nofun rfl rfl rfl (fun _ => .inl) (.inr ⟨_, Token.isWithin_refl _, rfl⟩)
  | ping =>
    rw [noteAll_eq]
    exact h.grow nofun rfl rfl rfl (fun _ he => .inl (Manager.entries_ping ▸ he)) (.inl rfl)
  | tick | observe =>
    rw [noteAll_eq]
    exact h.grow nofun rfl rfl rfl (fun _ => .inl) (.inl rfl)
  | _ => exact h.grow nofun rfl rfl rfl (fun _ => .inl) (.inl rfl)

end Scoped

theorem scoped_of_steps {config : DiscoveryConfig} {r : Run}
    (h : (start config capacity).steps actions = some r) : Scoped actions r := by
  refine steps_induction (fun _ _ _ _ => Scoped.step) ?_ h
  exact
    { below := rfl
      group := rfl
      entries := List.forall_mem_nil _
      cancelled := List.forall_mem_nil _
      outer := iff_of_false List.not_mem_nil List.not_mem_nil }

/-- The token of the caller is cancelled by the caller only. -/
theorem Scoped.isCancelled_outer (h : Scoped past r) :
    r.tokens.isCancelled r.outer ↔ .cancel ∈ past := by
  rw [← h.outer, TokenForest.isCancelled_iff]
  constructor
  · rintro ⟨t, ht, hwithin⟩
    rcases h.cancelled t ht with hscope | rfl
    · have hbelow := Token.isWithin_trans hwithin hscope
      rw [h.below] at hbelow
      contradiction
    · exact ht
  · intro ht
    exact ⟨r.outer, ht, Token.isWithin_refl _⟩

end AmpLink.Discovery.Run
