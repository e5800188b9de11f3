import AmpLink.Proofs.Discovery.Ending

/-!
# When a discovery run is told to stop

The token of a run lies below that of the caller and above those of its clients (`Run.Nested`), so it is
cancelled through the token of the caller or by itself. The latter happens when a scan fails and when the
run closes (`Run.Told`). Together these are the only signals: `Run.isCancelled_iff_of_told`.
-/

namespace AmpLink.Discovery.Run

/-! ## Tokens above and below -/

/-- The token of the run lies below that of the caller and above those of its clients. -/
structure Nested (r : Run) : Prop where
  outer : r.scope.IsBelow r.outer
  clients : ∀ c ∈ r.manager.clients, c.token.IsBelow r.scope

theorem Nested.step {r r' : Run} (h : r.Nested) (hs : Step r a r') : r'.Nested := by
  cases hs with
  | started _ _ _ hchild _ =>
    cases hchild
    refine ⟨h.outer, Manager.forall_mem_pingClient (fun _ hc => hc) (fun c hc => ?_) _⟩
    rcases List.mem_append.mp hc with hc | hc
    · exact h.clients c hc
    · rw [List.mem_singleton.mp hc]
      exact r.tokens.isBelow_child r.scope
  | beginClient hb =>
    obtain ⟨c, hc, -, rfl⟩ := Manager.begin_eq_some.mp hb
    exact ⟨h.outer, Manager.forall_mem_set (fun _ _ _ hc => hc) h.clients hc _ _⟩
  | exit he =>
    obtain ⟨c, hc, -, rfl⟩ := Manager.exit_eq_some.mp he
    exact ⟨h.outer, Manager.forall_mem_set (fun _ _ _ hc => hc) h.clients hc c.runs _⟩
  | ping =>
    rw [noteAll_eq]
    exact ⟨h.outer, Manager.forall_mem_ping (fun _ hc => hc) h.clients⟩
  | tick | observe =>
    rw [noteAll_eq]
    exact ⟨h.outer, h.clients⟩
  | _ => exact ⟨h.outer, h.clients⟩

/-! ## When the token of the run is cancelled -/

/-- What the steps `past` have cancelled at the token of the run and above it. -/
structure Told (past : List Action) (r : Run) : Prop where
  above : ∀ t ∈ r.tokens.cancelled, r.scope.isWithin t → t = r.outer ∨ t = r.scope
  scope : r.scope ∈ r.tokens.cancelled ↔ (∃ e, .scan (.error e) ∈ past) ∨ r.phase ≠ .running

namespace Told

variable {past : List Action} {r r' : Run} {a : Action}

theorem grow (h : Told past r) (new : List Token) (ho : r'.outer = r.outer) (hs : r'.scope = r.scope)
    (hc : r'.tokens.cancelled = new ++ r.tokens.cancelled)
    (hnew : ∀ t ∈ new, r.scope.isWithin t → t = r.outer ∨ t = r.scope)
    (hin : r.scope ∈ new ∨ r.phase ≠ .running ↔ (∃ e, a = .scan (.error e)) ∨ r'.phase ≠ .running) :
    Told (past ++ [a]) r' where
  above t ht hw := by
    rw [hs] at hw
    rw [ho, hs]
    rcases List.mem_append.mp (hc ▸ ht) with ht | ht
    · exact hnew t ht hw
    · exact h.above t ht hw
  scope := by
    have hpast : (∃ e, .scan (.error e) ∈ past ++ [a]) ↔
        (∃ e, .scan (.error e) ∈ past) ∨ ∃ e, a = .scan (.error e) := by
      simp only [List.mem_append, List.mem_singleton, exists_or, eq_comm]
    rw [hs, hc, List.mem_append, h.scope, hpast, or_assoc, ← hin, or_left_comm]

theorem step (h : Told past r) (he : Ending past r) (hscoped : Scoped past r) (hn : r.Nested)
    (hs : Step r a r') : Told (past ++ [a]) r' := by
  cases hs with
  | @scanFailed e hd =>
    -- nothing of the pair has failed before, so the group cancels its token, which is that of the run
    have hdetecting : r.pair.detecting := by simp [Run.pair, hd]
    have hf : (r.group.finish r.tokens detectorTask (.error e)).2 = r.tokens.cancel r.group.token :=
      congrArg Prod.snd
        (TaskGroup.finish_error (he.pair.detector_mem hdetecting) (he.pair.failed hdetecting) _ e)
    refine h.grow [r.scope] rfl rfl ?_ (fun t ht _ => .inr (List.mem_singleton.mp ht)) (by simp)
    exact (congrArg TokenForest.cancelled hf).trans
      (congrArg (· :: r.tokens.cancelled) hscoped.group)
  | stopDetector =>
    have hf := congrArg TokenForest.cancelled (r.group.tokens_finish_ok r.tokens detectorTask)
    exact h.grow [] rfl rfl hf (List.forall_mem_nil _) (by simp [endDetector])
  | stopResting | refuse =>
    have hf := congrArg TokenForest.cancelled (r.group.tokens_finish_ok r.tokens loopTask)
    exact h.grow [] rfl rfl hf (List.forall_mem_nil _) (by simp [endLoop, Run.note])
  | started _ _ _ hchild _ =>
    cases hchild
    exact h.grow [] rfl rfl rfl (List.forall_mem_nil _) (by simp [Run.note])
  | @stopClient n c e _ _ hf =>
    -- what the manager keeps is the token of one of its clients, and that lies below, not above
    obtain ⟨d, hd, -, htoken, -⟩ := he.tracks.client_of_mem (Manager.mem_of_find? hf).1
    have hbelow : e.token.IsBelow r.scope := htoken ▸ hn.clients d (List.mem_of_getElem? hd)
    refine h.grow [e.token] rfl rfl rfl (fun t ht hw => ?_) (by simp [Run.note, hbelow.ne.symm])
    rw [List.mem_singleton.mp ht, hbelow.2] at hw
    contradiction
  | cancel =>
    exact h.grow [r.outer] rfl rfl rfl (fun t ht _ => .inl (List.mem_singleton.mp ht))
      (by simp [hn.outer.ne])
  | close =>
    exact h.grow [r.scope] rfl rfl rfl (fun t ht _ => .inr (List.mem_singleton.mp ht)) (by simp)
  | finish hp => exact h.grow [] rfl rfl rfl (List.forall_mem_nil _) (by simp [hp])
  | tick | ping | observe =>
    rw [noteAll_eq]
    exact h.grow [] rfl rfl rfl (List.forall_mem_nil _) (by simp [Run.note])
  | _ => exact h.grow [] rfl rfl rfl (List.forall_mem_nil _) (by simp [Run.note])

end Told

/-- The caller has cancelled, or a scan has failed, or the run has closed. -/
def Stopped (past : List Action) (r : Run) : Prop :=
  .cancel ∈ past ∨ (∃ e, .scan (.error e) ∈ past) ∨ r.phase ≠ .running

theorem isCancelled_iff_of_told (hscoped : Scoped past r) (hn : r.Nested) (h : Told past r) :
    r.isCancelled ↔ Stopped past r := by
  rw [isCancelled, TokenForest.isCancelled_iff, Stopped, ← hscoped.outer, ← h.scope]
  constructor
  · rintro ⟨t, ht, hw⟩
    rcases h.above t ht hw with rfl | rfl
    · exact .inl ht
    · exact .inr ht
  · rintro (ht | ht)
    · exact ⟨_, ht, hn.outer.1⟩
    · exact ⟨_, ht, Token.isWithin_refl _⟩

theorem Stopped.step (h : Stopped past r) (hs : Step r a r') : Stopped (past ++ [a]) r' := by
  rcases h with h | ⟨e, h⟩ | h
  · exact .inl (List.mem_append_left _ h)
  · exact .inr (.inl ⟨e, List.mem_append_left _ h⟩)
  · refine .inr (.inr ?_)
    rcases hs.phase_cases with hp | ⟨o, -, hp, -⟩ | ⟨o, -, -, hp⟩
    · rwa [hp]
    · rw [hp]
      nofun
    · rw [hp]
      nofun

end AmpLink.Discovery.Run
