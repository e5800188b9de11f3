import AmpLink.Proofs.Manager.Lifecycle
import AmpLink.Proofs.Manager.Tokens

/-!
# What cancels a client

A client is cancelled through a token above its own, or because its entry was there when its interface or
all of them were cancelled (`Manager.InUse.Dismissed`), and for no other reason. `Manager.InUse.Traced`
accounts for every token that has been cancelled. The main statement is
`Manager.InUse.contained_of_traced`.
-/

namespace AmpLink

/-- The token right above. -/
def Token.parent (t : Token) : Token := ⟨t.path.dropLast⟩

theorem Token.isWithin_parent (t : Token) : t.isWithin t.parent :=
  isWithin_iff.mpr t.path.dropLast_prefix

namespace Manager

theorem mem_cancelled_cancelAll {m : Manager} {tokens : TokenForest} :
    t ∈ (m.cancelAll tokens).cancelled ↔ t ∈ tokens.cancelled ∨ ∃ e ∈ m.entries, t = e.token := by
  rw [cancelAll]
  generalize m.entries = entries
  induction entries generalizing tokens with
  | nil => simp
  | cons e entries ih =>
    rw [List.foldl_cons, ih, TokenForest.cancel]
    simp only [List.mem_cons, exists_eq_or_imp, or_left_comm, or_assoc]

theorem issued_cancelAll (m : Manager) (tokens : TokenForest) :
    (m.cancelAll tokens).issued = tokens.issued := by
  rw [cancelAll]
  generalize m.entries = entries
  induction entries generalizing tokens with
  | nil => rfl
  | cons e entries ih => exact ih (tokens.cancel e.token)

theorem issued_cancelClient (m : Manager) (tokens : TokenForest) (n : String) :
    ((m.cancelClient tokens n).toOption.getD tokens).issued = tokens.issued := by
  cases hf : m.find? n <;> simp [cancelClient, hf, Except.toOption, TokenForest.cancel]

theorem mem_cancelled_cancelClient {m : Manager} (h : m.Tracks) (tokens : TokenForest) (n : String) :
    t ∈ ((m.cancelClient tokens n).toOption.getD tokens).cancelled ↔
      t ∈ tokens.cancelled ∨ ∃ e ∈ m.entries, n = e.interface ∧ t = e.token := by
  cases hf : m.find? n with
  | none =>
    simp only [cancelClient, hf, Except.toOption, Option.getD_none]
    refine (or_iff_left ?_).symm
    rintro ⟨e, he, rfl, -⟩
    have hsome := isSome_find?.mpr (mem_interfaces.mpr ⟨e, he, rfl⟩)
    rw [hf] at hsome
    contradiction
  | some e =>
    obtain ⟨he, rfl⟩ := mem_of_find? hf
    simp only [cancelClient, hf, Except.toOption, Option.getD_some, TokenForest.cancel, List.mem_cons,
      or_comm (a := t = e.token)]
    refine or_congr_right ⟨fun ht => ⟨e, he, rfl, ht⟩, ?_⟩
    rintro ⟨d, hd, hn, rfl⟩
    rw [h.eq_of_interface_eq he hd hn]

namespace InUse

variable {tokens : TokenForest} {actions past : List Action} {a : Action} {u u' : InUse}
  {e : ManagerEntry} {t : Token}

/-- The entry was there when its interface was cancelled, or all were. -/
def Dismissed (tokens : TokenForest) (actions : List Action) (e : ManagerEntry) : Prop :=
  ∃ before a after v, actions = before ++ a :: after ∧ (start tokens).steps before = some v ∧
    e ∈ v.manager.entries ∧ (a = .cancel e.interface ∨ a = .cancelAll)

theorem dismissed_concat (h : (start tokens).steps past = some u) (a : Action) :
    Dismissed tokens (past ++ [a]) e ↔ Dismissed tokens past e ∨
      e ∈ u.manager.entries ∧ (a = .cancel e.interface ∨ a = .cancelAll) := by
  constructor
  · rintro ⟨before, b, after, v, heq, hv, he, hb⟩
    rcases List.eq_nil_or_concat' after with rfl | ⟨after, c, rfl⟩
    · obtain ⟨rfl, hab⟩ := List.append_inj' heq rfl
      cases hab
      rw [h, Option.some.injEq] at hv
      exact .inr ⟨hv ▸ he, hb⟩
    · rw [← List.cons_append, ← List.append_assoc] at heq
      exact .inl ⟨before, b, after, v, (List.append_inj' heq rfl).1, hv, he, hb⟩
  · rintro (⟨before, b, after, v, rfl, hv, he, hb⟩ | ⟨he, ha⟩)
    · exact ⟨before, b, after ++ [a], v, by simp, hv, he, hb⟩
    · exact ⟨past, a, [], u, rfl, h, he, ha⟩

theorem steps_concat (h : (start tokens).steps past = some u) (hs : u.step a = some u') :
    (start tokens).steps (past ++ [a]) = some u' := by
  rw [steps_eq_foldlM] at h
  rw [steps_eq_foldlM, List.foldlM_append, h]
  simp [hs]

/-- The step cancels the token that it names, or those of the entries that it finds. -/
def Cancels (u : InUse) (a : Action) (u' : InUse) : Prop :=
  ∀ t, t ∈ u'.tokens.cancelled ↔ t ∈ u.tokens.cancelled ∨ a = .cancelToken t ∨
    ∃ e ∈ u.manager.entries, (a = .cancel e.interface ∨ a = .cancelAll) ∧ t = e.token

theorem Cancels.of_eq (h : u'.tokens.cancelled = u.tokens.cancelled) (hn : ∀ n, a ≠ .cancel n)
    (hall : a ≠ .cancelAll) (ht : ∀ t, a ≠ .cancelToken t) : Cancels u a u' := by
  intro t
  simp [h, hn, hall, ht]

/-- A step starts a client below the token that it names, or it leaves the clients their interfaces and
tokens and hands no token out. -/
theorem step_cases (h : u.manager.Tracks) (hs : u.step a = some u') : Cancels u a u' ∧
    ((∃ parent n, a = .start parent n (.ok ()) ∧
      u' = ⟨u.manager.withClient n (u.tokens.child parent).1, (u.tokens.child parent).2⟩) ∨
    u'.tokens.issued = u.tokens.issued ∧
      u'.manager.clients.map (fun c => (c.interface, c.token)) =
        u.manager.clients.map fun c => (c.interface, c.token)) := by
  cases a with
  | start parent n made =>
    cases hs
    rcases startClient_cases u.manager u.tokens parent n made with
      ⟨e, -, hs⟩ | ⟨e, -, -, hs⟩ | ⟨-, rfl, hs⟩
    · rw [hs]
      exact ⟨.of_eq rfl nofun nofun nofun, .inr ⟨rfl, rfl⟩⟩
    · rw [hs]
      exact ⟨.of_eq rfl nofun nofun nofun, .inr ⟨rfl, rfl⟩⟩
    · rw [hs]
      exact ⟨.of_eq rfl nofun nofun nofun, .inl ⟨parent, n, rfl, rfl⟩⟩
  | cancel n =>
    cases hs
    refine ⟨fun t => ?_, .inr ⟨issued_cancelClient .., rfl⟩⟩
    rw [mem_cancelled_cancelClient h]
    simp
  | cancelAll =>
    cases hs
    refine ⟨fun t => ?_, .inr ⟨issued_cancelAll .., rfl⟩⟩
    rw [mem_cancelled_cancelAll]
    simp
  | cancelToken s =>
    cases hs
    refine ⟨fun t => ?_, .inr ⟨rfl, rfl⟩⟩
    simp [TokenForest.cancel, eq_comm, or_comm]
  | ping =>
    cases hs
    exact ⟨.of_eq rfl nofun nofun nofun, .inr ⟨rfl, map_ping _ (fun _ _ => rfl) _⟩⟩
  | pingClient k =>
    cases hs
    exact ⟨.of_eq rfl nofun nofun nofun, .inr ⟨rfl, map_pingClient _ (fun _ _ => rfl) _ _⟩⟩
  | begin k =>
    obtain ⟨m, hm, rfl⟩ := Option.map_eq_some_iff.mp hs
    obtain ⟨c, hc, -, rfl⟩ := begin_eq_some.mp hm
    exact ⟨.of_eq rfl nofun nofun nofun, .inr ⟨rfl, map_set _ hc rfl⟩⟩
  | exit k r =>
    obtain ⟨m, hm, rfl⟩ := Option.map_eq_some_iff.mp hs
    obtain ⟨c, hc, -, rfl⟩ := exit_eq_some.mp hm
    exact ⟨.of_eq rfl nofun nofun nofun, .inr ⟨rfl, map_set _ hc rfl⟩⟩
  | wait =>
    cases hs
    exact ⟨.of_eq rfl nofun nofun nofun, .inr ⟨rfl, rfl⟩⟩
  | waited =>
    rw [(step_waited hs).1]
    exact ⟨.of_eq rfl nofun nofun nofun, .inr ⟨rfl, rfl⟩⟩

theorem client_step (h : u.manager.Tracks) (hs : u.step a = some u') {k : Nat} {c : ManagedClient}
    (hc : u.manager.clients[k]? = some c) :
    ∃ d, u'.manager.clients[k]? = some d ∧ d.interface = c.interface ∧ d.token = c.token := by
  rcases (step_cases h hs).2 with ⟨parent, n, -, rfl⟩ | ⟨-, heq⟩
  · refine ⟨c, ?_, rfl, rfl⟩
    rw [withClient, List.getElem?_append_left (List.getElem?_eq_some_iff.mp hc).1, hc]
  · have hget := congrArg (·[k]?) heq
    simpa only [List.getElem?_map, hc, Option.map_some, Option.map_eq_some_iff, Prod.mk.injEq] using hget

theorem under_step (ht : u.manager.Tracks)
    (h : ∀ c ∈ u.manager.clients, .start c.token.parent c.interface (.ok ()) ∈ past)
    (hs : u.step a = some u') :
    ∀ c ∈ u'.manager.clients, .start c.token.parent c.interface (.ok ()) ∈ past ++ [a] := by
  intro c hc
  rcases (step_cases ht hs).2 with ⟨parent, n, rfl, rfl⟩ | ⟨-, heq⟩
  · rcases List.mem_append.mp hc with hc | hc
    · exact List.mem_append_left _ (h c hc)
    · rw [List.mem_singleton.mp hc, Token.parent, TokenForest.child, List.dropLast_concat]
      simp
  · have hmem := List.mem_map_of_mem (f := fun c : ManagedClient => (c.interface, c.token)) hc
    rw [heq, List.mem_map] at hmem
    obtain ⟨d, hd, hpair⟩ := hmem
    obtain ⟨hi, ht⟩ := Prod.mk.inj hpair
    rw [← hi, ← ht]
    exact List.mem_append_left _ (h d hd)

theorem planted_step (ht : u.manager.Tracks) (h : u.manager.Planted base u.tokens)
    (ha : ∀ parent n made, a = .start parent n made → ∀ i ∈ parent.path, i < base)
    (hs : u.step a = some u') : u'.manager.Planted base u'.tokens := by
  rcases (step_cases ht hs).2 with ⟨parent, n, rfl, rfl⟩ | ⟨hi, heq⟩
  · exact h.withClient (ha parent n _ rfl) n
  · refine h.congr hi ?_
    have htokens := congrArg (List.map Prod.snd) heq
    rwa [List.map_map, List.map_map] at htokens

/-! ## The invariant -/

/-- What a manager in use has come to after the steps `past`, and what has been cancelled on the way. -/
structure Traced (tokens : TokenForest) (past : List Action) (u : InUse) : Prop where
  reached : (start tokens).steps past = some u
  tracks : u.manager.Tracks
  planted : u.manager.Planted tokens.issued u.tokens
  under : ∀ c ∈ u.manager.clients, .start c.token.parent c.interface (.ok ()) ∈ past
  client : ∀ e, Dismissed tokens past e →
    ∃ c, u.manager.clients[e.client]? = some c ∧ c.interface = e.interface ∧ c.token = e.token
  cancelled : ∀ t, t ∈ u.tokens.cancelled ↔
    t ∈ tokens.cancelled ∨ .cancelToken t ∈ past ∨ ∃ e, Dismissed tokens past e ∧ t = e.token

theorem Traced.start (tokens : TokenForest) : Traced tokens [] (start tokens) where
  reached := rfl
  tracks := .start
  planted := .start tokens
  under := nofun
  client := by
    rintro e ⟨before, b, after, v, heq, -⟩
    simp at heq
  cancelled t := by
    refine ⟨.inl, fun h => h.resolve_right ?_⟩
    rintro (h | ⟨e, ⟨before, b, after, v, heq, -⟩, -⟩)
    · contradiction
    · simp at heq

theorem Traced.step (h : Traced tokens past u)
    (ha : ∀ parent n made, a = .start parent n made → tokens.Holds parent) (hs : u.step a = some u') :
    Traced tokens (past ++ [a]) u' where
  reached := steps_concat h.reached hs
  tracks := h.tracks.move (step_move hs)
  planted := planted_step h.tracks h.planted ha hs
  under := under_step h.tracks h.under hs
  client e he := by
    have hold : ∃ c, u.manager.clients[e.client]? = some c ∧ c.interface = e.interface ∧
        c.token = e.token := by
      rcases (dismissed_concat h.reached a).mp he with he | ⟨he, -⟩
      · exact h.client e he
      · obtain ⟨c, hc, hi, ht, -⟩ := h.tracks.client_of_mem he
        exact ⟨c, hc, hi, ht⟩
    obtain ⟨c, hc, hi, ht⟩ := hold
    obtain ⟨d, hd, hdi, hdt⟩ := client_step h.tracks hs hc
    exact ⟨d, hd, hdi.trans hi, hdt.trans ht⟩
  cancelled t := by
    have hdismissed : (∃ e, Dismissed tokens (past ++ [a]) e ∧ t = e.token) ↔
        (∃ e, Dismissed tokens past e ∧ t = e.token) ∨ ∃ e ∈ u.manager.entries,
          (a = .cancel e.interface ∨ a = .cancelAll) ∧ t = e.token := by
      simp only [dismissed_concat h.reached a, or_and_right, exists_or, and_assoc]
    rw [(step_cases h.tracks hs).1 t, h.cancelled, hdismissed, List.mem_append, List.mem_singleton,
      eq_comm (a := Action.cancelToken t), or_assoc, or_or_or_comm]

theorem traced_of_steps (h : (start tokens).steps actions = some u)
    (ha : ∀ parent n made, .start parent n made ∈ actions → tokens.Holds parent) :
    Traced tokens actions u := by
  refine steps_induction (P := fun past u => (∀ parent n made, .start parent n made ∈ past →
    tokens.Holds parent) → Traced tokens past u) (fun past u a u' hu hs ha => ?_)
    (fun _ => .start tokens) h ha
  refine (hu fun parent n made hmem => ?_).step (fun parent n made heq => ?_) hs
  · exact ha parent n made (List.mem_append_left _ hmem)
  · exact ha parent n made (by simp [heq])

namespace Traced

variable {c : ManagedClient} {k : Nat}

theorem isWithin_entry (h : Traced tokens past u) (he : Dismissed tokens past e)
    (hc : u.manager.clients[k]? = some c) : c.token.isWithin e.token ↔ e.client = k := by
  obtain ⟨d, hd, -, htoken⟩ := h.client e he
  rw [← htoken]
  refine ⟨fun hw => (h.planted.eq_of_isWithin hc hd hw).symm, ?_⟩
  rintro rfl
  rw [hc, Option.some.injEq] at hd
  rw [hd]
  exact d.token.isWithin_refl

theorem isBelow_parent (h : Traced tokens past u) (hc : u.manager.clients[k]? = some c) :
    c.token.IsBelow c.token.parent := by
  obtain ⟨parent, htoken, -⟩ := h.planted.token k c hc
  rw [htoken, Token.parent, List.dropLast_concat]
  exact TokenForest.isBelow_child ⟨tokens.issued + k, []⟩ parent

theorem isCancelled_client (h : Traced tokens past u) (hc : u.manager.clients[k]? = some c) :
    u.tokens.isCancelled c.token ↔ tokens.isCancelled c.token ∨
      (∃ s, .cancelToken s ∈ past ∧ c.token.isWithin s) ∨ ∃ e, Dismissed tokens past e ∧ e.client = k := by
  simp only [TokenForest.isCancelled_iff, h.cancelled, or_and_right, exists_or]
  refine or_congr_right (or_congr_right ⟨?_, ?_⟩)
  · rintro ⟨_, ⟨e, he, rfl⟩, hw⟩
    exact ⟨e, he, (h.isWithin_entry he hc).mp hw⟩
  · rintro ⟨e, he, hk⟩
    exact ⟨e.token, ⟨e, he, rfl⟩, (h.isWithin_entry he hc).mpr hk⟩

theorem isCancelled_old (h : Traced tokens past u) (ht : tokens.Holds t) :
    u.tokens.isCancelled t ↔ tokens.isCancelled t ∨ ∃ s, .cancelToken s ∈ past ∧ t.isWithin s := by
  simp only [TokenForest.isCancelled_iff, h.cancelled, or_and_right, exists_or]
  refine or_congr_right (or_iff_left ?_)
  rintro ⟨_, ⟨e, he, rfl⟩, hw⟩
  obtain ⟨c, hc, -, htoken⟩ := h.client e he
  rw [← htoken, h.planted.not_isWithin_of_old hc ht] at hw
  contradiction

end Traced

/-! ## What the steps cancel -/

/-- How cancelling and ends reach the clients after `actions`, if `tokens` were there before. -/
structure Contained (tokens : TokenForest) (actions : List Action) (u : InUse) : Prop where
  /-- Cancelling an interface cancels the client that is tracked for it, and no other. -/
  cancel : ∀ n u', u.step (.cancel n) = some u' → u'.manager = u.manager ∧
    ∀ (k : Nat) c, u.manager.clients[k]? = some c → (u'.tokens.isCancelled c.token ↔
      u.tokens.isCancelled c.token ∨ ∃ e ∈ u.manager.entries, e.interface = n ∧ e.client = k)
  /-- Cancelling all cancels exactly the clients that are tracked. -/
  cancelAll : ∀ u', u.step .cancelAll = some u' → u'.manager = u.manager ∧
    ∀ (k : Nat) c, u.manager.clients[k]? = some c → (u'.tokens.isCancelled c.token ↔
      u.tokens.isCancelled c.token ∨ k ∈ u.manager.tracked)
  /-- The end of a run cancels nothing, however it ends, and takes out the entry of its client only. -/
  exit : ∀ k r u', u.step (.exit k r) = some u' → u'.tokens = u.tokens ∧
    u'.manager.entries = u.manager.entries.filter (·.client ≠ k)
  /-- Tokens that were there before, such as those that clients are started under, are cancelled by
  others only. -/
  old : ∀ t, tokens.Holds t → (u.tokens.isCancelled t ↔
    tokens.isCancelled t ∨ ∃ s, .cancelToken s ∈ actions ∧ t.isWithin s)
  /-- Every client was started under the token right above its own. -/
  under : ∀ c ∈ u.manager.clients, c.token.IsBelow c.token.parent ∧
    .start c.token.parent c.interface (.ok ()) ∈ actions
  /-- Cancelling that token, at any time, cancels the client. -/
  parent : ∀ c ∈ u.manager.clients, .cancelToken c.token.parent ∈ actions → u.tokens.isCancelled c.token
  /-- A client is cancelled through a token above its own or because its entry was dismissed, and for
  no other reason. -/
  client : ∀ (k : Nat) c, u.manager.clients[k]? = some c → (u.tokens.isCancelled c.token ↔
    tokens.isCancelled c.token ∨ (∃ s, .cancelToken s ∈ actions ∧ c.token.isWithin s) ∨
      ∃ e, Dismissed tokens actions e ∧ e.client = k)

theorem contained_of_traced (h : Traced tokens actions u) : Contained tokens actions u := by
  -- A step is one more action, so what it cancels can be read off the clients after it.
  have hnew : ∀ a u' (k : Nat) c, u.step a = some u' →
      (∀ parent n made, a ≠ .start parent n made) → (∀ s, a ≠ .cancelToken s) →
      u.manager.clients[k]? = some c → (u'.tokens.isCancelled c.token ↔ u.tokens.isCancelled c.token ∨
        ∃ e, (e ∈ u.manager.entries ∧ (a = .cancel e.interface ∨ a = .cancelAll)) ∧ e.client = k) := by
    intro a u' k c hs hstart htoken hc
    obtain ⟨d, hd, -, heq⟩ := client_step h.tracks hs hc
    have h' := h.step (fun parent n made ha => absurd ha (hstart parent n made)) hs
    rw [← heq, h'.isCancelled_client hd, heq, h.isCancelled_client hc]
    have hcancel : (∃ s, .cancelToken s ∈ actions ++ [a] ∧ c.token.isWithin s) ↔
        ∃ s, .cancelToken s ∈ actions ∧ c.token.isWithin s := by
      simp [fun s => (htoken s).symm]
    rw [hcancel]
    simp only [dismissed_concat h.reached a, or_and_right, exists_or, or_assoc]
  refine
    { cancel := fun n u' hs => ⟨by cases hs; rfl, fun k c hc => ?_⟩
      cancelAll := fun u' hs => ⟨by cases hs; rfl, fun k c hc => ?_⟩
      exit := fun k r u' hs => ⟨?_, h.tracks.exit_entries (step_exit hs)⟩
      old := fun t ht => h.isCancelled_old ht
      under := fun c hc => ⟨?_, h.under c hc⟩
      parent := fun c hc hp => ?_
      client := fun k c hc => h.isCancelled_client hc }
  · rw [hnew (.cancel n) u' k c hs nofun nofun hc]
    simp only [Action.cancel.injEq, reduceCtorEq, or_false, and_assoc, eq_comm (a := n)]
  · rw [hnew .cancelAll u' k c hs nofun nofun hc]
    simp [tracked]
  · obtain ⟨m, -, rfl⟩ := Option.map_eq_some_iff.mp hs
    rfl
  · obtain ⟨k, hk⟩ := List.mem_iff_getElem?.mp hc
    exact h.isBelow_parent hk
  · obtain ⟨k, hk⟩ := List.mem_iff_getElem?.mp hc
    exact (h.isCancelled_client hk).mpr (.inr (.inl ⟨_, hp, c.token.isWithin_parent⟩))

end InUse
end Manager
end AmpLink
