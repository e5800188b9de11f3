import AmpLink.Proofs.Discovery.Scope
import AmpLink.Proofs.Manager.Containment

/-!
# Runs among others

The manager of a run and the channels of its detector can be in other hands than those of its event loop.
Somebody else starts and stops clients, takes the names that are handed over, or goes away, and
`Run.sharedStep` adds this to the steps of the run. It touches little of the run (`Run.Aside`), and whoever
takes a step, a token stays cancelled and a channel stays closed (`Run.Later`).
-/

namespace AmpLink

theorem Manager.InUse.isCancelled_step {u u' : InUse} (h : u.step a = some u') (t : Token)
    (ht : u.tokens.isCancelled t) : u'.tokens.isCancelled t := by
  cases a with
  | start parent n made =>
    cases h
    rcases startClient_cases u.manager u.tokens parent n made with
      ⟨e, -, hs⟩ | ⟨e, -, -, hs⟩ | ⟨-, -, hs⟩
    all_goals
      rw [hs]
      exact ht
  | cancel n =>
    cases h
    rw [cancelClient]
    cases u.manager.find? n with
    | none => exact ht
    | some e => exact TokenForest.isCancelled_cancel.mpr (.inr ht)
  | cancelAll =>
    cases h
    obtain ⟨s, hs, hwithin⟩ := TokenForest.isCancelled_iff.mp ht
    exact TokenForest.isCancelled_iff.mpr ⟨s, mem_cancelled_cancelAll.mpr (.inl hs), hwithin⟩
  | cancelToken s =>
    cases h
    exact TokenForest.isCancelled_cancel.mpr (.inr ht)
  | begin | exit =>
    obtain ⟨m, -, rfl⟩ := Option.map_eq_some_iff.mp h
    exact ht
  | waited =>
    obtain ⟨-, h⟩ := Option.ite_none_right_eq_some.mp h
    cases h
    exact ht
  | ping | pingClient | wait =>
    cases h
    exact ht

namespace Discovery.Run

/-- A step of a run, or of somebody else who has to do with it. -/
inductive SharedAction where
  | own (a : Action)
  /-- Somebody uses the manager, or cancels a token. -/
  | manage (a : Manager.Action)
  /-- Somebody takes a name that was handed over. -/
  | takeAdded
  | takeRemoved
  /-- Whoever takes the names goes away. -/
  | dropAdded
  | dropRemoved

/-- The step of the run, if it is one. -/
def SharedAction.own? : SharedAction → Option Action
  | own a => some a
  | _ => none

/-- The steps of the run among the steps of all. -/
def ownSteps (past : List SharedAction) : List Action := past.filterMap SharedAction.own?

/-- What a step leads to. Nothing if it is not possible. -/
def sharedStep (r : Run) : SharedAction → Option Run
  | .own a => r.step a
  | .manage a =>
    (Manager.InUse.step ⟨r.manager, r.tokens⟩ a).map fun u =>
      { r with manager := u.manager, tokens := u.tokens }
  | .takeAdded => r.added.receive.map fun (_, added) => { r with added }
  | .takeRemoved => r.removed.receive.map fun (_, removed) => { r with removed }
  | .dropAdded => some { r with added := r.added.close }
  | .dropRemoved => some { r with removed := r.removed.close }

/-- Takes steps one after the other. Nothing if one of them is not possible. -/
def sharedSteps (r : Run) : List SharedAction → Option Run
  | [] => some r
  | a :: rest => (r.sharedStep a).bind (·.sharedSteps rest)

/-- A run whose names are handed over through channels of any capacities. -/
def startShared (config : DiscoveryConfig) (addedCapacity removedCapacity eventsCapacity : Nat) : Run :=
  { start config eventsCapacity with
    added := .empty addedCapacity, removed := .empty removedCapacity }

variable {r r' : Run}

/-- A run is a shared one in which nobody else takes a step. -/
theorem sharedSteps_map_own (r : Run) (actions : List Action) :
    r.sharedSteps (actions.map .own) = r.steps actions := by
  induction actions generalizing r with
  | nil => rfl
  | cons a rest ih => exact congrArg (r.step a).bind (funext ih)

theorem sharedSteps_concat {past : List SharedAction} {s : Run} (h : r.sharedSteps past = some s)
    (hs : s.sharedStep a = some r') : r.sharedSteps (past ++ [a]) = some r' := by
  induction past generalizing r with
  | nil =>
    cases h
    exact Option.bind_eq_some_iff.mpr ⟨r', hs, rfl⟩
  | cons b past ih =>
    obtain ⟨t, ht, h⟩ := Option.bind_eq_some_iff.mp h
    exact Option.bind_eq_some_iff.mpr ⟨t, ht, ih h⟩

/-- What holds of no steps and is kept by every step holds of any steps. -/
theorem sharedSteps_induction {P : List SharedAction → Run → Prop} {s : Run}
    (hstep : ∀ past r a r', s.sharedSteps past = some r → P past r → r.sharedStep a = some r' →
      P (past ++ [a]) r')
    (hs : P [] s) (h : s.sharedSteps actions = some r) : P actions r := by
  have heq : s.sharedSteps actions = actions.foldlM sharedStep s :=
    eq_foldlM (fun _ => rfl) (fun _ _ _ => rfl) s actions
  rw [heq] at h
  refine (foldlM_induction (P := fun past r => s.sharedSteps past = some r ∧ P past r) ?_ ⟨rfl, hs⟩ h).2
  intro past r a r' hp hr'
  exact ⟨sharedSteps_concat hp.1 hr', hstep past r a r' hp.1 hp.2 hr'⟩

/-! ## What stays as it is -/

/-- What no step can undo. -/
structure Later (r r' : Run) : Prop where
  config : r'.config = r.config
  scope : r'.scope = r.scope
  tokens : ∀ t, r.tokens.isCancelled t → r'.tokens.isCancelled t
  added : r'.added.isOpen → r.added.isOpen
  removed : r'.removed.isOpen → r.removed.isOpen

theorem Later.isCancelled (h : r.Later r') (hc : r.isCancelled) : r'.isCancelled := by
  rw [Run.isCancelled, h.scope]
  exact h.tokens _ hc

theorem Step.later (h : Step r a r') : r.Later r' := by
  cases h with
  | scanFailed =>
    exact ⟨rfl, rfl, (r.group.cancelsWithin_finish r.tokens detectorTask (.error _)).mono, id, id⟩
  | stopDetector =>
    exact ⟨rfl, rfl, (r.group.cancelsWithin_finish r.tokens detectorTask (.ok ())).mono, id, id⟩
  | stopResting | refuse =>
    exact ⟨rfl, rfl, (r.group.cancelsWithin_finish r.tokens loopTask (.ok ())).mono, nofun, nofun⟩
  | announceAdded _ hc | announceRemoved _ hc =>
    obtain ⟨-, rfl⟩ := push?_eq_some.mp hc
    exact ⟨rfl, rfl, fun _ => id, id, id⟩
  | startRefused _ hc | startFailed _ hc | stopUnknown _ hc =>
    obtain ⟨rest, -, rfl⟩ := receive_eq_some.mp hc
    exact ⟨rfl, rfl, fun _ => id, id, id⟩
  | started _ hc _ hchild =>
    obtain ⟨rest, -, rfl⟩ := receive_eq_some.mp hc
    cases hchild
    exact ⟨rfl, rfl, fun _ => id, id, id⟩
  | stopClient _ hc =>
    obtain ⟨rest, -, rfl⟩ := receive_eq_some.mp hc
    exact ⟨rfl, rfl, (TokenForest.CancelsWithin.cancel ..).mono, id, id⟩
  | cancel | close => exact ⟨rfl, rfl, (TokenForest.CancelsWithin.cancel ..).mono, id, id⟩
  | tick | ping | observe =>
    rw [noteAll_eq]
    exact ⟨rfl, rfl, fun _ => id, id, id⟩
  | _ => exact ⟨rfl, rfl, fun _ => id, id, id⟩

/-- How a run can change while it takes no step itself. -/
inductive Aside (r : Run) : Run → Prop
  | mk (manager : Manager) (tokens : TokenForest) (added removed : Channel String)
    (htokens : ∀ t, r.tokens.isCancelled t → tokens.isCancelled t)
    (hadded : added.isOpen → r.added.isOpen) (hremoved : removed.isOpen → r.removed.isOpen) :
    Aside r { r with manager, tokens, added, removed }

theorem Aside.later (h : r.Aside r') : r.Later r' := by
  cases h with
  | mk _ _ _ _ htokens hadded hremoved => exact ⟨rfl, rfl, htokens, hadded, hremoved⟩

/-- A step is one of the run, or one of somebody else. -/
theorem sharedStep_cases {a : SharedAction} (h : r.sharedStep a = some r') :
    (∃ b, a = .own b ∧ Step r b r') ∨ a.own? = none ∧ r.Aside r' := by
  cases a with
  | own b => exact .inl ⟨b, rfl, .of_step h⟩
  | manage b =>
    obtain ⟨u, hu, rfl⟩ := Option.map_eq_some_iff.mp h
    exact .inr ⟨rfl, .mk _ _ _ _ (Manager.InUse.isCancelled_step hu) id id⟩
  | takeAdded | takeRemoved =>
    obtain ⟨⟨n, c⟩, hc, rfl⟩ := Option.map_eq_some_iff.mp h
    obtain ⟨rest, -, rfl⟩ := receive_eq_some.mp hc
    exact .inr ⟨rfl, .mk _ _ _ _ (fun _ => id) id id⟩
  | dropAdded =>
    cases h
    exact .inr ⟨rfl, .mk _ _ _ _ (fun _ => id) nofun id⟩
  | dropRemoved =>
    cases h
    exact .inr ⟨rfl, .mk _ _ _ _ (fun _ => id) id nofun⟩

end Discovery.Run
end AmpLink
