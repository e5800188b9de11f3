import AmpLink.Proofs.Manager.Tracking
import AmpLink.Proofs.Steps

/-!
# A manager in use

Starts, cancels, pings and calls of `wait` come in any order, and in between clients are run and their
runs end, before or after they were cancelled. Every step moves the manager, so the entries stand for the
unfinished clients all the time (`Manager.InUse.Kept`). The main statement `Manager.InUse.orderly_of_steps`
reads off what this means for tracked names, for ends, for what a start answers and for `wait`.
-/

namespace AmpLink.Manager.InUse

theorem steps_eq_foldlM (u : InUse) (actions : List Action) :
    u.steps actions = actions.foldlM step u :=
  eq_foldlM (fun _ => rfl) (fun _ _ _ => rfl) u actions

theorem steps_induction {P : List Action → InUse → Prop}
    (hstep : ∀ past u a u', P past u → u.step a = some u' → P (past ++ [a]) u') {u u' : InUse}
    (hu : P [] u) (h : u.steps actions = some u') : P actions u' :=
  foldlM_induction hstep hu (steps_eq_foldlM u actions ▸ h)

theorem step_waited {u : InUse} (h : u.step .waited = some u') :
    u' = u ∧ u.manager.waiting ∧ u.manager.isDone := by
  simp only [step, Option.ite_none_right_eq_some, Bool.and_eq_true, Option.some.injEq] at h
  exact ⟨h.2.symm, h.1⟩

theorem step_exit {u : InUse} (h : u.step (.exit k r) = some u') :
    u.manager.exit k r = some u'.manager := by
  obtain ⟨m, hm, rfl⟩ := Option.map_eq_some_iff.mp h
  exact hm

theorem step_move {u : InUse} (h : u.step a = some u') : Move u.manager u'.manager := by
  cases a with
  | start parent n made => cases h; exact .startClient
  | cancel n => cases h; exact .stay
  | cancelAll => cases h; exact .stay
  | cancelToken t => cases h; exact .stay
  | ping => cases h; exact .ping
  | pingClient k => cases h; exact .pingClient k
  | begin k =>
    obtain ⟨m, hm, rfl⟩ := Option.map_eq_some_iff.mp h
    exact .begin hm
  | exit k r => exact .exit (step_exit h)
  | wait => cases h; exact .wait
  | waited =>
    rw [(step_waited h).1]
    exact .stay

/-- Only a call of `wait` makes the manager refuse starts. -/
theorem waiting_step {u : InUse} (h : u.step a = some u') :
    u'.manager.waiting ↔ u.manager.waiting ∨ a = .wait := by
  cases a with
  | start parent n made =>
    cases h
    simp [waiting_startClient]
  | ping => cases h; simp [waiting_ping]
  | begin k =>
    obtain ⟨m, hm, rfl⟩ := Option.map_eq_some_iff.mp h
    obtain ⟨c, -, -, rfl⟩ := begin_eq_some.mp hm
    simp
  | exit k r =>
    obtain ⟨c, -, -, hm⟩ := exit_eq_some.mp (step_exit h)
    simp [hm]
  | wait => cases h; simp [wait]
  | waited => simp [(step_waited h).1]
  | _ => cases h; simp [pingClient]

/-! ## The invariant -/

/-- What holds of a manager in use after the steps `past`. -/
structure Kept (past : List Action) (u : InUse) : Prop where
  tracks : Tracks u.manager
  calls : CallsOnce u.manager
  waiting : u.manager.waiting ↔ .wait ∈ past
  waited : .waited ∈ past → u.manager.waiting ∧ u.manager.isDone

theorem Kept.start (tokens : TokenForest) : Kept [] (.start tokens) where
  tracks := .start
  calls := .start
  waiting := by simp [InUse.start, Manager.start]
  waited h := by contradiction

theorem Kept.step (h : Kept past u) (hs : u.step a = some u') : Kept (past ++ [a]) u' where
  tracks := h.tracks.move (step_move hs)
  calls := h.calls.move (step_move hs)
  waiting := by
    rw [waiting_step hs, h.waiting, List.mem_append, List.mem_singleton]
    exact or_congr_right eq_comm
  waited hw := by
    rw [List.mem_append, List.mem_singleton] at hw
    rcases hw with hw | rfl
    · obtain ⟨hwait, hdone⟩ := h.waited hw
      have hclosed := (step_move hs).closed hwait
      exact ⟨hclosed.waiting, hclosed.isDone hdone⟩
    · obtain ⟨rfl, hboth⟩ := step_waited hs
      exact hboth

theorem kept_of_steps {tokens : TokenForest} (h : (start tokens).steps actions = some u) :
    Kept actions u :=
  steps_induction (fun _ _ _ _ => Kept.step) (Kept.start tokens) h

theorem closed_of_steps {u : InUse} (hw : u.manager.waiting) (h : u.steps later = some u') :
    Closed u.manager u'.manager :=
  steps_induction (P := fun _ v => Closed u.manager v.manager)
    (fun _ _ _ _ hc hs => hc.trans ((step_move hs).closed hc.waiting)) (.refl hw) h

theorem step_start_of_error {u : InUse}
    (h : (u.manager.startClient u.tokens parent n made).1 = .error e) :
    u.step (.start parent n made) = some u := by
  rcases startClient_cases u.manager u.tokens parent n made with
    ⟨e, -, hs⟩ | ⟨e, -, -, hs⟩ | ⟨-, -, hs⟩
  · rw [step, hs]
  · rw [step, hs]
  · rw [hs] at h
    contradiction

theorem step_start_of_ok {u : InUse} (h : (u.manager.startClient u.tokens parent n made).1 = .ok k) :
    k = u.manager.clients.length ∧ u.step (.start parent n made) =
      some ⟨u.manager.withClient n (u.tokens.child parent).1, (u.tokens.child parent).2⟩ := by
  rcases startClient_cases u.manager u.tokens parent n made with ⟨e, -, hs⟩ | ⟨e, -, -, hs⟩ | ⟨-, -, hs⟩
  · rw [hs] at h
    contradiction
  · rw [hs] at h
    contradiction
  · rw [step, hs]
    rw [hs] at h
    cases h
    exact ⟨rfl, rfl⟩

/-! ## The main statement -/

/-- How a manager stands after `actions`. -/
structure Orderly (actions : List Action) (u : InUse) : Prop where
  /-- The tracked names are those of the clients that were started and whose runs have not ended. -/
  tracked : ∀ n, n ∈ u.manager.interfaces ↔
    ∃ c ∈ u.manager.clients, c.interface = n ∧ c.stage.isEnded = false
  /-- No interface has two such clients. -/
  single : ∀ (j k : Nat) c d, u.manager.clients[j]? = some c → u.manager.clients[k]? = some d →
    c.stage.isEnded = false → d.stage.isEnded = false → c.interface = d.interface → j = k
  /-- When a run ends, the entry of its client is taken out, and no other. -/
  exit : ∀ k r u', u.step (.exit k r) = some u' → k ∈ u.manager.tracked ∧
    u'.manager.entries = u.manager.entries.filter (·.client ≠ k)
  /-- After `wait` a start is refused, whatever is tracked. -/
  busy : .wait ∈ actions → ∀ parent n made,
    (u.manager.startClient u.tokens parent n made).1 = .error (.client (.busy "shutdown"))
  /-- Before, a start is refused if its name is tracked. -/
  taken : .wait ∉ actions → ∀ parent n made, n ∈ u.manager.interfaces →
    (u.manager.startClient u.tokens parent n made).1 = .error (.client (.alreadyExists n))
  /-- Otherwise it fails exactly if the client cannot be made, and in the same way. -/
  free : .wait ∉ actions → ∀ parent n made, n ∉ u.manager.interfaces →
    (u.manager.startClient u.tokens parent n made).1 = made.map fun _ => u.manager.clients.length
  /-- A start that succeeds adds the client of the next number, which has not been run, and the entry that
  stands for it, both with a new token below that of the parent. -/
  started : ∀ parent n made k, (u.manager.startClient u.tokens parent n made).1 = .ok k →
    ∃ u' token, u.step (.start parent n made) = some u' ∧ (token, u'.tokens) = u.tokens.child parent ∧
      k = u.manager.clients.length ∧
      u'.manager.clients = u.manager.clients ++
        [{ interface := n, token, pings := 0, runs := 0, stage := .spawned }] ∧
      u'.manager.entries = u.manager.entries ++ [{ interface := n, client := k, token }]
  /-- A start that fails changes neither the manager nor a token. -/
  unchanged : ∀ parent n made e, (u.manager.startClient u.tokens parent n made).1 = .error e →
    u.step (.start parent n made) = some u
  /-- After `wait` no entry comes in, whatever happens later. -/
  closed : .wait ∈ actions → ∀ later u', u.steps later = some u' →
    u'.manager.entries.Sublist u.manager.entries
  /-- Once a call of `wait` has returned, nothing is tracked and every run has ended. -/
  waited : .waited ∈ actions →
    u.manager.entries = [] ∧ ∀ c ∈ u.manager.clients, c.stage.isEnded = true

/-- However a manager is used, among whatever tokens, it is orderly. -/
theorem orderly_of_steps {tokens : TokenForest} {actions : List Action} {u : InUse}
    (h : (start tokens).steps actions = some u) : Orderly actions u := by
  have hk := kept_of_steps h
  have hwaiting : .wait ∉ actions → u.manager.waiting = false := by
    intro hw
    rw [← hk.waiting] at hw
    exact Bool.eq_false_iff.mpr hw
  refine
    { tracked := fun n => hk.tracks.mem_interfaces_iff
      single := fun j k c d hj hk' hc hd hi => hk.tracks.eq_of_unfinished hj hk' hc hd hi
      exit := fun k r u' hs => ?_
      busy := fun hw parent n made => startClient_of_waiting (hk.waiting.mpr hw)
      taken := fun hw parent n made hn => startClient_of_mem (hwaiting hw) hn
      free := fun hw parent n made hn => startClient_of_not_mem (hwaiting hw) hn
      started := fun parent n made k hk => ?_
      unchanged := fun parent n made e he => step_start_of_error he
      closed := fun hw later u' hs => (closed_of_steps (hk.waiting.mpr hw) hs).entries
      waited := fun hw => ?_ }
  · have he := step_exit hs
    refine ⟨?_, hk.tracks.exit_entries he⟩
    obtain ⟨c, hc, hstage, -⟩ := exit_eq_some.mp he
    exact List.mem_map_of_mem (hk.tracks.entry_mem hc (by rw [hstage]; rfl))
  · obtain ⟨rfl, hstep⟩ := step_start_of_ok hk
    exact ⟨_, _, hstep, rfl, rfl, rfl, rfl⟩
  · have hdone := (hk.waited hw).2
    exact ⟨hk.tracks.entries_eq_nil hdone, List.all_eq_true.mp hdone⟩

/-- A restart under the same name, a start that is refused and one that fails, an end after a cancel and
one with an error, and a call of `wait` that returns. -/
def restart : List Action :=
  [.start ⟨[0]⟩ "eth0" (.ok ()), .begin 0, .cancel "eth0", .start ⟨[0]⟩ "eth0" (.ok ()),
    .exit 0 (.ok ()), .start ⟨[0]⟩ "eth0" (.error (.other "no socket")), .start ⟨[0]⟩ "eth0" (.ok ()),
    .ping, .begin 1, .wait, .start ⟨[0]⟩ "eth1" (.ok ()), .exit 1 (.error (.other "down")), .waited]

theorem orderly_restart :
    ∃ u, (start .empty).steps restart = some u ∧ Orderly restart u ∧ u.manager.clients.length = 2 :=
  ⟨_, rfl, orderly_of_steps rfl, rfl⟩

end AmpLink.Manager.InUse
