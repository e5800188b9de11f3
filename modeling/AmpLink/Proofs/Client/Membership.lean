import AmpLink.Client.FanOut
import AmpLink.Proofs.Client.Endings
import Mathlib.Data.List.Induction
import Mathlib.Data.List.TakeWhile

/-!
# The members of a group

`FanOut.Move` says what an action leads to. A group has the members that came in before it was run, in this
order and each name once (`FanOut.enrolled`).
-/

namespace AmpLink

namespace FanOut

open ClientTree (Joins Finishes names)

/-- The action runs the whole. -/
def Action.isRun : Action → Bool
  | .run => true
  | _ => false

/-- The names in a group after an action before the first run: each name comes in once. -/
def enrol (names : List String) : Action → List String
  | .add [] new => if new.name ∈ names then names else names ++ [new.name]
  | _ => names

/-- The names that have come in: those of new members before the first run. -/
def added (actions : List Action) : List String :=
  (actions.takeWhile fun a => !a.isRun).foldl enrol []

/-- No member changes its name when it takes in members itself. -/
def NamesKept (actions : List Action) : Prop :=
  ∀ before i place new after, actions = before ++ .add (i :: place) new :: after →
    names ((start.steps before).step (.add (i :: place) new)).tree.members =
      names (start.steps before).tree.members

/-! ## Single actions -/

/-- What an action leads to. -/
inductive Move (f : FanOut) : Action → FanOut → Prop
  | refused {place : List Nat} {new : ClientTree} {e : ClientError} : f.add place new = .error e →
    Move f (.add place new) f
  | joined {place : List Nat} {new c : ClientTree} : Joins new place f.tree c →
    Move f (.add place new) { f with tree := c }
  | sent (c : Command) : Move f (.send c) (f.send c)
  | begun {members : List ClientTree} : f.tree = .group members none → Move f .run f.run
  | again : f.tree.isStarted → Move f .run
    { f with results := f.results ++ [.error (.client (.alreadyRunning f.tree.name))] }
  | idle {place : List Nat} {r : Outcome} : f.tree.finish f.tokens r place = none →
    Move f (.finish place r) f
  | ended {place : List Nat} {r : Outcome} {e : Option Outcome} {tree : ClientTree}
    {tokens : TokenForest} : Finishes f.tokens r place f.tree e tree tokens →
    Move f (.finish place r) { f with tree, tokens, results := f.results ++ e.toList }
  | cancelled (t : Token) : Move f (.cancel t) (f.cancel t)

variable {f f' : FanOut} {a : Action} {actions : List Action} {members : List ClientTree}
  {tasks : Option TaskGroup} {place : List Nat} {new : ClientTree}

theorem step_add_of_error (h : f.add place new = .error e) : f.step (.add place new) = f := by
  rw [step, h]
  rfl

theorem add_group (h : f.tree = .group members tasks) (new : ClientTree) : f.add [] new =
    if f.tree.isStarted then .error (.busy new.name)
    else if new.name ∈ names members then .error (.alreadyExists new.name)
    else .ok { f with tree := .group (members ++ [new]) none } := by
  cases tasks with
  | none =>
    simp only [add, h, ClientTree.add, ClientTree.isStarted, Option.isSome_none, Bool.false_eq_true,
      if_false]
    split <;> rfl
  | some g =>
    rw [add, h]
    rfl

theorem tree_run (f : FanOut) : f.run.tree = (ClientTree.start f.tokens f.outer f.tree).2.1 := rfl

theorem tokens_run (f : FanOut) : f.run.tokens = (ClientTree.start f.tokens f.outer f.tree).2.2 := rfl

theorem results_run (f : FanOut) :
    f.run.results = f.results ++ (ClientTree.start f.tokens f.outer f.tree).1.toList := rfl

theorem run_of_isStarted (h : f.tree.isStarted) : f.run =
    { f with results := f.results ++ [.error (.client (.alreadyRunning f.tree.name))] } := by
  cases ht : f.tree with
  | leaf id name runs =>
    rw [ht] at h
    contradiction
  | group members tasks =>
    cases tasks with
    | none =>
      rw [ht] at h
      contradiction
    | some g => simp [run, ht, ClientTree.start]

theorem move_add (f : FanOut) (place : List Nat) (new : ClientTree) :
    Move f (.add place new) (f.step (.add place new)) := by
  cases h : f.add place new with
  | error e =>
    rw [step_add_of_error h]
    exact .refused h
  | ok f' =>
    have hstep : f.step (.add place new) = f' := by
      rw [step, h]
      rfl
    rw [hstep]
    rw [add] at h
    split at h
    · contradiction
    · next x hx =>
      cases x with
      | error e => contradiction
      | ok tree =>
        cases h
        exact .joined (ClientTree.joins_of_add hx)

theorem move_finish (f : FanOut) (place : List Nat) (r : Outcome) :
    Move f (.finish place r) (f.step (.finish place r)) := by
  rw [step, finish]
  split
  · next h => exact .idle h
  · next e tree tokens h => exact .ended (ClientTree.finish_eq_some.mp h)

theorem move_step (h : f.tree = .group members tasks) (a : Action) : Move f a (f.step a) := by
  cases a with
  | add place new => exact move_add f place new
  | send c => exact .sent c
  | run =>
    cases tasks with
    | none => exact .begun h
    | some g =>
      have hs : f.tree.isStarted := by
        rw [h]
        rfl
      rw [step, run_of_isStarted hs]
      exact .again hs
  | finish place r => exact move_finish f place r
  | cancel t => exact .cancelled t

theorem Move.group (h : Move f a f') (hg : ∃ members tasks, f.tree = .group members tasks) :
    ∃ members tasks, f'.tree = .group members tasks := by
  obtain ⟨members, tasks, ht⟩ := hg
  cases h with
  | joined hj =>
    rw [ht] at hj
    cases hj <;> exact ⟨_, _, rfl⟩
  | begun hb =>
    rw [tree_run, hb, ClientTree.start_group]
    exact ⟨_, _, rfl⟩
  | ended hf =>
    rw [ht] at hf
    cases hf
    exact ⟨_, _, rfl⟩
  | refused | sent | again | idle | cancelled => exact ⟨members, tasks, ht⟩

theorem Move.outer (h : Move f a f') : f'.outer = f.outer := by
  cases h <;> rfl

theorem steps_concat (f : FanOut) (actions : List Action) (a : Action) :
    f.steps (actions ++ [a]) = (f.steps actions).step a := by
  rw [steps, List.foldl_append]
  rfl

theorem group_steps (actions : List Action) :
    ∃ members tasks, (start.steps actions).tree = .group members tasks := by
  induction actions using List.reverseRecOn with
  | nil => exact ⟨[], none, rfl⟩
  | append_singleton actions a ih =>
    obtain ⟨members, tasks, ht⟩ := ih
    rw [steps_concat]
    exact (move_step ht a).group ⟨members, tasks, ht⟩

theorem outer_steps (actions : List Action) : (start.steps actions).outer = start.outer := by
  induction actions using List.reverseRecOn with
  | nil => rfl
  | append_singleton actions a ih =>
    obtain ⟨members, tasks, ht⟩ := group_steps actions
    rw [steps_concat]
    exact (move_step ht a).outer.trans ih

/-! ## Names -/

theorem nodup_enrol {ns : List String} (h : ns.Nodup) (a : Action) : (enrol ns a).Nodup := by
  rw [enrol.eq_def]
  split
  · split
    · exact h
    · next hn => exact List.nodup_append.mpr ⟨h, List.nodup_singleton _, by grind⟩
  · exact h

theorem nodup_added (actions : List Action) : (added actions).Nodup := by
  rw [added]
  generalize actions.takeWhile _ = gathering
  induction gathering using List.reverseRecOn with
  | nil => exact List.nodup_nil
  | append_singleton gathering a ih =>
    rw [List.foldl_append]
    exact nodup_enrol ih a

theorem added_concat_of_mem (h : .run ∈ actions) (a : Action) :
    added (actions ++ [a]) = added actions := by
  obtain ⟨before, after, rfl⟩ := List.append_of_mem h
  simp [added, List.takeWhile_append, Action.isRun]

theorem added_concat_of_not_mem (h : .run ∉ actions) (a : Action) :
    added (actions ++ [a]) = enrol (added actions) a := by
  have hall : ∀ b ∈ actions, (!b.isRun) = true := by
    intro b hb
    cases b with
    | run => contradiction
    | _ => rfl
  rw [added, added, List.takeWhile_append_of_pos hall, List.takeWhile_eq_self_iff.mpr hall,
    List.foldl_append]
  cases a <;> rfl

theorem added_concat_of_enrol (h : ∀ ns, enrol ns a = ns) : added (actions ++ [a]) = added actions := by
  by_cases hr : .run ∈ actions
  · exact added_concat_of_mem hr a
  · rw [added_concat_of_not_mem hr, h]

theorem NamesKept.of_append (h : NamesKept (actions ++ more)) : NamesKept actions := by
  intro before i place new after heq
  exact h before i place new (after ++ more) (by rw [heq, List.append_assoc, List.cons_append])

theorem namesKept_of_top (h : ∀ place new, .add place new ∈ actions → place = []) :
    NamesKept actions := by
  intro before i place new after heq
  have hplace := h (i :: place) new (by simp [heq])
  contradiction

/-- The members of a group after `actions`. -/
structure Enrolled (actions : List Action) (f : FanOut) : Prop where
  group : ∃ members tasks, f.tree = .group members tasks
  isStarted : f.tree.isStarted ↔ .run ∈ actions
  names : names f.tree.members = added actions
  outer : f.outer = start.outer

namespace Enrolled

theorem start : Enrolled [] start where
  group := ⟨[], none, rfl⟩
  isStarted := by simp [FanOut.start, ClientTree.empty, ClientTree.isStarted]
  names := rfl
  outer := rfl

theorem name (h : Enrolled actions f) :
    f.tree.name = "multiclient-" ++ ",".intercalate (added actions) := by
  obtain ⟨members, tasks, ht⟩ := h.group
  have hnames := h.names
  rw [ht] at hnames ⊢
  rw [ClientTree.name, ← hnames]
  rfl

theorem tree_of_not_mem (h : Enrolled actions f) (hr : .run ∉ actions) :
    ∃ members, f.tree = .group members none := by
  obtain ⟨members, tasks, ht⟩ := h.group
  cases tasks with
  | none => exact ⟨members, ht⟩
  | some g =>
    refine absurd (h.isStarted.mp ?_) hr
    rw [ht]
    rfl

theorem add (h : Enrolled actions f) (new : ClientTree) : f.add [] new =
    if f.tree.isStarted then .error (.busy new.name)
    else if new.name ∈ added actions then .error (.alreadyExists new.name)
    else .ok { f with tree := .group (f.tree.members ++ [new]) none } := by
  obtain ⟨members, tasks, ht⟩ := h.group
  have hm : f.tree.members = members := by rw [ht]; rfl
  rw [add_group ht, ← h.names, hm]

/-- An action but the run that leaves the members' names. -/
theorem keep (h : Enrolled actions f) (hr : .run ∈ actions ++ [a] ↔ .run ∈ actions)
    (hadd : added (actions ++ [a]) = added actions)
    (hg : ∃ members tasks, f'.tree = .group members tasks)
    (hs : f'.tree.isStarted = f.tree.isStarted)
    (hn : ClientTree.names f'.tree.members = ClientTree.names f.tree.members)
    (ho : f'.outer = f.outer) : Enrolled (actions ++ [a]) f' where
  group := hg
  isStarted := by rw [hs, h.isStarted, hr]
  names := hn.trans (h.names.trans hadd.symm)
  outer := ho.trans h.outer

theorem added_of_error (h : Enrolled actions f) (he : f.add place new = .error e) :
    added (actions ++ [.add place new]) = added actions := by
  cases place with
  | cons i place => exact added_concat_of_enrol fun _ => rfl
  | nil =>
    by_cases hr : .run ∈ actions
    · exact added_concat_of_mem hr _
    · rw [h.add, if_neg (hr ∘ h.isStarted.mp)] at he
      split at he
      · next hmem => rw [added_concat_of_not_mem hr, enrol, if_pos hmem]
      · contradiction

theorem top (h : Enrolled actions f) (hj : Joins new [] f.tree c) :
    Enrolled (actions ++ [.add [] new]) { f with tree := c } := by
  have hr := h.isStarted
  have hnames := h.names
  generalize f.tree = tree at hj hr hnames
  cases hj with
  | @here members hmem =>
    have hr : .run ∉ actions := fun hmem => absurd (hr.mpr hmem) Bool.false_ne_true
    have hnames : ClientTree.names members = added actions := hnames
    refine ⟨⟨_, _, rfl⟩, ?_, ?_, h.outer⟩
    · simp [ClientTree.isStarted, hr]
    · rw [added_concat_of_not_mem hr, enrol, if_neg (hnames ▸ hmem), ← hnames]
      simp [ClientTree.names_eq_map, ClientTree.members]

theorem step (h : Enrolled actions f) (hf : f = FanOut.start.steps actions)
    (hn : NamesKept (actions ++ [a])) : Enrolled (actions ++ [a]) (f.step a) := by
  obtain ⟨members, tasks, ht⟩ := h.group
  have hlast : ∀ i place new, a = .add (i :: place) new →
      ClientTree.names (f.step a).tree.members = ClientTree.names f.tree.members := by
    rintro i place new rfl
    rw [hf]
    exact hn actions i place new [] rfl
  have hmove := move_step ht a
  generalize f.step a = f' at hlast hmove
  cases hmove with
  | refused he => exact h.keep (by simp) (h.added_of_error he) h.group rfl rfl rfl
  | @joined place new c hj =>
    cases place with
    | nil => exact h.top hj
    | cons i place =>
      refine h.keep (by simp) (added_concat_of_enrol fun _ => rfl) ?_ hj.isStarted (hlast i place new rfl) rfl
      rw [ht] at hj
      cases hj
      exact ⟨_, _, rfl⟩
  | begun hb =>
    have htree := f.tree_run
    rw [hb, ClientTree.start_group] at htree
    refine ⟨⟨_, _, htree⟩, ?_, ?_, h.outer⟩
    · rw [htree]
      simp [ClientTree.isStarted]
    · rw [htree, added_concat_of_enrol fun _ => rfl, ← h.names, hb]
      exact ClientTree.names_startAll ..
  | again hs =>
    exact ⟨h.group, by simp [hs], h.names.trans (added_concat_of_enrol fun _ => rfl).symm, h.outer⟩
  | ended hf =>
    refine h.keep (by simp) (added_concat_of_enrol fun _ => rfl) ?_ hf.isStarted hf.names_members rfl
    rw [ht] at hf
    cases hf
    exact ⟨_, _, rfl⟩
  | sent | idle | cancelled =>
    exact h.keep (by simp) (added_concat_of_enrol fun _ => rfl) h.group rfl rfl rfl

end Enrolled

theorem enrolled (hn : NamesKept actions) : Enrolled actions (start.steps actions) := by
  induction actions using List.reverseRecOn with
  | nil => exact .start
  | append_singleton actions a ih =>
    rw [steps_concat]
    exact (ih hn.of_append).step rfl hn

end FanOut
end AmpLink
