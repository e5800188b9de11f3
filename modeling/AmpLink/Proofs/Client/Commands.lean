import AmpLink.Proofs.Client.Membership

/-!
# Commands to a group

A leaf stays at the places where it has come in (`FanOut.stays_steps`): running a client, the end of a leaf
and new members take none away. So every command that is given to the root of a tree is told to a leaf once
for each of the places that it has taken by then. The main statement is `FanOut.reached_of_steps`.
-/

namespace AmpLink

namespace ClientTree

variable {c c' m new : ClientTree} {members : List ClientTree} {place p q : List Nat} {id i k : Nat}

/-! ## The leaf at a place -/

/-- The number of the leaf at a place. -/
def leaf? : List Nat → ClientTree → Option Nat
  | [], .leaf id _ _ => some id
  | i :: place, .group members _ => members[i]?.bind (leaf? place)
  | _, _ => none

mutual

/-- The places of a leaf, from left to right. -/
def placesOf (id : Nat) : ClientTree → List (List Nat)
  | .leaf n _ _ => if n = id then [[]] else []
  | .group members _ => placesAmong id 0 members

/-- The places of a leaf among members, the first of them being number `i`. -/
def placesAmong (id i : Nat) : List ClientTree → List (List Nat)
  | [] => []
  | c :: rest => (placesOf id c).map (i :: ·) ++ placesAmong id (i + 1) rest

end

mutual

theorem count_leaves (id : Nat) : ∀ c : ClientTree, c.leaves.count id = (c.placesOf id).length
  | .leaf n name runs => by
    rw [leaves, placesOf]
    by_cases h : n = id <;> simp [h]
  | .group members tasks => count_leavesOfAll id 0 members

theorem count_leavesOfAll (id i : Nat) : ∀ members : List ClientTree,
    (leavesOfAll members).count id = (placesAmong id i members).length
  | [] => rfl
  | c :: rest => by
    rw [leavesOfAll, placesAmong, List.count_append, List.length_append, List.length_map,
      count_leaves id c, count_leavesOfAll id (i + 1) rest]

end

theorem mem_placesAmong_cons : p ∈ placesAmong id i (c :: members) ↔
    (∃ q ∈ c.placesOf id, p = i :: q) ∨ p ∈ placesAmong id (i + 1) members := by
  simp [placesAmong, eq_comm]

mutual

theorem mem_placesOf : ∀ {c : ClientTree} {p : List Nat}, p ∈ c.placesOf id ↔ c.leaf? p = some id
  | .leaf n name runs, p => by
    cases p <;> by_cases h : n = id <;> simp [placesOf, leaf?, h]
  | .group members tasks, p => by
    rw [placesOf, mem_placesAmong]
    cases p with
    | nil => simp [leaf?]
    | cons k q => simp [leaf?]

theorem mem_placesAmong : ∀ {members : List ClientTree} {i : Nat} {p : List Nat},
    p ∈ placesAmong id i members ↔ ∃ k q, p = (i + k) :: q ∧ members[k]?.bind (leaf? q) = some id
  | [], i, p => by simp [placesAmong]
  | c :: rest, i, p => by
    rw [mem_placesAmong_cons, mem_placesAmong]
    constructor
    · rintro (⟨q, hq, rfl⟩ | ⟨k, q, rfl, hk⟩)
      · exact ⟨0, q, rfl, mem_placesOf.mp hq⟩
      · exact ⟨k + 1, q, by rw [Nat.add_right_comm, Nat.add_assoc], hk⟩
    · rintro ⟨_ | k, q, rfl, hk⟩
      · exact .inl ⟨q, mem_placesOf.mpr hk, rfl⟩
      · exact .inr ⟨k, q, by rw [Nat.add_right_comm, Nat.add_assoc], hk⟩

end

mutual

theorem nodup_placesOf (id : Nat) : ∀ c : ClientTree, (c.placesOf id).Nodup
  | .leaf n name runs => by
    rw [placesOf]
    split <;> simp
  | .group members tasks => nodup_placesAmong id 0 members

theorem nodup_placesAmong (id i : Nat) : ∀ members : List ClientTree, (placesAmong id i members).Nodup
  | [] => List.nodup_nil
  | c :: rest => by
    rw [placesAmong, List.nodup_append]
    refine ⟨(nodup_placesOf id c).map fun _ _ h => (List.cons.inj h).2, nodup_placesAmong id (i + 1) rest, ?_⟩
    rintro p hp _ hq rfl
    obtain ⟨q, -, rfl⟩ := List.mem_map.mp hp
    obtain ⟨k, q', heq, -⟩ := mem_placesAmong.mp hq
    have hk := (List.cons.inj heq).1
    omega

end

/-! ## What happens to a leaf at its place -/

/-- Running a client leaves every leaf where it is. -/
theorem leaf?_start (tokens : TokenForest) (token : Token) (c : ClientTree) (p : List Nat) :
    (start tokens token c).2.1.leaf? p = c.leaf? p := by
  induction p generalizing c tokens token with
  | nil =>
    cases c with
    | leaf => rfl
    | group members tasks => cases tasks <;> rfl
  | cons i p ih =>
    cases c with
    | leaf => rfl
    | group members tasks =>
      cases tasks with
      | some => rfl
      | none =>
        rw [start_group, leaf?, leaf?, startMembers]
        cases hm : members[i]? with
        | none =>
          have hlen := length_startAll (tokens.child token).2
            (.start (tokens.child token).1 members.length) 0 members
          rw [List.getElem?_eq_none (by rw [hlen]; exact List.getElem?_eq_none_iff.mp hm)]
        | some m =>
          obtain ⟨tokens', hk⟩ := getElem?_startAll (tokens.child token).2
            (.start (tokens.child token).1 members.length) 0 hm
          rw [hk]
          exact ih tokens' (tokens.child token).1 m

/-- So does the end of a leaf. -/
theorem Finishes.leaf? (h : Finishes tokens r place c e c' tokens') (p : List Nat) :
    c'.leaf? p = c.leaf? p := by
  induction h generalizing p with
  | leaf id name hr => cases p <;> rfl
  | @group members i place m m' tasks tasks' ended e tokens₁ tokens' hm _ _ ih =>
    cases p with
    | nil => rfl
    | cons k p =>
      rw [ClientTree.leaf?, ClientTree.leaf?, getElem?_set_of_getElem? hm]
      split
      · next hk =>
        rw [hk, hm]
        exact ih p
      · rfl

/-- A new member takes a place of its group that was free, and its leaves stand below that place. -/
theorem Joins.exists_slot (h : Joins new place c c') : ∃ k, (∀ q, c.leaf? (place ++ k :: q) = none) ∧
    ∀ p id, c'.leaf? p = some id ↔
      c.leaf? p = some id ∨ ∃ q, p = place ++ k :: q ∧ new.leaf? q = some id := by
  induction h with
  | @here members hn =>
    have hfree : members[members.length]? = none := List.getElem?_eq_none (Nat.le_refl _)
    refine ⟨members.length, fun q => congrArg (·.bind (leaf? q)) hfree, fun p id => ?_⟩
    cases p with
    | nil => simp [leaf?]
    | cons k p =>
      simp only [leaf?, List.nil_append, List.cons.injEq]
      by_cases hk : k = members.length
      · subst hk
        simp
      · have hsame : (members ++ [new])[k]? = members[k]? := by
          rw [List.getElem?_append]
          split
          · rfl
          · rw [List.getElem?_eq_none (by simp; omega), List.getElem?_eq_none (by omega)]
        simp [hsame, hk]
  | @inner members i place m m' tasks hm _ ih =>
    obtain ⟨k, hfree, hiff⟩ := ih
    refine ⟨k, fun q => ?_, fun p id => ?_⟩
    · rw [List.cons_append, leaf?, hm]
      exact hfree q
    · cases p with
      | nil => simp [leaf?]
      | cons j p =>
        simp only [leaf?, getElem?_set_of_getElem? hm, List.cons_append, List.cons.injEq]
        by_cases hj : j = i
        · subst hj
          simp [hm, hiff]
        · simp [hj]

end ClientTree

namespace FanOut

open ClientTree (Joins)

variable {f : FanOut} {a : Action} {actions before after : List Action} {p place : List Nat} {id : Nat}
  {new : ClientTree}

/-! ## What happens to a leaf at its place -/

/-- A member that is taken gets a place of its own, and its leaves stand below that place. -/
theorem leaf?_add (h : ∃ f', f.add place new = .ok f') : ∃ k, (∀ q, f.tree.leaf? (place ++ k :: q) = none) ∧
    ∀ p id, (f.step (.add place new)).tree.leaf? p = some id ↔
      f.tree.leaf? p = some id ∨ ∃ q, p = place ++ k :: q ∧ new.leaf? q = some id := by
  obtain ⟨f', hadd⟩ := h
  have hmove := move_add f place new
  generalize f.step (.add place new) = f₁ at hmove ⊢
  cases hmove with
  | refused herror =>
    rw [hadd] at herror
    contradiction
  | joined hj => exact hj.exists_slot

/-- What an action does to the leaves: nothing, or a new member comes in with its own. -/
theorem leaf?_step (f : FanOut) (a : Action) : (∀ p, (f.step a).tree.leaf? p = f.tree.leaf? p) ∨
    ∃ place new k, a = .add place new ∧ (∃ f', f.add place new = .ok f') ∧
      (∀ q, f.tree.leaf? (place ++ k :: q) = none) ∧
      ∀ p id, (f.step a).tree.leaf? p = some id ↔
        f.tree.leaf? p = some id ∨ ∃ q, p = place ++ k :: q ∧ new.leaf? q = some id := by
  cases a with
  | send c | cancel t => exact .inl fun _ => rfl
  | run => exact .inl (ClientTree.leaf?_start f.tokens f.outer f.tree)
  | finish place r =>
    have hmove := move_finish f place r
    generalize f.step (.finish place r) = f' at hmove ⊢
    cases hmove with
    | idle => exact .inl fun _ => rfl
    | ended hf => exact .inl hf.leaf?
  | add place new =>
    cases hadd : f.add place new with
    | error e => exact .inl fun p => by rw [step_add_of_error hadd]
    | ok f' =>
      obtain ⟨k, hfree, hiff⟩ := leaf?_add ⟨f', hadd⟩
      exact .inr ⟨place, new, k, rfl, ⟨f', hadd⟩, hfree, hiff⟩

theorem stays_step (f : FanOut) (a : Action) (h : f.tree.leaf? p = some id) :
    (f.step a).tree.leaf? p = some id := by
  rcases leaf?_step f a with hsame | ⟨_, _, _, -, -, -, hiff⟩
  · rw [hsame, h]
  · exact (hiff p id).mpr (.inl h)

/-- A leaf stays where it has come in. -/
theorem stays_steps (f : FanOut) (actions : List Action) (h : f.tree.leaf? p = some id) :
    (f.steps actions).tree.leaf? p = some id := by
  induction actions using List.reverseRecOn with
  | nil => exact h
  | append_singleton actions a ih =>
    rw [steps_concat]
    exact stays_step _ a ih

theorem steps_append (f : FanOut) (before after : List Action) :
    f.steps (before ++ after) = (f.steps before).steps after := List.foldl_append ..

/-- Where a leaf stands, it stood from the beginning, or it has come in with a new member. -/
theorem came_of_steps (h : (f.steps actions).tree.leaf? p = some id) :
    f.tree.leaf? p = some id ∨ ∃ before place new after k q,
      actions = before ++ .add place new :: after ∧ (∃ f', (f.steps before).add place new = .ok f') ∧
      p = place ++ k :: q ∧ new.leaf? q = some id ∧ (f.steps before).tree.leaf? p = none := by
  induction actions using List.reverseRecOn with
  | nil => exact .inl h
  | append_singleton actions a ih =>
    rw [steps_concat] at h
    cases hold : (f.steps actions).tree.leaf? p with
    | some id' =>
      have hid := stays_step _ a hold
      rw [h, Option.some.injEq] at hid
      refine (ih (hid ▸ hold)).imp_right ?_
      rintro ⟨before, place, new, after, k, q, heq, hrest⟩
      exact ⟨before, place, new, after ++ [a], k, q, by rw [heq, List.append_assoc, List.cons_append], hrest⟩
    | none =>
      rcases leaf?_step (f.steps actions) a with hsame | ⟨place, new, k, rfl, hadd, -, hiff⟩
      · rw [hsame, hold] at h
        contradiction
      · rcases (hiff p id).mp h with h | ⟨q, hp, hq⟩
        · rw [hold] at h
          contradiction
        · exact .inr ⟨actions, place, new, [], k, q, rfl, hadd, hp, hq, hold⟩

/-! ## What a leaf is told -/

/-- The commands among actions. -/
def commands (actions : List Action) : List Command :=
  actions.filterMap fun
    | .send c => some c
    | _ => none

/-- What a leaf at so many places is told by an action. -/
def told (places : Nat) : Action → List Command
  | .send c => List.replicate places c
  | _ => []

theorem Move.delivered (h : Move f a f') (ha : ∀ c, a ≠ .send c) : f'.delivered = f.delivered := by
  cases h with
  | sent c => exact absurd rfl (ha c)
  | _ => rfl

theorem map_filter_map_pair (l : List Nat) (c : Command) :
    ((l.map (·, c)).filter (·.1 = id)).map (·.2) = List.replicate (l.count id) c := by
  rw [List.filter_map, List.map_map, List.count_eq_length_filter]
  exact List.map_const' ..

theorem heard_step (f : FanOut) (a : Action) (id : Nat) :
    (f.step a).heard id = f.heard id ++ told (f.tree.placesOf id).length a := by
  cases a with
  | send c =>
    rw [step, send, heard, List.filter_append, List.map_append, map_filter_map_pair,
      ClientTree.count_leaves]
    rfl
  | run | cancel t => exact (List.append_nil _).symm
  | add place new =>
    rw [heard, (move_add f place new).delivered fun _ h => by contradiction]
    exact (List.append_nil _).symm
  | finish place r =>
    rw [heard, (move_finish f place r).delivered fun _ h => by contradiction]
    exact (List.append_nil _).symm

theorem heard_steps (f : FanOut) (actions : List Action) (id : Nat) :
    (f.steps actions).heard id = f.heard id ++ actions.zipIdx.flatMap fun (a, n) =>
      told ((f.steps (actions.take n)).tree.placesOf id).length a := by
  induction actions using List.reverseRecOn with
  | nil => exact (List.append_nil _).symm
  | append_singleton actions a ih =>
    have hpast : actions.zipIdx.flatMap (fun (b, n) =>
        told ((f.steps ((actions ++ [a]).take n)).tree.placesOf id).length b) =
        actions.zipIdx.flatMap fun (b, n) => told ((f.steps (actions.take n)).tree.placesOf id).length b := by
      refine List.flatMap_congr ?_
      rintro ⟨b, n⟩ hx
      have hn : n < actions.length := List.snd_lt_of_mem_zipIdx hx
      simp only [List.take_append_of_le_length (Nat.le_of_lt hn)]
    rw [steps_concat, heard_step, ih, List.zipIdx_append, List.flatMap_append, hpast, List.append_assoc]
    simp

theorem length_placesOf_eq (f g : FanOut) (h : ∀ p, f.tree.leaf? p = some id ↔ g.tree.leaf? p = some id) :
    (f.tree.placesOf id).length = (g.tree.placesOf id).length := by
  refine List.Perm.length_eq ((List.perm_ext_iff_of_nodup (ClientTree.nodup_placesOf ..)
    (ClientTree.nodup_placesOf ..)).mpr fun p => ?_)
  rw [ClientTree.mem_placesOf, ClientTree.mem_placesOf, h]

/-- Of the places of a leaf, those where it has come in by then. -/
theorem length_placesOf_steps (f : FanOut) (before after : List Action) (id : Nat) :
    ((f.steps before).tree.placesOf id).length =
      ((f.steps (before ++ after)).tree.placesOf id).countP
        fun p => (f.steps before).tree.leaf? p = some id := by
  rw [List.countP_eq_length_filter]
  refine List.Perm.length_eq ((List.perm_ext_iff_of_nodup (ClientTree.nodup_placesOf ..)
    ((ClientTree.nodup_placesOf ..).filter _)).mpr fun p => ?_)
  rw [List.mem_filter, ClientTree.mem_placesOf, ClientTree.mem_placesOf, decide_eq_true_eq]
  refine ⟨fun h => ⟨?_, h⟩, And.right⟩
  rw [steps_append]
  exact stays_steps _ after h

theorem told_eq (places : Nat) (a : Action) : told places a = (commands [a]).flatMap (.replicate places) := by
  cases a with
  | send c => exact (List.append_nil _).symm
  | _ => rfl

/-- Where the places of a leaf stay the same, it is told every command once for each of them. -/
theorem heard_of_settled (f : FanOut) (actions : List Action)
    (h : ∀ p, (f.steps actions).tree.leaf? p = some id → f.tree.leaf? p = some id) :
    (f.steps actions).heard id =
      f.heard id ++ (commands actions).flatMap (List.replicate (f.tree.placesOf id).length) := by
  induction actions using List.reverseRecOn with
  | nil => exact (List.append_nil _).symm
  | append_singleton actions a ih =>
    rw [steps_concat] at h ⊢
    have hpast (p : List Nat) (hp : (f.steps actions).tree.leaf? p = some id) : f.tree.leaf? p = some id :=
      h p (stays_step _ a hp)
    have hplaces : ((f.steps actions).tree.placesOf id).length = (f.tree.placesOf id).length :=
      length_placesOf_eq _ _ fun p => ⟨hpast p, stays_steps f actions⟩
    rw [heard_step, ih hpast, hplaces, told_eq, List.append_assoc, ← List.flatMap_append, commands, commands,
      ← List.filterMap_append]
    rfl

/-! ## The main statement -/

/-- How the leaf number `id` is told what is given to the root of `f`. -/
structure Reached (f : FanOut) (actions : List Action) (id : Nat) : Prop where
  /-- A leaf stays where it has come in, whatever happens. -/
  stays : ∀ before after, actions = before ++ after → ∀ p,
    (f.steps before).tree.leaf? p = some id → (f.steps actions).tree.leaf? p = some id
  /-- Where it stands, it stood from the beginning, or it has come in with a member that was taken. -/
  came : ∀ p, (f.steps actions).tree.leaf? p = some id →
    f.tree.leaf? p = some id ∨ ∃ before place new after k q,
      actions = before ++ .add place new :: after ∧ (∃ f', (f.steps before).add place new = .ok f') ∧
      p = place ++ k :: q ∧ new.leaf? q = some id ∧ (f.steps before).tree.leaf? p = none
  /-- With a member that is taken it comes in at once, below a place that was free, wherever it stands in the
  member. -/
  joins : ∀ before place new after, actions = before ++ .add place new :: after →
    (∃ f', (f.steps before).add place new = .ok f') → ∃ k,
      (∀ q, (f.steps before).tree.leaf? (place ++ k :: q) = none) ∧
      ∀ q, new.leaf? q = some id →
        (f.steps (before ++ [.add place new])).tree.leaf? (place ++ k :: q) = some id
  /-- It is told every command, in the order in which they are given, once for each of its places where it
  had come in by then. -/
  heard : (f.steps actions).heard id = f.heard id ++ actions.zipIdx.flatMap fun (a, n) =>
    told (((f.steps actions).tree.placesOf id).countP
      fun p => (f.steps (actions.take n)).tree.leaf? p = some id) a
  places : ∀ p, p ∈ (f.steps actions).tree.placesOf id ↔ (f.steps actions).tree.leaf? p = some id
  distinct : ((f.steps actions).tree.placesOf id).Nodup
  /-- So it is told nothing before it has come in. -/
  unheard : ∀ before after, actions = before ++ after →
    (∀ p, (f.steps before).tree.leaf? p ≠ some id) → (f.steps before).heard id = f.heard id
  /-- Once it has come in at all of its places, it is told exactly the commands that follow. -/
  since : ∀ before after, actions = before ++ after →
    (∀ p, (f.steps actions).tree.leaf? p = some id → (f.steps before).tree.leaf? p = some id) →
    (f.steps actions).heard id = (f.steps before).heard id ++
      (commands after).flatMap (List.replicate ((f.steps actions).tree.placesOf id).length)

/-- Whatever is done with a group, running or not, and whoever has ended or failed, its leaves are told the
commands that are given to it. -/
theorem reached_of_steps (f : FanOut) (actions : List Action) (id : Nat) : f.Reached actions id where
  stays before after heq p h := by
    rw [heq, steps_append]
    exact stays_steps _ after h
  came p h := came_of_steps h
  joins before place new after _ hadd := by
    obtain ⟨k, hfree, hiff⟩ := leaf?_add hadd
    refine ⟨k, hfree, fun q hq => ?_⟩
    rw [steps_concat]
    exact (hiff _ id).mpr (.inr ⟨q, rfl, hq⟩)
  heard := by
    rw [heard_steps]
    congr 1
    refine List.flatMap_congr ?_
    rintro ⟨a, n⟩ -
    simp only
    rw [length_placesOf_steps f (actions.take n) (actions.drop n), List.take_append_drop]
  places p := ClientTree.mem_placesOf
  distinct := ClientTree.nodup_placesOf ..
  unheard before after heq h := by
    have hnone : f.tree.placesOf id = [] := List.eq_nil_iff_forall_not_mem.mpr fun p hp =>
      h p (stays_steps f before (ClientTree.mem_placesOf.mp hp))
    rw [heard_of_settled f before fun p hp => absurd hp (h p), hnone]
    simp
  since before after heq h := by
    rw [heq, steps_append] at h ⊢
    have hplaces : (((f.steps before).steps after).tree.placesOf id).length =
        ((f.steps before).tree.placesOf id).length :=
      length_placesOf_eq _ _ fun p => ⟨h p, stays_steps _ after⟩
    rw [heard_of_settled _ after h, hplaces]

/-- Two leaves come in together, and one of them once more after the first command. -/
def latecomer : List Action :=
  [.add [] (.group [.leaf 7 "left" [], .leaf 8 "right" []] none), .send .ping, .add [] (.leaf 7 "left" []), .run,
    .finish [0, 1] (.ok ()), .send (.recall 3)]

theorem reached_latecomer : start.Reached latecomer 7 ∧
    (start.steps latecomer).tree.placesOf 7 = [[0, 0], [1]] ∧
    (start.steps latecomer).heard 7 = [.ping, .recall 3, .recall 3] ∧
    (start.steps latecomer).heard 8 = [.ping, .recall 3] :=
  ⟨reached_of_steps start latecomer 7, by decide +kernel, by decide +kernel, by decide +kernel⟩

end FanOut
end AmpLink
