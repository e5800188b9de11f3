import AmpLink.Task.Channel
import Mathlib.Data.List.Induction
import Mathlib.Data.List.Perm.Basic

/-!
# What passes through a channel

Every call of an `Exchange` is in one of four states: it was told yes, it was told no, it was given up while
it waited, or it waits (`Exchange.Exact.calls`). Only the first kind puts its value into the channel, so what
was received and what is held back are the values of these calls, in the order in which they were told
(`Exchange.Exact.held`). `Exchange.Move` has one case for each way that a step can go. The main statement is
`Exchange.exact_run`.
-/

namespace AmpLink

namespace Channel

/-- A new call gets the room behind the calls that wait already, or waits behind them. -/
theorem send_cases {c : Channel α} (ho : c.isOpen) (call : Nat) (a : α) :
    (c.buffer.length + c.waiting.length < c.capacity ∧
      c.send call a = (.accepted, { c with buffer := c.buffer ++ [a] })) ∨
    (c.capacity ≤ c.buffer.length + c.waiting.length ∧
      c.send call a = (.waiting, { c with waiting := c.waiting ++ [(call, a)] })) := by
  rw [send, ho, hasRoom]
  by_cases hroom : c.buffer.length + c.waiting.length < c.capacity
  · exact .inl ⟨hroom, by simp [hroom]⟩
  · exact .inr ⟨Nat.le_of_not_lt hroom, by simp [hroom]⟩

theorem send_of_closed {c : Channel α} (hc : c.isOpen = false) (call : Nat) (a : α) :
    c.send call a = (.refused, c) := by
  rw [send, hc]
  rfl

theorem isOpen_send (c : Channel α) (call : Nat) (a : α) : (c.send call a).2.isOpen = c.isOpen := by
  cases ho : c.isOpen with
  | true => rcases send_cases ho call a with ⟨-, h⟩ | ⟨-, h⟩ <;> rw [h] <;> exact ho
  | false => rwa [send_of_closed ho]

theorem capacity_send (c : Channel α) (call : Nat) (a : α) : (c.send call a).2.capacity = c.capacity := by
  cases ho : c.isOpen with
  | true => rcases send_cases ho call a with ⟨-, h⟩ | ⟨-, h⟩ <;> rw [h]
  | false => rw [send_of_closed ho]

theorem bounded_send {c : Channel α} (hc : c.buffer.length ≤ c.capacity) (call : Nat) (a : α) :
    (c.send call a).2.buffer.length ≤ (c.send call a).2.capacity := by
  cases ho : c.isOpen with
  | true =>
    rcases send_cases ho call a with ⟨hroom, h⟩ | ⟨-, h⟩ <;> rw [h]
    · have hlt := Nat.lt_of_le_of_lt (Nat.le_add_right _ _) hroom
      rwa [List.length_append]
    · exact hc
  | false => rwa [send_of_closed ho]

end Channel

namespace Exchange

/-- The values that the calls came with. The calls are numbered in this order. -/
def offered (actions : List (Action α)) : List α :=
  actions.filterMap fun
    | .send a _ => some a
    | _ => none

/-- The calls that were told `s`, in the order in which that happened. -/
def told (s : Sending) (responses : List (Response α)) : List Nat :=
  responses.filterMap fun
    | .call n t => if t = s then some n else none
    | _ => none

/-- The values that the receiver got, in order. -/
def taken (responses : List (Response α)) : List α :=
  responses.filterMap fun
    | .value a => a
    | _ => none

/-- The call that a step gives up while it waits. -/
def givesUp (x : Exchange α) : Action α → Option Nat
  | .giveUp n => (x.channel.value? n).map fun _ => n
  | _ => none

/-- The calls that the actions give up while they wait. -/
def givenUp (x : Exchange α) : List (Action α) → List Nat
  | [] => []
  | a :: rest => (x.givesUp a).toList ++ (x.step a).2.givenUp rest

/-- Nobody has to wait any more: the token is cancelled or there is no receiver. -/
def isOver (x : Exchange α) : Bool := x.cancelled || !x.channel.isOpen

theorem run_concat (x : Exchange α) (actions : List (Action α)) (a : Action α) :
    x.run (actions ++ [a]) =
      ((x.run actions).1 ++ [((x.run actions).2.step a).1], ((x.run actions).2.step a).2) := by
  induction actions generalizing x with
  | nil => rfl
  | cons b rest ih => simp [run, ih]

theorem givenUp_concat (x : Exchange α) (actions : List (Action α)) (a : Action α) :
    x.givenUp (actions ++ [a]) = x.givenUp actions ++ ((x.run actions).2.givesUp a).toList := by
  induction actions generalizing x with
  | nil => simp [givenUp, run]
  | cons b rest ih => simp [givenUp, run, ih]

/-! ## Steps -/

/-- The calls that wait have been made. -/
def Numbered (x : Exchange α) : Prop := ∀ c ∈ x.channel.waiting, c.1 < x.calls

/-- The call that comes next waits. -/
def enter (x : Exchange α) (v : α) : Exchange α :=
  { x with
    calls := x.calls + 1
    channel := { x.channel with waiting := x.channel.waiting ++ [(x.calls, v)] } }

/-- How a step can go, and what it answers. -/
inductive Move (x : Exchange α) : Action α → Response α → Exchange α → Prop
  | accept : x.channel.isOpen → x.channel.buffer.length + x.channel.waiting.length < x.channel.capacity →
    Move x (.send v yields) (.call x.calls .accepted)
      { x with
        calls := x.calls + 1, accepted := x.accepted ++ [v]
        channel := { x.channel with buffer := x.channel.buffer ++ [v] } }
  | refuse : x.isOver → Move x (.send v yields) (.call x.calls .refused) { x with calls := x.calls + 1 }
  | wait : x.isOver = false →
    x.channel.capacity ≤ x.channel.buffer.length + x.channel.waiting.length →
    Move x (.send v yields) (.call x.calls .waiting) (x.enter v)
  | acceptWaiting : x.channel.value? n = some v → x.channel.isOpen →
    x.channel.buffer.length + x.channel.waiting.findIdx (·.1 = n) < x.channel.capacity →
    Move x (.resume n yields) (.call n .accepted)
      { x with
        accepted := x.accepted ++ [v]
        channel := { x.channel.giveUp n with buffer := x.channel.buffer ++ [v] } }
  | refuseWaiting : x.channel.value? n = some v → x.isOver →
    Move x (.resume n yields) (.call n .refused) { x with channel := x.channel.giveUp n }
  | waitOn : x.channel.value? n = some v → x.isOver = false →
    x.channel.capacity ≤ x.channel.buffer.length + x.channel.waiting.findIdx (·.1 = n) →
    Move x (.resume n yields) (.call n .waiting) x
  | absent : x.channel.value? n = none → Move x (.resume n yields) .done x
  | giveUp (n : Nat) : Move x (.giveUp n) .done { x with channel := x.channel.giveUp n }
  | take : x.channel.buffer = v :: rest →
    Move x .receive (.value (some v))
      { x with received := x.received ++ [v], channel := { x.channel with buffer := rest } }
  | idle : x.channel.buffer = [] → Move x .receive (.value none) x
  | cancel : Move x .cancel .done { x with cancelled := true }
  | close : Move x .close .done { x with channel := x.channel.close }

variable {x y : Exchange α} {a : Action α} {r : Response α} {n : Nat} {v : α}

theorem giveUp_of_numbered (h : x.Numbered) (hn : x.calls ≤ n) : x.channel.giveUp n = x.channel := by
  have hwaiting : x.channel.waiting.filter (·.1 ≠ n) = x.channel.waiting := by
    refine List.filter_eq_self.mpr fun c hc => decide_eq_true fun heq => ?_
    exact absurd (heq ▸ h c hc) (Nat.not_lt.mpr hn)
  rw [Channel.giveUp, hwaiting]

theorem value?_enter (h : x.Numbered) (v : α) : (x.enter v).channel.value? x.calls = some v := by
  have hnone : x.channel.waiting.find? (·.1 = x.calls) = none :=
    List.find?_eq_none.mpr fun c hc => by simpa using Nat.ne_of_lt (h c hc)
  rw [enter, Channel.value?, List.find?_append, hnone]
  simp

/-- A call that joins the waiting ones and leaves them again was never there. -/
theorem giveUp_enter (h : x.Numbered) (v : α) : (x.enter v).channel.giveUp x.calls = x.channel := by
  refine Eq.trans ?_ (giveUp_of_numbered h (Nat.le_refl _))
  simp [enter, Channel.giveUp]

theorem move_send (h : x.Numbered) (v : α) (yields : Bool) :
    x.Move (.send v yields) (x.step (.send v yields)).1 (x.step (.send v yields)).2 := by
  rw [step]
  cases hc : x.cancelled && yields with
  | true => exact .refuse (by simp [isOver, (Bool.and_eq_true_iff.mp hc).1])
  | false =>
    simp only [Bool.false_eq_true, if_false]
    cases ho : x.channel.isOpen with
    | false =>
      rw [Channel.send_of_closed ho]
      exact .refuse (by simp [isOver, ho])
    | true =>
      rcases Channel.send_cases ho x.calls v with ⟨hroom, heq⟩ | ⟨hfull, heq⟩
      · rw [heq]
        exact .accept ho hroom
      · rw [heq, settle]
        by_cases hx : x.cancelled
        · have hsame := giveUp_enter h v
          rw [enter] at hsame
          rw [if_pos hx, hsame]
          exact .refuse (by simp [isOver, hx])
        · rw [if_neg hx]
          exact .wait (by simp [isOver, hx, ho]) hfull

theorem move_resume (x : Exchange α) (n : Nat) (yields : Bool) :
    x.Move (.resume n yields) (x.step (.resume n yields)).1 (x.step (.resume n yields)).2 := by
  rw [step]
  cases hv : x.channel.value? n with
  | none => exact .absent hv
  | some v =>
    cases hc : x.cancelled && yields with
    | true => exact .refuseWaiting hv (by simp [isOver, (Bool.and_eq_true_iff.mp hc).1])
    | false =>
      simp only [Bool.false_eq_true, if_false, Channel.resume, Channel.hasRoom, decide_eq_true_iff]
      cases ho : x.channel.isOpen with
      | false => exact .refuseWaiting hv (by simp [isOver, ho])
      | true =>
        by_cases hroom : x.channel.buffer.length + x.channel.waiting.findIdx (·.1 = n) <
            x.channel.capacity
        · simp only [hroom, if_true]
          exact .acceptWaiting hv ho hroom
        · simp only [hroom, if_false, Bool.not_true, Bool.false_eq_true]
          rw [settle]
          by_cases hx : x.cancelled
          · rw [if_pos hx]
            exact .refuseWaiting hv (by simp [isOver, hx])
          · rw [if_neg hx]
            exact .waitOn hv (by simp [isOver, hx, ho]) (Nat.le_of_not_lt hroom)

theorem move_step (h : x.Numbered) (a : Action α) : x.Move a (x.step a).1 (x.step a).2 := by
  cases a with
  | send v yields => exact move_send h v yields
  | resume n yields => exact move_resume x n yields
  | giveUp n => exact .giveUp n
  | receive =>
    rw [step, Channel.receive]
    cases hb : x.channel.buffer with
    | nil => exact .idle hb
    | cons v rest => exact .take hb
  | cancel => exact .cancel
  | close => exact .close

/-! ## The invariant -/

theorem mem_waiting_of_value? (h : x.channel.value? n = some v) : (n, v) ∈ x.channel.waiting := by
  obtain ⟨c, hc, rfl⟩ := Option.map_eq_some_iff.mp h
  obtain rfl : c.1 = n := of_decide_eq_true (List.find?_some hc :)
  exact List.mem_of_find?_eq_some hc

theorem giveUp_of_value? (h : x.channel.value? n = none) : x.channel.giveUp n = x.channel := by
  have hnone := List.find?_eq_none.mp (Option.map_eq_none_iff.mp h)
  rw [Channel.giveUp, List.filter_eq_self.mpr (by simpa using hnone)]

/-- What holds of a channel of `capacity` whose calls came with the values `vs`. Of the calls, `yes` and `no`
were told so and `gone` were given up; `got` was received. -/
structure Sound (capacity : Nat) (vs : List α) (yes no gone : List Nat) (got : List α) (x : Exchange α) :
    Prop where
  capacity_eq : x.channel.capacity = capacity
  bounded : x.channel.buffer.length ≤ x.channel.capacity
  offered : vs.length = x.calls
  waiting : ∀ c ∈ x.channel.waiting, vs[c.1]? = some c.2
  calls : (yes ++ (no ++ (gone ++ x.channel.waiting.map Prod.fst))).Perm (List.range x.calls)
  accepted : x.accepted = yes.filterMap (vs[·]?)
  received : x.received = got
  held : x.channel.isOpen → x.received ++ x.channel.buffer = x.accepted
  lost : x.received ++ x.channel.buffer <+: x.accepted

namespace Sound

variable {capacity : Nat} {vs got : List α} {yes no gone : List Nat}

theorem start (capacity : Nat) : Sound capacity [] [] [] [] [] (.start capacity : Exchange α) where
  capacity_eq := rfl
  bounded := Nat.zero_le _
  offered := rfl
  waiting := nofun
  calls := .refl _
  accepted := rfl
  received := rfl
  held _ := rfl
  lost := List.prefix_rfl

theorem numbered (h : Sound capacity vs yes no gone got x) : x.Numbered := by
  intro c hc
  refine List.mem_range.mp (h.calls.subset ?_)
  exact List.mem_append_right _ (List.mem_append_right _ (List.mem_append_right _
    (List.mem_map_of_mem hc)))

theorem enter (h : Sound capacity vs yes no gone got x) (v : α) :
    Sound capacity (vs ++ [v]) yes no gone got (x.enter v) := by
  -- the values of the earlier calls stay what they are
  have hsame {n : Nat} (hn : n ∈ List.range x.calls) : (vs ++ [v])[n]? = vs[n]? :=
    List.getElem?_append_left (h.offered ▸ List.mem_range.mp hn)
  refine
    { h with
      offered := by rw [List.length_append, h.offered]; rfl
      waiting := fun c hc => ?_
      calls := ?_
      accepted := ?_ }
  · rcases List.mem_append.mp hc with hc | hc
    · rw [hsame (List.mem_range.mpr (h.numbered c hc)), h.waiting c hc]
    · rw [List.mem_singleton.mp hc, ← h.offered, List.getElem?_concat_length]
  · rw [Exchange.enter, List.range_succ, List.map_append, ← List.append_assoc gone, ← List.append_assoc no,
      ← List.append_assoc yes]
    exact h.calls.append_right _
  · refine h.accepted.trans (List.filterMap_congr fun n hn => (hsame ?_).symm)
    exact h.calls.subset (List.mem_append_left _ hn)

/-- A call that waits leaves the others as they are. -/
theorem leave (h : Sound capacity vs yes no gone got x) (hv : x.channel.value? n = some v) :
    (n :: (yes ++ (no ++ (gone ++ (x.channel.giveUp n).waiting.map Prod.fst)))).Perm
      (List.range x.calls) := by
  have hmem : n ∈ x.channel.waiting.map Prod.fst := List.mem_map_of_mem (mem_waiting_of_value? hv)
  have hnodup : (x.channel.waiting.map Prod.fst).Nodup := by
    have hwaiting := (List.sublist_append_right gone (x.channel.waiting.map Prod.fst)).trans
      ((List.sublist_append_right no _).trans (List.sublist_append_right yes _))
    exact hwaiting.nodup (h.calls.nodup_iff.mpr List.nodup_range)
  have herase : (x.channel.giveUp n).waiting.map Prod.fst = (x.channel.waiting.map Prod.fst).erase n := by
    rw [hnodup.erase_eq_filter, Channel.giveUp, List.filter_map]
    refine congrArg _ (List.filter_congr fun c _ => ?_)
    simp [bne, beq_eq_decide]
  rw [herase]
  refine List.Perm.trans ?_ h.calls
  refine List.perm_middle.symm.trans (List.Perm.append_left _ ?_)
  refine List.perm_middle.symm.trans (List.Perm.append_left _ ?_)
  refine List.perm_middle.symm.trans (List.Perm.append_left _ ?_)
  exact (List.perm_cons_erase hmem).symm

theorem waiting_giveUp (h : Sound capacity vs yes no gone got x) (n : Nat) :
    ∀ c ∈ (x.channel.giveUp n).waiting, vs[c.1]? = some c.2 :=
  fun c hc => h.waiting c (List.mem_filter.mp hc).1

theorem accept (h : Sound capacity vs yes no gone got x) (hv : x.channel.value? n = some v)
    (ho : x.channel.isOpen) (hroom : x.channel.buffer.length < x.channel.capacity) :
    Sound capacity vs (yes ++ [n]) no gone got
      { x with
        accepted := x.accepted ++ [v]
        channel := { x.channel.giveUp n with buffer := x.channel.buffer ++ [v] } } := by
  have hall : x.received ++ (x.channel.buffer ++ [v]) = x.accepted ++ [v] := by
    rw [← List.append_assoc, h.held ho]
  refine
    { h with
      bounded := ?_
      waiting := h.waiting_giveUp n
      calls := ?_
      accepted := ?_
      held := fun _ => hall
      lost := hall ▸ List.prefix_rfl }
  · change (x.channel.buffer ++ [v]).length ≤ x.channel.capacity
    rw [List.length_append]
    exact hroom
  · rw [List.append_assoc]
    exact List.perm_middle.trans (h.leave hv)
  · rw [List.filterMap_append, h.accepted, List.filterMap_cons,
      h.waiting _ (mem_waiting_of_value? hv)]
    rfl

theorem refuse (h : Sound capacity vs yes no gone got x) (hv : x.channel.value? n = some v) :
    Sound capacity vs yes (no ++ [n]) gone got { x with channel := x.channel.giveUp n } := by
  refine { h with waiting := h.waiting_giveUp n, calls := ?_ }
  rw [List.append_assoc]
  exact (List.perm_middle.append_left yes).trans (List.perm_middle.trans (h.leave hv))

theorem giveUp (h : Sound capacity vs yes no gone got x) (hv : x.channel.value? n = some v) :
    Sound capacity vs yes no (gone ++ [n]) got { x with channel := x.channel.giveUp n } := by
  refine { h with waiting := h.waiting_giveUp n, calls := ?_ }
  rw [List.append_assoc]
  refine ((List.perm_middle.append_left no).append_left yes).trans ?_
  exact (List.perm_middle.append_left yes).trans (List.perm_middle.trans (h.leave hv))

theorem take (h : Sound capacity vs yes no gone got x) (hb : x.channel.buffer = v :: rest) :
    Sound capacity vs yes no gone (got ++ [v])
      { x with received := x.received ++ [v], channel := { x.channel with buffer := rest } } := by
  have hall : x.received ++ [v] ++ rest = x.received ++ x.channel.buffer := by
    rw [hb, List.append_assoc]
    rfl
  refine
    { h with
      bounded := ?_
      received := congrArg (· ++ [v]) h.received
      held := fun ho => hall.trans (h.held ho)
      lost := hall ▸ h.lost }
  have hbounded := h.bounded
  rw [hb] at hbounded
  exact Nat.le_of_succ_le hbounded

theorem close (h : Sound capacity vs yes no gone got x) :
    Sound capacity vs yes no gone got { x with channel := x.channel.close } :=
  { h with
    bounded := Nat.zero_le _
    held := nofun
    lost := ((List.prefix_append_right_inj _).mpr List.nil_prefix).trans h.lost }

end Sound

theorem offered_concat (actions : List (Action α)) (a : Action α) :
    offered (actions ++ [a]) = offered actions ++ offered [a] := List.filterMap_append ..

theorem told_concat (s : Sending) (responses : List (Response α)) (r : Response α) :
    told s (responses ++ [r]) = told s responses ++ told s [r] := List.filterMap_append ..

theorem taken_concat (responses : List (Response α)) (r : Response α) :
    taken (responses ++ [r]) = taken responses ++ taken [r] := List.filterMap_append ..

variable {capacity : Nat} {past : List (Action α)} {rs : List (Response α)} {gone : List Nat}

theorem sound_step
    (h : Sound capacity (offered past) (told .accepted rs) (told .refused rs) gone (taken rs) x)
    (hm : x.Move a r y) :
    Sound capacity (offered (past ++ [a])) (told .accepted (rs ++ [r])) (told .refused (rs ++ [r]))
      (gone ++ (x.givesUp a).toList) (taken (rs ++ [r])) y := by
  rw [offered_concat, told_concat, told_concat, taken_concat]
  cases hm with
  | @accept v yields ho hroom =>
    have hroom : x.channel.buffer.length < x.channel.capacity := by omega
    have hy := (h.enter v).accept (value?_enter h.numbered v) ho hroom
    rw [giveUp_enter h.numbered] at hy
    simpa [offered, told, taken, givesUp, enter] using hy
  | @refuse v yields hover =>
    have hy := (h.enter v).refuse (value?_enter h.numbered v)
    rw [giveUp_enter h.numbered] at hy
    simpa [offered, told, taken, givesUp, enter] using hy
  | @wait v yields hover hfull => simpa [offered, told, taken, givesUp] using h.enter v
  | acceptWaiting hv ho hroom =>
    simpa [offered, told, taken, givesUp] using h.accept hv ho (by omega)
  | refuseWaiting hv hover => simpa [offered, told, taken, givesUp] using h.refuse hv
  | waitOn | absent | idle => simpa [offered, told, taken, givesUp] using h
  | giveUp n =>
    cases hv : x.channel.value? n with
    | none => simpa [offered, told, taken, givesUp, hv, giveUp_of_value? hv] using h
    | some v => simpa [offered, told, taken, givesUp, hv] using h.giveUp hv
  | take hb => simpa [offered, told, taken, givesUp] using h.take hb
  | cancel =>
    have hy : Sound capacity (offered past) (told .accepted rs) (told .refused rs) gone (taken rs)
        { x with cancelled := true } := { h with }
    simpa [offered, told, taken, givesUp] using hy
  | close => simpa [offered, told, taken, givesUp] using h.close

theorem sound_run (capacity : Nat) (actions : List (Action α)) :
    Sound capacity (offered actions) (told .accepted ((start capacity).run actions).1)
      (told .refused ((start capacity).run actions).1) ((start capacity).givenUp actions)
      (taken ((start capacity).run actions).1) ((start capacity).run actions).2 := by
  induction actions using List.reverseRecOn with
  | nil => exact .start capacity
  | append_singleton past a ih =>
    rw [run_concat, givenUp_concat]
    exact sound_step ih (move_step ih.numbered a)

/-! ## Calls that are told no or wait -/

theorem channel_of_refused (hx : x.Numbered) (hm : x.Move a (.call n .refused) y) :
    x.isOver ∧ y.channel = x.channel.giveUp n := by
  cases hm with
  | refuse hover => exact ⟨hover, (giveUp_of_numbered hx (Nat.le_refl _)).symm⟩
  | refuseWaiting _ hover => exact ⟨hover, rfl⟩

theorem full_of_waiting (hx : x.Numbered) (hm : x.Move a (.call n .waiting) y) : x.isOver = false ∧
    x.channel.capacity ≤ y.channel.buffer.length + y.channel.waiting.findIdx (·.1 = n) := by
  cases hm with
  | @wait v _ hover hfull =>
    have hlast : (x.enter v).channel.waiting.findIdx (·.1 = x.calls) = x.channel.waiting.length := by
      have hnone : x.channel.waiting.findIdx (·.1 = x.calls) = x.channel.waiting.length :=
        List.findIdx_eq_length.mpr fun c hc => by simpa using Nat.ne_of_lt (hx c hc)
      simp [enter, List.findIdx_append, hnone]
    rw [hlast]
    exact ⟨hover, hfull⟩
  | waitOn _ hover hfull => exact ⟨hover, hfull⟩

theorem isOver_move (ho : x.isOver) (hm : x.Move a r y) : y.isOver := by
  rw [isOver, Bool.or_eq_true] at ho
  cases hm with
  | cancel => rfl
  | close => exact Bool.or_true _
  | _ => exact (Bool.or_eq_true _ _).mpr ho

theorem waiting_move (ho : x.isOver) (hm : x.Move a r y) : y.channel.waiting ⊆ x.channel.waiting := by
  cases hm with
  | wait hover => exact absurd ho (Bool.eq_false_iff.mp hover)
  | acceptWaiting | refuseWaiting | giveUp => exact List.filter_subset_self _
  | _ => exact List.Subset.refl _

/-- At its next turn a call is told yes or no. -/
theorem resume_move (ho : x.isOver) (hm : x.Move (.resume n yields) r y) :
    n ∉ y.channel.waiting.map Prod.fst := by
  have hgiveUp : n ∉ (x.channel.giveUp n).waiting.map Prod.fst := by simp [Channel.giveUp]
  cases hm with
  | acceptWaiting | refuseWaiting => exact hgiveUp
  | waitOn _ hover => exact absurd ho (Bool.eq_false_iff.mp hover)
  | absent hv => exact giveUp_of_value? hv ▸ hgiveUp

theorem run_append (x : Exchange α) (actions later : List (Action α)) :
    (x.run (actions ++ later)).2 = ((x.run actions).2.run later).2 := by
  induction actions generalizing x with
  | nil => rfl
  | cons a rest ih => exact ih (x.step a).2

theorem released (ho : ((start capacity).run actions).2.isOver) (later : List (Action α)) :
    ((start capacity).run (actions ++ later)).2.isOver ∧ ∀ n yields, .resume n yields ∈ later →
      n ∉ ((start capacity).run (actions ++ later)).2.channel.waiting.map Prod.fst := by
  induction later using List.reverseRecOn with
  | nil => exact ⟨by rwa [List.append_nil], nofun⟩
  | append_singleton past a ih =>
    obtain ⟨hover, hpast⟩ := ih
    have hm := move_step (sound_run capacity (actions ++ past)).numbered a
    rw [← List.append_assoc, run_concat]
    refine ⟨isOver_move hover hm, fun n yields hn hwaiting => ?_⟩
    rcases List.mem_append.mp hn with hn | hn
    · exact hpast n yields hn (List.map_subset Prod.fst (waiting_move hover hm) hwaiting)
    · obtain rfl := List.mem_singleton.mp hn
      exact resume_move hover hm hwaiting

/-! ## What the actions tell -/

theorem Move.cancelled_iff (hm : x.Move a r y) : y.cancelled ↔ x.cancelled ∨ a = .cancel := by
  cases hm with
  | cancel => simp
  | _ => exact (or_iff_left nofun).symm

theorem Move.isOpen_iff (hm : x.Move a r y) : y.channel.isOpen ↔ x.channel.isOpen ∧ a ≠ .close := by
  cases hm with
  | close => simp [Channel.close]
  | _ => exact (and_iff_left nofun).symm

theorem cancelled_run (capacity : Nat) (actions : List (Action α)) :
    ((start capacity).run actions).2.cancelled ↔ .cancel ∈ actions := by
  induction actions using List.reverseRecOn with
  | nil => simp [run, start]
  | append_singleton past a ih =>
    have hm := move_step (sound_run capacity past).numbered a
    rw [run_concat, hm.cancelled_iff, ih, List.mem_append, List.mem_singleton]
    exact or_congr_right eq_comm

theorem isOpen_run (capacity : Nat) (actions : List (Action α)) :
    ((start capacity).run actions).2.channel.isOpen ↔ .close ∉ actions := by
  induction actions using List.reverseRecOn with
  | nil => simp [run, start, Channel.empty]
  | append_singleton past a ih =>
    have hm := move_step (sound_run capacity past).numbered a
    rw [run_concat, hm.isOpen_iff, ih, List.mem_append, List.mem_singleton, not_or]
    exact and_congr_right fun _ => not_congr eq_comm

/-! ## The main statement -/

/-- How a channel of `capacity` and its token stand after `actions` that were answered by `rs`. -/
structure Exact (capacity : Nat) (actions : List (Action α)) (rs : List (Response α)) (x : Exchange α) :
    Prop where
  /-- A call was told yes, was told no, was given up while it waited, or waits, and no two of these. -/
  calls : (told .accepted rs ++ (told .refused rs ++
    ((start capacity).givenUp actions ++ x.channel.waiting.map Prod.fst))).Perm
      (List.range (offered actions).length)
  /-- What was received and what is held back are the values of the calls that were told yes, in this order. -/
  held : x.channel.isOpen →
    taken rs ++ x.channel.buffer = (told .accepted rs).filterMap ((offered actions)[·]?)
  /-- Without a receiver it is the first of them. -/
  lost : taken rs ++ x.channel.buffer <+: (told .accepted rs).filterMap ((offered actions)[·]?)
  bounded : x.channel.buffer.length ≤ capacity
  /-- The token is cancelled, and the receiver gone, once it has been said so. -/
  cancelled : x.cancelled ↔ .cancel ∈ actions
  isOpen : x.channel.isOpen ↔ .close ∉ actions
  /-- A call that is told no or given up leaves the channel, and nothing else changes in it. -/
  traceless : ∀ a n, (x.step a).1 = .call n .refused ∨ a = .giveUp n →
    (x.step a).2.channel = { x.channel with waiting := x.channel.waiting.filter (·.1 ≠ n) }
  /-- A call is told no only under a cancelled token or without a receiver. -/
  refused : ∀ a n, (x.step a).1 = .call n .refused → x.cancelled ∨ x.channel.isOpen = false
  /-- A call waits for room only, and only while there are a receiver and a token that is not cancelled. -/
  waits : ∀ a n, (x.step a).1 = .call n .waiting → x.cancelled = false ∧ x.channel.isOpen ∧
    capacity ≤ (x.step a).2.channel.buffer.length +
      (x.step a).2.channel.waiting.findIdx (·.1 = n)
  /-- Otherwise it waits until its next turn at most, whatever happens before or after that. -/
  released : x.cancelled ∨ x.channel.isOpen = false → ∀ later n yields, .resume n yields ∈ later →
    n ∉ (x.run later).2.channel.waiting.map Prod.fst

theorem isOver_iff : x.isOver ↔ x.cancelled ∨ x.channel.isOpen = false := by
  rw [isOver, Bool.or_eq_true, Bool.not_eq_true']

theorem isOver_eq_false : x.isOver = false ↔ x.cancelled = false ∧ x.channel.isOpen := by
  rw [isOver, Bool.or_eq_false_iff, Bool.not_eq_false']

/-- However calls, receiver and token come one after the other, nothing is lost, doubled or made up. -/
theorem exact_run (capacity : Nat) (actions : List (Action α)) :
    Exact capacity actions ((start capacity).run actions).1 ((start capacity).run actions).2 := by
  have h := sound_run capacity actions
  have hmove := move_step h.numbered
  have hcancelled := cancelled_run capacity actions
  have hopen := isOpen_run capacity actions
  generalize hx : ((start capacity).run actions).2 = x at h hmove hcancelled hopen
  refine
    { calls := h.offered ▸ h.calls
      held := fun ho => h.received ▸ h.accepted ▸ h.held ho
      lost := h.received ▸ h.accepted ▸ h.lost
      bounded := h.capacity_eq ▸ h.bounded
      cancelled := hcancelled
      isOpen := hopen
      traceless := fun a n ha => ?_
      refused := fun a n ha => ?_
      waits := fun a n ha => ?_
      released := fun ho later n yields hn => ?_ }
  · rcases ha with ha | rfl
    · exact (channel_of_refused h.numbered (ha ▸ hmove a)).2
    · rfl
  · exact isOver_iff.mp (channel_of_refused h.numbered (ha ▸ hmove a)).1
  · obtain ⟨hover, hfull⟩ := full_of_waiting h.numbered (ha ▸ hmove a)
    obtain ⟨hcancelled, ho⟩ := isOver_eq_false.mp hover
    exact ⟨hcancelled, ho, h.capacity_eq ▸ hfull⟩
  · rw [← isOver_iff, ← hx] at ho
    rw [← hx, ← run_append]
    exact (released ho later).2 n yields hn

/-- The second call gets the room that arises, the third one waits until the token is cancelled, the fourth
one is given up, and what is held back goes with the receiver. -/
def squeeze : List (Action Nat) :=
  [.send 10 false, .send 11 false, .send 12 false, .send 13 false, .receive, .resume 1 false, .giveUp 3, .cancel,
    .resume 2 true, .close, .receive]

theorem exact_squeeze :
    let (rs, x) := (start 1).run squeeze
    Exact 1 squeeze rs x ∧ told .accepted rs = [0, 1] ∧ told .refused rs = [2] ∧ taken rs = [10] ∧
      x.channel.buffer = [] :=
  ⟨exact_run 1 squeeze, by decide, by decide, by decide, by decide⟩

end Exchange
end AmpLink
