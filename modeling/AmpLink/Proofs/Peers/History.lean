import AmpLink.Proofs.Peers.Table
import Mathlib.Data.List.Induction

/-!
# Histories of a table of peers

What the events of a whole history of messages and sweeps say of an address. The instants may go
backwards and the timeout may change from sweep to sweep: a step either gives an address nothing and
leaves it where it is, or gives it one event and turns its presence around (`PeerTable.step_cases`). This
carries the invariant `PeerTable.Explains` from one step to the next, and with it the main statement
`PeerTable.run_history`: an address is discovered and lost by turns, it has a peer exactly when it was
discovered last, and what is reported lost is the interface of its latest message.
-/

namespace AmpLink

/-- A discovery and a loss by turns, a discovery first. -/
def Alternates (events : List PeerEvent) : Prop :=
  ∀ n e, events[n]? = some e → e.isDiscovered = decide (n % 2 = 0)

namespace Alternates

theorem nil : Alternates [] := by
  intro n e h
  simp at h

theorem concat (h : Alternates es) (he : e.isDiscovered = decide (es.length % 2 = 0)) :
    Alternates (es ++ [e]) := by
  intro n e' hn
  rcases Nat.lt_trichotomy n es.length with hlt | rfl | hlt
  · rw [List.getElem?_append_left hlt] at hn
    exact h n e' hn
  · rw [List.getElem?_concat_length, Option.some.injEq] at hn
    exact hn ▸ he
  · rw [List.getElem?_eq_none (by simp; omega)] at hn
    contradiction

theorem of_prefix (h : Alternates es) (hp : es' <+: es) : Alternates es' := by
  obtain ⟨rest, rfl⟩ := hp
  intro n e hn
  refine h n e ?_
  rw [List.getElem?_append_left (List.getElem?_eq_some_iff.mp hn).1]
  exact hn

theorem isDiscovered_getLast? (h : Alternates es) :
    es.getLast?.any (·.isDiscovered) = decide (es.length % 2 = 1) := by
  cases hlast : es.getLast? with
  | none =>
    rw [List.getLast?_eq_none_iff.mp hlast]
    rfl
  | some e =>
    have hpos : 0 < es.length := List.length_pos_of_mem (List.mem_of_getLast? hlast)
    rw [List.getLast?_eq_getElem?] at hlast
    rw [Option.any_some, h _ e hlast]
    exact decide_eq_decide.mpr (by omega)

end Alternates

namespace PeerTable

/-- The interface of the latest message from an address. -/
def latestInterface (a : SocketAddress) (past : List Action) : Option (Option String) :=
  (past.filterMap fun
    | .observe b i _ => if b = a then some i else none
    | .sweep .. => none).getLast?

@[simp] theorem latestInterface_observe :
    latestInterface a (past ++ [.observe a i now]) = some i := by
  simp [latestInterface]

theorem latestInterface_observe_of_ne (h : b ≠ a) :
    latestInterface a (past ++ [.observe b i now]) = latestInterface a past := by
  simp [latestInterface, h]

@[simp] theorem latestInterface_sweep :
    latestInterface a (past ++ [.sweep now timeout]) = latestInterface a past := by
  simp [latestInterface]

/-! ## One step -/

/-- A step gives an address nothing and leaves its presence, or it gives one event and turns its
presence around. -/
theorem step_cases (t : PeerTable) (x : Action) (a : SocketAddress) :
    (eventsOf a (t.step x).1 = [] ∧ ((t.step x).2.find? a).isSome = (t.find? a).isSome) ∨
      ∃ e, eventsOf a (t.step x).1 = [e] ∧ e.isDiscovered = (t.find? a).isNone ∧
        ((t.step x).2.find? a).isSome = (t.find? a).isNone := by
  cases x with
  | observe b i now =>
    simp only [step, eventsOf_observe]
    by_cases hab : a = b
    · subst b
      rw [find?_observe_self]
      cases h : t.find? a with
      | none => exact .inr ⟨.discovered a i, by simp, rfl, rfl⟩
      | some p => exact .inl ⟨by simp, rfl⟩
    · rw [find?_observe_of_ne hab, if_neg fun h => hab h.1]
      exact .inl ⟨rfl, rfl⟩
  | sweep now timeout =>
    simp only [step, eventsOf_sweep, find?_sweep]
    cases h : t.find? a with
    | none => exact .inl ⟨rfl, rfl⟩
    | some p =>
      cases hp : p.isExpired now timeout with
      | false => exact .inl ⟨by simp [Option.filter, hp], by simp [Option.filter, hp]⟩
      | true =>
        exact .inr ⟨lossOf p, by simp [Option.filter, hp], rfl, by simp [Option.filter, hp]⟩

/-- The peer of an address comes from the latest message or was there before. -/
theorem latestInterface_step {t : PeerTable}
    (h : ∀ p, t.find? a = some p → latestInterface a past = some p.interface) (x : Action)
    (hp : (t.step x).2.find? a = some p) : latestInterface a (past ++ [x]) = some p.interface := by
  cases x with
  | observe b i now =>
    by_cases hab : a = b
    · subst b
      rw [step, find?_observe_self, Option.some.injEq] at hp
      rw [latestInterface_observe, ← hp]
    · rw [step, find?_observe_of_ne hab] at hp
      rw [latestInterface_observe_of_ne (Ne.symm hab)]
      exact h p hp
  | sweep now timeout =>
    rw [step, find?_sweep, Option.filter_eq_some_iff] at hp
    rw [latestInterface_sweep]
    exact h p hp.1

/-- Messages give discoveries only. -/
theorem isDiscovered_of_mem_observe {t : PeerTable} (h : e ∈ (t.observe a i now).1) :
    e = .discovered a i := by
  cases hf : t.find? a with
  | none => rw [(observe_of_eq_none hf).1] at h; exact (Option.mem_some.mp h).symm
  | some p => rw [(observe_of_isSome (by simp [hf])).1] at h; contradiction

/-- Sweeps give losses only. -/
theorem exists_lossOf_of_mem_sweep {t : PeerTable} (h : e ∈ (t.sweep now timeout).1) :
    ∃ p, t.find? p.address = some p ∧ e = lossOf p := by
  obtain ⟨expired, hperm, hevents⟩ := sweep_events t now timeout
  rw [hevents] at h
  obtain ⟨p, hp, rfl⟩ := List.mem_map.mp h
  exact ⟨p, find?_eq_some_iff.mpr ⟨(List.mem_filter.mp (hperm.mem_iff.mp hp)).1, rfl⟩, rfl⟩

theorem size_step (t : PeerTable) (x : Action) :
    (t.step x).2.size + (t.step x).1.countP (!·.isDiscovered) =
      t.size + (t.step x).1.countP (·.isDiscovered) := by
  cases x with
  | observe a i now =>
    have hall : ∀ e ∈ (t.observe a i now).1.toList, e.isDiscovered = true := by
      intro e he
      rw [isDiscovered_of_mem_observe (Option.mem_toList.mp he)]
      rfl
    have hlost : (t.observe a i now).1.toList.countP (!·.isDiscovered) = 0 :=
      List.countP_eq_zero.mpr fun e he => by rw [hall e he]; exact Bool.false_ne_true
    rw [step, hlost, List.countP_eq_length.mpr hall, size_observe]
    rfl
  | sweep now timeout =>
    have hall : ∀ e ∈ (t.sweep now timeout).1, e.isDiscovered = false := by
      intro e he
      obtain ⟨p, _, rfl⟩ := exists_lossOf_of_mem_sweep he
      rfl
    have hfound : (t.sweep now timeout).1.countP (·.isDiscovered) = 0 :=
      List.countP_eq_zero.mpr fun e he => by rw [hall e he]; exact Bool.false_ne_true
    have hlost : (t.sweep now timeout).1.countP (!·.isDiscovered) = (t.sweep now timeout).1.length :=
      List.countP_eq_length.mpr fun e he => by rw [hall e he]; rfl
    rw [step, hlost, hfound]
    exact size_sweep

/-! ## Whole histories -/

theorem run_concat (t : PeerTable) (xs : List Action) (x : Action) :
    t.run (xs ++ [x]) = ((t.run xs).1 ++ ((t.run xs).2.step x).1, ((t.run xs).2.step x).2) := by
  induction xs generalizing t with
  | nil => simp [run]
  | cons y xs ih => simp [run, ih]

/-- What ties a table to the actions that led to it and to the events that they gave. -/
structure Explains (past : List Action) (events : List PeerEvent) (t : PeerTable) : Prop where
  alternates : ∀ a, Alternates (eventsOf a events)
  present : ∀ a, (t.find? a).isSome = decide ((eventsOf a events).length % 2 = 1)
  interface : ∀ a p, t.find? a = some p → latestInterface a past = some p.interface
  balance : t.size + events.countP (!·.isDiscovered) = events.countP (·.isDiscovered)

theorem Explains.empty : Explains [] [] .empty where
  alternates _ := .nil
  present _ := rfl
  interface _ _ h := by contradiction
  balance := rfl

theorem Explains.step (h : Explains past events t) (x : Action) :
    Explains (past ++ [x]) (events ++ (t.step x).1) (t.step x).2 where
  alternates a := by
    rw [eventsOf_append]
    rcases step_cases t x a with ⟨hnil, -⟩ | ⟨e, hone, he, -⟩
    · rw [hnil, List.append_nil]
      exact h.alternates a
    · rw [hone]
      refine (h.alternates a).concat ?_
      rw [he, ← Option.not_isSome, h.present a, ← decide_not]
      exact decide_eq_decide.mpr (by omega)
  present a := by
    rw [eventsOf_append]
    rcases step_cases t x a with ⟨hnil, hp⟩ | ⟨e, hone, -, hp⟩
    · rw [hnil, List.append_nil, hp]
      exact h.present a
    · rw [hone, hp, ← Option.not_isSome, h.present a, List.length_append, List.length_singleton,
        ← decide_not]
      exact decide_eq_decide.mpr (by omega)
  interface a p hp := latestInterface_step (h.interface a) x hp
  balance := by
    rw [List.countP_append, List.countP_append]
    have hb := h.balance
    have hs := size_step t x
    omega

theorem Explains.run (h : Explains past events t) (xs : List Action) :
    Explains (past ++ xs) (events ++ (t.run xs).1) (t.run xs).2 := by
  induction xs generalizing past events t with
  | nil => simpa [PeerTable.run] using h
  | cons x xs ih => simpa [PeerTable.run] using ih (h.step x)

theorem explains_run_empty (xs : List Action) :
    Explains xs (empty.run xs).1 (empty.run xs).2 := by
  simpa using Explains.empty.run xs

/-- A loss, as the `n`-th event of a history, was given by a sweep, and its interface is that of the
latest message from the address before the sweep. -/
theorem exists_sweep_of_lost {xs : List Action} (h : (empty.run xs).1[n]? = some (.lost a i)) :
    ∃ before now timeout after, xs = before ++ .sweep now timeout :: after ∧
      (empty.run before).1.length ≤ n ∧
      n < (empty.run (before ++ [.sweep now timeout])).1.length ∧
      latestInterface a before = some i := by
  induction xs using List.reverseRecOn with
  | nil => simp [run] at h
  | append_singleton xs x ih =>
    rw [run_concat] at h
    by_cases hn : n < (empty.run xs).1.length
    · rw [List.getElem?_append_left hn] at h
      obtain ⟨before, now, timeout, after, hxs, hlo, hhi, hlatest⟩ := ih h
      exact ⟨before, now, timeout, after ++ [x], by simp [hxs], hlo, hhi, hlatest⟩
    · have hlen := (List.getElem?_eq_some_iff.mp h).1
      rw [List.getElem?_append_right (Nat.le_of_not_lt hn)] at h
      have hmem := List.mem_of_getElem? h
      cases x with
      | observe b j now =>
        have hd := isDiscovered_of_mem_observe (Option.mem_toList.mp hmem)
        contradiction
      | sweep now timeout =>
        obtain ⟨p, hp, he⟩ := exists_lossOf_of_mem_sweep hmem
        obtain ⟨rfl, rfl⟩ := PeerEvent.lost.inj he
        refine ⟨xs, now, timeout, [], rfl, Nat.le_of_not_lt hn, ?_, ?_⟩
        · rw [run_concat]
          exact hlen
        · exact (explains_run_empty xs).interface _ p hp

/-- For every history of messages and sweeps of an empty table, whatever the instants and timeouts: an
address is discovered and lost by turns, has a peer exactly when it was discovered last, and is reported
lost with the interface of its latest message; and as many peers are there as were discovered and not
lost. -/
theorem run_history (xs : List Action) :
    (∀ a, Alternates (eventsOf a (empty.run xs).1)) ∧
      (∀ a, ((empty.run xs).2.find? a).isSome =
        (eventsOf a (empty.run xs).1).getLast?.any (·.isDiscovered)) ∧
      (∀ n a i, (empty.run xs).1[n]? = some (.lost a i) →
        ∃ before now timeout after, xs = before ++ .sweep now timeout :: after ∧
          (empty.run before).1.length ≤ n ∧
          n < (empty.run (before ++ [.sweep now timeout])).1.length ∧
          latestInterface a before = some i) ∧
      (empty.run xs).2.size + (empty.run xs).1.countP (!·.isDiscovered) =
        (empty.run xs).1.countP (·.isDiscovered) := by
  have h := explains_run_empty xs
  refine ⟨h.alternates, fun a => ?_, fun n a i hn => exists_sweep_of_lost hn, h.balance⟩
  rw [h.present a, (h.alternates a).isDiscovered_getLast?]

/-- A refresh without an event changes what is reported lost. -/
example : (empty.run [.observe (.broadcast 1) (some "eth0") 10, .observe (.broadcast 1) (some "eth1") 5,
    .sweep 8 2, .sweep 0 0]).1 =
      [.discovered (.broadcast 1) (some "eth0"), .lost (.broadcast 1) (some "eth1")] := by
  decide +kernel

end PeerTable
end AmpLink
