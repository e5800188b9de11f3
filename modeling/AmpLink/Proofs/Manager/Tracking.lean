import AmpLink.Proofs.Manager.Moves
import Mathlib.Data.List.Nodup

/-!
# Entries and the clients that they stand for

The entries of a manager stand for the clients whose runs have not ended, one entry for each, and no two
of them for the same interface: `Manager.Tracks`. Entries are taken out by name, so this is what makes
the end of a run take out its own entry. Every move keeps it. After `wait` the entries only become fewer,
and once all runs have ended nothing is left to happen: `Manager.Closed`.
-/

namespace AmpLink

/-- How often a task at this stage has called the run of its client. -/
def TaskStage.calls : TaskStage → Nat
  | spawned => 0
  | running | ended _ => 1

theorem TaskStage.calls_of_isEnded {s : TaskStage} (h : s.isEnded) : s.calls = 1 := by
  cases s with
  | ended => rfl
  | spawned | running => contradiction

/-- The interface and the token of a client, and whether its run has ended. -/
def ManagedClient.standing (c : ManagedClient) : String × Token × Bool :=
  (c.interface, c.token, c.stage.isEnded)

namespace Manager

theorem isEnded_of_isDone {m : Manager} {k : Nat} {c : ManagedClient} (h : m.isDone)
    (hc : m.clients[k]? = some c) : c.stage.isEnded :=
  List.all_eq_true.mp h c (List.mem_of_getElem? hc)

theorem begin_eq_none_of_isDone {m : Manager} (h : m.isDone) (k : Nat) : m.begin k = none := by
  refine Option.eq_none_iff_forall_ne_some.mpr fun m' hb => ?_
  obtain ⟨c, hc, hs, -⟩ := begin_eq_some.mp hb
  have hend := isEnded_of_isDone h hc
  rw [hs] at hend
  contradiction

theorem exit_eq_none_of_isDone {m : Manager} (h : m.isDone) (k : Nat) (r : Outcome) :
    m.exit k r = none := by
  refine Option.eq_none_iff_forall_ne_some.mpr fun m' he => ?_
  obtain ⟨c, hc, hs, -⟩ := exit_eq_some.mp he
  have hend := isEnded_of_isDone h hc
  rw [hs] at hend
  contradiction

/-! ## The invariant -/

/-- The entries are those of the clients whose runs have not ended, and no two are for one interface. -/
structure Tracks (m : Manager) : Prop where
  mem_entries : ∀ e, e ∈ m.entries ↔
    m.clients[e.client]?.map ManagedClient.standing = some (e.interface, e.token, false)
  distinct : (m.entries.map (·.interface)).Nodup

namespace Tracks

variable {m m' : Manager} {c d : ManagedClient} {e e' : ManagerEntry} {j k : Nat}

theorem start : Tracks Manager.start where
  mem_entries e := by simp [Manager.start]
  distinct := List.nodup_nil

/-- Only the entries and the standings of the clients matter. -/
theorem congr (h : Tracks m) (he : m'.entries = m.entries)
    (hc : ∀ k : Nat, m'.clients[k]?.map ManagedClient.standing =
      m.clients[k]?.map ManagedClient.standing) : Tracks m' where
  mem_entries e := by rw [he, hc, h.mem_entries]
  distinct := he ▸ h.distinct

theorem wait (h : Tracks m) : Tracks m.wait := h.congr rfl fun _ => rfl

theorem pingClient (h : Tracks m) (k : Nat) : Tracks (m.pingClient k) := by
  refine h.congr rfl fun j => ?_
  rw [Manager.pingClient, List.getElem?_modify, Option.map_eq_map, Option.map_map]
  congr 1
  funext c
  by_cases hj : k = j <;> simp [hj, ManagedClient.standing]

theorem ping (h : Tracks m) : Tracks m.ping := ping_induction (fun _ k h => h.pingClient k) h

theorem begin (h : Tracks m) (hb : m.begin k = some m') : Tracks m' := by
  obtain ⟨c, hc, hs, rfl⟩ := begin_eq_some.mp hb
  refine h.congr rfl fun j => ?_
  rw [List.getElem?_set]
  split
  · next hj =>
    subst hj
    rw [if_pos (List.getElem?_eq_some_iff.mp hc).1, hc]
    simp [ManagedClient.standing, hs, TaskStage.isEnded]
  · rfl

theorem withClient (h : Tracks m) (hn : n ∉ m.interfaces) : Tracks (m.withClient n token) where
  mem_entries e := by
    rw [Manager.withClient, List.mem_append, List.mem_singleton, h.mem_entries]
    rcases Nat.lt_trichotomy e.client m.clients.length with hlt | heq | hlt
    · rw [List.getElem?_append_left hlt]
      refine or_iff_left ?_
      rintro rfl
      exact Nat.lt_irrefl _ hlt
    · obtain ⟨interface, client, token'⟩ := e
      subst heq
      simp [ManagedClient.standing, TaskStage.isEnded, eq_comm]
    · rw [List.getElem?_eq_none (Nat.le_of_lt hlt), List.getElem?_eq_none (by simp; omega)]
      refine or_iff_left ?_
      rintro rfl
      exact Nat.lt_irrefl _ hlt
  distinct := by
    rw [Manager.withClient, List.map_append, List.nodup_append]
    refine ⟨h.distinct, by simp, fun a ha b hb hab => hn ?_⟩
    rw [List.map_singleton, List.mem_singleton] at hb
    rw [hab, hb] at ha
    rw [mem_interfaces, ← List.mem_map]
    exact ha

/-- The entry of a client whose run has not ended. -/
theorem entry_mem (h : Tracks m) (hc : m.clients[k]? = some c) (hs : c.stage.isEnded = false) :
    { interface := c.interface, client := k, token := c.token } ∈ m.entries := by
  rw [h.mem_entries]
  simp [hc, ManagedClient.standing, hs]

theorem client_of_mem (h : Tracks m) (he : e ∈ m.entries) :
    ∃ c, m.clients[e.client]? = some c ∧ c.interface = e.interface ∧ c.token = e.token ∧
      c.stage.isEnded = false := by
  rw [h.mem_entries, Option.map_eq_some_iff] at he
  obtain ⟨c, hc, hs⟩ := he
  rw [ManagedClient.standing, Prod.mk.injEq, Prod.mk.injEq] at hs
  exact ⟨c, hc, hs⟩

theorem eq_of_interface_eq (h : Tracks m) (he : e ∈ m.entries) (he' : e' ∈ m.entries)
    (hi : e.interface = e'.interface) : e = e' :=
  List.inj_on_of_nodup_map h.distinct he he' hi

/-- Taking out the entry by its name takes out the entry of the client. -/
theorem filter_interface (h : Tracks m) (hc : m.clients[k]? = some c)
    (hs : c.stage.isEnded = false) :
    m.entries.filter (·.interface ≠ c.interface) = m.entries.filter (·.client ≠ k) := by
  refine List.filter_congr fun e he => decide_eq_decide.mpr (not_congr ⟨fun hi => ?_, fun hk => ?_⟩)
  · exact congrArg ManagerEntry.client (h.eq_of_interface_eq he (h.entry_mem hc hs) hi)
  · obtain ⟨d, hd, hi, -⟩ := h.client_of_mem he
    rw [hk, hc, Option.some.injEq] at hd
    rw [hd, hi]

theorem exit_entries (h : Tracks m) (he : m.exit k r = some m') :
    m'.entries = m.entries.filter (·.client ≠ k) := by
  obtain ⟨c, hc, hs, rfl⟩ := exit_eq_some.mp he
  exact h.filter_interface hc (by rw [hs]; rfl)

theorem exit (h : Tracks m) (he : m.exit k r = some m') : Tracks m' where
  mem_entries e := by
    rw [h.exit_entries he]
    obtain ⟨c, hc, hs, rfl⟩ := exit_eq_some.mp he
    rw [List.mem_filter, List.getElem?_set]
    by_cases hk : e.client = k
    · simp [hk, (List.getElem?_eq_some_iff.mp hc).1, ManagedClient.standing, TaskStage.isEnded]
    · simp [hk, Ne.symm hk, h.mem_entries]
  distinct := by
    rw [h.exit_entries he]
    exact (List.filter_sublist.map _).nodup h.distinct

theorem move (h : Tracks m) (hm : Move m m') : Tracks m' := by
  cases hm with
  | stay => exact h
  | withClient hr => exact h.withClient (not_mem_of_refusal? hr)
  | ping => exact h.ping
  | pingClient k => exact h.pingClient k
  | begin hb => exact h.begin hb
  | exit he => exact h.exit he
  | wait => exact h.wait

/-- No interface has two clients whose runs have not ended. -/
theorem eq_of_unfinished (h : Tracks m) (hj : m.clients[j]? = some c) (hk : m.clients[k]? = some d)
    (hc : c.stage.isEnded = false) (hd : d.stage.isEnded = false) (hi : c.interface = d.interface) :
    j = k :=
  congrArg ManagerEntry.client (h.eq_of_interface_eq (h.entry_mem hj hc) (h.entry_mem hk hd) hi)

theorem mem_interfaces_iff (h : Tracks m) :
    n ∈ m.interfaces ↔ ∃ c ∈ m.clients, c.interface = n ∧ c.stage.isEnded = false := by
  rw [mem_interfaces]
  constructor
  · rintro ⟨e, he, rfl⟩
    obtain ⟨c, hc, hi, -, hs⟩ := h.client_of_mem he
    exact ⟨c, List.mem_of_getElem? hc, hi, hs⟩
  · rintro ⟨c, hc, rfl, hs⟩
    obtain ⟨k, hk⟩ := List.mem_iff_getElem?.mp hc
    exact ⟨_, h.entry_mem hk hs, rfl⟩

theorem entries_eq_nil (h : Tracks m) (hd : m.isDone) : m.entries = [] := by
  refine List.eq_nil_iff_forall_not_mem.mpr fun e he => ?_
  obtain ⟨c, hc, -, -, hs⟩ := h.client_of_mem he
  have hend := isEnded_of_isDone hd hc
  rw [hs] at hend
  contradiction

end Tracks

/-! ## Calls of runs -/

/-- Every task has called the run of its client as often as its stage says. -/
def CallsOnce (m : Manager) : Prop := ∀ c ∈ m.clients, c.runs = c.stage.calls

namespace CallsOnce

variable {m m' : Manager} {c : ManagedClient}

theorem start : CallsOnce Manager.start := by
  intro c hc
  contradiction

theorem pingClient (h : CallsOnce m) (k : Nat) : CallsOnce (m.pingClient k) :=
  forall_mem_pingClient (fun _ hc => hc) h k

theorem set (h : CallsOnce m) (hc : c.runs = c.stage.calls) (k : Nat) :
    ∀ d ∈ m.clients.set k c, d.runs = d.stage.calls := by
  intro d hd
  rcases List.mem_or_eq_of_mem_set hd with hd | rfl
  · exact h d hd
  · exact hc

theorem move (h : CallsOnce m) (hm : Move m m') : CallsOnce m' := by
  cases hm with
  | stay => exact h
  | withClient hr =>
    intro c hc
    rcases List.mem_append.mp hc with hc | hc
    · exact h c hc
    · rw [List.mem_singleton] at hc
      rw [hc]
      rfl
  | ping => exact ping_induction (fun _ k h => h.pingClient k) h
  | pingClient k => exact h.pingClient k
  | begin hb =>
    obtain ⟨c, hc, hs, rfl⟩ := begin_eq_some.mp hb
    refine h.set ?_ _
    rw [h c (List.mem_of_getElem? hc), hs]
    rfl
  | exit he =>
    obtain ⟨c, hc, hs, rfl⟩ := exit_eq_some.mp he
    refine h.set ?_ _
    rw [h c (List.mem_of_getElem? hc), hs]
    rfl
  | wait => exact h

end CallsOnce

/-! ## After `wait` -/

theorem waiting_ping {m : Manager} : m.ping.waiting = m.waiting :=
  ping_induction (P := fun m' => m'.waiting = m.waiting) (fun _ _ h => h) rfl

theorem entries_ping {m : Manager} : m.ping.entries = m.entries :=
  ping_induction (P := fun m' => m'.entries = m.entries) (fun _ _ h => h) rfl

theorem length_ping {m : Manager} : m.ping.clients.length = m.clients.length :=
  ping_induction (P := fun m' => m'.clients.length = m.clients.length)
    (fun _ _ h => (List.length_modify ..).trans h) rfl

theorem isDone_ping {m : Manager} (h : m.isDone) : m.ping.isDone := by
  refine ping_induction (P := fun m => m.isDone = true) (fun m k h => ?_) h
  exact List.all_eq_true.mpr (forall_mem_pingClient (fun _ hc => hc) (List.all_eq_true.mp h) k)

/-- What no move takes back: starts stay refused, no entry comes in, and if all runs have ended then no
run is left to end. -/
structure Closed (m m' : Manager) : Prop where
  waiting : m'.waiting = true
  entries : m'.entries.Sublist m.entries
  isDone : m.isDone → m'.isDone

theorem Closed.refl {m : Manager} (hw : m.waiting) : Closed m m := ⟨hw, .refl _, id⟩

theorem Closed.trans {m m' m'' : Manager} (h : Closed m m') (h' : Closed m' m'') : Closed m m'' :=
  ⟨h'.waiting, h'.entries.trans h.entries, fun hd => h'.isDone (h.isDone hd)⟩

theorem Move.closed {m m' : Manager} (hm : Move m m') (hw : m.waiting) : Closed m m' := by
  cases hm with
  | stay => exact .refl hw
  | withClient hr =>
    rw [not_waiting_of_refusal? hr] at hw
    contradiction
  | ping =>
    refine ⟨waiting_ping.trans hw, ?_, isDone_ping⟩
    rw [entries_ping]
  | pingClient k =>
    refine ⟨hw, .refl _, fun hd => ?_⟩
    exact List.all_eq_true.mpr (forall_mem_pingClient (fun _ hc => hc) (List.all_eq_true.mp hd) k)
  | begin hb =>
    have hdone : m.isDone → m'.isDone := fun hd => by
      rw [begin_eq_none_of_isDone hd] at hb
      contradiction
    obtain ⟨c, -, -, rfl⟩ := begin_eq_some.mp hb
    exact ⟨hw, .refl _, hdone⟩
  | exit he =>
    have hdone : m.isDone → m'.isDone := fun hd => by
      rw [exit_eq_none_of_isDone hd] at he
      contradiction
    obtain ⟨c, -, -, rfl⟩ := exit_eq_some.mp he
    exact ⟨hw, List.filter_sublist, hdone⟩
  | wait => exact ⟨rfl, .refl _, id⟩

end Manager
end AmpLink
