import AmpLink.Discovery.Manager

/-!
# What the operations on a manager do

One lemma for each operation says when it is possible and what it leads to. `Manager.Move` gathers them:
however a manager is used, it changes by moves, so what every move keeps holds of every manager in use.
-/

namespace AmpLink

theorem mem_insertName {names : List String} : n ∈ insertName name names ↔ n = name ∨ n ∈ names := by
  induction names with
  | nil => simp [insertName]
  | cons m names ih =>
    rw [insertName]
    split
    · simp
    · split
      · next h => simp [h]
      · rw [List.mem_cons, ih, List.mem_cons]
        exact or_left_comm

theorem mem_nameSet {names : List String} : n ∈ nameSet names ↔ n ∈ names := by
  induction names with
  | nil => simp [nameSet]
  | cons m names ih =>
    rw [nameSet, List.foldr_cons, mem_insertName, List.mem_cons]
    exact or_congr_right ih

namespace Manager

theorem mem_interfaces {m : Manager} : n ∈ m.interfaces ↔ ∃ e ∈ m.entries, e.interface = n := by
  rw [interfaces, mem_nameSet, List.mem_map]

theorem isSome_find? {m : Manager} : (m.find? n).isSome ↔ n ∈ m.interfaces := by
  rw [mem_interfaces, find?, List.find?_isSome]
  simp

theorem mem_of_find? {m : Manager} (h : m.find? n = some e) : e ∈ m.entries ∧ e.interface = n :=
  ⟨List.mem_of_find?_eq_some h, of_decide_eq_true (List.find?_some h :)⟩

theorem refusal?_eq {m : Manager} : m.refusal? n =
    if m.waiting then some (.busy "shutdown")
    else if n ∈ m.interfaces then some (.alreadyExists n) else none := by
  simp only [refusal?, isSome_find?]

/-- The manager after a start that has succeeded. -/
def withClient (m : Manager) (n : String) (token : Token) : Manager :=
  { m with
    clients := m.clients ++ [{ interface := n, token, pings := 0, runs := 0, stage := .spawned }]
    entries := m.entries ++ [{ interface := n, client := m.clients.length, token }] }

/-- A start is refused, or fails with the making of the client, or succeeds. -/
theorem startClient_cases (m : Manager) (tokens : TokenForest) (parent : Token) (n : String)
    (made : Outcome) :
    (∃ e, m.refusal? n = some e ∧
      m.startClient tokens parent n made = (.error (.client e), m, tokens)) ∨
    (∃ e, m.refusal? n = none ∧ made = .error e ∧
      m.startClient tokens parent n made = (.error e, m, tokens)) ∨
    (m.refusal? n = none ∧ made = .ok () ∧
      m.startClient tokens parent n made =
        (.ok m.clients.length, m.withClient n (tokens.child parent).1, (tokens.child parent).2)) := by
  cases h : m.refusal? n with
  | some e => exact .inl ⟨e, rfl, by simp [startClient, h]⟩
  | none =>
    cases made with
    | error e => exact .inr (.inl ⟨e, rfl, rfl, by simp [startClient, h]⟩)
    | ok => exact .inr (.inr ⟨rfl, rfl, by simp [startClient, h, withClient]⟩)

theorem startClient_of_waiting {m : Manager} (h : m.waiting) :
    (m.startClient tokens parent n made).1 = .error (.client (.busy "shutdown")) := by
  have hr : m.refusal? n = some (.busy "shutdown") := by rw [refusal?_eq, if_pos h]
  simp [startClient, hr]

theorem startClient_of_mem {m : Manager} (h : m.waiting = false) (hn : n ∈ m.interfaces) :
    (m.startClient tokens parent n made).1 = .error (.client (.alreadyExists n)) := by
  have hr : m.refusal? n = some (.alreadyExists n) := by simp [refusal?_eq, h, hn]
  simp [startClient, hr]

theorem startClient_of_not_mem {m : Manager} (h : m.waiting = false) (hn : n ∉ m.interfaces) :
    (m.startClient tokens parent n made).1 = made.map fun _ => m.clients.length := by
  have hr : m.refusal? n = none := by simp [refusal?_eq, h, hn]
  cases made <;> simp [startClient, hr, Except.map]

theorem waiting_startClient {m : Manager} (parent : Token) (n : String) (made : Outcome) :
    (m.startClient tokens parent n made).2.1.waiting = m.waiting := by
  rcases startClient_cases m tokens parent n made with ⟨e, -, hs⟩ | ⟨e, -, -, hs⟩ | ⟨-, -, hs⟩
  · rw [hs]
  · rw [hs]
  · rw [hs]; rfl

theorem begin_eq_some {m : Manager} : m.begin k = some m' ↔
    ∃ c, m.clients[k]? = some c ∧ c.stage = .spawned ∧
      m' = { m with clients := m.clients.set k { c with runs := c.runs + 1, stage := .running } } := by
  rw [begin]
  cases hc : m.clients[k]? with
  | none => simp
  | some c => cases hs : c.stage <;> simp [hs, eq_comm]

theorem exit_eq_some {m : Manager} : m.exit k r = some m' ↔
    ∃ c, m.clients[k]? = some c ∧ c.stage = .running ∧
      m' = { m with
        clients := m.clients.set k { c with stage := .ended r }
        entries := m.entries.filter (·.interface ≠ c.interface) } := by
  rw [exit]
  cases hc : m.clients[k]? with
  | none => simp
  | some c => cases hs : c.stage <;> simp [hs, eq_comm]

/-- What pinging one client keeps, pinging all keeps. -/
theorem ping_induction {P : Manager → Prop} (hP : ∀ m k, P m → P (m.pingClient k)) {m : Manager}
    (h : P m) : P m.ping := by
  rw [ping]
  generalize m.tracked = ks
  induction ks generalizing m with
  | nil => exact h
  | cons k ks ih => exact ih (hP m k h)

theorem forall_mem_pingClient {m : Manager} {P : ManagedClient → Prop}
    (hP : ∀ c, P c → P { c with pings := c.pings + 1 }) (h : ∀ c ∈ m.clients, P c) (k : Nat) :
    ∀ c ∈ (m.pingClient k).clients, P c := by
  intro d hd
  obtain ⟨j, hj⟩ := List.mem_iff_getElem?.mp hd
  rw [pingClient, List.getElem?_modify, Option.map_eq_map, Option.map_eq_some_iff] at hj
  obtain ⟨c, hc, rfl⟩ := hj
  have hPc := h c (List.mem_of_getElem? hc)
  split
  · exact hP c hPc
  · exact hPc

theorem forall_mem_ping {m : Manager} {P : ManagedClient → Prop}
    (hP : ∀ c, P c → P { c with pings := c.pings + 1 }) (h : ∀ c ∈ m.clients, P c) :
    ∀ c ∈ m.ping.clients, P c :=
  ping_induction (P := fun m => ∀ c ∈ m.clients, P c)
    (fun _ k hm => forall_mem_pingClient hP hm k) h

/-- What does not depend on how far a task has come, a task keeps by going on. -/
theorem forall_mem_set {cs : List ManagedClient} {k : Nat} {c : ManagedClient} {P : ManagedClient → Prop}
    (hP : ∀ c runs stage, P c → P { c with runs, stage }) (h : ∀ c ∈ cs, P c) (hc : cs[k]? = some c)
    (runs : Nat) (stage : TaskStage) : ∀ d ∈ cs.set k { c with runs, stage }, P d := by
  intro d hd
  rcases List.mem_or_eq_of_mem_set hd with hd | rfl
  · exact h d hd
  · exact hP c runs stage (h c (List.mem_of_getElem? hc))

/-- How a manager can change at once. -/
inductive Move (m : Manager) : Manager → Prop
  | stay : Move m m
  | withClient : m.refusal? n = none → Move m (m.withClient n token)
  | ping : Move m m.ping
  | pingClient (k : Nat) : Move m (m.pingClient k)
  | begin : m.begin k = some m' → Move m m'
  | exit : m.exit k r = some m' → Move m m'
  | wait : Move m m.wait

theorem Move.startClient {m : Manager} : Move m (m.startClient tokens parent n made).2.1 := by
  rcases startClient_cases m tokens parent n made with ⟨e, -, hs⟩ | ⟨e, -, -, hs⟩ | ⟨hr, -, hs⟩
  · rw [hs]; exact .stay
  · rw [hs]; exact .stay
  · rw [hs]; exact .withClient hr

theorem not_waiting_of_refusal? {m : Manager} (h : m.refusal? n = none) : m.waiting = false := by
  rw [refusal?_eq] at h
  cases hw : m.waiting with
  | false => rfl
  | true => rw [hw] at h; contradiction

theorem not_mem_of_refusal? {m : Manager} (h : m.refusal? n = none) : n ∉ m.interfaces := by
  intro hn
  rw [refusal?_eq, if_pos hn] at h
  split at h <;> contradiction

end Manager
end AmpLink
