import AmpLink.Discovery.Peers
import AmpLink.Proofs.Keyed

/-!
# What the actions on a table of peers do

The view of a table is `find?`, the peer of an address. Each action gets one equation for the view and
one for the events that it gives for an address: a message puts its peer there, a sweep takes away the
peer of an address if it has been silent for too long, and each gives at most one event for an address.
-/

namespace AmpLink

/-- The events of one address. -/
def eventsOf (a : SocketAddress) (events : List PeerEvent) : List PeerEvent :=
  events.filter (·.address = a)

@[simp] theorem eventsOf_nil : eventsOf a [] = [] := rfl

@[simp] theorem eventsOf_append : eventsOf a (es ++ es') = eventsOf a es ++ eventsOf a es' :=
  List.filter_append ..

namespace PeerTable

theorem find?_eq_some_iff {t : PeerTable} : t.find? a = some p ↔ p ∈ t.peers ∧ p.address = a :=
  find?_key_eq_some_iff t.distinct

theorem any_eq_isSome_find? {t : PeerTable} :
    t.peers.any (·.address = a) = (t.find? a).isSome := by
  exact List.isSome_find?.symm

/-! ## Messages -/

theorem observe_of_isSome {t : PeerTable} (h : (t.find? a).isSome) :
    (t.observe a i now).1 = none ∧ (t.observe a i now).2.peers = refreshPeers t.peers a i now := by
  rw [← any_eq_isSome_find?] at h
  simp [observe, h]

theorem observe_of_eq_none {t : PeerTable} (h : t.find? a = none) :
    (t.observe a i now).1 = some (.discovered a i) ∧
      (t.observe a i now).2.peers = t.peers ++ [{ address := a, interface := i, lastSeen := now }] := by
  have h' : t.peers.any (·.address = a) = false := by rw [any_eq_isSome_find?, h]; rfl
  simp [observe, h']

theorem find?_observe_self {t : PeerTable} :
    (t.observe a i now).2.find? a = some { address := a, interface := i, lastSeen := now } := by
  refine find?_eq_some_iff.mpr ⟨?_, rfl⟩
  cases h : t.find? a with
  | none => simp [(observe_of_eq_none h).2]
  | some p =>
    obtain ⟨hp, hpa⟩ := find?_eq_some_iff.mp h
    rw [(observe_of_isSome (by simp [h])).2, refreshPeers]
    exact List.mem_map.mpr ⟨p, hp, by simp [hpa]⟩

theorem find?_observe_of_ne {t : PeerTable} (hb : b ≠ a) :
    (t.observe a i now).2.find? b = t.find? b := by
  apply Option.ext
  intro p
  rw [find?_eq_some_iff, find?_eq_some_iff]
  refine and_congr_left fun hp => ?_
  have hpa : p.address ≠ a := hp ▸ hb
  cases h : t.find? a with
  | none =>
    rw [(observe_of_eq_none h).2, List.mem_append, List.mem_singleton]
    refine or_iff_left ?_
    rintro rfl
    exact hpa rfl
  | some q =>
    rw [(observe_of_isSome (by simp [h])).2, refreshPeers, List.mem_map]
    constructor
    · rintro ⟨q, hq, rfl⟩
      by_cases hqa : q.address = a
      · rw [if_pos hqa] at hpa
        exact absurd hqa hpa
      · rwa [if_neg hqa]
    · intro h
      exact ⟨p, h, if_neg hpa⟩

/-- A message gives an event for its own address only, and only if the address has no peer. -/
theorem eventsOf_observe {t : PeerTable} :
    eventsOf b (t.observe a i now).1.toList =
      if b = a ∧ t.find? a = none then [.discovered a i] else [] := by
  cases h : t.find? a with
  | none =>
    rw [(observe_of_eq_none h).1]
    by_cases hb : b = a
    · subst b
      simp [eventsOf, PeerEvent.address]
    · simp [eventsOf, PeerEvent.address, hb, Ne.symm hb]
  | some p =>
    rw [(observe_of_isSome (by simp [h])).1]
    simp

theorem size_observe {t : PeerTable} :
    (t.observe a i now).2.size = t.size + (t.observe a i now).1.toList.length := by
  cases h : t.find? a with
  | none => simp [size, observe_of_eq_none h]
  | some p => simp [size, observe_of_isSome (a := a) (t := t) (by simp [h]), refreshPeers]

/-! ## Sweeps -/

theorem find?_sweep {t : PeerTable} :
    (t.sweep now timeout).2.find? a = (t.find? a).filter (!·.isExpired now timeout) := by
  apply Option.ext
  intro p
  rw [find?_eq_some_iff, Option.filter_eq_some_iff, find?_eq_some_iff, sweep, List.mem_filter]
  exact and_right_comm

/-- The event for the loss of a peer. -/
def lossOf (p : Peer) : PeerEvent := .lost p.address p.interface

theorem sweep_events (t : PeerTable) (now timeout : Nat) : ∃ expired : List Peer,
    List.Perm expired (t.peers.filter (·.isExpired now timeout)) ∧
      (t.sweep now timeout).1 = expired.map lossOf :=
  ⟨_, List.mergeSort_perm .., rfl⟩

/-- A sweep gives the loss of the peer of an address, if there is one and it has expired. -/
theorem eventsOf_sweep {t : PeerTable} :
    eventsOf a (t.sweep now timeout).1 =
      ((t.find? a).filter (·.isExpired now timeout)).toList.map lossOf := by
  obtain ⟨expired, hperm, hevents⟩ := sweep_events t now timeout
  have hfilter : List.Perm (expired.filter (·.address = a))
      ((t.find? a).filter (·.isExpired now timeout)).toList := by
    refine (hperm.filter _).trans (.of_eq ?_)
    have hcomm : (t.peers.filter (·.isExpired now timeout)).filter (·.address = a) =
        (t.peers.filter (·.address = a)).filter (·.isExpired now timeout) := by
      rw [List.filter_filter, List.filter_filter]
      exact List.filter_congr fun p _ => Bool.and_comm ..
    rw [hcomm, filter_key_eq_find? t.distinct, ← find?]
    cases t.find? a with
    | none => rfl
    | some p => cases hp : p.isExpired now timeout <;> simp [Option.filter, hp]
  rw [hevents, eventsOf, List.filter_map]
  refine congrArg (List.map lossOf) ?_
  change expired.filter (·.address = a) = _
  cases h : (t.find? a).filter (·.isExpired now timeout) with
  | none => exact (h ▸ hfilter).eq_nil
  | some p => exact (h ▸ hfilter).eq_singleton

theorem size_sweep {t : PeerTable} :
    (t.sweep now timeout).2.size + (t.sweep now timeout).1.length = t.size := by
  obtain ⟨expired, hperm, hevents⟩ := sweep_events t now timeout
  have hsplit := List.length_eq_countP_add_countP (·.isExpired now timeout) (l := t.peers)
  rw [hevents, List.length_map, hperm.length_eq, Nat.add_comm, size, size, hsplit,
    List.countP_eq_length_filter, List.countP_eq_length_filter]
  simp [sweep]

end PeerTable
end AmpLink
