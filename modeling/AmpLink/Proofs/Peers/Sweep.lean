import AmpLink.Proofs.Net.Order
import AmpLink.Proofs.Peers.Table

/-!
# Sweeps of a table of peers

A sweep reports the peers that have expired, in the strict order of their addresses, and keeps the others as
they are. The order in which a table holds its peers does not matter, because strictly ascending lists with
the same members are the same (`PeerTable.sweep_of_perm`). A peer that has expired stays so when time goes on
(`Peer.isExpired_mono`), so a sweep in between takes away nothing that a later sweep would have kept. The main
statement is `PeerTable.exact_sweep`.
-/

namespace AmpLink

/-- Silent for longer than `timeout` at `now`. Instants that go backwards count as no silence. -/
def Peer.IsSilent (p : Peer) (now timeout : Nat) : Prop :=
  (timeout : Int) < max 0 ((now : Int) - p.lastSeen)

theorem Peer.isExpired_iff {p : Peer} : p.isExpired now timeout ↔ p.IsSilent now timeout := by
  rw [isExpired, decide_eq_true_eq, IsSilent]
  omega

theorem Peer.isExpired_mono {p : Peer} (h : now ≤ later) (hp : p.isExpired now timeout) :
    p.isExpired later timeout := by
  rw [isExpired, decide_eq_true_eq] at hp ⊢
  omega

/-- Each event comes before the later ones in the order of the addresses. -/
def AscendingEvents (events : List PeerEvent) : Prop :=
  events.Pairwise fun e e' => e.address.Precedes e'.address

/-- Ascending events are known by their members. -/
theorem AscendingEvents.eq_of_perm (h : AscendingEvents es) (h' : AscendingEvents es')
    (hp : es.Perm es') : es = es' :=
  hp.eq_of_pairwise (fun _ _ _ _ hab hba => absurd hba hab.asymm) h h'

namespace PeerTable

variable {t t' : PeerTable}

/-! ## The events of a sweep -/

theorem sweep_events_perm (t : PeerTable) (now timeout : Nat) :
    (t.sweep now timeout).1.Perm ((t.peers.filter (·.isExpired now timeout)).map lossOf) := by
  obtain ⟨expired, hperm, hevents⟩ := sweep_events t now timeout
  rw [hevents]
  exact hperm.map lossOf

theorem mem_sweep : e ∈ (t.sweep now timeout).1 ↔
    ∃ p ∈ t.peers, p.isExpired now timeout ∧ e = lossOf p := by
  rw [(sweep_events_perm t now timeout).mem_iff, List.mem_map]
  constructor
  · rintro ⟨p, hp, rfl⟩
    obtain ⟨hmem, hexpired⟩ := List.mem_filter.mp hp
    exact ⟨p, hmem, hexpired, rfl⟩
  · rintro ⟨p, hmem, hexpired, rfl⟩
    exact ⟨p, List.mem_filter.mpr ⟨hmem, hexpired⟩, rfl⟩

theorem ascending_sweep (t : PeerTable) (now timeout : Nat) :
    AscendingEvents (t.sweep now timeout).1 := by
  have hsorted := @List.pairwise_mergeSort Peer (fun p q => p.address.le q.address)
    (fun _ _ _ => SocketAddress.le_trans)
    (fun p q => (Bool.or_eq_true ..).mpr (SocketAddress.le_total p.address q.address))
    (t.peers.filter (·.isExpired now timeout))
  have hdistinct : (t.peers.filter (·.isExpired now timeout)).Pairwise fun p q => p.address ≠ q.address :=
    List.pairwise_map.mp (nodup_map_address_filter _ t.distinct)
  have hdistinct := ((List.mergeSort_perm _ fun p q : Peer => p.address.le q.address).pairwise_iff
    fun hne => Ne.symm hne).mpr hdistinct
  refine List.pairwise_map.mpr ((hsorted.and hdistinct).imp fun {p q} h => ?_)
  exact SocketAddress.isBefore_iff_precedes.mp h

/-! ## What is left -/

theorem sweep_peers (t : PeerTable) (now timeout : Nat) :
    (t.sweep now timeout).2.peers = t.peers.filter fun p => !p.isExpired now timeout := rfl

theorem mem_sweep_peers :
    p ∈ (t.sweep now timeout).2.peers ↔ p ∈ t.peers ∧ ¬ p.isExpired now timeout := by
  rw [sweep_peers, List.mem_filter, Bool.not_eq_true', Bool.not_eq_true]

theorem eq_of_peers_eq (h : t.peers = t'.peers) : t = t' := by
  cases t
  cases t'
  cases h
  rfl

theorem sweep_of_forall_not (h : ∀ p ∈ t.peers, ¬ p.isExpired now timeout) :
    t.sweep now timeout = ([], t) := by
  have hevents : (t.sweep now timeout).1 = [] := by
    refine List.eq_nil_iff_forall_not_mem.mpr fun e he => ?_
    obtain ⟨p, hp, hexpired, -⟩ := mem_sweep.mp he
    exact h p hp hexpired
  have hpeers : (t.sweep now timeout).2.peers = t.peers := by
    rw [sweep_peers, List.filter_eq_self]
    intro p hp
    simpa using h p hp
  exact Prod.ext hevents (eq_of_peers_eq hpeers)

/-! ## The order of the peers in the table -/

theorem sweep_of_perm (h : t'.peers.Perm t.peers) (now timeout : Nat) :
    (t'.sweep now timeout).1 = (t.sweep now timeout).1 ∧
      (t'.sweep now timeout).2.peers.Perm (t.sweep now timeout).2.peers := by
  refine ⟨?_, h.filter _⟩
  refine (ascending_sweep t' now timeout).eq_of_perm (ascending_sweep t now timeout) ?_
  calc (t'.sweep now timeout).1
      _ |>.Perm ((t'.peers.filter (·.isExpired now timeout)).map lossOf) := sweep_events_perm ..
      _ |>.Perm ((t.peers.filter (·.isExpired now timeout)).map lossOf) := (h.filter _).map lossOf
      _ |>.Perm (t.sweep now timeout).1 := (sweep_events_perm ..).symm

/-! ## One sweep after the other -/

variable {now later : Nat}

theorem filter_isExpired_mono (h : now ≤ later) (peers : List Peer) :
    (peers.filter (·.isExpired later timeout)).filter (·.isExpired now timeout) =
      peers.filter (·.isExpired now timeout) := by
  rw [List.filter_filter]
  refine List.filter_congr fun p _ => ?_
  cases hp : p.isExpired now timeout with
  | true => rw [Peer.isExpired_mono h hp, Bool.and_true]
  | false => rw [Bool.false_and]

theorem sweep_sweep_peers (h : now ≤ later) (t : PeerTable) (timeout : Nat) :
    ((t.sweep now timeout).2.sweep later timeout).2 = (t.sweep later timeout).2 := by
  apply eq_of_peers_eq
  rw [sweep_peers, sweep_peers, sweep_peers, List.filter_filter]
  refine List.filter_congr fun p _ => ?_
  cases hp : p.isExpired now timeout with
  | true => rw [Peer.isExpired_mono h hp, Bool.not_true, Bool.false_and]
  | false => rw [Bool.not_false, Bool.and_true]

/-- What a later sweep would report is what this one and then the later one report. -/
theorem sweep_sweep_events (h : now ≤ later) (t : PeerTable) (timeout : Nat) :
    ((t.sweep now timeout).1 ++ ((t.sweep now timeout).2.sweep later timeout).1).Perm
      (t.sweep later timeout).1 := by
  have hfirst : (t.peers.filter (·.isExpired now timeout)) =
      (t.peers.filter (·.isExpired later timeout)).filter (·.isExpired now timeout) :=
    (filter_isExpired_mono h t.peers).symm
  have hsecond : (t.sweep now timeout).2.peers.filter (·.isExpired later timeout) =
      (t.peers.filter (·.isExpired later timeout)).filter fun p => !p.isExpired now timeout := by
    rw [sweep_peers, List.filter_filter, List.filter_filter]
    exact List.filter_congr fun p _ => Bool.and_comm ..
  have hsplit := (List.filter_append_perm (·.isExpired now timeout)
    (t.peers.filter (·.isExpired later timeout))).map lossOf
  rw [List.map_append, ← hfirst, ← hsecond] at hsplit
  exact ((sweep_events_perm ..).append (sweep_events_perm ..)).trans
    (hsplit.trans (sweep_events_perm ..).symm)

/-! ## The main statement -/

/-- What a sweep of `t` reports, and what it leaves. -/
structure Swept (t : PeerTable) (now timeout : Nat) (events : List PeerEvent) (left : PeerTable) :
    Prop where
  /-- A loss for each peer that has been silent for too long, and nothing else. -/
  mem_iff : ∀ e, e ∈ events ↔ ∃ p ∈ t.peers, p.IsSilent now timeout ∧ e = .lost p.address p.interface
  ascending : AscendingEvents events
  /-- The other peers stay as they are. -/
  left_iff : ∀ p, p ∈ left.peers ↔ p ∈ t.peers ∧ ¬ p.IsSilent now timeout
  /-- The order in which the table holds its peers does not matter. -/
  of_perm : ∀ t' : PeerTable, t'.peers.Perm t.peers →
    (t'.sweep now timeout).1 = events ∧ (t'.sweep now timeout).2.peers.Perm left.peers
  again : left.sweep now timeout = ([], left)

/-- A sweep takes away exactly the peers that have been silent for too long, and a sweep before it makes no
difference to what is left and to what is reported in all. -/
theorem exact_sweep (t : PeerTable) (timeout : Nat) :
    (∀ now, Swept t now timeout (t.sweep now timeout).1 (t.sweep now timeout).2) ∧
      ∀ now later, now ≤ later →
        ((t.sweep now timeout).2.sweep later timeout).2 = (t.sweep later timeout).2 ∧
          ((t.sweep now timeout).1 ++ ((t.sweep now timeout).2.sweep later timeout).1).Perm
            (t.sweep later timeout).1 := by
  refine ⟨fun now => ?_, fun now later h => ⟨sweep_sweep_peers h t timeout, sweep_sweep_events h t timeout⟩⟩
  exact
    { mem_iff := fun e => by
        rw [mem_sweep]
        simp only [Peer.isExpired_iff, lossOf]
      ascending := ascending_sweep t now timeout
      left_iff := fun p => by rw [mem_sweep_peers, Peer.isExpired_iff]
      of_perm := fun t' h => sweep_of_perm h now timeout
      again := sweep_of_forall_not fun p hp => (mem_sweep_peers.mp hp).2 }

/-- A peer of each version, and one more that was heard of earlier. -/
def household : PeerTable :=
  (empty.run [.observe (.v6 ⟨#v[0xfe80, 0, 0, 0, 0, 0, 0, 1]⟩ 5001 0 2) (some "eth0") 10,
    .observe (.v4 (.ofOctets 10 0 0 2) 5001) none 0,
    .observe (.v4 (.ofOctets 10 0 0 1) 5001) (some "eth1") 30]).2

/-- The same peers the other way round. -/
def householdReversed : PeerTable :=
  ⟨household.peers.reverse, by
    rw [List.map_reverse]
    exact (List.reverse_perm _).nodup_iff.mpr household.distinct⟩

theorem exact_sweep_household :
    (25 ≤ 60 ∧ ((household.sweep 25 20).2.sweep 60 20).2 = (household.sweep 60 20).2 ∧
      ((household.sweep 25 20).1 ++ ((household.sweep 25 20).2.sweep 60 20).1).Perm
        (household.sweep 60 20).1) ∧
    (householdReversed.peers.Perm household.peers ∧
      (householdReversed.sweep 60 20).1 = (household.sweep 60 20).1) ∧
    (household.sweep 25 20).1 = [.lost (.v4 (.ofOctets 10 0 0 2) 5001) none] := by
  obtain ⟨hswept, hlater⟩ := exact_sweep household 20
  have hperm : householdReversed.peers.Perm household.peers := List.reverse_perm _
  refine ⟨⟨by decide, hlater 25 60 (by decide)⟩, ⟨hperm, ((hswept 60).of_perm _ hperm).1⟩, ?_⟩
  decide +kernel

end PeerTable
end AmpLink
