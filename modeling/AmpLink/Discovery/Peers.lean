import AmpLink.Net.SocketAddress

/-!
# Peers and their silence

A peer is an address that has sent something. The table keeps the interface and the instant of its
latest message; a peer that has been silent for longer than the timeout is dropped and reported lost.
Instants are milliseconds and may go backwards, which counts as no silence.
-/

namespace AmpLink

/-- A change in what can be reached. -/
inductive PeerEvent where
  | discovered (address : SocketAddress) (interface : Option String)
  | lost (address : SocketAddress) (interface : Option String)
  deriving DecidableEq, Repr

namespace PeerEvent

def address : PeerEvent → SocketAddress
  | discovered a _ | lost a _ => a

def interface : PeerEvent → Option String
  | discovered _ i | lost _ i => i

def isDiscovered : PeerEvent → Bool
  | discovered .. => true
  | lost .. => false

end PeerEvent

structure Peer where
  address : SocketAddress
  interface : Option String
  lastSeen : Nat
  deriving DecidableEq, Repr

/-- Silent for longer than `timeout` at `now`. -/
def Peer.isExpired (p : Peer) (now timeout : Nat) : Bool := timeout < now - p.lastSeen

/-- The peers, at most one of each address. -/
structure PeerTable where
  peers : List Peer
  distinct : (peers.map Peer.address).Nodup
  deriving Repr

/-- The peers after a message from `a`, whose peer is among them. -/
def refreshPeers (peers : List Peer) (a : SocketAddress) (interface : Option String) (now : Nat) :
    List Peer :=
  peers.map fun p => if p.address = a then { p with interface, lastSeen := now } else p

theorem map_address_refreshPeers {peers : List Peer} :
    (refreshPeers peers a i now).map Peer.address = peers.map Peer.address := by
  rw [refreshPeers, List.map_map]
  refine List.map_congr_left fun p _ => ?_
  simp only [Function.comp_apply]
  split <;> rfl

theorem nodup_map_address_refreshPeers {peers : List Peer} (h : (peers.map Peer.address).Nodup) :
    ((refreshPeers peers a i now).map Peer.address).Nodup := by
  rw [map_address_refreshPeers]
  exact h

theorem nodup_map_address_concat {peers : List Peer} {p : Peer}
    (h : (peers.map Peer.address).Nodup) (hp : ¬ peers.any (·.address = p.address)) :
    ((peers ++ [p]).map Peer.address).Nodup := by
  rw [List.map_append, List.nodup_append]
  refine ⟨h, by simp, fun a ha b hb hab => hp ?_⟩
  obtain ⟨q, hq, rfl⟩ := List.mem_map.mp ha
  rw [List.map_singleton, List.mem_singleton] at hb
  exact List.any_eq_true.mpr ⟨q, hq, decide_eq_true (hab.trans hb)⟩

theorem nodup_map_address_filter {peers : List Peer} (f : Peer → Bool)
    (h : (peers.map Peer.address).Nodup) : ((peers.filter f).map Peer.address).Nodup :=
  (List.filter_sublist.map _).nodup h

namespace PeerTable

def empty : PeerTable := ⟨[], List.nodup_nil⟩

def size (t : PeerTable) : Nat := t.peers.length

/-- The peer of an address. -/
def find? (t : PeerTable) (a : SocketAddress) : Option Peer := t.peers.find? (·.address = a)

/-- Takes note of a message. A peer that was not in the table is discovered. -/
def observe (t : PeerTable) (a : SocketAddress) (interface : Option String) (now : Nat) :
    Option PeerEvent × PeerTable :=
  if h : t.peers.any (·.address = a) then
    (none, ⟨refreshPeers t.peers a interface now, nodup_map_address_refreshPeers t.distinct⟩)
  else
    (some (.discovered a interface),
      ⟨t.peers ++ [{ address := a, interface, lastSeen := now }], nodup_map_address_concat t.distinct h⟩)

/-- Drops the peers that have been silent for too long. They are reported in the order of their
addresses. -/
def sweep (t : PeerTable) (now timeout : Nat) : List PeerEvent × PeerTable :=
  let expired := (t.peers.filter (·.isExpired now timeout)).mergeSort fun p q => p.address.le q.address
  (expired.map fun p => .lost p.address p.interface,
    ⟨t.peers.filter fun p => !p.isExpired now timeout, nodup_map_address_filter _ t.distinct⟩)

/-- What can be done to a table. -/
inductive Action where
  | observe (address : SocketAddress) (interface : Option String) (now : Nat)
  | sweep (now timeout : Nat)
  deriving DecidableEq, Repr

/-- The events that an action gives, and the table that it leaves. -/
def step (t : PeerTable) : Action → List PeerEvent × PeerTable
  | .observe a interface now => ((t.observe a interface now).1.toList, (t.observe a interface now).2)
  | .sweep now timeout => t.sweep now timeout

/-- The events that actions give one after the other, and what they lead to. -/
def run (t : PeerTable) : List Action → List PeerEvent × PeerTable
  | [] => ([], t)
  | a :: rest =>
    let (events, t) := t.step a
    let (later, t) := t.run rest
    (events ++ later, t)

end PeerTable
end AmpLink
