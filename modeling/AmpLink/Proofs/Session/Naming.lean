import AmpLink.Proofs.Client.Calls
import AmpLink.Proofs.Net.Resolve
import AmpLink.Proofs.Session.Targets
import AmpLink.Rehearsal.Offline

/-!
# Who is named

An address is known by its text, so the names of clients tell their addresses apart
(`SocketAddress.clientName_injective`), and devices that are named twice are found out by their names before
anything runs (`Plan.Gathers`). The main statement is `Plan.naming`.
-/

namespace AmpLink

open FanOut (targets)

variable {addresses front rest : List SocketAddress} {a : SocketAddress} {f f₀ : FanOut} {port : UInt16}
  {resolver : Resolver}

namespace SocketAddress

/-- The name of a client is its address. -/
theorem clientName_injective {a b : SocketAddress} (ha : a.IsNameable) (hb : b.IsNameable)
    (h : clientName a = clientName b) : a = b := by
  have htext : a.text = b.text := (String.append_right_inj _).mp h
  have hchars : a.chars = b.chars := String.ofList_injective htext
  have hparse := parse?_chars ha
  rw [hchars, parse?_chars hb] at hparse
  exact (Option.some.inj hparse).symm

end SocketAddress

namespace FanOut

theorem names_targets (k : Nat) (addresses : List SocketAddress) :
    ClientTree.names (targets k addresses) = addresses.map clientName := by
  have hfirst : ((addresses.zipIdx k).map Prod.fst).map clientName =
      (addresses.zipIdx k).map (clientName ∘ Prod.fst) := List.map_map
  rw [List.zipIdx_map_fst] at hfirst
  rw [ClientTree.names_eq_map, targets, List.map_map, hfirst]
  rfl

theorem targets_concat (addresses : List SocketAddress) (a : SocketAddress) :
    targets 0 (addresses ++ [a]) = targets 0 addresses ++ [.leaf addresses.length (clientName a) []] := by
  rw [targets, List.zipIdx_append, List.map_append, Nat.zero_add]
  rfl

/-- The client of a numbered address comes in. -/
def enroll (f : FanOut) (a : SocketAddress × Nat) : Except ClientError FanOut :=
  f.add [] (.leaf a.2 (clientName a.1) [])

theorem ofAddresses_eq (addresses : List SocketAddress) :
    ofAddresses addresses = addresses.zipIdx.foldlM enroll .start := rfl

/-- Behind distinct addresses, the next one comes in if it is another one. -/
theorem enroll_eq (h₀ : f₀.tree = .group (targets 0 front) none) (h : ∀ b ∈ a :: front, b.IsNameable) :
    f₀.enroll (a, front.length) =
      if a ∈ front then .error (.alreadyExists (clientName a))
      else .ok { f₀ with tree := .group (targets 0 (front ++ [a])) none } := by
  have hstarted : f₀.tree.isStarted = false := by rw [h₀]; rfl
  have hname : clientName a ∈ front.map clientName ↔ a ∈ front := by
    refine ⟨fun hmem => ?_, List.mem_map_of_mem⟩
    obtain ⟨b, hb, heq⟩ := List.mem_map.mp hmem
    have hsame : b = a :=
      SocketAddress.clientName_injective (h b (List.mem_cons_of_mem a hb)) (h a List.mem_cons_self) heq
    exact hsame ▸ hb
  rw [enroll, add_group h₀, hstarted, if_neg Bool.false_ne_true, names_targets, ClientTree.name, targets_concat]
  simp only [hname]

/-- Further addresses come in, up to the first one that is there already. -/
theorem foldlM_enroll (f₀ : FanOut) (front : List SocketAddress)
    (h₀ : f₀.tree = .group (targets 0 front) none) (hfront : front.Nodup) (h : ∀ a ∈ front ++ rest, a.IsNameable) :
    (∃ f, (rest.zipIdx front.length).foldlM enroll f₀ = .ok f ∧ (front ++ rest).Nodup) ∨
      ∃ a, (rest.zipIdx front.length).foldlM enroll f₀ = .error (.alreadyExists (clientName a)) ∧
        1 < (front ++ rest).count a := by
  induction rest generalizing front f₀ with
  | nil => exact .inl ⟨f₀, rfl, by rwa [List.append_nil]⟩
  | cons a rest ih =>
    have hnext : ∀ b ∈ a :: front, b.IsNameable := by
      intro b hb
      rcases List.mem_cons.mp hb with rfl | hb
      · exact h b (List.mem_append_right _ List.mem_cons_self)
      · exact h b (List.mem_append_left _ hb)
    rw [List.zipIdx_cons, List.foldlM_cons, enroll_eq h₀ hnext]
    split
    · next ha =>
      refine .inr ⟨a, rfl, ?_⟩
      have hcount := List.count_pos_iff.mpr ha
      rw [List.count_append, List.count_cons_self]
      omega
    · next ha =>
      have hnodup := (List.nodup_concat front a).mpr ⟨ha, hfront⟩
      rw [List.concat_eq_append] at hnodup
      have hlen : (front ++ [a]).length = front.length + 1 := List.length_append
      have happend : front ++ a :: rest = front ++ [a] ++ rest := List.append_cons ..
      rw [happend] at h ⊢
      have hrest := ih { f₀ with tree := .group (targets 0 (front ++ [a])) none } _ rfl hnodup h
      rwa [hlen] at hrest

/-- Every address gets a client, or one that is there already is refused. -/
theorem ofAddresses_cases (h : ∀ a ∈ addresses, a.IsNameable) :
    (∃ f, ofAddresses addresses = .ok f ∧ f.tree = .group (targets 0 addresses) none ∧ addresses.Nodup) ∨
      ∃ a, ofAddresses addresses = .error (.alreadyExists (clientName a)) ∧ 1 < addresses.count a := by
  rw [ofAddresses_eq]
  rcases foldlM_enroll .start [] rfl .nil h with ⟨f, hf, hnodup⟩ | hrepeated
  · exact .inl ⟨f, hf, (tree_of_foldlM [] rfl hf).2, hnodup⟩
  · exact .inr hrepeated

end FanOut

namespace Plan

/-- What becomes of the devices that are named. -/
structure Gathers (resolver : Resolver) (t : Targets) (port : UInt16) (addresses : List SocketAddress) : Prop where
  /-- There is one client for each of them, in their order. -/
  each : addresses.Nodup → addresses ≠ [] ∨ t.discover = true → ∀ command repeats dump, ∃ p,
    control? resolver t port command repeats dump = .ok (.control p) ∧ p.addresses = addresses ∧
      p.fixed.tree = .group (targets 0 addresses) none
  /-- A device that is named twice is refused with the name of its client. -/
  twice : ¬addresses.Nodup → ∃ a, 1 < addresses.count a ∧ ∀ command repeats dump,
    control? resolver t port command repeats dump = .error (.run (.client (.alreadyExists (clientName a))))
  nobody : addresses = [] → t.discover = false → ∀ command repeats dump,
    control? resolver t port command repeats dump = .error (.argument .noDevices)

/-- With anybody to talk to, the clients of the named devices decide the plan. -/
theorem control?_eq {t : Targets} (command : Command) (repeats dump : Bool)
    (h : Resolve.addresses resolver (t.addresses.map String.toList) port = .ok addresses)
    (hsome : addresses ≠ [] ∨ t.discover = true) : control? resolver t port command repeats dump =
      match FanOut.ofAddresses addresses with
      | .ok fixed => .ok (.control
        { command, repeats, dump, addresses, fixed, discover := if t.discover then some t.interfaces else none })
      | .error e => .error (.run (.client e)) := by
  have hguard : ¬(addresses.isEmpty && !t.discover) = true := by
    rintro hnobody
    obtain ⟨hempty, hdiscover⟩ := Bool.and_eq_true_iff.mp hnobody
    rcases hsome with hne | hon
    · exact hne (List.isEmpty_iff.mp hempty)
    · rw [hon] at hdiscover
      contradiction
  rw [control?, h]
  dsimp only [Except.mapError, Bind.bind, Except.bind]
  rw [if_neg hguard]
  cases FanOut.ofAddresses addresses with
  | ok f => rfl
  | error e => rfl

theorem gathers {t : Targets} (h : Resolve.addresses resolver (t.addresses.map String.toList) port = .ok addresses) :
    Gathers resolver t port addresses := by
  have hcases := FanOut.ofAddresses_cases (Resolve.isNameable_of_addresses h)
  constructor
  case each =>
    intro hnodup hsome command repeats dump
    rcases hcases with ⟨f, hf, htree, -⟩ | ⟨a, ha, hcount⟩
    · rw [control?_eq command repeats dump h hsome, hf]
      exact ⟨_, rfl, rfl, htree⟩
    · exact absurd hcount (Nat.not_lt.mpr (List.nodup_iff_count_le_one.mp hnodup a))
  case twice =>
    intro hnodup
    rcases hcases with ⟨f, hf, htree, hall⟩ | ⟨a, ha, hcount⟩
    · exact absurd hall hnodup
    · have hsome : addresses ≠ [] := by
        rintro rfl
        exact hnodup .nil
      refine ⟨a, hcount, fun command repeats dump => ?_⟩
      rw [control?_eq command repeats dump h (.inl hsome), ha]
  case nobody =>
    rintro rfl hdiscover command repeats dump
    rw [control?, h, hdiscover]
    rfl

/-- What a text of an address says, by itself and in a list of targets. -/
structure Naming (resolver : Resolver) (port : UInt16) : Prop where
  socket : ∀ before after (a : SocketAddress), IsBlank before → IsBlank after → a.IsNameable →
    Resolve.address resolver (before ++ a.chars ++ after) port = .ok a
  ip : ∀ before after (ip : IpAddress), IsBlank before → IsBlank after →
    Resolve.address resolver (before ++ ip.chars ++ after) port = .ok (.ofIp ip port)
  nameable : ∀ text a, Resolve.address resolver text port = .ok a → a.IsNameable
  clientName_inj : ∀ a b : SocketAddress, a.IsNameable → b.IsNameable → clientName a = clientName b → a = b
  /-- Texts are resolved in their order, blank ones apart. -/
  lists : ∀ texts addresses, Resolve.Lists port texts addresses → Resolve.addresses resolver texts port = .ok addresses
  gathers : ∀ (t : Targets) addresses,
    Resolve.addresses resolver (t.addresses.map String.toList) port = .ok addresses → Gathers resolver t port addresses

theorem naming (resolver : Resolver) (port : UInt16) : Naming resolver port where
  socket _ _ _ hbefore hafter ha := (Resolve.Names.socket hbefore hafter ha).address
  ip _ _ ip hbefore hafter := (Resolve.Names.ip hbefore hafter ip).address
  nameable _ _ := Resolve.isNameable_of_address
  clientName_inj _ _ := SocketAddress.clientName_injective
  lists _ _ := Resolve.Lists.addresses
  gathers _ _ := Plan.gathers

/-- A device that is named with its port and without it. -/
def namedTwice : Targets := { addresses := ["10.0.0.1:5001", " ", "10.0.0.1"], discover := false, interfaces := [] }

theorem naming_namedTwice : Resolve.addresses .offline (namedTwice.addresses.map String.toList) 5001 =
      .ok [.v4 (.ofOctets 10 0 0 1) 5001, .v4 (.ofOctets 10 0 0 1) 5001] ∧
    ∃ a, control? .offline namedTwice 5001 .ping true false = .error (.run (.client (.alreadyExists (clientName a)))) := by
  have hsame : Resolve.addresses .offline (namedTwice.addresses.map String.toList) 5001 =
      .ok [.v4 (.ofOctets 10 0 0 1) 5001, .v4 (.ofOctets 10 0 0 1) 5001] := by decide
  obtain ⟨a, -, ha⟩ := ((naming .offline 5001).gathers namedTwice _ hsame).twice (by decide)
  exact ⟨hsame, a, ha ..⟩

end Plan

end AmpLink
