import AmpLink.Proofs.Manager.Tracking
import AmpLink.Proofs.Task.Tokens

/-!
# The tokens of the clients

Every client has a token of its own, handed out at its start right below a token that is older than all
of the clients: `Manager.Planted`. So the token of a client lies within no other client's, and no older
token lies within it.
-/

namespace AmpLink

/-- Every number on the way to the token has been handed out. -/
def TokenForest.Holds (f : TokenForest) (t : Token) : Prop := ∀ i ∈ t.path, i < f.issued

namespace Manager

variable {m m' : Manager}

/-! ## What does not change in a client -/

theorem map_set {cs : List ManagedClient} (g : ManagedClient → β) (hc : cs[k]? = some c)
    (hd : g d = g c) : (cs.set k d).map g = cs.map g := by
  obtain ⟨hlt, hget⟩ := List.getElem?_eq_some_iff.mp hc
  have hlt' : k < (cs.map g).length := by rwa [List.length_map]
  have hg : g c = (cs.map g)[k] := by rw [List.getElem_map, hget]
  rw [List.map_set, hd, hg, List.set_getElem_self]

theorem map_pingClient (g : ManagedClient → β) (hg : ∀ c : ManagedClient, ∀ n, g { c with pings := n } = g c)
    (m : Manager) (k : Nat) : (m.pingClient k).clients.map g = m.clients.map g := by
  refine List.ext_getElem? fun j => ?_
  rw [pingClient, List.getElem?_map, List.getElem?_modify, List.getElem?_map, Option.map_eq_map,
    Option.map_map]
  congr 1
  funext c
  rw [Function.comp_apply]
  split
  · exact hg c _
  · rfl

theorem map_ping (g : ManagedClient → β) (hg : ∀ c : ManagedClient, ∀ n, g { c with pings := n } = g c)
    (m : Manager) : m.ping.clients.map g = m.clients.map g :=
  ping_induction (P := fun m' => m'.clients.map g = m.clients.map g)
    (fun m' k h => (map_pingClient g hg m' k).trans h) rfl

/-! ## The invariant -/

/-- The tokens of the clients are numbered from `base` on, and each lies right below an older token. -/
structure Planted (base : Nat) (m : Manager) (f : TokenForest) : Prop where
  issued : f.issued = base + m.clients.length
  token : ∀ (k : Nat) c, m.clients[k]? = some c →
    ∃ parent : Token, c.token = ⟨parent.path ++ [base + k]⟩ ∧ ∀ i ∈ parent.path, i < base

namespace Planted

variable {f f' : TokenForest} {c d : ManagedClient} {t : Token} {j k base : Nat}

theorem start (f : TokenForest) : Planted f.issued .start f where
  issued := rfl
  token := nofun

theorem congr (h : Planted base m f) (hf : f'.issued = f.issued)
    (hm : m'.clients.map (·.token) = m.clients.map (·.token)) : Planted base m' f' where
  issued := by
    have hlength := congrArg List.length hm
    rw [List.length_map, List.length_map] at hlength
    rw [hf, h.issued, hlength]
  token k c hc := by
    have hmap : (m.clients.map (·.token))[k]? = some c.token := by
      rw [← hm, List.getElem?_map, hc]
      rfl
    rw [List.getElem?_map, Option.map_eq_some_iff] at hmap
    obtain ⟨d, hd, htoken⟩ := hmap
    rw [← htoken]
    exact h.token k d hd

theorem withClient (h : Planted base m f) {parent : Token} (hp : ∀ i ∈ parent.path, i < base)
    (n : String) : Planted base (m.withClient n (f.child parent).1) (f.child parent).2 where
  issued := by
    rw [TokenForest.child, h.issued, Manager.withClient, List.length_append]
    rfl
  token k c hc := by
    rw [Manager.withClient] at hc
    rcases Nat.lt_trichotomy k m.clients.length with hlt | rfl | hlt
    · rw [List.getElem?_append_left hlt] at hc
      exact h.token k c hc
    · rw [List.getElem?_concat_length, Option.some.injEq] at hc
      rw [← hc, ← h.issued]
      exact ⟨parent, rfl, hp⟩
    · rw [List.getElem?_eq_none (by simp; omega)] at hc
      contradiction

/-- The token of a client lies within no other client's. -/
theorem eq_of_isWithin (h : Planted base m f) (hj : m.clients[j]? = some c)
    (hk : m.clients[k]? = some d) (hw : c.token.isWithin d.token) : j = k := by
  obtain ⟨p, hc, hp⟩ := h.token j c hj
  obtain ⟨q, hd, -⟩ := h.token k d hk
  have hmem : base + k ∈ c.token.path := by
    refine (Token.isWithin_iff.mp hw).mem ?_
    rw [hd]
    simp
  rw [hc, List.mem_append, List.mem_singleton] at hmem
  rcases hmem with hmem | heq
  · have hlt := hp _ hmem
    omega
  · omega

theorem not_isWithin_of_old (h : Planted base m f) (hk : m.clients[k]? = some c)
    (ht : ∀ i ∈ t.path, i < base) : t.isWithin c.token = false := by
  refine Bool.eq_false_iff.mpr fun hw => ?_
  obtain ⟨p, hc, -⟩ := h.token k c hk
  have hmem : base + k ∈ t.path := by
    refine (Token.isWithin_iff.mp hw).mem ?_
    rw [hc]
    simp
  have hlt := ht _ hmem
  omega

end Planted
end Manager
end AmpLink
