import AmpLink.Proofs.Keyed
import AmpLink.Proofs.Peers.Table
import AmpLink.Proofs.Session.Targets
import AmpLink.Proofs.Task.Tokens
import AmpLink.Session.Controller

/-!
# Whom a controller tells what

Ticks, discoveries and losses come in any order. `Controller.Move` says what each of them does, and three
things are kept by all of them: the addresses of the clients are told by the last events
(`Controller.Roster`), every client has a token of its own that is cancelled with its loss
(`Controller.Keyring`), and every client is told the command that it found and each command that came
while it was there (`Controller.Enlisted`). The main statement is `Controller.inStep`.
-/

namespace AmpLink

/-! ## Commands and their rounds -/

namespace Command

variable {c : Command} {k n : Nat}

/-- The command after some rounds. -/
def later (c : Command) : Nat → Command
  | 0 => c
  | n + 1 => c.next.later n

theorem later_add (c : Command) (m n : Nat) : c.later (m + n) = (c.later m).later n := by
  induction m generalizing c with
  | zero => rw [Nat.zero_add]; rfl
  | succ m ih => rw [Nat.add_right_comm]; exact ih c.next

theorem rounds_add (c : Command) (m n : Nat) : c.rounds (m + n) = c.rounds m ++ (c.later m).rounds n := by
  induction m generalizing c with
  | zero => rw [Nat.zero_add]; rfl
  | succ m ih => rw [Nat.add_right_comm]; exact congrArg (c.next :: ·) (ih c.next)

theorem length_rounds (c : Command) (n : Nat) : (c.rounds n).length = n := by
  induction n generalizing c with
  | zero => rfl
  | succ n ih => exact congrArg (· + 1) (ih c.next)

theorem getElem?_rounds (h : k < n + 1) : (c :: c.rounds n)[k]? = some (c.later k) := by
  induction k generalizing c n with
  | zero => rfl
  | succ k ih =>
    cases n with
    | zero => omega
    | succ n => exact ih (Nat.lt_of_succ_lt_succ h)

theorem getLast?_rounds (c : Command) (n : Nat) : (c :: c.rounds n).getLast? = some (c.later n) := by
  rw [List.getLast?_eq_getElem?, List.length_cons, length_rounds]
  exact getElem?_rounds (Nat.lt_succ_self n)

theorem getElem?_succ_rounds (h : (c :: c.rounds n)[k]? = some d) (hk : k + 1 < (c :: c.rounds n).length) :
    (c :: c.rounds n)[k + 1]? = some d.next := by
  rw [List.length_cons, length_rounds] at hk
  rw [getElem?_rounds (Nat.lt_of_succ_lt hk), Option.some.injEq] at h
  rw [getElem?_rounds hk, later_add, h]
  rfl

/-- A recalled preset goes on to the next of the first five. -/
theorem next_recall (i : UInt8) : ∃ j : UInt8, (Command.recall i).next = .recall j ∧
    j.toNat = (i.toNat + 1) % 256 % 5 := by
  refine ⟨_, rfl, ?_⟩
  rw [UInt8.toNat_mod, UInt8.toNat_add]
  rfl

theorem next_of_ne_recall (h : ∀ i, c ≠ .recall i) : c.next = c := by
  unfold next
  split
  · next i => exact absurd rfl (h i)
  · rfl

end Command

namespace Controller

/-! ## What happens -/

/-- What can happen to a controller: it has something to deal with, or the whole command is cancelled. -/
inductive Occurrence where
  | input (i : Input)
  | cancel

def occur (c : Controller) : Occurrence → Controller
  | .input i => c.handle i
  | .cancel => { c with tokens := c.tokens.cancel c.group }

/-- What a controller has become after all that happened. -/
def after (c : Controller) (past : List Occurrence) : Controller := past.foldl occur c

namespace Occurrence

def event? : Occurrence → Option PeerEvent
  | input (.event _ e) => some e
  | _ => none

/-- A tick of a controller that repeats its commands. -/
def isRound (repeats : Bool) : Occurrence → Bool
  | input .tick => repeats
  | _ => false

end Occurrence

/-- The events of peers. -/
def events (past : List Occurrence) : List PeerEvent := past.filterMap Occurrence.event?

/-- How often the next command was due. -/
def ticks (repeats : Bool) (past : List Occurrence) : Nat := past.countP (·.isRound repeats)

/-- The addresses that have a client. -/
def addresses (c : Controller) : List SocketAddress := c.peers.map (·.address)

variable {c c' : Controller} {o : Occurrence} {past : List Occurrence} {p : PeerClient}

theorem after_concat (c : Controller) (past : List Occurrence) (o : Occurrence) :
    c.after (past ++ [o]) = (c.after past).occur o := List.foldl_concat ..

theorem after_append (c : Controller) (past later : List Occurrence) :
    c.after (past ++ later) = (c.after past).after later := List.foldl_append ..

theorem isSome_find?_iff : (c.find? a).isSome ↔ a ∈ c.addresses := by
  simp [find?, addresses]

/-! ## Moves -/

/-- What an occurrence leads to. -/
inductive Move (c : Controller) : Occurrence → Controller → Prop
  | tick : c.repeats → Move c (.input .tick) c.tick
  | pause : c.repeats = false → Move c (.input .tick) c
  | message : Move c (.input (.message now m)) (c.print (.message now m c.dump))
  | add : a ∉ c.fixed → a ∉ c.addresses → c.tokens.child c.group = (t, f) →
    Move c (.input (.event now (.discovered a i)))
      { c.print (.event now (.discovered a i)) with
        tokens := f
        peers := c.peers ++ [{ address := a, interface := i, token := t, commands := [c.command] }] }
  | known : a ∈ c.fixed ∨ a ∈ c.addresses →
    Move c (.input (.event now (.discovered a i))) (c.print (.event now (.discovered a i)))
  | remove {p : PeerClient} : p ∈ c.peers →
    Move c (.input (.event now (.lost p.address i)))
      { c.print (.event now (.lost p.address i)) with
        tokens := c.tokens.cancel p.token
        peers := c.peers.filter (·.address ≠ p.address), former := c.former ++ [p] }
  | unknown : a ∉ c.addresses →
    Move c (.input (.event now (.lost a i))) (c.print (.event now (.lost a i)))
  | cancel : Move c .cancel { c with tokens := c.tokens.cancel c.group }

theorem move_occur (c : Controller) (o : Occurrence) : c.Move o (c.occur o) := by
  match o with
  | .cancel => exact .cancel
  | .input (.message now m) => exact .message
  | .input .tick =>
    change c.Move _ (if c.repeats then c.tick else c)
    split
    · next h => exact .tick h
    · next h => exact .pause (Bool.eq_false_iff.mpr h)
  | .input (.event now (.discovered a i)) =>
    change c.Move _ (if a ∈ c.fixed ∨ (c.find? a).isSome then _ else _)
    split
    · next h => exact .known (h.imp_right isSome_find?_iff.mp)
    · next h =>
      obtain ⟨hfixed, hclient⟩ := not_or.mp h
      exact .add hfixed (fun ha => hclient (isSome_find?_iff.mpr ha)) rfl
  | .input (.event now (.lost a i)) =>
    change c.Move _ ((c.print _).remove a)
    cases h : c.find? a with
    | none =>
      rw [remove, show (c.print _).find? a = none from h]
      exact .unknown fun ha => by simp [← isSome_find?_iff, h] at ha
    | some p =>
      obtain rfl : p.address = a := of_decide_eq_true (List.find?_some h :)
      rw [remove, show (c.print _).find? p.address = some p from h]
      exact .remove (List.mem_of_find?_eq_some h)

theorem move_handle (c : Controller) (i : Input) : c.Move (.input i) (c.handle i) :=
  move_occur c (.input i)

/-- What holds at the start and is kept by every move holds after anything that happened. -/
theorem after_induction {P : List Occurrence → Controller → Prop} (hstart : P [] c)
    (hstep : ∀ past o c', P past (c.after past) → (c.after past).Move o c' → P (past ++ [o]) c')
    (past : List Occurrence) : P past (c.after past) := by
  induction past using List.reverseRecOn with
  | nil => exact hstart
  | append_singleton past o ih =>
    have hmove := move_occur (c.after past) o
    rw [← after_concat] at hmove
    exact hstep past o _ ih hmove

/-! ## The command of the round -/

theorem events_concat : events (past ++ [o]) = events past ++ o.event?.toList := by
  rw [events, events, List.filterMap_append]
  cases h : o.event? <;> simp [h]

theorem ticks_append : ticks r (past ++ later) = ticks r past + ticks r later := List.countP_append

namespace Move

theorem repeats (h : c.Move o c') : c'.repeats = c.repeats := by
  cases h <;> rfl

theorem fixed (h : c.Move o c') : c'.fixed = c.fixed := by
  cases h <;> rfl

theorem group (h : c.Move o c') : c'.group = c.group := by
  cases h <;> rfl

theorem command (h : c.Move o c') : c'.command = c.command.later (ticks c.repeats [o]) := by
  cases h with
  | tick hr => simp [ticks, Occurrence.isRound, hr, Command.later, Controller.tick]
  | pause hr => simp [ticks, Occurrence.isRound, hr, Command.later]
  | _ => rfl

theorem told (h : c.Move o c') : c'.told = c.told ++ c.command.rounds (ticks c.repeats [o]) := by
  cases h with
  | tick hr => simp [ticks, Occurrence.isRound, hr, Command.rounds, Controller.tick]
  | pause hr => simp [ticks, Occurrence.isRound, hr, Command.rounds]
  | _ => exact (List.append_nil _).symm

end Move

theorem repeats_after (c : Controller) : ∀ past, (c.after past).repeats = c.repeats :=
  after_induction (P := fun _ c' => c'.repeats = c.repeats) rfl fun _ _ _ h hm => hm.repeats.trans h

theorem fixed_after (c : Controller) : ∀ past, (c.after past).fixed = c.fixed :=
  after_induction (P := fun _ c' => c'.fixed = c.fixed) rfl fun _ _ _ h hm => hm.fixed.trans h

theorem command_after (c : Controller) (past : List Occurrence) :
    (c.after past).command = c.command.later (ticks c.repeats past) := by
  refine after_induction (P := fun past c' => c'.command = c.command.later (ticks c.repeats past)) rfl ?_ past
  intro past o c' h hm
  rw [hm.command, h, repeats_after, ticks_append, Command.later_add]

theorem told_after (c : Controller) (past : List Occurrence) :
    (c.after past).told = c.told ++ c.command.rounds (ticks c.repeats past) := by
  refine after_induction (P := fun past c' => c'.told = c.told ++ c.command.rounds (ticks c.repeats past))
    (List.append_nil _).symm ?_ past
  intro past o c' h hm
  rw [hm.told, h, command_after, repeats_after, ticks_append, Command.rounds_add, List.append_assoc]

/-! ## Who has a client -/

theorem getLast?_eventsOf_concat (a : SocketAddress) (es : List PeerEvent) (e : PeerEvent) :
    (eventsOf a (es ++ [e])).getLast? = if e.address = a then some e else (eventsOf a es).getLast? := by
  rw [eventsOf_append]
  split
  · next h => simp [eventsOf, h]
  · next h => simp [eventsOf, h]

/-- The addresses of the clients are told by the last events. -/
structure Roster (past : List Occurrence) (c : Controller) : Prop where
  single : c.addresses.Nodup
  present : ∀ a, a ∈ c.addresses ↔
    a ∉ c.fixed ∧ (eventsOf a (events past)).getLast?.any (·.isDiscovered)

namespace Roster

theorem keep (h : Roster past c) (ho : o.event? = none) (hm : c.Move o c')
    (ha : c'.addresses = c.addresses) : Roster (past ++ [o]) c' where
  single := ha ▸ h.single
  present a := by
    rw [ha, hm.fixed, events_concat, ho, Option.toList_none, List.append_nil]
    exact h.present a

theorem note (h : Roster past c) (ho : o.event? = some e) (hm : c.Move o c') (hs : c'.addresses.Nodup)
    (hself : e.address ∈ c'.addresses ↔ e.address ∉ c.fixed ∧ e.isDiscovered)
    (hother : ∀ a, e.address ≠ a → (a ∈ c'.addresses ↔ a ∈ c.addresses)) : Roster (past ++ [o]) c' where
  single := hs
  present a := by
    rw [hm.fixed, events_concat, ho, Option.toList_some, getLast?_eventsOf_concat]
    split
    · next ha => exact ha ▸ hself
    · next ha => rw [hother a ha, h.present a]

theorem step (h : Roster past c) (hm : c.Move o c') : Roster (past ++ [o]) c' := by
  cases hm with
  | tick hr => exact h.keep rfl (.tick hr) (List.map_map ..)
  | pause hr => exact h.keep rfl (.pause hr) rfl
  | message => exact h.keep rfl .message rfl
  | cancel => exact h.keep rfl .cancel rfl
  | @add a t f now i hfixed hclient hchild =>
    let p : PeerClient := ⟨a, i, t, [c.command]⟩
    have hconcat : (c.peers ++ [p]).map (·.address) = c.addresses ++ [a] := List.map_append
    refine h.note rfl (.add hfixed hclient hchild) ?_ ?_ fun b hb => ?_
    · rw [addresses, hconcat, ← List.concat_eq_append]
      exact h.single.concat hclient
    · rw [addresses, hconcat]
      simp [PeerEvent.address, PeerEvent.isDiscovered, hfixed]
    · rw [addresses, hconcat, List.mem_append, List.mem_singleton]
      exact or_iff_left hb.symm
  | @known a now i hknown =>
    -- a discovery that changes nothing is of a named device, or of a peer that was discovered last already
    refine h.note rfl (.known hknown) h.single ⟨fun ha => ?_, fun ha => ?_⟩ fun _ _ => Iff.rfl
    · exact ⟨((h.present a).mp ha).1, rfl⟩
    · exact hknown.resolve_left ha.1
  | @remove now i p hp =>
    have hfilter : (c.peers.filter (·.address ≠ p.address)).map (·.address) =
        c.addresses.filter (· ≠ p.address) := by
      rw [addresses, List.filter_map]
      rfl
    refine h.note rfl (.remove hp) ?_ ?_ fun b hb => ?_
    · rw [addresses, hfilter]
      exact h.single.filter _
    · rw [addresses, hfilter]
      simp [PeerEvent.address, PeerEvent.isDiscovered]
    · rw [addresses, hfilter, List.mem_filter]
      exact and_iff_left (decide_eq_true hb.symm)
  | @unknown a now i hclient =>
    refine h.note rfl (.unknown hclient) h.single ⟨fun ha => ?_, fun ha => ?_⟩ fun _ _ => Iff.rfl
    · exact absurd ha hclient
    · cases ha.2

theorem start {command : Command} {repeats dump : Bool} {fixed : List SocketAddress} :
    Roster [] (start command repeats dump fixed) where
  single := List.nodup_nil
  present a := by simp [Controller.start, addresses, events]

end Roster

theorem roster (command : Command) (repeats dump : Bool) (fixed : List SocketAddress) :
    ∀ past, Roster past ((start command repeats dump fixed).after past) :=
  after_induction .start fun _ _ _ => Roster.step

/-! ## Tokens -/

/-- A lost peer goes from the clients that are there to the former ones. -/
theorem perm_remove (h : c.addresses.Nodup) (hp : p ∈ c.peers) :
    List.Perm (c.peers.filter (·.address ≠ p.address) ++ (c.former ++ [p])) (c.peers ++ c.former) := by
  have hsplit := List.filter_append_perm (·.address = p.address) c.peers
  simp only [filter_key_eq_singleton h hp, ← decide_not] at hsplit
  refine List.Perm.trans ?_ (hsplit.append_right c.former)
  rw [← List.append_assoc, List.append_assoc [p]]
  exact List.perm_append_comm

/-- The tokens of all clients, those that are there first. -/
def held (c : Controller) : List Token := (c.peers ++ c.former).map (·.token)

/-- Every client has a token of its own right below that of the whole command. What was cancelled are the
tokens of lost peers, and that of the whole command if somebody did so. -/
structure Keyring (past : List Occurrence) (c : Controller) : Prop where
  below : ∀ t ∈ c.held, ∃ n < c.tokens.issued, t = ⟨c.group.path ++ [n]⟩
  distinct : c.held.Nodup
  cancelled : ∀ t, t ∈ c.tokens.cancelled ↔
    (t = c.group ∧ .cancel ∈ past) ∨ t ∈ c.former.map (·.token)

namespace Keyring

theorem start {command : Command} {repeats dump : Bool} {fixed : List SocketAddress} :
    Keyring [] (start command repeats dump fixed) where
  below t ht := by contradiction
  distinct := List.nodup_nil
  cancelled t := by simp [Controller.start, TokenForest.root, TokenForest.empty]

theorem cancel_mem_concat {i : Input} : .cancel ∈ past ++ [.input i] ↔ .cancel ∈ past := by simp

theorem keep (h : Keyring past c) {i : Input} (hm : c.Move (.input i) c') (ht : c'.tokens = c.tokens)
    (hheld : c'.held = c.held) (hformer : c'.former = c.former) : Keyring (past ++ [.input i]) c' where
  below := by
    rw [hheld, ht, hm.group]
    exact h.below
  distinct := hheld ▸ h.distinct
  cancelled t := by
    rw [ht, hm.group, hformer, cancel_mem_concat]
    exact h.cancelled t

theorem step (h : Keyring past c) (hs : c.addresses.Nodup) (hm : c.Move o c') :
    Keyring (past ++ [o]) c' := by
  cases hm with
  | tick hr =>
    refine h.keep (.tick hr) rfl ?_ rfl
    rw [held, held, List.map_append, List.map_append]
    exact congrArg (· ++ _) (List.map_map ..)
  | pause hr => exact h.keep (.pause hr) rfl rfl rfl
  | message => exact h.keep .message rfl rfl rfl
  | known hknown => exact h.keep (.known hknown) rfl rfl rfl
  | unknown hclient => exact h.keep (.unknown hclient) rfl rfl rfl
  | cancel =>
    refine { h with cancelled := fun t => ?_ }
    change t ∈ c.group :: c.tokens.cancelled ↔ _
    have hmem : Occurrence.cancel ∈ past ++ [.cancel] := List.mem_concat_self
    rw [List.mem_cons, h.cancelled, ← or_assoc, or_iff_left_of_imp And.left, and_iff_left hmem]
  | @add a t f now i hfixed hclient hchild =>
    cases hchild
    let p : PeerClient := ⟨a, i, ⟨c.group.path ++ [c.tokens.issued]⟩, [c.command]⟩
    have hperm : List.Perm ((c.peers ++ [p] ++ c.former).map (·.token)) (p.token :: c.held) := by
      rw [List.append_assoc]
      exact List.perm_middle.map _
    refine
      { below := fun t ht => ?_
        distinct := hperm.nodup_iff.mpr (List.nodup_cons.mpr ⟨?_, h.distinct⟩)
        cancelled := fun t => ?_ }
    · rcases List.mem_cons.mp (hperm.mem_iff.mp ht) with rfl | ht
      · exact ⟨c.tokens.issued, Nat.lt_succ_self _, rfl⟩
      · obtain ⟨n, hn, hpath⟩ := h.below t ht
        exact ⟨n, Nat.lt_succ_of_lt hn, hpath⟩
    · -- the number of the new token had not been handed out
      intro hmem
      obtain ⟨n, hn, hpath⟩ := h.below _ hmem
      simp [p] at hpath
      omega
    · change t ∈ c.tokens.cancelled ↔ (t = c.group ∧ _) ∨ _
      rw [cancel_mem_concat]
      exact h.cancelled t
  | @remove now i p hp =>
    have hperm := (perm_remove hs hp).map (·.token)
    refine
      { below := fun t ht => h.below t (hperm.mem_iff.mp ht)
        distinct := hperm.nodup_iff.mpr h.distinct
        cancelled := fun t => ?_ }
    change t ∈ p.token :: c.tokens.cancelled ↔ (t = c.group ∧ _) ∨ t ∈ (c.former ++ [p]).map (·.token)
    rw [cancel_mem_concat, List.mem_cons, h.cancelled, List.map_append, List.mem_append,
      List.map_singleton, List.mem_singleton, or_comm, or_assoc]

/-- No client's token lies within that of another one. -/
theorem eq_of_isWithin (h : Keyring past c) {q : PeerClient} (hp : p ∈ c.peers ++ c.former)
    (hq : q ∈ c.peers ++ c.former) (hw : p.token.isWithin q.token) : p = q := by
  obtain ⟨m, -, hm⟩ := h.below _ (List.mem_map_of_mem hp)
  obtain ⟨n, -, hn⟩ := h.below _ (List.mem_map_of_mem hq)
  have hself := Token.isWithin_refl p.token
  rw [hn] at hw
  rw [hm] at hw hself
  obtain rfl := Token.eq_of_isWithin_child hself hw
  exact List.inj_on_of_nodup_map h.distinct hp hq (hm.trans hn.symm)

theorem isBelow (h : Keyring past c) (hp : p ∈ c.peers ++ c.former) : p.token.IsBelow c.group := by
  obtain ⟨n, -, hn⟩ := h.below _ (List.mem_map_of_mem hp)
  rw [hn]
  exact TokenForest.isBelow_child ⟨n, []⟩ c.group

theorem isCancelled_iff (h : Keyring past c) (hp : p ∈ c.peers ++ c.former) :
    c.tokens.isCancelled p.token ↔ .cancel ∈ past ∨ p ∈ c.former := by
  rw [TokenForest.isCancelled_iff]
  constructor
  · rintro ⟨t, ht, hw⟩
    rcases (h.cancelled t).mp ht with ⟨-, hcancel⟩ | hformer
    · exact .inl hcancel
    · obtain ⟨q, hq, rfl⟩ := List.mem_map.mp hformer
      rw [h.eq_of_isWithin hp (List.mem_append_right _ hq) hw]
      exact .inr hq
  · rintro (hcancel | hformer)
    · exact ⟨c.group, (h.cancelled _).mpr (.inl ⟨rfl, hcancel⟩), (h.isBelow hp).1⟩
    · exact ⟨p.token, (h.cancelled _).mpr (.inr (List.mem_map_of_mem hformer)), Token.isWithin_refl _⟩

theorem isCancelled_peer (h : Keyring past c) (hp : p ∈ c.peers) :
    c.tokens.isCancelled p.token ↔ .cancel ∈ past := by
  rw [h.isCancelled_iff (List.mem_append_left _ hp)]
  refine or_iff_left fun hformer => ?_
  exact List.disjoint_of_nodup_append (List.Nodup.of_map _ h.distinct) hp hformer

theorem isCancelled_group (h : Keyring past c) : c.tokens.isCancelled c.group ↔ .cancel ∈ past := by
  rw [TokenForest.isCancelled_iff]
  constructor
  · rintro ⟨t, ht, hw⟩
    rcases (h.cancelled t).mp ht with ⟨-, hcancel⟩ | hformer
    · exact hcancel
    · obtain ⟨p, hp, rfl⟩ := List.mem_map.mp hformer
      have hbelow := (h.isBelow (List.mem_append_right _ hp)).2
      rw [hw] at hbelow
      contradiction
  · intro hcancel
    exact ⟨c.group, (h.cancelled _).mpr (.inl ⟨rfl, hcancel⟩), Token.isWithin_refl _⟩

/-- A loss cancels the client of its address and no other one. -/
theorem isCancelled_lost (h : Keyring past c) (hs : c.addresses.Nodup) (hp : p ∈ c.peers ++ c.former) :
    (c.handle (.event now (.lost a i))).tokens.isCancelled p.token ↔
      c.tokens.isCancelled p.token ∨ p ∈ c.peers ∧ p.address = a := by
  have hm := c.move_handle (.event now (.lost a i))
  generalize c.handle (.event now (.lost a i)) = c' at hm ⊢
  cases hm with
  | @remove now i q hq =>
    refine TokenForest.isCancelled_cancel.trans (or_comm.trans (or_congr_right ⟨fun hw => ?_, ?_⟩))
    · rw [h.eq_of_isWithin hp (List.mem_append_left _ hq) hw]
      exact ⟨hq, rfl⟩
    · -- no other peer has the address
      rintro ⟨hpeer, haddress⟩
      rw [List.inj_on_of_nodup_map hs hpeer hq haddress]
      exact Token.isWithin_refl _
  | unknown hclient =>
    refine (or_iff_left ?_).symm
    rintro ⟨hpeer, rfl⟩
    exact hclient (List.mem_map_of_mem hpeer)

end Keyring

theorem keyring (command : Command) (repeats dump : Bool) (fixed : List SocketAddress) :
    ∀ past, Keyring past ((start command repeats dump fixed).after past) :=
  after_induction .start fun _ _ _ h hm => h.step (roster ..).single hm

/-- The client of a lost peer goes to the former ones, as it is. -/
theorem peers_lost (hs : c.addresses.Nodup) (now : Timestamp) (a : SocketAddress) (i : Option String) :
    (c.handle (.event now (.lost a i))).peers = c.peers.filter (·.address ≠ a) ∧
      (c.handle (.event now (.lost a i))).former = c.former ++ c.peers.filter (·.address = a) := by
  have hm := c.move_handle (.event now (.lost a i))
  generalize c.handle (.event now (.lost a i)) = c' at hm ⊢
  cases hm with
  | @remove now i q hq =>
    rw [filter_key_eq_singleton hs hq]
    exact ⟨rfl, rfl⟩
  | unknown hclient =>
    have hne : ∀ p ∈ c.peers, p.address ≠ a := fun p hp ha => hclient (ha ▸ List.mem_map_of_mem hp)
    constructor
    · exact (List.filter_eq_self.mpr fun p hp => decide_eq_true (hne p hp)).symm
    · rw [List.filter_eq_nil_iff.mpr fun p hp => by simpa using hne p hp]
      exact (List.append_nil _).symm

/-! ## What clients are told -/

/-- The client of a peer was told the command that it found when the peer was discovered, and once each
command that came while it was there. -/
def Enlisted (c : Controller) (past : List Occurrence) (p : PeerClient) : Prop :=
  ∃ before now after, past = before ++ .input (.event now (.discovered p.address p.interface)) :: after ∧
    p.address ∉ (c.after before).addresses ∧ (∀ i, .lost p.address i ∉ events after) ∧
    p.commands = (c.after before).command :: (c.after before).command.rounds (ticks c.repeats after)

namespace Move

/-- The client was there, it was not lost, and it has been told what was due. -/
def Stays (c : Controller) (o : Occurrence) (p : PeerClient) : Prop :=
  ∃ q ∈ c.peers, (∀ i, o.event? ≠ some (.lost q.address i)) ∧
    p = { q with commands := q.commands ++ c.command.rounds (ticks c.repeats [o]) }

theorem stays_of_mem (hp : p ∈ c.peers) (ho : ∀ i, o.event? ≠ some (.lost p.address i))
    (ht : ticks c.repeats [o] = 0) : Stays c o p := by
  refine ⟨p, hp, ho, ?_⟩
  rw [ht, Command.rounds, List.append_nil]

/-- A client that is there is a new one, or it was there before. -/
theorem mem_peers (h : c.Move o c') (hp : p ∈ c'.peers) :
    (∃ now, o = .input (.event now (.discovered p.address p.interface)) ∧ p.address ∉ c.addresses ∧
      p.commands = [c.command]) ∨ Stays c o p := by
  cases h with
  | tick hr =>
    obtain ⟨q, hq, rfl⟩ := List.mem_map.mp hp
    refine .inr ⟨q, hq, fun i hi => by contradiction, ?_⟩
    simp [ticks, Occurrence.isRound, hr, Command.rounds]
  | pause hr =>
    exact .inr (stays_of_mem hp (fun i hi => by contradiction) (by simp [ticks, Occurrence.isRound, hr]))
  | message | cancel => exact .inr (stays_of_mem hp (fun i hi => by contradiction) rfl)
  | known => exact .inr (stays_of_mem hp (fun i hi => by simp [Occurrence.event?] at hi) rfl)
  | add hfixed hclient hchild =>
    rcases List.mem_append.mp hp with hp | hp
    · exact .inr (stays_of_mem hp (fun i hi => by simp [Occurrence.event?] at hi) rfl)
    · obtain rfl := List.mem_singleton.mp hp
      exact .inl ⟨_, rfl, hclient, rfl⟩
  | remove hq =>
    obtain ⟨hp, hne⟩ := List.mem_filter.mp hp
    refine .inr (stays_of_mem hp (fun i hi => of_decide_eq_true hne ?_) rfl)
    exact (PeerEvent.lost.inj (Option.some.inj hi)).1.symm
  | unknown hclient =>
    refine .inr (stays_of_mem hp (fun i hi => hclient ?_) rfl)
    rw [(PeerEvent.lost.inj (Option.some.inj hi)).1]
    exact List.mem_map_of_mem hp

theorem mem_former (h : c.Move o c') (hp : p ∈ c'.former) :
    p ∈ c.former ∨ p ∈ c.peers ∧ ∃ now i, o = .input (.event now (.lost p.address i)) := by
  cases h with
  | remove hq =>
    rcases List.mem_append.mp hp with hp | hp
    · exact .inl hp
    · obtain rfl := List.mem_singleton.mp hp
      exact .inr ⟨hq, _, _, rfl⟩
  | _ => exact .inl hp

end Move

/-- The command of the round, seen from an event. -/
theorem command_since (c : Controller) (before after : List Occurrence) (now : Timestamp) (e : PeerEvent) :
    (c.after (before ++ .input (.event now e) :: after)).command =
      (c.after before).command.later (ticks c.repeats after) := by
  have hticks : ticks c.repeats (.input (.event now e) :: after) = ticks c.repeats after := by
    simp [ticks, Occurrence.isRound]
  rw [after_append, command_after, repeats_after, hticks]

/-- A client stays enlisted while it is there. -/
theorem Enlisted.step {q : PeerClient} (h : Enlisted c past q)
    (ho : ∀ i, o.event? ≠ some (.lost q.address i)) :
    Enlisted c (past ++ [o]) { q with
      commands := q.commands ++ (c.after past).command.rounds (ticks c.repeats [o]) } := by
  obtain ⟨before, now, after, rfl, hclient, hlost, hcommands⟩ := h
  refine ⟨before, now, after ++ [o], by simp, hclient, fun i hi => ?_, ?_⟩
  · rw [events_concat, List.mem_append, Option.mem_toList] at hi
    exact hi.elim (hlost i) (ho i)
  · rw [command_since, ticks_append, Command.rounds_add, hcommands]
    rfl

theorem enlisted (command : Command) (repeats dump : Bool) (fixed : List SocketAddress)
    (past : List Occurrence) : ∀ p ∈ ((start command repeats dump fixed).after past).peers,
      Enlisted (start command repeats dump fixed) past p := by
  refine after_induction (P := fun past c => ∀ p ∈ c.peers, Enlisted _ past p)
    (fun p hp => by contradiction) ?_ past
  intro past o c' ih hm p hp
  rcases hm.mem_peers hp with ⟨now, rfl, hclient, hcommands⟩ | ⟨q, hq, ho, rfl⟩
  · exact ⟨past, now, [], rfl, hclient, fun i hi => by contradiction, hcommands⟩
  · have hstep := (ih q hq).step ho
    rwa [repeats_after]

theorem dismissed (command : Command) (repeats dump : Bool) (fixed : List SocketAddress)
    (past : List Occurrence) : ∀ p ∈ ((start command repeats dump fixed).after past).former,
      ∃ earlier now i later, past = earlier ++ .input (.event now (.lost p.address i)) :: later ∧
        Enlisted (start command repeats dump fixed) earlier p := by
  refine after_induction (c := start command repeats dump fixed)
    (P := fun past c => ∀ p ∈ c.former, ∃ earlier now i later,
      past = earlier ++ .input (.event now (.lost p.address i)) :: later ∧
        Enlisted (start command repeats dump fixed) earlier p)
    (fun p hp => by contradiction) ?_ past
  intro past o c' ih hm p hp
  rcases hm.mem_former hp with hformer | ⟨hpeer, now, i, rfl⟩
  · obtain ⟨earlier, now, i, later, rfl, henlisted⟩ := ih p hformer
    exact ⟨earlier, now, i, later ++ [o], by simp, henlisted⟩
  · exact ⟨past, now, i, [], rfl, enlisted _ _ _ _ past p hpeer⟩

theorem Enlisted.getLast?_commands (h : Enlisted c past p) :
    p.commands.getLast? = some (c.after past).command := by
  obtain ⟨before, now, after, rfl, -, -, hcommands⟩ := h
  rw [hcommands, Command.getLast?_rounds, command_since]

/-! ## The main statement -/

/-- How the clients of a controller, their tokens and what they are told go together, with what has happened
since the first command. -/
structure InStep (command : Command) (repeats dump : Bool) (fixed : List SocketAddress)
    (past : List Occurrence) (c : Controller) : Prop where
  /-- The peers that were discovered last have a client, unless they are addressed anyway, -/
  present : ∀ a, (∃ p ∈ c.peers, p.address = a) ↔
    a ∉ fixed ∧ (eventsOf a (events past)).getLast?.any (·.isDiscovered)
  /-- and only one. -/
  single : (c.peers.map (·.address)).Nodup
  /-- Every client has a token of its own below that of the whole command. -/
  below : ∀ p ∈ c.peers ++ c.former, p.token.IsBelow c.group
  distinct : ((c.peers ++ c.former).map (·.token)).Nodup
  /-- The token of a client that is there is cancelled with that of the whole command only, -/
  live : ∀ p ∈ c.peers, c.tokens.isCancelled p.token ↔ c.tokens.isCancelled c.group
  whole : c.tokens.isCancelled c.group ↔ .cancel ∈ past
  /-- that of a lost peer is cancelled, -/
  ended : ∀ p ∈ c.former, c.tokens.isCancelled p.token
  /-- and the next loss cancels the client of its address and nobody else's. -/
  lost : ∀ now a i, ∀ p ∈ c.peers ++ c.former,
    (c.handle (.event now (.lost a i))).tokens.isCancelled p.token ↔
      c.tokens.isCancelled p.token ∨ p ∈ c.peers ∧ p.address = a
  leaves : ∀ now a i, (c.handle (.event now (.lost a i))).peers = c.peers.filter (·.address ≠ a) ∧
    (c.handle (.event now (.lost a i))).former = c.former ++ c.peers.filter (·.address = a)
  /-- The devices that were named are told the first command and, with repetition, one more at every tick, -/
  told : c.told = command :: command.rounds (ticks repeats past)
  /-- each of them by its own client. -/
  heard : ∀ f, FanOut.ofAddresses fixed = .ok f → ∀ actions, (∀ place new, .add place new ∉ actions) →
    FanOut.commands actions = c.told → ∀ id < fixed.length, (f.steps actions).heard id = c.told
  /-- A peer is told the command of the round in which it is discovered and then what all are told, -/
  enlisted : ∀ p ∈ c.peers, Enlisted (start command repeats dump fixed) past p
  /-- until it is lost. -/
  dismissed : ∀ p ∈ c.former, ∃ earlier now i later,
    past = earlier ++ .input (.event now (.lost p.address i)) :: later ∧
      Enlisted (start command repeats dump fixed) earlier p
  /-- So all of them were told the command of this round last. -/
  current : c.told.getLast? = some c.command ∧ ∀ p ∈ c.peers, p.commands.getLast? = some c.command
  /-- A recalled preset goes on at every tick, and any other command stays the same. -/
  preset : ∀ n i, c.told[n]? = some (.recall i) → n + 1 < c.told.length →
    ∃ j : UInt8, c.told[n + 1]? = some (.recall j) ∧ j.toNat = (i.toNat + 1) % 256 % 5
  steady : ∀ n d, c.told[n]? = some d → (∀ i, d ≠ .recall i) → n + 1 < c.told.length →
    c.told[n + 1]? = some d

/-- Whatever a controller has dealt with, its clients are in step with it. -/
theorem inStep (command : Command) (repeats dump : Bool) (fixed : List SocketAddress)
    (past : List Occurrence) : InStep command repeats dump fixed past
      ((start command repeats dump fixed).after past) := by
  have hroster := roster command repeats dump fixed past
  have hkeys := keyring command repeats dump fixed past
  have htold := told_after (start command repeats dump fixed) past
  have hcommand := command_after (start command repeats dump fixed) past
  refine
    { present := fun a => ?_
      single := hroster.single
      below := fun p hp => hkeys.isBelow hp
      distinct := hkeys.distinct
      live := fun p hp => (hkeys.isCancelled_peer hp).trans hkeys.isCancelled_group.symm
      whole := hkeys.isCancelled_group
      ended := fun p hp => (hkeys.isCancelled_iff (List.mem_append_right _ hp)).mpr (.inr hp)
      lost := fun now a i p hp => hkeys.isCancelled_lost hroster.single hp
      leaves := peers_lost hroster.single
      told := htold
      heard := fun f hf actions ha hsame id hid => (FanOut.heard_ofAddresses hf ha hid).trans hsame
      enlisted := enlisted command repeats dump fixed past
      dismissed := dismissed command repeats dump fixed past
      current := ⟨?_, fun p hp => (enlisted command repeats dump fixed past p hp).getLast?_commands⟩
      preset := fun n i hn hlt => ?_
      steady := fun n d hn hd hlt => ?_ }
  · have hpresent := hroster.present a
    rw [fixed_after, addresses, List.mem_map] at hpresent
    exact hpresent
  · rw [htold, hcommand]
    exact Command.getLast?_rounds ..
  · rw [htold] at hn hlt ⊢
    obtain ⟨j, hj, hvalue⟩ := Command.next_recall i
    exact ⟨j, hj ▸ Command.getElem?_succ_rounds hn hlt, hvalue⟩
  · rw [htold] at hn hlt ⊢
    have hnext := Command.getElem?_succ_rounds hn hlt
    rwa [Command.next_of_ne_recall hd] at hnext

/-- A device that was named is discovered too, a peer comes late, and another one is lost. -/
example : let now : Timestamp := ⟨"12:00:00", "2024-05-01T12:00:00+00:00"⟩
    let event (e : PeerEvent) : Occurrence := .input (.event now e)
    let c := (start (.recall 254) true false [.broadcast 1]).after
      [event (.discovered (.broadcast 2) none), .input .tick, event (.discovered (.broadcast 1) none),
        event (.discovered (.broadcast 3) none), event (.discovered (.broadcast 2) none), .input .tick,
        event (.lost (.broadcast 2) none), event (.lost (.broadcast 1) none), .input .tick]
    c.told = [.recall 254, .recall 0, .recall 1, .recall 2] ∧
      c.peers.map (fun p => (p.address, p.commands)) = [(.broadcast 3, [.recall 0, .recall 1, .recall 2])] ∧
      c.former.map (fun p => (p.address, p.commands)) =
        [(.broadcast 2, [.recall 254, .recall 0, .recall 1])] := by
  decide +kernel

end Controller
end AmpLink
