import AmpLink.Proofs.Client.Queue
import AmpLink.Proofs.Device.Handling

/-!
# A client and its device

The frames of a client's commands are requests (`Endpoint.exists_request_of_mem_frames`), and a device that
gets them in their order ends up with what the commands have set last (`Device.deliver_frames`). The main
statement is `Endpoint.State.agreed_of_steps`.
-/

namespace AmpLink

namespace Command

/-- The preset that a command recalls. -/
def preset? : Command → Option UInt8
  | .recall index => some index
  | _ => none

/-- The master volume that a command sets, if its volume is accepted. -/
def masterVolume? : Command → Option MasterVolume
  | .volume v => (MasterVolume.ofVolume v).toOption
  | _ => none

theorem preset?_eq_none : ∀ {c : Command}, c.request? = none → c.preset? = none
  | .ping, _ | .volume _, _ => rfl
  | .recall _, h => nomatch h

theorem masterVolume?_eq_none : ∀ {c : Command}, c.request? = none → c.masterVolume? = none
  | .ping, _ | .recall _, _ => rfl
  | .volume _, h => Option.map_eq_none_iff.mp h

theorem activePreset_apply (s : DeviceState) :
    ∀ {c : Command}, c.request? = some r → (s.apply r.payload).activePreset = c.preset?.or s.activePreset
  | .ping, h | .recall _, h => by
    cases h
    rfl
  | .volume _, h => by
    obtain ⟨m, -, rfl⟩ := Option.map_eq_some_iff.mp h
    exact (s.apply_masterVolume m).1

theorem volume_apply (s : DeviceState) : ∀ {c : Command}, c.request? = some r →
    (s.apply r.payload).volume = (c.masterVolume?.map MasterVolume.volume).getD s.volume
  | .ping, h | .recall _, h => by
    cases h
    rfl
  | .volume _, h => by
    obtain ⟨m, hm, rfl⟩ := Option.map_eq_some_iff.mp h
    rw [masterVolume?, hm, Option.map_some, Option.getD_some]
    exact (s.apply_masterVolume m).2

end Command

namespace Endpoint

theorem frame?_volume_eq_none (h : MasterVolume.ofVolume v = .error x) (component : UInt8)
    (number : UInt16) : frame? component number (.volume v) = none := by
  rw [frame?, Command.request?, h]
  rfl

theorem length_frames (component : UInt8) (number : UInt16) (cs : List Command) :
    (frames component number cs).length = (cs.filterMap Command.request?).length := by
  induction cs generalizing number with
  | nil => rfl
  | cons c rest ih =>
    rw [frames, List.length_append, ih, frame?]
    cases hr : c.request? with
    | none => simp [hr]
    | some r => simp [hr, Nat.add_comm]

theorem exists_request_of_mem_frames {component : UInt8} (h : f ∈ frames component number cs) :
    ∃ (r : Request) (n : UInt16), f = r.frame n component := by
  induction cs generalizing number with
  | nil => contradiction
  | cons c rest ih =>
    rw [frames, List.mem_append, Option.mem_toList, frame?] at h
    rcases h with h | h
    · obtain ⟨r, -, hf⟩ := Option.map_eq_some_iff.mp h
      exact ⟨r, number, hf.symm⟩
    · exact ih h

/-- The first of the frames are the frames of the first commands. -/
theorem exists_of_isPrefix_frames {component : UInt8} (h : fs <+: frames component number cs) :
    ∃ first, first <+: cs ∧ fs = frames component number first := by
  induction cs generalizing number fs with
  | nil => exact ⟨[], List.prefix_rfl, List.prefix_nil.mp h⟩
  | cons c rest ih =>
    rw [frames] at h
    cases hf : frame? component number c with
    | none =>
      rw [hf] at h
      obtain ⟨first, hfirst, rfl⟩ := ih h
      exact ⟨c :: first, List.cons_prefix_cons.mpr ⟨rfl, hfirst⟩, by rw [frames, hf]; rfl⟩
    | some f =>
      rw [hf] at h
      rcases List.prefix_cons_iff.mp h with rfl | ⟨gs, rfl, hgs⟩
      · exact ⟨[], List.nil_prefix, rfl⟩
      · obtain ⟨first, hfirst, rfl⟩ := ih hgs
        exact ⟨c :: first, List.cons_prefix_cons.mpr ⟨rfl, hfirst⟩, by rw [frames, hf]; rfl⟩

end Endpoint

theorem getLast?_filterMap_cons (f : α → Option β) (a : α) (l : List α) :
    ((a :: l).filterMap f).getLast? = (l.filterMap f).getLast?.or (f a) := by
  cases h : f a with
  | none => rw [List.filterMap_cons_none h, Option.or_none]
  | some b =>
    rw [List.filterMap_cons_some h, List.getLast?_cons]
    cases (l.filterMap f).getLast? <;> rfl

theorem getD_map_or (f : α → β) (x y : Option α) (b : β) :
    (x.map f).getD ((y.map f).getD b) = ((x.or y).map f).getD b := by
  cases x <;> rfl

namespace Device

theorem exists_deliver_cons (d : Device) (s : DeviceState) (r : Request) (number : UInt16)
    (component : UInt8) (fs : List Bytes) :
    ∃ t, (d.deliver s (r.frame number component :: fs)).2 = (d.deliver t fs).2 ∧
      t.activePreset = (s.apply r.payload).activePreset ∧ t.volume = (s.apply r.payload).volume ∧
        t.requests = s.requests + 1 :=
  ⟨{ s.apply r.payload with requests := s.requests + 1 }, by rw [deliver, handle_frame], rfl, rfl, rfl⟩

/-- The device keeps what was set last, and counts the frames. -/
theorem deliver_frames (d : Device) (s : DeviceState) (component : UInt8) (number : UInt16)
    (cs : List Command) : (d.deliver s (Endpoint.frames component number cs)).2 =
      { activePreset := (cs.filterMap Command.preset?).getLast?.or s.activePreset
        volume := ((cs.filterMap Command.masterVolume?).getLast?.map MasterVolume.volume).getD s.volume
        requests := s.requests + (Endpoint.frames component number cs).length } := by
  induction cs generalizing s number with
  | nil => rfl
  | cons c rest ih =>
    rw [getLast?_filterMap_cons, getLast?_filterMap_cons, Option.or_assoc, ← getD_map_or]
    cases hr : c.request? with
    | none =>
      have hframes : Endpoint.frames component number (c :: rest) =
          Endpoint.frames component (number + 1) rest := by
        rw [Endpoint.frames, Endpoint.frame?, hr]
        rfl
      rw [hframes, ih, Command.preset?_eq_none hr, Command.masterVolume?_eq_none hr]
      rfl
    | some r =>
      have hframes : Endpoint.frames component number (c :: rest) =
          r.frame number component :: Endpoint.frames component (number + 1) rest := by
        rw [Endpoint.frames, Endpoint.frame?, hr]
        rfl
      obtain ⟨t, ht, hactive, hlevel, hrequests⟩ := exists_deliver_cons d s r number component
        (Endpoint.frames component (number + 1) rest)
      rw [hframes, ht, ih, hactive, hlevel, hrequests, Command.activePreset_apply s hr,
        Command.volume_apply s hr, List.length_cons, Nat.add_right_comm]
      rfl

theorem answer_of_mem_frames (d : Device) (s : DeviceState) {component : UInt8}
    (h : f ∈ Endpoint.frames component number cs) : ∃ a, (d.handle s f).1 = some a ∧ d.IsAnswer f a := by
  obtain ⟨r, n, rfl⟩ := Endpoint.exists_request_of_mem_frames h
  have hh := handle_frame d s r n component
  exact ⟨_, congrArg Prod.fst hh, (answer_of_handle hh).1⟩

end Device

/-! ## The main statement -/

/-- How the device `d`, as it is from the start, deals with the frames `fs` of the commands `cs`. -/
structure Device.Obeys (d : Device) (cs : List Command) (fs : List Bytes) : Prop where
  /-- Every frame is answered, and with its own number. -/
  answers : ∀ (i : Nat) (f : Bytes), fs[i]? = some f →
    ∃ a, (d.deliver .initial fs).1[i]? = some (some a) ∧ d.IsAnswer f a
  requests : (d.deliver .initial fs).2.requests = fs.length
  activePreset : (d.deliver .initial fs).2.activePreset = (cs.filterMap Command.preset?).getLast?
  volume : (d.deliver .initial fs).2.volume =
    ((cs.filterMap Command.masterVolume?).getLast?.map MasterVolume.volume).getD .zero

namespace Device

theorem obeys (d : Device) (component : UInt8) (number : UInt16) (cs : List Command) :
    d.Obeys cs (Endpoint.frames component number cs) where
  answers i f hf := by
    obtain ⟨s, hs⟩ := d.getElem?_deliver .initial hf
    obtain ⟨a, ha, hanswer⟩ := d.answer_of_mem_frames s (List.mem_of_getElem? hf)
    exact ⟨a, by rw [hs, ha], hanswer⟩
  requests := by
    rw [deliver_frames]
    exact Nat.zero_add _
  activePreset := by
    rw [deliver_frames]
    exact Option.or_none
  volume := by
    rw [deliver_frames]
    rfl

/-- The device does not notice commands that are rejected. -/
theorem deliver_frames_of_rejected (d : Device) (s : DeviceState) (component : UInt8) (number : UInt16)
    (h : MasterVolume.ofVolume v = .error x) (before after : List Command) :
    (d.deliver s (Endpoint.frames component number (before ++ .volume v :: after))).2 =
      (d.deliver s (Endpoint.frames component number (before ++ after))).2 := by
  have hrequest : (Command.volume v).request? = none := by
    rw [Command.request?, h]
    rfl
  rw [deliver_frames, deliver_frames, Endpoint.length_frames, Endpoint.length_frames]
  simp only [List.filterMap_append, List.filterMap_cons_none hrequest,
    List.filterMap_cons_none (Command.preset?_eq_none hrequest),
    List.filterMap_cons_none (Command.masterVolume?_eq_none hrequest)]

end Device

namespace Endpoint.State

/-- How a client that was made for `e` and a device get on after the actions of the client. -/
structure Agreed (e : Endpoint) (d : Device) (actions : List Action) (s : State) : Prop where
  /-- The frames of all calls are written or on their way, in the order of the calls. -/
  enqueued : s.queue.isOpen → s.enqueued = frames e.component firstNumber (commands actions)
  /-- Without a queue, a call enqueues nothing any more. -/
  dropped : s.queue.isOpen = false → ∀ c, (s.call c).2.enqueued = s.enqueued
  /-- The frames that the socket has taken are those of the first calls, which a device obeys that gets no
  others. -/
  written : ∃ first, first <+: commands actions ∧ s.written = frames e.component firstNumber first ∧
    d.Obeys first s.written
  /-- A volume that is rejected takes a number and has no frame. -/
  rejected : ∀ v x, MasterVolume.ofVolume v = .error x →
    s.call (.volume v) = (none, { s with number := s.number + 1, calls := s.calls + 1 })
  obeys : d.Obeys (commands actions) (frames e.component firstNumber (commands actions))
  /-- The device is as if a volume that is rejected had not been called for. -/
  unchanged : ∀ before v after x, MasterVolume.ofVolume v = .error x →
    commands actions = before ++ .volume v :: after →
      (d.deliver .initial (frames e.component firstNumber (commands actions))).2 =
        (d.deliver .initial (frames e.component firstNumber (before ++ after))).2

/-- Whatever is called for on a client, a device that gets its frames in order ends up with what was called
for last. -/
theorem agreed_of_steps (d : Device)
    (h : (start e capacity receivedCapacity).steps actions = some s) : Agreed e d actions s := by
  have hq := queued_of_steps h
  obtain ⟨first, hfirst, hwritten⟩ := exists_of_isPrefix_frames (hq.made ▸ hq.written)
  exact
    { enqueued := fun ho => (hq.enqueued ho).trans hq.made
      dropped := fun hc => enqueued_call_of_closed hc
      written := ⟨first, hfirst, hwritten, hwritten ▸ d.obeys ..⟩
      rejected := fun v x hx => call_of_frame?_eq_none (frame?_volume_eq_none hx ..)
      obeys := d.obeys ..
      unchanged := fun before v after x hx hc => hc ▸ d.deliver_frames_of_rejected _ _ _ hx before after }

/-- A preset and a volume are called for, and then a volume out of range; the first frame is written. -/
def session : List Action :=
  [.call (.recall 7), .call (.volume ⟨0x3e800000⟩), .run (.ok ()), .write .sent,
    .call (.volume ⟨0x40000000⟩), .call .ping]

/-- The client of `session`, with a queue for ten frames. -/
def sessionStart : State := start ⟨.v4 ⟨#v[10, 0, 0, 1]⟩ 5001, none, 0xff, .standard⟩ 10 32

theorem agreed_session : ∃ s, sessionStart.steps session = some s ∧
    Agreed sessionStart.endpoint ⟨.standard, 0xfe⟩ session s ∧ s.queue.isOpen ∧ s.written.length = 1 ∧
    (Device.deliver ⟨.standard, 0xfe⟩ .initial s.enqueued).2 =
      { activePreset := some 7, volume := ⟨0x3e800000⟩, requests := 3 } := by
  have h : ∃ s, sessionStart.steps session = some s ∧ s.queue.isOpen ∧ s.written.length = 1 :=
    ⟨_, rfl, rfl, rfl⟩
  obtain ⟨s, hs, ho, hw⟩ := h
  have ha := agreed_of_steps ⟨.standard, 0xfe⟩ hs
  refine ⟨s, hs, ha, ho, hw, ?_⟩
  rw [ha.enqueued ho, Device.deliver_frames]
  decide +kernel

end Endpoint.State
end AmpLink
