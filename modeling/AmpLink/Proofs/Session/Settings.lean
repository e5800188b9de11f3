import AmpLink.CommandLine.Arguments
import AmpLink.Proofs.Json.Forms
import AmpLink.Proofs.Number.Numerals
import AmpLink.Proofs.Steps
import AmpLink.Rehearsal.SessionScript

/-!
# Settings that cannot be used

Every number of its range is admitted for a setting, though not every one can be used. A command breaks off exactly
for a duration that leads beyond the last second of the clock (`SessionScript.result_eq_error_iff`), a client for a
queue that no channel has, a discovery run for a period of nothing; the first tick is never too late. The main
statement is `breaches`.
-/

namespace AmpLink

namespace Limits

/-- A number of values that a channel can hold back. -/
def IsCapacity (n : Nat) : Prop := 0 < n ∧ n ≤ maxCapacity

theorem capacity_of_isCapacity (h : IsCapacity n) : capacity n = .ok n := if_pos h

theorem capacity_of_not_isCapacity (h : ¬IsCapacity n) : capacity n = .error (.channelCapacity n) := if_neg h

theorem isCapacity_receivedCapacity : IsCapacity receivedCapacity := ⟨by decide, by decide⟩

theorem period_of_ne_zero {ms : UInt64} (h : ms ≠ 0) : period ms.toNat = .ok ms.toNat :=
  if_pos (Nat.pos_of_ne_zero fun hzero => h (UInt64.toNat_inj.mp hzero))

end Limits

open Limits

/-! ## Reading a duration -/

namespace CommandLine

theorem Word.of_eq_plain (h : s.toList.head? ≠ some '-') : Word.of s = .plain := by
  rw [Word.of]
  split
  · next hs => exact absurd (congrArg List.head? hs) h
  · next hs => exact absurd (congrArg List.head? hs) h
  · rfl
  · next hs => exact absurd (congrArg List.head? hs) h
  · rfl

theorem head?_ne_of_seconds? (h : seconds? s = some n) : s.toList.head? ≠ some '-' := by
  obtain ⟨k, hk, -⟩ := Option.map_eq_some_iff.mp h
  cases hread : readNat 10 (UInt64.size - 1) s.toList with
  | error e =>
    rw [hread] at hk
    contradiction
  | ok m =>
    obtain ⟨sign, ds, hs, hnumeral, -⟩ := (readNat_eq_ok_iff (by decide)).mp hread
    rw [hs]
    rcases hnumeral.sign with rfl | rfl
    · intro hhead
      have hdigit := hnumeral.digits '-' (List.mem_of_mem_head? hhead)
      exact (not_isSome_sign 10).2 hdigit
    · simp

/-- The option that gives a duration. -/
def durationSpec : Spec := ⟨.duration, some 'd', "duration", .value⟩

theorem read_duration (h : seconds? s = some n) :
    read none ["discover", "-d", s] = .ok ⟨.empty, .discover, ⟨[(.duration, [s])], none⟩⟩ := by
  have hword := Word.of_eq_plain (head?_ne_of_seconds? h)
  have haccepts : accepts .duration s = true := by
    rw [accepts, h]
    rfl
  have hopen : readBehind .discover ⟨[], none⟩ ["-d", s] =
      readBehind .discover ⟨[], some (durationSpec, none)⟩ [s] := rfl
  have hvalue : readBehind .discover ⟨[], some (durationSpec, none)⟩ [s] =
      .ok ⟨[], some (durationSpec, some s)⟩ := by
    rw [readBehind, hword]
    rfl
  have hclosed : Level.finish ⟨[], some (durationSpec, some s)⟩ none = .ok ⟨[(.duration, [s])], none⟩ := by
    have hrecord : Level.record ⟨[], none⟩ durationSpec (some s) = .ok ⟨[(.duration, [s])], none⟩ := by
      simp [Level.record, durationSpec, haccepts, Level.has]
    change (Level.record ⟨[], none⟩ durationSpec (some s)).bind .ok = _
    rw [hrecord]
    rfl
  have hplain : Word.of "discover" = .plain := by decide
  have hverb : Verb.ofName? "discover" = some .discover := by decide
  rw [read, readBefore, hplain]
  dsimp only [Level.empty]
  rw [if_neg (by decide), hverb]
  dsimp only
  rw [hopen, hvalue]
  change (Level.finish ⟨[], some (durationSpec, some s)⟩ none).bind _ = _
  rw [hclosed]
  rfl

/-- What is read where nothing but a duration is given. -/
def watching (n : UInt64) : Arguments :=
  { json := false, port := defaultPort, component := standardComponent, verbose := false
    invocation := .discover [] (some n) }

theorem parse_duration (h : seconds? s = some n) : parse none ["discover", "-d", s] = .ok (watching n) := by
  rw [parse, read_duration h]
  have hinvocation : Reading.invocation? ⟨.empty, .discover, ⟨[(.duration, [s])], none⟩⟩ =
      some (.discover [] (some n)) := by
    change (seconds? s).map _ = _
    rw [h]
    rfl
  have hport : Reading.value? ⟨.empty, .discover, ⟨[(.duration, [s])], none⟩⟩ .port = none := rfl
  have hcomponent : Reading.value? ⟨.empty, .discover, ⟨[(.duration, [s])], none⟩⟩ .component = none := rfl
  simp only [hinvocation, hport, hcomponent, Except.bind, bind, Option.or_none,
    Option.bind_some]
  rfl

/-- Every number of seconds is read from its digits. -/
theorem seconds?_digits (n : UInt64) : seconds? (.ofList (Nat.toDigits 10 n.toNat)) = some n := by
  have hread : readNat 10 (UInt64.size - 1) (Nat.toDigits 10 n.toNat) = .ok n.toNat := by
    refine (readNat_eq_ok_iff (by decide)).mpr ⟨[], _, rfl, ⟨.inl rfl, Nat.toDigits_ne_nil, ?_⟩,
      isBase_ten.digitsValue_toDigits _, Nat.le_sub_one_of_lt n.toNat_lt⟩
    exact fun c hc => isBase_ten.isSome_digitValue? hc
  rw [seconds?, String.toList_ofList, hread]
  exact congrArg some UInt64.ofNat_toNat

end CommandLine

/-! ## Discovery runs -/

namespace Discovery.Run

variable {config : DiscoveryConfig} {n : Nat}

/-- The settings with which a run begins. -/
structure CanBegin (config : DiscoveryConfig) (n : Nat) : Prop where
  capacity : IsCapacity n
  scan : config.scanInterval ≠ 0
  ping : config.pingInterval ≠ 0

theorem begin_eq_ok (h : CanBegin config n) : Run.begin config n = .ok (start config n) := by
  rw [Run.begin, capacity_of_isCapacity h.capacity, period_of_ne_zero h.scan, period_of_ne_zero h.ping]
  rfl

theorem begin_of_not_isCapacity (h : ¬IsCapacity n) : Run.begin config n = .error (.channelCapacity n) := by
  rw [Run.begin, capacity_of_not_isCapacity h]
  rfl

theorem begin_of_zero (hn : IsCapacity n) (h : config.scanInterval = 0 ∨ config.pingInterval = 0) :
    Run.begin config n = .error .period := by
  rw [Run.begin, capacity_of_isCapacity hn]
  by_cases hscan : config.scanInterval = 0
  · rw [hscan]
    rfl
  · rw [period_of_ne_zero hscan, h.resolve_left hscan]
    rfl

theorem begin_eq_ok_iff : (∃ r, Run.begin config n = .ok r) ↔ CanBegin config n := by
  refine ⟨?_, fun h => ⟨_, begin_eq_ok h⟩⟩
  rintro ⟨r, hr⟩
  by_cases hn : IsCapacity n
  · by_cases hzero : config.scanInterval = 0 ∨ config.pingInterval = 0
    · rw [begin_of_zero hn hzero] at hr
      contradiction
    · obtain ⟨hscan, hping⟩ := not_or.mp hzero
      exact ⟨hn, hscan, hping⟩
  · rw [begin_of_not_isCapacity hn] at hr
    contradiction

end Discovery.Run

/-! ## Commands -/

namespace SessionScript

open Discovery

variable {scene : Scene} {a : Arguments}

/-- Commands have settings with which a run begins. -/
theorem discovery_ne_error (port : UInt16) (allowed : List String) (cancelAt : Nat) :
    discovery scene port allowed cancelAt ≠ .error b := by
  have hbegin : Run.CanBegin { DiscoveryConfig.withPort port with allowedInterfaces := allowed } receivedCapacity :=
    ⟨isCapacity_receivedCapacity, show (5000 : UInt64) ≠ 0 by decide, show (5000 : UInt64) ≠ 0 by decide⟩
  rw [discovery, DiscoveryScript.play, Run.begin_eq_ok hbegin]
  exact nofun

/-- What is played comes to an end of its own. -/
def IsWhole (r : Except Fault Transcript) : Prop := ∀ t, r = .ok t → ∃ o, t.result = .ok o

theorem isWhole_error (f : Fault) : IsWhole (.error f) := nofun

theorem isWhole_ok {t : Transcript} (h : t.result = .ok o) : IsWhole (.ok t) := by
  rintro _ ⟨⟩
  exact ⟨o, h⟩

theorem isWhole_withoutClients {t : Transcript} (h : t.result = .ok o) : IsWhole (scene.withoutClients t) := by
  rw [Scene.withoutClients]
  split
  · exact isWhole_error _
  · exact isWhole_ok h

theorem watch_of_lt (h : maxSecond < scene.second + n) :
    watch scene port allowed (some n) = .error (.deadline n) := by
  have hdeadline : deadline scene.second n = .error (.deadline n) := if_neg (Nat.not_le.mpr h)
  rw [watch, Option.getD_some, hdeadline]
  rfl

theorem exists_watch (h : ∀ n ∈ seconds, scene.second + n ≤ maxSecond) :
    ∃ r, watch scene port allowed seconds = .ok r ∧ IsWhole r := by
  have hdeadline : deadline scene.second (seconds.getD 0) = .ok (scene.second + seconds.getD 0) := by
    refine if_pos ?_
    cases seconds with
    | none => exact scene.second.is_le
    | some n => exact h n rfl
  unfold watch
  rw [hdeadline]
  dsimp only [bind, Except.bind]
  split
  · next hbreach => exact (discovery_ne_error _ _ _ hbreach).elim
  · split
    · exact ⟨_, rfl, isWhole_error _⟩
    · exact ⟨_, rfl, isWhole_ok rfl⟩

theorem exists_clientOutcome (a : SocketAddress) (component : UInt8) (c : Command) :
    ∃ r, clientOutcome a component c = .ok r := by
  have hcapacity : IsCapacity ClientConfig.standard.sendQueueCapacity.toNat := ⟨by decide, by decide⟩
  rw [clientOutcome, Endpoint.State.new, capacity_of_isCapacity hcapacity]
  dsimp only [Except.map, bind, Except.bind]
  split
  · exact ⟨_, rfl⟩
  · exact ⟨_, rfl⟩

theorem exists_fixedOutcome (p : ControlPlan) (component : UInt8) : ∃ r, fixedOutcome p component = .ok r := by
  choose f hf using fun a => exists_clientOutcome a component p.command
  have hall : p.addresses.mapM (fun a => clientOutcome a component p.command) = .ok (p.addresses.map f) := by
    refine mapM_of_forall₂ ?_
    rw [List.forall₂_map_right_iff]
    exact List.forall₂_same.mpr fun a _ => hf a
  rw [fixedOutcome, hall]
  exact ⟨_, rfl⟩

theorem exists_control (scene : Scene) (port : UInt16) (component : UInt8) (p : ControlPlan) :
    ∃ r, control scene port component p = .ok r ∧ IsWhole r := by
  obtain ⟨fixed, hfixed⟩ := exists_fixedOutcome p component
  rw [control, hfixed]
  dsimp only [bind, Except.bind]
  split
  · exact ⟨_, rfl, isWhole_withoutClients rfl⟩
  · split
    · next hbreach => exact (discovery_ne_error _ _ _ hbreach).elim
    · split
      · exact ⟨_, rfl, isWhole_error _⟩
      · exact ⟨_, rfl, isWhole_ok rfl⟩

theorem isWhole_simulate (scene : Scene) (address : SocketAddress) (interface : Option String) (d : Device) :
    IsWhole (simulate scene address interface d) := by
  rw [simulate]
  split
  · exact isWhole_ok rfl
  · split
    · exact isWhole_error _
    · exact isWhole_ok rfl

variable {resolver : Resolver}

theorem control?_ne_watch (t : Targets) (port : UInt16) (command : Command) (again dump : Bool) :
    Plan.control? resolver t port command again dump ≠ .ok (.watch allowed seconds) := by
  unfold Plan.control?
  dsimp only [bind, Except.bind]
  split
  · exact nofun
  · split
    · exact nofun
    · split
      · exact nofun
      · exact nofun

/-- Only for discovery something is watched. -/
theorem exists_of_watch (h : Plan.ofArguments resolver a = .ok (.watch allowed seconds)) :
    ∃ duration, a.invocation = .discover allowed duration ∧ seconds = duration.map UInt64.toNat := by
  rw [Plan.ofArguments] at h
  split at h
  · next allowed' duration hinvocation =>
    cases h
    exact ⟨duration, hinvocation, rfl⟩
  · exact (control?_ne_watch _ _ _ _ _ h).elim
  · exact (control?_ne_watch _ _ _ _ _ h).elim
  · split at h
    · contradiction
    · exact (control?_ne_watch _ _ _ _ _ h).elim
  · dsimp only [bind, Except.bind] at h
    split at h
    · contradiction
    · cases h

/-- The duration of a command leads beyond the last second. -/
def IsTooLong (scene : Scene) (a : Arguments) (n : UInt64) : Prop :=
  (∃ allowed, a.invocation = .discover allowed (some n)) ∧ maxSecond < scene.second + n.toNat

/-- A command breaks off for a duration that leads beyond the last second. -/
theorem play_of_isTooLong (h : IsTooLong scene a n) :
    play scene a = scene.withoutClients (.brokenOff (.deadline n.toNat)) := by
  obtain ⟨⟨allowed, hinvocation⟩, hlt⟩ := h
  have hplan : Plan.ofArguments .offline a = .ok (.watch allowed (some n.toNat)) := by
    rw [Plan.ofArguments, hinvocation]
    rfl
  rw [play, hplan]
  dsimp only
  rw [watch_of_lt hlt]
  rfl

/-- It breaks off for nothing else. -/
theorem isWhole_play (h : ∀ n, ¬IsTooLong scene a n) : IsWhole (play scene a) := by
  rw [play]
  split
  · exact isWhole_withoutClients rfl
  · next allowed seconds hplan =>
    obtain ⟨duration, hinvocation, rfl⟩ := exists_of_watch hplan
    have hin : ∀ k ∈ duration.map UInt64.toNat, scene.second + k ≤ maxSecond := by
      intro k hk
      obtain ⟨n, rfl, rfl⟩ := Option.map_eq_some_iff.mp hk
      exact Nat.not_lt.mp fun hlt => h n ⟨⟨allowed, hinvocation⟩, hlt⟩
    obtain ⟨r, hr, hwhole⟩ := exists_watch hin
    rw [hr]
    exact hwhole
  · next p _ =>
    obtain ⟨r, hr, hwhole⟩ := exists_control scene a.port a.component p
    rw [hr]
    exact hwhole
  · exact isWhole_simulate scene _ _ _

theorem result_eq_error_iff {t : Transcript} (h : play scene a = .ok t) :
    t.result = .error b ↔ ∃ n, IsTooLong scene a n ∧ b = .deadline n.toNat := by
  by_cases hlong : ∃ n, IsTooLong scene a n
  · obtain ⟨n, hn⟩ := hlong
    rw [play_of_isTooLong hn, Scene.withoutClients] at h
    split at h
    · contradiction
    · cases h
      constructor
      · rintro ⟨⟩
        exact ⟨n, hn, rfl⟩
      · rintro ⟨k, ⟨⟨_, hk⟩, -⟩, rfl⟩
        obtain ⟨⟨_, hinvocation⟩, -⟩ := hn
        rw [hinvocation] at hk
        cases hk
        rfl
  · obtain ⟨o, ho⟩ := isWhole_play (fun n hn => hlong ⟨n, hn⟩) t h
    rw [ho]
    exact iff_of_false nofun fun ⟨n, hn, _⟩ => hlong ⟨n, hn⟩

theorem watch_eq_ok_iff :
    (∃ r, watch scene port allowed (some n) = .ok r) ↔ scene.second + n ≤ maxSecond := by
  constructor
  · rintro ⟨r, hr⟩
    refine Nat.not_lt.mp fun hlt => ?_
    rw [watch_of_lt hlt] at hr
    contradiction
  · intro h
    have hin : ∀ k ∈ some n, scene.second + k ≤ maxSecond := by
      rintro k ⟨⟩
      exact h
    obtain ⟨r, hr, -⟩ := exists_watch hin
    exact ⟨r, hr⟩

end SessionScript

/-! ## All settings -/

theorem deadline_eq_ok_iff : (∃ t, deadline now n = .ok t) ↔ now + n ≤ maxSecond := by
  rw [deadline]
  split
  · next h => exact iff_of_true ⟨_, rfl⟩ h
  · next h => exact iff_of_false nofun h

theorem Endpoint.State.new_eq_ok_iff {e : Endpoint} :
    (∃ s, Endpoint.State.new e = .ok s) ↔ IsCapacity e.config.sendQueueCapacity.toNat := by
  rw [Endpoint.State.new]
  by_cases h : IsCapacity e.config.sendQueueCapacity.toNat
  · rw [capacity_of_isCapacity h]
    exact iff_of_true ⟨_, rfl⟩ h
  · rw [capacity_of_not_isCapacity h]
    refine iff_of_false ?_ h
    rintro ⟨s, hs⟩
    contradiction

theorem Discovery.Run.firstTick {c : DiscoveryConfig} {r : Discovery.Run} {now : Nat}
    (hnow : now + (UInt64.size / 1000 + 1) ≤ maxSecond) (h : Discovery.Run.begin c n = .ok r) :
    r.ticks.next = c.pingInterval.toNat ∧ ∃ t, Limits.deadline now (r.ticks.next / 1000 + 1) = .ok t := by
  rw [begin_eq_ok (begin_eq_ok_iff.mp ⟨r, h⟩)] at h
  cases h
  have hlt : c.pingInterval.toNat < UInt64.size := c.pingInterval.toNat_lt
  refine ⟨rfl, deadline_eq_ok_iff.mpr ?_⟩
  change now + (c.pingInterval.toNat / 1000 + 1) ≤ maxSecond
  have hseconds : c.pingInterval.toNat / 1000 ≤ UInt64.size / 1000 := Nat.div_le_div_right (Nat.le_of_lt hlt)
  omega

/-- When admitted settings can be used. -/
structure Breaches (seconds : UInt64) (client : ClientConfig) (config : DiscoveryConfig) : Prop where
  /-- Any settings are admitted from their texts. -/
  admitted : CommandLine.parse none ["discover", "-d", .ofList (Nat.toDigits 10 seconds.toNat)] =
    .ok (CommandLine.watching seconds)
  clientRead : ClientConfig.form.ofText? (ClientConfig.form.toText client) = some client
  configRead : DiscoveryConfig.form.ofText? (DiscoveryConfig.form.toText config) = some config
  /-- A deadline must not lie behind the last second. The later a command begins, the fewer seconds are left. -/
  deadline (now : Nat) : (∃ t, Limits.deadline now seconds.toNat = .ok t) ↔ now + seconds.toNat ≤ maxSecond
  watch (scene : SessionScript.Scene) (port : UInt16) (allowed : List String) :
    (∃ r, SessionScript.watch scene port allowed (some seconds.toNat) = .ok r) ↔
      scene.second + seconds.toNat ≤ maxSecond
  /-- Otherwise the command breaks off, and nothing has been printed. -/
  tooLong (scene : SessionScript.Scene) : maxSecond < scene.second + seconds.toNat →
    SessionScript.play scene (CommandLine.watching seconds) =
      scene.withoutClients (.brokenOff (.deadline seconds.toNat))
  /-- No command breaks off for anything else. -/
  command {scene : SessionScript.Scene} {a : Arguments} {t : SessionScript.Transcript} {b : Breach} :
    SessionScript.play scene a = .ok t →
      (t.result = .error b ↔ ∃ n, SessionScript.IsTooLong scene a n ∧ b = .deadline n.toNat)
  queue (destination : SocketAddress) (interface : Option String) (component : UInt8) :
    (∃ s, Endpoint.State.new { destination, interface, component, config := client } = .ok s) ↔
      IsCapacity client.sendQueueCapacity.toNat
  run (n : Nat) : (∃ r, Discovery.Run.begin config n = .ok r) ↔ Discovery.Run.CanBegin config n
  /-- The first tick of a run is never too late. -/
  firstTick {n : Nat} {r : Discovery.Run} (now : Nat) : now + (UInt64.size / 1000 + 1) ≤ maxSecond →
    Discovery.Run.begin config n = .ok r →
      r.ticks.next = config.pingInterval.toNat ∧ ∃ t, Limits.deadline now (r.ticks.next / 1000 + 1) = .ok t

theorem breaches (seconds : UInt64) (client : ClientConfig) (config : DiscoveryConfig) :
    Breaches seconds client config where
  admitted := CommandLine.parse_duration (CommandLine.seconds?_digits seconds)
  clientRead := ClientConfig.form.ofText?_toText client
  configRead := DiscoveryConfig.form.ofText?_toText config
  deadline _ := deadline_eq_ok_iff
  watch _ _ _ := SessionScript.watch_eq_ok_iff
  tooLong _ hlt := SessionScript.play_of_isTooLong ⟨⟨[], rfl⟩, hlt⟩
  command := SessionScript.result_eq_error_iff
  queue _ _ _ := Endpoint.State.new_eq_ok_iff
  run _ := Discovery.Run.begin_eq_ok_iff
  firstTick _ := Discovery.Run.firstTick

/-- The longest duration, a queue without room and scans without a pause are admitted and cannot be used. -/
theorem breach_extremes :
    (∃ a, CommandLine.parse none ["discover", "-d", "18446744073709551615"] = .ok a ∧
      ∀ scene : SessionScript.Scene, scene.script = [] →
        SessionScript.play scene a = .ok (.brokenOff (.deadline 18446744073709551615))) ∧
    (∃ c, ClientConfig.form.ofText? ("\x7b\"send_queue_capacity\":0,\"read_timeout\":200," ++
        "\"write_timeout\":10000\x7d") = some c ∧
      ∀ destination interface component,
        Endpoint.State.new { destination, interface, component, config := c } = .error (.channelCapacity 0)) ∧
    ∃ c, DiscoveryConfig.form.ofText? ("\x7b\"port\":5001,\"allowed_interfaces\":[],\"scan_interval\":0," ++
        "\"ping_interval\":5000,\"peer_timeout\":30000\x7d") = some c ∧
      Discovery.Run.begin c receivedCapacity = .error .period := by
  refine ⟨?_, ?_, ?_⟩
  · have hseconds : CommandLine.seconds? "18446744073709551615" = some 18446744073709551615 := by decide +kernel
    refine ⟨_, CommandLine.parse_duration hseconds, fun scene hscript => ?_⟩
    have hlong : SessionScript.IsTooLong scene (CommandLine.watching 18446744073709551615) 18446744073709551615 :=
      ⟨⟨[], rfl⟩, Nat.lt_add_left _ (by decide)⟩
    rw [SessionScript.play_of_isTooLong hlong, SessionScript.Scene.withoutClients, hscript]
    rfl
  · refine ⟨{ ClientConfig.standard with sendQueueCapacity := 0 }, by decide +kernel, fun _ _ _ => ?_⟩
    rfl
  · refine ⟨{ DiscoveryConfig.standard with scanInterval := 0 }, by decide +kernel, ?_⟩
    exact Discovery.Run.begin_of_zero isCapacity_receivedCapacity (.inl rfl)

end AmpLink
