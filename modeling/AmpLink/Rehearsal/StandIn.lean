import AmpLink.Command
import AmpLink.Error

/-!
# Stand-ins for clients

A rehearsal plays a part of the library in virtual time, with stand-ins in the place of clients that
talk to a network. A stand-in counts what it is told. Its run ends when it is told to exit, or some time
after it is cancelled.
-/

namespace AmpLink

namespace StandIn

inductive Phase where
  | idle
  | running
  /-- Cancelled, and over at an instant. -/
  | lingering (due : Nat)
  deriving DecidableEq, Repr

end StandIn

structure StandIn where
  name : String
  /-- Milliseconds from cancellation to the end of the run. -/
  linger : Nat
  pings : Nat
  recalls : List UInt8
  volumes : List Binary32
  /-- How often it has been run. -/
  runs : Nat
  /-- A run has ended. -/
  stopped : Bool
  /-- The end that it has been told and that no run has come to. -/
  told : Option Outcome
  phase : StandIn.Phase
  deriving Repr

namespace StandIn

def new (name : String) (linger : Nat) : StandIn :=
  { name, linger, pings := 0, recalls := [], volumes := [], runs := 0, stopped := false, told := none,
    phase := .idle }

def isRunning (s : StandIn) : Bool := s.phase ≠ .idle

def hear (s : StandIn) : Command → StandIn
  | .ping => { s with pings := s.pings + 1 }
  | .recall i => { s with recalls := s.recalls ++ [i] }
  | .volume v => { s with volumes := s.volumes ++ [v] }

/-- Told to end with `r`, now or when it runs next. -/
def tell (s : StandIn) (r : Outcome) : StandIn := { s with told := some r }

def run (s : StandIn) : StandIn := { s with runs := s.runs + 1, phase := .running }

/-- Looks around at an instant: the end of its run, if the run is over. What it was told comes before
cancellation. -/
def poll (s : StandIn) (now : Nat) (cancelled : Bool) : Option Outcome × StandIn :=
  let ended := { s with stopped := true, phase := .idle }
  match s.phase with
  | .idle => (none, s)
  | .lingering due => if due ≤ now then (some (.ok ()), ended) else (none, s)
  | .running =>
    match s.told with
    | some r => (some r, { ended with told := none })
    | none =>
      if !cancelled then (none, s)
      else if s.linger = 0 then (some (.ok ()), ended)
      else (none, { s with phase := .lingering (now + s.linger) })

/-- The instant at which it will look around by itself. -/
def due? (s : StandIn) : Option Nat :=
  match s.phase with
  | .lingering due => some due
  | _ => none

end StandIn
end AmpLink
