import AmpLink.Wire.Frame

/-!
# Commands

What a person can tell devices to do, and how a repeated command goes on: a recalled preset moves to
the next of the first five, everything else stays the same.
-/

namespace AmpLink

inductive Command where
  | ping
  | recall (index : UInt8)
  | volume (v : Binary32)
  deriving DecidableEq, Repr

namespace Command

/-- Presets that a repeated recall goes through. -/
def presetCycle : UInt8 := 5

/-- The command of the next round. -/
def next : Command → Command
  | .recall index => .recall ((index + 1) % presetCycle)
  | c => c

/-- The request that carries a command out. A volume outside of its range has none. -/
def request? : Command → Option Request
  | .ping => some .ping
  | .recall index => some (.recallByIndex index)
  | .volume v => (MasterVolume.ofVolume v).toOption.map .masterVolume

/-- The commands of the following rounds. -/
def rounds (c : Command) : Nat → List Command
  | 0 => []
  | n + 1 => c.next :: c.next.rounds n

end Command
end AmpLink
