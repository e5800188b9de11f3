import AmpLink.Error
import AmpLink.Layout

/-!
# Live commands

A live command changes one parameter of a running device. The parameter is addressed by a path of at
most five steps, each a position and a kind of node; the new value is one word whose meaning depends
on the node. Commands are built step by step from the empty one.
-/

namespace AmpLink

/-- Kinds of node along a path. None of them has code zero, so a zero ends the path. -/
inductive LevelType where
  | input
  | output
  | eq
  | gain
  | eqType
  | quality
  | active
  | mute
  | delay
  | phaseInversion
  deriving DecidableEq, Repr

namespace LevelType

def code : LevelType → UInt8
  | input => 1
  | output => 2
  | eq => 3
  | gain => 4
  | eqType => 5
  | quality => 7
  | active => 8
  | mute => 9
  | delay => 10
  | phaseInversion => 11

def name : LevelType → String
  | input => "Input"
  | output => "Output"
  | eq => "Eq"
  | gain => "Gain"
  | eqType => "EqType"
  | quality => "Quality"
  | active => "Active"
  | mute => "Mute"
  | delay => "Delay"
  | phaseInversion => "PhaseInversion"

def all : List LevelType :=
  [input, output, eq, gain, eqType, quality, active, mute, delay, phaseInversion]

end LevelType

/-- Filter shapes of an equaliser band. -/
inductive EqType where
  | lowPass6
  | lowPass12
  | highPass6
  | highPass12
  | bell
  | lowShelf6
  | lowShelf12
  | highShelf6
  | highShelf12
  | allPass6
  | allPass12
  deriving DecidableEq, Repr

namespace EqType

def code : EqType → UInt32
  | lowPass6 => 0
  | lowPass12 => 1
  | highPass6 => 2
  | highPass12 => 3
  | bell => 4
  | lowShelf6 => 5
  | lowShelf12 => 6
  | highShelf6 => 7
  | highShelf12 => 8
  | allPass6 => 9
  | allPass12 => 10

def name : EqType → String
  | lowPass6 => "LowPass6"
  | lowPass12 => "LowPass12"
  | highPass6 => "HighPass6"
  | highPass12 => "HighPass12"
  | bell => "Bell"
  | lowShelf6 => "LowShelf6"
  | lowShelf12 => "LowShelf12"
  | highShelf6 => "HighShelf6"
  | highShelf12 => "HighShelf12"
  | allPass6 => "AllPass6"
  | allPass12 => "AllPass12"

def all : List EqType :=
  [lowPass6, lowPass12, highPass6, highPass12, bell, lowShelf6, lowShelf12, highShelf6, highShelf12,
    allPass6, allPass12]

end EqType

/-- One step of a path. Positions count from zero. -/
structure PathStep where
  position : UInt8
  level : LevelType
  deriving DecidableEq, Repr

structure LiveCommand where
  crtFlags : UInt8
  optFlags : UInt8
  /-- Position and level code of each step, zeros behind the last one. -/
  path : Vector UInt8 10
  value : UInt32
  deriving DecidableEq, Repr

namespace LiveCommand

/-- The fields in the order in which they are sent. -/
def packing : Packing (UInt8 × UInt8 × Vector UInt8 10 × UInt32) LiveCommand where
  pack := fun (crtFlags, optFlags, path, value) => { crtFlags, optFlags, path, value }
  unpack c := (c.crtFlags, c.optFlags, c.path, c.value)
  pack_unpack _ := rfl
  unpack_pack _ := rfl

def layout : Layout LiveCommand :=
  (Layout.pair .byte <| .pair .byte <| .pair (.bytes 10) .word32).map packing

/-- Steps that a path has room for. -/
def maxSteps : Nat := 5

def empty : LiveCommand := { crtFlags := 0, optFlags := 0, path := .replicate 10 0, value := 0 }

/-- The bytes of a path without the zeros that fill it up. -/
def pathBytes (steps : List PathStep) : Bytes :=
  steps.flatMap fun s => [s.position, s.level.code]

/-- Replaces the path; nothing of an earlier one remains. -/
def withPath (c : LiveCommand) (steps : List PathStep) : Except ProtocolError LiveCommand :=
  if maxSteps < steps.length then .error (.pathTooLong steps.length)
  else .ok { c with path := .ofFn fun i => (pathBytes steps).getD i 0 }

/-- A gain in decibels is sent as ten times the gain plus 800. -/
def withGain (c : LiveCommand) (db : Binary32) : LiveCommand :=
  { c with value := (db * .ofNat 10 + .ofNat 800).toUInt32 }

def withSwitch (c : LiveCommand) (on : Bool) : LiveCommand :=
  { c with value := if on then 1 else 0 }

def withEqType (c : LiveCommand) (t : EqType) : LiveCommand := { c with value := t.code }

/-- Marks the value as the length of a string; longer lengths lose their high bits. -/
def withStringLength (c : LiveCommand) (length : Nat) : LiveCommand :=
  { c with crtFlags := 1, value := .ofNat length }

/-- One step of building a command. -/
inductive Step where
  | path (steps : List PathStep)
  | gain (db : Binary32)
  | switch (on : Bool)
  | eqType (t : EqType)
  | stringLength (length : Nat)

def build (c : LiveCommand) : Step → Except ProtocolError LiveCommand
  | .path steps => c.withPath steps
  | .gain db => .ok (c.withGain db)
  | .switch on => .ok (c.withSwitch on)
  | .eqType t => .ok (c.withEqType t)
  | .stringLength length => .ok (c.withStringLength length)

end LiveCommand
end AmpLink
