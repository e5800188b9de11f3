import AmpLink.CommandLine.Value
import AmpLink.Config
import AmpLink.Number.Reading

/-!
# The grammar of the command line

The options of the program and of each of its commands: their names, whether they take a value, which
values are accepted and how often the option may be given. Options of the program may stand before or
behind the command.
-/

namespace AmpLink.CommandLine

/-- What the program can be told to do. -/
inductive Verb where
  | discover
  | ping
  | recall
  | volume
  | simulate
  deriving DecidableEq, Repr

namespace Verb

def name : Verb → String
  | .discover => "discover"
  | .ping => "ping"
  | .recall => "recall"
  | .volume => "volume"
  | .simulate => "simulate"

def all : List Verb := [.discover, .ping, .recall, .volume, .simulate]

def ofName? (s : String) : Option Verb := all.find? fun v => v.name = s

end Verb

inductive Opt where
  | json
  | port
  | component
  | verbose
  | addresses
  | discover
  | interface
  | duration
  | dump
  | preset
  | repeat
  | volume
  | address
  | uniqueId
  | help
  | version
  deriving DecidableEq, Repr

/-- What an option does when it is given. -/
inductive Use where
  /-- Set, and given once. -/
  | flag
  /-- One value, and given once. -/
  | value
  /-- One value each time; with a separator, several at once. -/
  | values (separator : Option Char)
  | help
  | version
  deriving DecidableEq, Repr

structure Spec where
  opt : Opt
  short : Option Char
  long : String
  use : Use
  deriving DecidableEq, Repr

/-- Options that stand with any command. -/
def commonSpecs : List Spec :=
  [⟨.json, none, "json", .flag⟩, ⟨.port, some 'p', "port", .value⟩,
    ⟨.component, some 'c', "component-id", .value⟩, ⟨.verbose, some 'v', "verbose", .flag⟩,
    ⟨.help, some 'h', "help", .help⟩, ⟨.version, some 'V', "version", .version⟩]

/-- Options that choose devices. -/
def targetSpecs : List Spec :=
  [⟨.addresses, some 'a', "addresses", .values (some ',')⟩, ⟨.discover, some 'd', "discover", .flag⟩,
    ⟨.interface, some 'i', "interface", .values none⟩]

def Verb.specs : Verb → List Spec
  | .discover =>
    [⟨.interface, some 'i', "interface", .values none⟩, ⟨.duration, some 'd', "duration", .value⟩]
  | .ping => targetSpecs ++ [⟨.dump, none, "dump", .flag⟩]
  | .recall => targetSpecs ++ [⟨.preset, none, "preset", .value⟩, ⟨.repeat, some 'l', "loop", .flag⟩]
  | .volume => targetSpecs ++ [⟨.volume, none, "volume", .value⟩, ⟨.repeat, some 'l', "loop", .flag⟩]
  | .simulate =>
    [⟨.address, some 'a', "address", .value⟩, ⟨.interface, some 'i', "interface", .value⟩,
      ⟨.uniqueId, none, "unique-id", .value⟩]

/-- The options at a place: before the command, or behind it. -/
def specs : Option Verb → List Spec
  | none => commonSpecs
  | some v => v.specs ++ commonSpecs

/-- Options that a command cannot do without. -/
def required : Option Verb → List Opt
  | some .recall => [.preset]
  | some .volume => [.volume]
  | _ => []

/-! ## Values -/

/-- A small number: a sign, and digits whose value is at most `limit`. Zero may be negative. -/
def smallNumber? (limit : Nat) (cs : List Char) : Option Nat :=
  match cs with
  | '-' :: d :: ds => match readNat 10 0 (d :: ds) with
    | .ok n => if d = '+' then none else some n
    | .error _ => none
  | _ => (readNat 10 limit cs).toOption

def port? (s : String) : Option UInt16 := (smallNumber? 0xffff s.toList).map UInt16.ofNat

def preset? (s : String) : Option UInt8 := (smallNumber? 0xff s.toList).map UInt8.ofNat

def component? (s : String) : Option UInt8 := (readByte s.toList).toOption

def seconds? (s : String) : Option UInt64 :=
  (readNat 10 (UInt64.size - 1) s.toList).toOption.map UInt64.ofNat

def volume? (s : String) : Option Binary32 := Binary32.read? s.toList

def uniqueId? (s : String) : Option DeviceId := DeviceId.read? s.toList

/-- Whether a value can be read as what the option needs. -/
def accepts (o : Opt) (s : String) : Bool :=
  match o with
  | .port => (port? s).isSome
  | .component => (component? s).isSome
  | .duration => (seconds? s).isSome
  | .preset => (preset? s).isSome
  | .volume => (volume? s).isSome
  | .uniqueId => (uniqueId? s).isSome
  | _ => true

end AmpLink.CommandLine
