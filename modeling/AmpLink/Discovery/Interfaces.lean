import AmpLink.Error

/-!
# Network interfaces

Which interfaces can be used for broadcasts, and what has changed between the interfaces that are
known and those that a scan finds. Sets of names are lists in strictly increasing order.
-/

namespace AmpLink

structure NetInterface where
  name : String
  up : Bool
  broadcast : Bool
  loopback : Bool
  hasIpv4 : Bool
  deriving DecidableEq, Repr

/-- Up, able to broadcast, not the loopback and with an address of version 4. -/
def NetInterface.isValid (i : NetInterface) : Bool :=
  i.up && i.broadcast && !i.loopback && i.hasIpv4

/-- An interface of which only the name is told. -/
def NetInterface.usable (name : String) : NetInterface :=
  { name, up := true, broadcast := true, loopback := false, hasIpv4 := true }

/-- Puts a name into its place in an ordered list, unless it is there. -/
def insertName (name : String) : List String → List String
  | [] => [name]
  | n :: rest =>
    if name < n then name :: n :: rest
    else if name = n then n :: rest
    else n :: insertName name rest

/-- The set of the names in a list. -/
def nameSet (names : List String) : List String := names.foldr insertName []

/-- What a scan has found to be new and to be gone. -/
structure InterfaceDiff where
  added : List String
  removed : List String
  deriving DecidableEq, Repr

namespace InterfaceDiff

def isEmpty (d : InterfaceDiff) : Bool := d.added.isEmpty && d.removed.isEmpty

/-- An empty list allows everything. -/
def isAllowed (allowed : List String) (name : String) : Bool := allowed.isEmpty || name ∈ allowed

/-- New are the allowed names that are valid and not known, gone the known ones that are not valid. -/
def of (known valid allowed : List String) : InterfaceDiff where
  added := nameSet (valid.filter fun n => n ∉ known ∧ isAllowed allowed n)
  removed := nameSet (known.filter fun n => n ∉ valid)

end InterfaceDiff

/-- The names that have a valid entry. -/
def validNames (interfaces : List NetInterface) : List String :=
  nameSet ((interfaces.filter NetInterface.isValid).map NetInterface.name)

/-- Compares what is known with what the source of interfaces reports. -/
def scan (source : Except RunError (List NetInterface)) (known allowed : List String) :
    Except RunError InterfaceDiff :=
  source.map fun interfaces => .of known (validNames interfaces) allowed

end AmpLink
