import AmpLink.Command
import AmpLink.Session.Line
import AmpLink.Task.Token

/-!
# Giving commands to devices

A controller gives its command to the devices that were named at the start, and to every peer that
discovery finds once it is there. With repetition the next command goes to all of them at every tick. A
peer that is lost is told to stop.
-/

namespace AmpLink

/-- The client of a peer, its token, and what it has been told. -/
structure PeerClient where
  address : SocketAddress
  interface : Option String
  token : Token
  commands : List Command
  deriving DecidableEq, Repr

structure Controller where
  repeats : Bool
  /-- Received datagrams are dumped. -/
  dump : Bool
  /-- The devices that were named at the start. -/
  fixed : List SocketAddress
  tokens : TokenForest
  /-- The token of the whole command. -/
  group : Token
  /-- The command of this round. -/
  command : Command
  /-- What each client of the devices named at the start has been told. -/
  told : List Command
  /-- The clients of the peers that are there. -/
  peers : List PeerClient
  /-- The clients of peers that were lost. -/
  former : List PeerClient
  printed : List Line
  deriving Repr

namespace Controller

/-- A controller that has given its first command. -/
def start (command : Command) (repeats dump : Bool) (fixed : List SocketAddress) : Controller :=
  let (group, tokens) := TokenForest.empty.root
  { repeats, dump, fixed, tokens, group, command, told := [command], peers := [], former := [],
    printed := [] }

/-- What a controller has to deal with. -/
inductive Input where
  | tick
  | message (now : Timestamp) (m : Message)
  | event (now : Timestamp) (e : PeerEvent)
  deriving Repr

def find? (c : Controller) (a : SocketAddress) : Option PeerClient := c.peers.find? (·.address = a)

/-- The next round. -/
def tick (c : Controller) : Controller :=
  let command := c.command.next
  { c with
    command, told := c.told ++ [command]
    peers := c.peers.map fun p => { p with commands := p.commands ++ [command] } }

/-- A peer is there. It gets a client and the command of this round, unless it has a client already. -/
def add (c : Controller) (a : SocketAddress) (interface : Option String) : Controller :=
  if a ∈ c.fixed ∨ (c.find? a).isSome then c
  else
    let (token, tokens) := c.tokens.child c.group
    { c with
      tokens, peers := c.peers ++ [{ address := a, interface, token, commands := [c.command] }] }

/-- A peer is lost. Its client is told to stop. -/
def remove (c : Controller) (a : SocketAddress) : Controller :=
  match c.find? a with
  | none => c
  | some p =>
    { c with
      tokens := c.tokens.cancel p.token
      peers := c.peers.filter (·.address ≠ a), former := c.former ++ [p] }

def print (c : Controller) (l : Line) : Controller := { c with printed := c.printed ++ [l] }

def handle (c : Controller) : Input → Controller
  | .tick => if c.repeats then c.tick else c
  | .message now m => c.print (.message now m c.dump)
  | .event now e =>
    let c := c.print (.event now e)
    match e with
    | .discovered a interface => c.add a interface
    | .lost a _ => c.remove a

def handleAll (c : Controller) (inputs : List Input) : Controller := inputs.foldl handle c

/-- At the end every client of a peer is told to stop. -/
def shutDown (c : Controller) : Controller :=
  { c with
    tokens := c.peers.foldl (fun tokens p => tokens.cancel p.token) c.tokens
    peers := [], former := c.former ++ c.peers }

end Controller
end AmpLink
