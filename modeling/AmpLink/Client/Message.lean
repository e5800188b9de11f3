import AmpLink.Net.SocketAddress
import AmpLink.Text.Inspect
import AmpLink.Text.Quoted
import AmpLink.Wire.Payload

/-!
# Received messages

A datagram as a client hands it on: the bytes, who sent them and where, and the header if they are long
enough to hold one.
-/

namespace AmpLink

structure Message where
  header : Option Header
  /-- The whole datagram, header included. -/
  data : Bytes
  remote : SocketAddress
  /-- The interface that the receiving socket is bound to. -/
  interface : Option String
  /-- The name of the receiving client. -/
  client : String
  deriving DecidableEq, Repr

/-- The name of a client that talks to one address. -/
def clientName (destination : SocketAddress) : String := "SingleDevice-" ++ destination.text

namespace Message

/-- A datagram with the header that its bytes spell. -/
def ofDatagram (data : Bytes) (remote : SocketAddress) (interface : Option String) (client : String) :
    Message :=
  { header := (Header.parse data).toOption, data, remote, interface, client }

/-- The payload behind the header. There is none without a header or if the data is shorter than
one. -/
def payload? (m : Message) : Option (Except ProtocolError Payload) :=
  match m.header with
  | none => none
  | some h =>
    if Header.size ≤ m.data.length then some (Payload.decode h (m.data.drop Header.size)) else none

def inspect (m : Message) : String :=
  Inspect.record "ReceivedMessage" [("header", Inspect.optional Header.inspect m.header),
    ("len", toString m.data.length), ("remote", m.remote.text),
    ("interface", Inspect.optional Quoted.text m.interface), ("client", Quoted.text m.client)]

end Message

/-- The text of a client for people. -/
def inspectClient (name : String) : String := Inspect.record "Client" [("name", Quoted.text name)]

end AmpLink
