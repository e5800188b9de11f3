import AmpLink.Report.Basic

/-!
# What a command prints

Each output of a command, before it is put into words. The time that an output shows is the time at
which it was printed.
-/

namespace AmpLink

inductive Line where
  | event (now : Timestamp) (e : PeerEvent)
  | message (now : Timestamp) (m : Message) (dump : Bool)
  | summary (rows : List PeerRow)
  | notice (text : String)
  /-- The state of a simulated device at an address. -/
  | device (address : String) (s : DeviceState)
  deriving DecidableEq, Repr

/-- The text of an output. It may have several lines. -/
def Line.text (style : ReportStyle) : Line → String
  | event now e => Report.peerEvent now e style
  | message now m dump => Report.message now m dump style
  | summary rows => Report.peers rows style
  | notice text => Report.notice text style
  | device address s => Report.device address s style

end AmpLink
