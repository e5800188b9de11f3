import AmpLink.Client.Endpoint
import AmpLink.Client.FanOut
import AmpLink.Client.Message
import AmpLink.Client.Tree
import AmpLink.Command
import AmpLink.CommandLine.Arguments
import AmpLink.CommandLine.Error
import AmpLink.CommandLine.Grammar
import AmpLink.CommandLine.Parser
import AmpLink.CommandLine.Value
import AmpLink.Config
import AmpLink.Device
import AmpLink.Discovery.Interfaces
import AmpLink.Discovery.Manager
import AmpLink.Discovery.Peers
import AmpLink.Discovery.Run
import AmpLink.Error
import AmpLink.Json.Basic
import AmpLink.Json.Form
import AmpLink.Json.Parser
import AmpLink.Json.Schema
import AmpLink.Layout
import AmpLink.Limits
import AmpLink.Main
import AmpLink.Net.Ip
import AmpLink.Net.Resolve
import AmpLink.Net.SocketAddress
import AmpLink.Number.Binary32
import AmpLink.Number.Decimal
import AmpLink.Number.Reading
import AmpLink.Number.Rounding
import AmpLink.Proofs.Discovery.Delivery
import AmpLink.Proofs.Discovery.Ending
import AmpLink.Proofs.Discovery.Scope
import AmpLink.Proofs.Discovery.Shutdown
import AmpLink.Proofs.Discovery.Steps
import AmpLink.Proofs.Manager.Lifecycle
import AmpLink.Proofs.Peers.History
import AmpLink.Proofs.Task.Group
import AmpLink.Proofs.Task.Tokens
import AmpLink.Proofs.Wire.Frame
import AmpLink.Rehearsal.ChannelScript
import AmpLink.Rehearsal.DiscoveryScript
import AmpLink.Rehearsal.EndpointScript
import AmpLink.Rehearsal.FanOutScript
import AmpLink.Rehearsal.ManagerScript
import AmpLink.Rehearsal.Offline
import AmpLink.Rehearsal.SessionScript
import AmpLink.Rehearsal.Sleepers
import AmpLink.Rehearsal.StandIn
import AmpLink.Report.Basic
import AmpLink.Report.Grid
import AmpLink.Report.Timestamp
import AmpLink.Session.Controller
import AmpLink.Session.Line
import AmpLink.Session.Plan
import AmpLink.Session.Watch
import AmpLink.Task.Channel
import AmpLink.Task.Group
import AmpLink.Task.Ticker
import AmpLink.Task.Token
import AmpLink.Text.Blank
import AmpLink.Text.Hex
import AmpLink.Text.Inspect
import AmpLink.Text.Printable
import AmpLink.Text.Quoted
import AmpLink.Text.Utf8
import AmpLink.Text.Width
import AmpLink.Wire.Frame
import AmpLink.Wire.Header
import AmpLink.Wire.HexDump
import AmpLink.Wire.LiveCommand
import AmpLink.Wire.Payload
import AmpLink.Proofs.Task.Joining
import AmpLink.Proofs.Client.Calls
import AmpLink.Proofs.Client.Endings
import AmpLink.Proofs.Client.Running
import AmpLink.Proofs.Client.LifeCycle
import AmpLink.Proofs.Wire.Request
import AmpLink.Proofs.Client.Queue
import AmpLink.Proofs.Device.Handling
import AmpLink.Proofs.Device.Agreement
import AmpLink.Proofs.Device.Rally
import AmpLink.Proofs.Discovery.Silence
import AmpLink.Proofs.Discovery.Interfaces
import AmpLink.Proofs.Discovery.Reconciling
import AmpLink.Proofs.Discovery.Removals
import AmpLink.Proofs.Client.Failures
import AmpLink.Proofs.Manager.Containment
import AmpLink.Proofs.Client.Containment
import AmpLink.Proofs.Task.Channel
import AmpLink.Proofs.Device.Traffic
import AmpLink.Proofs.Discovery.AllowList
import AmpLink.Proofs.Discovery.Pings
import AmpLink.Proofs.Json.Forms
import AmpLink.Proofs.Client.Commands
import AmpLink.Proofs.Session.Watching
import AmpLink.Proofs.Session.Controlling
import AmpLink.Proofs.Peers.Sweep
import AmpLink.Proofs.Discovery.Differences
import AmpLink.Proofs.Number.Fraction
import AmpLink.Proofs.Number.Nearest
import AmpLink.Proofs.Wire.Demands
import AmpLink.Proofs.Client.Sending
import AmpLink.Proofs.Device.Volume
import AmpLink.Proofs.Wire.LiveCommands
import AmpLink.Proofs.Discovery.Emission
import AmpLink.Proofs.Device.Gains
import AmpLink.Proofs.Client.Receiving
import AmpLink.Proofs.Wire.HexDump
import AmpLink.Proofs.Session.Naming
import AmpLink.Proofs.Report.Lines
import AmpLink.Proofs.CommandLine.Values
import AmpLink.Proofs.Wire.DeviceName
import AmpLink.Proofs.Session.Settings
