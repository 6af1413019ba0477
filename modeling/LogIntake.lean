import LogIntake.Binary64
import LogIntake.Bytes
import LogIntake.CommandLine
import LogIntake.Connection
import LogIntake.Decimal.Layout
import LogIntake.Decimal.Shortest
import LogIntake.Frame.Basic
import LogIntake.Frame.Fault
import LogIntake.Frame.OfValue
import LogIntake.Frame.Scanner
import LogIntake.Frame.Stream
import LogIntake.Frame.Writer
import LogIntake.Hub
import LogIntake.Json.Basic
import LogIntake.Json.Number
import LogIntake.Json.Reader
import LogIntake.Json.Writer
import LogIntake.Listener.Address
import LogIntake.Listener.Basic
import LogIntake.Listener.Metrics
import LogIntake.Listener.Session
import LogIntake.Load.Dial
import LogIntake.Load.Options
import LogIntake.Load.Plan
import LogIntake.Load.Run
import LogIntake.Load.Send
import LogIntake.Main
import LogIntake.MessagePack.Item
import LogIntake.MessagePack.Marker
import LogIntake.MessagePack.Reader
import LogIntake.MessagePack.Refusal
import LogIntake.MessagePack.Writer
import LogIntake.Output.Basic
import LogIntake.Output.Event
import LogIntake.Output.Lines
import LogIntake.Registry
import LogIntake.Scoreboard
import LogIntake.Settings.Basic
import LogIntake.Settings.File
import LogIntake.Settings.Overrides
import LogIntake.Settings.Resolve
import LogIntake.Text.Digits
import LogIntake.Text.Printable
import LogIntake.Text.Quoted
import LogIntake.Text.Utf8
import LogIntake.Toml.Basic
import LogIntake.Toml.Number
import LogIntake.Toml.Reader
import LogIntake.Toml.Text
import LogIntake.Transport
import LogIntake.Value.Basic
import LogIntake.Value.Nesting
import LogIntake.Value.Normal
import LogIntake.Proofs.Numbers
import LogIntake.Proofs.Parts
import LogIntake.Proofs.Scanning
import LogIntake.Proofs.Reading
import LogIntake.Proofs.Grammar
import LogIntake.Proofs.Agreement
import LogIntake.Proofs.Writing
import LogIntake.Proofs.RoundTrip
import LogIntake.Proofs.Settling
import LogIntake.Proofs.Serving
import LogIntake.Proofs.Running
import LogIntake.Proofs.Cutting
import LogIntake.Proofs.Resuming
import LogIntake.Proofs.Identifiers
import LogIntake.Proofs.Views
import LogIntake.Proofs.Following
import LogIntake.Proofs.Isolation
import LogIntake.Proofs.Moves
import LogIntake.Proofs.Accounting
import LogIntake.Proofs.Shutdown
import LogIntake.Proofs.Finality
import LogIntake.Proofs.Packing
import LogIntake.Proofs.Normalizing
import LogIntake.Proofs.Sorts
import LogIntake.Proofs.Dialling
import LogIntake.Proofs.Joining
import LogIntake.Proofs.Delivering
import LogIntake.Proofs.Opening
import LogIntake.Proofs.Unpacking
import LogIntake.Proofs.Canonical
import LogIntake.Proofs.Tiling
import LogIntake.Proofs.Limiting
import LogIntake.Proofs.Recognition
import LogIntake.Proofs.WireTypes
import LogIntake.Proofs.Substituting
import LogIntake.Proofs.Places
import LogIntake.Proofs.History
import LogIntake.Proofs.Printing
import LogIntake.Proofs.Lines
import LogIntake.Proofs.Literals
import LogIntake.Proofs.Texts
import LogIntake.Proofs.Payloads
import LogIntake.Proofs.Starts
import LogIntake.Proofs.Rounds
import LogIntake.Proofs.Depths
import LogIntake.Proofs.Options
import LogIntake.Proofs.Precedence
