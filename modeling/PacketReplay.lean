import PacketReplay.Text.Blank
import PacketReplay.Text.Digit
import PacketReplay.Text.Lines
import PacketReplay.Text.Utf8
import PacketReplay.OrderedMap
import PacketReplay.Decimal.Binary
import PacketReplay.Decimal.Numeral
import PacketReplay.Decimal.Reading
import PacketReplay.Decimal.Shortest
import PacketReplay.Decimal.Style
import PacketReplay.Json.Fields
import PacketReplay.Json.Reader
import PacketReplay.Json.Token
import PacketReplay.Json.Value
import PacketReplay.Json.Writer
import PacketReplay.Files
import PacketReplay.Directory
import PacketReplay.Capture.Instant
import PacketReplay.Capture.Line
import PacketReplay.Capture.Log
import PacketReplay.Capture.Reason
import PacketReplay.Capture.Record
import PacketReplay.Timeline.Alignment
import PacketReplay.Timeline.Basic
import PacketReplay.Timeline.OfCapture
import PacketReplay.Timeline.Frame
import PacketReplay.Timeline.Grouping
import PacketReplay.Timeline.Json
import PacketReplay.Timeline.Summary
import PacketReplay.Settings.Basic
import PacketReplay.Settings.File
import PacketReplay.Screen.Basic
import PacketReplay.Screen.Effect
import PacketReplay.Screen.Json
import PacketReplay.Player.Autoplay
import PacketReplay.Player.Basic
import PacketReplay.Player.Clock
import PacketReplay.Player.Delay
import PacketReplay.Player.Host
import PacketReplay.Player.ScriptedHost
import PacketReplay.Program.Arguments
import PacketReplay.Program.Command
import PacketReplay.Program.Outcome
import PacketReplay.Program.Report
import PacketReplay.Program.Session
import PacketReplay.Main
import PacketReplay.Proofs.Capture.Grammar
import PacketReplay.Proofs.Decimal.Binary
import PacketReplay.Proofs.Decimal.Numeral
import PacketReplay.Proofs.Float.Rounding
import PacketReplay.Proofs.Json.Reading
import PacketReplay.Proofs.Json.Tokens
import PacketReplay.Proofs.Player.Call
import PacketReplay.Proofs.Player.Canonical
import PacketReplay.Proofs.Player.Mirror
import PacketReplay.Proofs.Player.PathIndependence
import PacketReplay.Proofs.Player.Playback
import PacketReplay.Proofs.Player.Recovery
import PacketReplay.Proofs.Player.Statistics
import PacketReplay.Proofs.Program.Commands
import PacketReplay.Proofs.Program.Session
import PacketReplay.Proofs.Program.Transcript
import PacketReplay.Proofs.Screen.Transcript
import PacketReplay.Proofs.Text.Lines
import PacketReplay.Proofs.Text.Utf8
import PacketReplay.Proofs.Timeline.Json
import PacketReplay.Proofs.Timeline.Legible
import PacketReplay.Proofs.Timeline.Lookup
import PacketReplay.Proofs.Timeline.OfText
import PacketReplay.Proofs.Timeline.Series
import PacketReplay.Proofs.Timeline.Conservation
import PacketReplay.Proofs.Timeline.Growth
import PacketReplay.Proofs.Program.Arguments
import PacketReplay.Proofs.Program.Printed
import PacketReplay.Proofs.Program.Agreement
import PacketReplay.Proofs.Timeline.Partition
import PacketReplay.Proofs.Screen.Refinement
import PacketReplay.Proofs.Player.Undo
import PacketReplay.Proofs.Timeline.StepFunction
import PacketReplay.Proofs.Timeline.Coarsening
import PacketReplay.Proofs.Timeline.LeadingRun
import PacketReplay.Proofs.Player.Pausing
import PacketReplay.Proofs.Timeline.LookupOrder
import PacketReplay.Proofs.Float.Scaling
import PacketReplay.Proofs.Decimal.Accumulation
import PacketReplay.Proofs.Json.Fields
import PacketReplay.Proofs.Screen.Json
import PacketReplay.Proofs.Settings.Validity
import PacketReplay.Proofs.Settings.Precedence
import PacketReplay.Proofs.Player.Registers
import PacketReplay.Proofs.Player.Histories
