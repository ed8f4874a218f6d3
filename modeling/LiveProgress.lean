import LiveProgress.Command.Late
import LiveProgress.Command.Moments
import LiveProgress.Command.Options
import LiveProgress.Command.Run
import LiveProgress.Display.Bracket
import LiveProgress.Display.Compacted
import LiveProgress.Display.Course
import LiveProgress.Display.Fragment
import LiveProgress.Display.Grid
import LiveProgress.Display.Handled
import LiveProgress.Display.History
import LiveProgress.Display.Ink
import LiveProgress.Display.Line
import LiveProgress.Display.Lookups
import LiveProgress.Display.Parts
import LiveProgress.Display.Run
import LiveProgress.Display.Stroke
import LiveProgress.Display.Trace
import LiveProgress.Display.Window
import LiveProgress.Failure
import LiveProgress.Files.Path
import LiveProgress.Files.Tree
import LiveProgress.Json.Basic
import LiveProgress.Json.Buffer
import LiveProgress.Json.Calls
import LiveProgress.Json.Delivery
import LiveProgress.Json.Extent
import LiveProgress.Json.Fault
import LiveProgress.Json.Grammar
import LiveProgress.Json.Printer
import LiveProgress.Json.Reader
import LiveProgress.Json.Splitter
import LiveProgress.Log
import LiveProgress.Main
import LiveProgress.Message.Basic
import LiveProgress.Message.Decoder
import LiveProgress.Message.Fields
import LiveProgress.Message.Sequence
import LiveProgress.Message.Validation
import LiveProgress.Number.Basic
import LiveProgress.Number.Reading
import LiveProgress.Number.Text
import LiveProgress.Output.Destination
import LiveProgress.Output.Device
import LiveProgress.Output.History
import LiveProgress.Output.Pacing
import LiveProgress.Output.Recorder
import LiveProgress.Output.Reporting
import LiveProgress.Output.StreamSink
import LiveProgress.Output.Unreliable
import LiveProgress.Proofs.Command.ExitCode
import LiveProgress.Proofs.Command.Noninterference
import LiveProgress.Proofs.Display.Balance
import LiveProgress.Proofs.Display.Bar
import LiveProgress.Proofs.Display.Chunking
import LiveProgress.Proofs.Display.Compacted
import LiveProgress.Proofs.Display.Counts
import LiveProgress.Proofs.Display.Course
import LiveProgress.Proofs.Display.Fallback
import LiveProgress.Proofs.Display.Granted
import LiveProgress.Proofs.Display.Grid
import LiveProgress.Proofs.Display.Handled
import LiveProgress.Proofs.Display.Ink
import LiveProgress.Proofs.Display.Interrupted
import LiveProgress.Proofs.Display.Ledger
import LiveProgress.Proofs.Display.Line
import LiveProgress.Proofs.Display.Lookup
import LiveProgress.Proofs.Display.Overflow
import LiveProgress.Proofs.Display.Pacing
import LiveProgress.Proofs.Display.Plain
import LiveProgress.Proofs.Display.Simulation
import LiveProgress.Proofs.Display.TimeLeft
import LiveProgress.Proofs.Display.Trace
import LiveProgress.Proofs.Display.Window
import LiveProgress.Proofs.Files.Path
import LiveProgress.Proofs.Json.Buffer
import LiveProgress.Proofs.Json.Delivery
import LiveProgress.Proofs.Json.Grammar
import LiveProgress.Proofs.Json.Reader
import LiveProgress.Proofs.Json.Splitter
import LiveProgress.Proofs.Json.Tiling
import LiveProgress.Proofs.Message.Decoder
import LiveProgress.Proofs.Message.Input
import LiveProgress.Proofs.Message.Time
import LiveProgress.Proofs.Message.Validation
import LiveProgress.Proofs.Number.Characters
import LiveProgress.Proofs.Number.Decimal
import LiveProgress.Proofs.Number.DecimalText
import LiveProgress.Proofs.Number.Digits
import LiveProgress.Proofs.Number.Error
import LiveProgress.Proofs.Number.Fixed
import LiveProgress.Proofs.Number.Integer
import LiveProgress.Proofs.Number.Length
import LiveProgress.Proofs.Number.Order
import LiveProgress.Proofs.Number.Range
import LiveProgress.Proofs.Number.Rounding
import LiveProgress.Proofs.Number.Significant
import LiveProgress.Proofs.Number.Whole
import LiveProgress.Proofs.Output.Blame
import LiveProgress.Proofs.Output.Device
import LiveProgress.Proofs.Output.FirstError
import LiveProgress.Proofs.Output.Flushing
import LiveProgress.Proofs.Output.Record
import LiveProgress.Proofs.Output.Reporting
import LiveProgress.Proofs.Output.Waiting
import LiveProgress.Proofs.Quantity.Calendar
import LiveProgress.Proofs.Quantity.Duration
import LiveProgress.Proofs.Quantity.Fields
import LiveProgress.Proofs.Quantity.Scale
import LiveProgress.Proofs.Quantity.Size
import LiveProgress.Proofs.Quantity.Timestamp
import LiveProgress.Proofs.Template.Conditionals
import LiveProgress.Proofs.Template.Printf
import LiveProgress.Proofs.Template.Spelling
import LiveProgress.Proofs.Terminal.Control
import LiveProgress.Proofs.Terminal.Ink
import LiveProgress.Proofs.Terminal.Printable
import LiveProgress.Proofs.Terminal.Screen
import LiveProgress.Proofs.Terminfo.Access
import LiveProgress.Proofs.Terminfo.Encoding
import LiveProgress.Proofs.Terminfo.Layout
import LiveProgress.Proofs.Terminfo.Search
import LiveProgress.Proofs.Terminfo.XtermLike
import LiveProgress.Proofs.Text.Split
import LiveProgress.Proofs.Text.Units
import LiveProgress.Proofs.Text.Utf8
import LiveProgress.Quantity.Calendar
import LiveProgress.Quantity.Clock
import LiveProgress.Quantity.Duration
import LiveProgress.Quantity.Fields
import LiveProgress.Quantity.Reading
import LiveProgress.Quantity.Size
import LiveProgress.Quantity.Timestamp
import LiveProgress.Template.Expansion
import LiveProgress.Template.Format
import LiveProgress.Template.Instruction
import LiveProgress.Template.Padding
import LiveProgress.Template.Printf
import LiveProgress.Template.Program
import LiveProgress.Terminal.Control
import LiveProgress.Terminal.Ink
import LiveProgress.Terminal.Screen
import LiveProgress.Terminal.Viewport
import LiveProgress.Terminfo.Access
import LiveProgress.Terminfo.Candidates
import LiveProgress.Terminfo.Capabilities
import LiveProgress.Terminfo.Encoding
import LiveProgress.Terminfo.Entry
import LiveProgress.Terminfo.Layout
import LiveProgress.Terminfo.Search
import LiveProgress.Terminfo.XtermLike
import LiveProgress.Text.Quoted
import LiveProgress.Text.Units
import LiveProgress.Text.Utf8
