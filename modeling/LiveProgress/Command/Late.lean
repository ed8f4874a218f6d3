import LiveProgress.Command.Run
import LiveProgress.Display.Handled
import LiveProgress.Message.Sequence
import LiveProgress.Output.Reporting

/-!
# The command on a device that reports later

What a run comes to if the reports on its writes come later, and what it is told by: the text of
its input, unless reading it fails, and the messages that it has handled.
-/

namespace LiveProgress

namespace Shown

variable {σ τ : Type}

/-- A display as it is seen by one who looks at a part of the destination. -/
def map (f : σ → τ) (s : Shown σ) : Shown τ := { s with out := f s.out }

/-- Decodes an input and shows its messages on a device that reports later. -/
def onLateDevice (o : DisplayOptions) (read : FileReader) (chunks : List Chunk) (device : Device)
    (due : Nat → Nat → Bool) : Shown LateSink :=
  (ofChunks o read chunks { sink := { device }, due }).finished LateSink.finish

end Shown

namespace Options

/-- The capabilities of the terminal, if the output is one. -/
def capabilities (o : Options) (s : Surroundings) : Option CapabilitySet :=
  ((o.display s).resolve s.read).1

/-- The text of the input, if all of it can be read. -/
def text? (o : Options) (s : Surroundings) : Option Text :=
  match o.input s with
  | .chunks chunks => ({} : Utf8.Decoder).text? chunks
  | .refused _ | .unheard => none

/-- The messages of the input and the failure that ends it, if one does. -/
def decoded (o : Options) (s : Surroundings) : List Message × Option Failure :=
  match o.input s with
  | .chunks chunks => Message.ofChunks chunks
  | .refused f => ([], some f)
  | .unheard => ([], none)

/-- A run on a device whose reports come when they are due. -/
def runLate (o : Options) (s : Surroundings) (due : Nat → Nat → Bool) : RunResult :=
  o.runWith s fun display chunks =>
    (Shown.onLateDevice display s.read chunks s.device due).map (·.sink)

/-- The messages that a run handles. -/
def handled (o : Options) (s : Surroundings) (due : Nat → Nat → Bool) : List Message :=
  match o.input s with
  | .chunks chunks =>
      let display := o.display s
      ({ out := { sink := { device := s.device }, due } } : Display LateSink).handled
        (display.resolve s.read).1 display.viewport (Message.ofChunks chunks).1
  | .refused _ | .unheard => []

end Options

/-- The log lines that tell of an error. -/
def RunResult.errorLines (r : RunResult) : List LogLine :=
  r.logLines.filter fun line => line.level = .error

end LiveProgress
