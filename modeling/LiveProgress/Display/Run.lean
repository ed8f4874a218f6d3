import LiveProgress.Display.Grid
import LiveProgress.Message.Decoder
import LiveProgress.Output.Pacing

/-!
# Displaying a stream

The messages of an input are shown one after the other. The first failure, of a
message, of the output or of the input, ends the display.
-/

namespace LiveProgress

/-- A display in progress: the grid, the destination and the messages handed on. -/
structure Display (σ : Type) where
  grid : Grid := {}
  out : σ
  handedOn : List Message := []

namespace Display

variable {σ : Type} [Destination σ]

/-- Shows one message. -/
def render (d : Display σ) (caps : Option CapabilitySet) (v : Viewport) (m : Message) :
    Option Failure × Display σ :=
  match d.grid.react m caps v with
  | (grid, .deliver m) => (none, { d with grid, handedOn := d.handedOn ++ [m] })
  | (grid, .render script) =>
      let (failure, out) := script.run d.out
      (failure, { d with grid, out })

/-- Shows one message and waits for the destination. -/
def advance (d : Display σ) (caps : Option CapabilitySet) (v : Viewport) (m : Message) :
    Option Failure × Display σ :=
  match d.render caps v m with
  | (some f, d) => (some f, d)
  | (none, d) =>
      let (failure, out) := Destination.ready d.out
      (failure, { d with out })

/-- Shows messages up to the first failure. -/
def run (d : Display σ) (caps : Option CapabilitySet) (v : Viewport) :
    List Message → Option Failure × Display σ
  | [] => (none, d)
  | m :: rest =>
      match d.advance caps v m with
      | (some f, d) => (some f, d)
      | (none, d) => run d caps v rest

/-- Shows the messages that values hold, up to the first failure; a value that holds none
is one. -/
def showValues (d : Display σ) (caps : Option CapabilitySet) (v : Viewport) :
    List Json.RawValue → Option Failure × Display σ
  | [] => (none, d)
  | raw :: rest =>
      match raw.message with
      | .error f => (some f, d)
      | .ok m =>
          match d.advance caps v m with
          | (some f, d) => (some f, d)
          | (none, d) => showValues d caps v rest

/-- Shows an input as it comes: the values that a chunk completes are shown before the
next chunk is taken. -/
def feed (d : Display σ) (caps : Option CapabilitySet) (v : Viewport) (decoder : Decoder) :
    List Chunk → Option Failure × Display σ
  | [] =>
      let (values, ending) := decoder.finish
      let (failure, d) := d.showValues caps v values
      (failure.or ending, d)
  | c :: rest =>
      match decoder.push c with
      | .error f => (some f, d)
      | .ok (values, decoder) =>
          match d.showValues caps v values with
          | (some f, d) => (some f, d)
          | (none, d) => feed d caps v decoder rest

end Display

/-- How a stream is to be displayed. -/
structure DisplayOptions where
  onTerminal : Bool := false
  /-- The capability set to use instead of looking one up. -/
  capabilities : Option CapabilitySet := none
  env : Environment := []
  term : Option String := none
  searchDirs : Option (List String) := none
  viewport : Viewport := {}

namespace DisplayOptions

/-- The capabilities of the terminal, if the output is one, and what is logged about
looking them up. -/
def resolve (o : DisplayOptions) (read : FileReader) : Option CapabilitySet × List LogLine :=
  if o.onTerminal then
    match o.capabilities with
    | some caps => (some caps, [])
    | none =>
        let (entry, line) := Terminfo.resolve read o.env o.term o.searchDirs
        (some (.ofLookup entry), [line])
  else (none, [])

end DisplayOptions

/-- What is logged at the end of a display that did not fail. -/
def Grid.summary (g : Grid) : LogLine :=
  ⟨.debug, "Rendered stream (" ++ toString g.size ++ " rows in last grid)"⟩

/-- How a display ended. -/
structure Shown (σ : Type) where
  failure : Option Failure
  out : σ
  handedOn : List Message
  grid : Grid
  /-- What was logged before the first message and after the last. -/
  prelude : List LogLine
  postlude : List LogLine

namespace Shown

variable {σ : Type}

def log (s : Shown σ) : List LogLine := s.prelude ++ s.postlude

/-- What a display comes to that has ended, with a failure or without. -/
def ofDisplay (prelude : List LogLine) (ended : Option Failure × Display σ) : Shown σ where
  failure := ended.1
  out := ended.2.out
  handedOn := ended.2.handedOn
  grid := ended.2.grid
  prelude
  postlude := if ended.1.isSome then [] else [ended.2.grid.summary]

/-- Decodes an input and shows its messages, each as soon as it is complete. -/
def ofChunks [Destination σ] (o : DisplayOptions) (read : FileReader) (chunks : List Chunk)
    (out : σ) : Shown σ :=
  let (caps, lines) := o.resolve read
  ofDisplay lines (({ out } : Display σ).feed caps o.viewport {} chunks)

/-- Ends the output of a display. -/
def finished (s : Shown σ) (finish : σ → Option Failure → Option Failure × σ) : Shown σ :=
  let (failure, out) := finish s.out s.failure
  { s with failure, out }

/-- Decodes an input and shows its messages on a device. -/
def onDevice (o : DisplayOptions) (read : FileReader) (chunks : List Chunk) (device : Device) :
    Shown DeviceSink :=
  (ofChunks o read chunks { device }).finished DeviceSink.finish

/-- Decodes an input and shows its messages on a device that ends its pauses later. -/
def onPacedDevice (o : DisplayOptions) (read : FileReader) (chunks : List Chunk)
    (device : Device) (unheard : List Nat) : Shown PacedSink :=
  (ofChunks o read chunks { sink := { device }, unheard }).finished PacedSink.finish

end Shown
end LiveProgress
