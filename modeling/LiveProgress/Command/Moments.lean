import LiveProgress.Command.Late

/-!
# The command as time passes

What a run comes to if the clock moves on and windows change their width while it lasts.
-/

namespace LiveProgress

/-- What a message finds when it is shown. -/
structure Moment where
  terminals : Terminals := {}
  now : Clock := some 0

def Viewport.at (v : Viewport) (moment : Moment) : Viewport :=
  { v with terminals := moment.terminals, now := moment.now }

/-- The moment that a run takes to last from its start to its end. -/
def Surroundings.moment (s : Surroundings) : Moment := ⟨s.terminals, s.now⟩

/-- Shows messages, each in a moment of its own, up to the first failure. -/
def Display.runThrough {σ : Type} [Destination σ] (d : Display σ) (caps : Option CapabilitySet)
    (v : Viewport) (moments : Nat → Moment) : List Message → Option Failure × Display σ
  | [] => (none, d)
  | m :: rest =>
      match d.advance caps (v.at (moments 0)) m with
      | (some f, d) => (some f, d)
      | (none, d) => d.runThrough caps v (fun n => moments (n + 1)) rest

/-- Decodes an input and shows its messages, each in a moment of its own, on a device that reports
later. -/
def Shown.throughMoments (o : DisplayOptions) (read : FileReader) (chunks : List Chunk)
    (device : Device) (due : Nat → Nat → Bool) (moments : Nat → Moment) : Shown LateSink :=
  let (caps, lines) := o.resolve read
  let (messages, ending) := Message.ofChunks chunks
  let start : Display LateSink := { out := { sink := { device }, due } }
  let (failure, d) := start.runThrough caps o.viewport moments messages
  (ofDisplay lines (failure.or ending, d)).finished LateSink.finish

/-- A run whose messages find a moment each, on a device whose reports come when they are due. -/
def Options.runThrough (o : Options) (s : Surroundings) (due : Nat → Nat → Bool)
    (moments : Nat → Moment) : RunResult :=
  o.runWith s fun display chunks =>
    (Shown.throughMoments display s.read chunks s.device due moments).map (·.sink)

end LiveProgress
