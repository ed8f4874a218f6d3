import LiveProgress.Display.History
import LiveProgress.Output.Recorder

/-!
# Traces of a display

What is seen of each message of a history: what showing it writes, the rows that there are
afterwards, how it fails, and whether it is handed on instead. A message that fails is followed by
the next one.
-/

namespace LiveProgress

/-- What is seen of a message that is shown. -/
structure Showing where
  message : Message
  written : List String
  rows : List Text
  failure : Option Failure
  handedOn : Bool

/-- A message that is handed on is not written. -/
def Reaction.isDelivery : Reaction → Bool
  | .deliver _ => true
  | .render _ => false

namespace Display

/-- Shows a message and tells what is seen of it. -/
def observe (d : Display Recorder) (caps : Option CapabilitySet) (v : Viewport) (m : Message) :
    Showing × Display Recorder :=
  let (failure, next) := d.render caps v m
  ({ message := m
     written := next.out.written.drop d.out.written.length
     rows := next.grid.rows
     failure
     handedOn := (d.grid.react m caps v).2.isDelivery }, next)

/-- What is seen of messages that are shown one after the other, whatever fails on the way. -/
def trace (d : Display Recorder) (caps : Option CapabilitySet) :
    List (Viewport × Message) → List Showing
  | [] => []
  | (v, m) :: rest =>
      let (showing, next) := d.observe caps v m
      showing :: next.trace caps rest

end Display
end LiveProgress
