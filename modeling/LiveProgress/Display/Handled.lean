import LiveProgress.Display.Run

/-!
# Messages that are handled

A message is handled if showing it does not fail. If the destination then fails while it is waited
for, the message is the last one that is.
-/

namespace LiveProgress

/-- The failure that showing a message ends with wherever it is shown: the error that the message
reports, unless it hands on a payload. -/
def Message.ownFailure (m : Message) : Option Failure :=
  if m.aux.isSome then none else m.reportedError.map .ofReported

/-- The messages that a display handles. -/
def Display.handled {σ : Type} [Destination σ] (d : Display σ) (caps : Option CapabilitySet)
    (v : Viewport) : List Message → List Message
  | [] => []
  | m :: rest =>
      match d.render caps v m with
      | (some _, _) => []
      | (none, d) =>
          match Destination.ready d.out with
          | (some _, _) => [m]
          | (none, out) => m :: Display.handled { d with out } caps v rest

end LiveProgress
