import LiveProgress.Display.Fragment
import LiveProgress.Quantity.Timestamp
import LiveProgress.Terminal.Control

/-!
# Lines

What is written to show one message. On a terminal a message with progress is shown in
place: its line is cleared first and ends in a carriage return. Elsewhere structured
progress is not shown.
-/

namespace LiveProgress.Message

/-- The time of a message in nanoseconds since the epoch; zero counts as unset. Times that are read
are whole, so nothing is cut off from them. -/
def epochNanos? (m : Message) : Option Int :=
  let given (t : Option Number) : Option Int := (t.filter (· != 0)).map (·.wholePart)
  match given m.timeNano with
  | some n => some n
  | none => (given m.time).map (· * 1000000000)

/-- Time, identifier and origin, each in a write of its own. -/
def heading (m : Message) : List String :=
  ((m.epochNanos?).map fun t => timestampText t ++ " ").toList ++
    ((nonEmpty m.id).map (·.string ++ ": ")).toList ++
    ((nonEmpty m.origin).map fun o => "(from " ++ o.string ++ ") ").toList

/-- Whether the line is rewritten in place. Text to be shown verbatim never is. -/
def isInPlace (m : Message) : Bool := (nonEmpty m.stream).isNone && m.hasProgress

/-- What follows the heading, up to the line end given. -/
def content (m : Message) (onTerminal : Bool) (v : Viewport) (lineEnd : String) : String :=
  let status := (m.status.getD []).string
  match m.progressDetail.filter fun _ => onTerminal, nonEmpty m.progress, nonEmpty m.stream with
  | some p, _, _ => status ++ " " ++ p.fragment v ++ lineEnd
  | none, some progress, _ => status ++ " " ++ progress.string ++ lineEnd
  | none, none, some stream => stream.string
  | none, none, none => status ++ lineEnd

/-- Whether a message has structured progress to show, which needs a terminal. -/
def isTerminalOnly (m : Message) (v : Viewport) : Bool :=
  match m.progressDetail with
  | some p => p.fragment v != ""
  | none => false

/-- What is written to show a message, with the capabilities of the terminal if there is
one. A message that reports an error is not shown but fails. -/
def line (m : Message) (caps : Option CapabilitySet) (v : Viewport) : Attempt :=
  match m.reportedError, caps with
  | some e, _ => { failure := some (.ofReported e) }
  | none, some caps =>
      if m.isInPlace then
        caps.clearLine.andThen { texts := "\r" :: (m.heading ++ [m.content true v "\r"]) }
      else { texts := m.heading ++ [m.content true v "\n"] }
  | none, none =>
      if m.isTerminalOnly v then {}
      else { texts := m.heading ++ [m.content false v "\n"] }

end LiveProgress.Message
