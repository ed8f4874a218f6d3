import LiveProgress.Json.Basic

/-!
# Progress messages

One message of the stream: text to show verbatim, or a status line with an optional
identifier, origin, time and progress, or a reported error, or a payload that is not
shown at all. Every field may be missing. Texts are kept as the units of their JSON
strings, so that identifiers are one only if they are the same unit by unit.
-/

namespace LiveProgress

/-- Progress of one operation. A total that is not positive is unknown, a start that
is not positive is unset, and without units the counts are bytes. -/
structure Progress where
  current : Option Number := none
  total : Option Number := none
  /-- Seconds since the epoch. -/
  start : Option Number := none
  hideCounts : Option Bool := none
  units : Option Text := none
deriving DecidableEq

/-- An error that the sender reports. -/
structure ReportedError where
  code : Option Number := none
  message : Option Text := none
deriving DecidableEq

structure Message where
  /-- Text shown as it is, line ends included. -/
  stream : Option Text := none
  status : Option Text := none
  progressDetail : Option Progress := none
  /-- Progress as text, in use before `progressDetail`. -/
  progress : Option Text := none
  id : Option Text := none
  origin : Option Text := none
  /-- Seconds since the epoch. -/
  time : Option Number := none
  /-- Nanoseconds since the epoch; it has precedence over `time`. -/
  timeNano : Option Number := none
  errorDetail : Option ReportedError := none
  /-- Error as text, in use before `errorDetail`. -/
  error : Option Text := none
  /-- Out-of-band payload. -/
  aux : Option Json := none

namespace Message

/-- A text field that is there and not empty. -/
def nonEmpty (field : Option Text) : Option Text := field.filter (! ·.isEmpty)

/-- The error that the message reports: the structured one if there is one, else a
text that is not empty. -/
def reportedError (m : Message) : Option ReportedError :=
  match m.errorDetail with
  | some e => some e
  | none => (nonEmpty m.error).map fun text => { message := some text }

/-- Whether the message carries progress in either form. -/
def hasProgress (m : Message) : Bool :=
  m.progressDetail.isSome || (nonEmpty m.progress).isSome

end Message
end LiveProgress
