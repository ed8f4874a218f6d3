import LiveProgress.Output.Device

/-!
# Devices that end their pauses later

A device that asks for a pause does not end it while the writer is at work. For each write that
asked, its stream drains once, at some later time: while the writer waits, or before the next
message comes, or behind the last one. The next drain wakes a writer who waits, whichever write it
belongs to; a drain that nobody waits for goes unheard; and a wait when no drain is owed never
ends.
-/

namespace LiveProgress

structure PacedSink where
  sink : DeviceSink := {}
  /-- The texts handed to the stream, one of which may have failed. -/
  sent : List String := []
  /-- The number of drains that are still to come. -/
  owed : Nat := 0
  /-- How many of them come unheard behind each message, as long as any are owed. -/
  unheard : List Nat := []
  /-- The writer waits, and nothing will wake it. -/
  stalled : Bool := false
deriving DecidableEq, Repr

namespace PacedSink

def write (p : PacedSink) (text : String) : Option Failure × PacedSink :=
  match p.sink.write text with
  | (some f, sink) => (some f, { p with sink })
  | (none, sink) =>
      let asks := sink.device.slow.contains sink.attempts
      (none, { p with sink, sent := p.sent ++ [text], owed := p.owed + asks.toNat })

/-- The stream drains: the settled tickets of those who wait, and what is left. -/
def drain (p : PacedSink) : List StreamSink.Settlement × PacedSink :=
  let drain := p.sink.sink.step .drain
  (drain.settled, { p with sink := { p.sink with sink := drain.sink }, owed := p.owed - 1 })

/-- The stream drains a number of times, or as often as it owes. -/
def drains : Nat → PacedSink → PacedSink
  | 0, p => p
  | k + 1, p => if p.owed = 0 then p else drains k p.drain.2

/-- What happens before the next message comes. -/
def rest (p : PacedSink) : PacedSink :=
  match p.unheard with
  | [] => p
  | k :: unheard => drains k { p with unheard }

def ready (p : PacedSink) : Option Failure × PacedSink :=
  let call := p.sink.sink.step .ready
  let p := { p with sink := { p.sink with sink := call.sink } }
  if ! call.settled.isEmpty then (DeviceSink.outcome call.settled, p.rest)
  else if p.owed = 0 then (none, { p with stalled := true })
  else
    let (settled, p) := p.drain
    (DeviceSink.outcome settled, { p with stalled := p.stalled || settled.isEmpty }.rest)

instance : Destination PacedSink := ⟨write, ready⟩

/-- The end of the output, which waits for reports on the last writes. -/
def finish (p : PacedSink) (failure : Option Failure) : Option Failure × PacedSink :=
  let flushed := p.sink.sink.step .flush
  let (failure, sink) := p.sink.finish failure
  (failure, { p with sink, stalled := p.stalled || flushed.settled.isEmpty })

end PacedSink
end LiveProgress
