import LiveProgress.Output.Destination
import LiveProgress.Output.StreamSink

/-!
# Devices

A device is a stream that reports on each write before the write returns. It numbers
the writes from one; its reply to each says whether the write failed and whether the
device asks for a pause, which it always ends.
-/

namespace LiveProgress

structure Device where
  /-- The errors of the writes that fail. -/
  failing : List (Nat × String) := []
  /-- The writes that ask for a pause. -/
  slow : List Nat := []
deriving DecidableEq, Repr

namespace Device

/-- The first write that fails, and its error. -/
structure FailsFirst (d : Device) (n : Nat) (error : String) : Prop where
  positive : 0 < n
  fails : d.failing.lookup n = some error
  least : ∀ k, 0 < k → k < n → d.failing.lookup k = none

/-- No write between two numbers fails, the first of them left out. -/
def Spares (d : Device) (low high : Nat) : Prop :=
  ∀ n, low < n → n ≤ high → d.failing.lookup n = none

end Device

/-- A sink in front of a device, and what the device has taken. -/
structure DeviceSink where
  device : Device := {}
  sink : StreamSink := {}
  attempts : Nat := 0
  written : List String := []
deriving DecidableEq, Repr

namespace DeviceSink

def write (d : DeviceSink) (text : String) : Option Failure × DeviceSink :=
  let n := d.attempts + 1
  let call := d.sink.step (.write (! d.device.slow.contains n))
  match call.answer with
  | .failed e => (some (.transfer e), { d with sink := call.sink })
  | _ =>
      let error := d.device.failing.lookup n
      let report := call.sink.step (.reported error)
      (none, { d with
        sink := report.sink
        attempts := n
        written := if error.isSome then d.written else d.written ++ [text] })

/-- The failure of a settled ticket. -/
def outcome (settled : List StreamSink.Settlement) : Option Failure :=
  settled.findSome? fun s => s.error.map .transfer

/-- Waits; the end of the pause comes while it waits. -/
def ready (d : DeviceSink) : Option Failure × DeviceSink :=
  let call := d.sink.step .ready
  if call.settled.isEmpty then
    let drain := call.sink.step .drain
    (outcome drain.settled, { d with sink := drain.sink })
  else (outcome call.settled, { d with sink := call.sink })

instance : Destination DeviceSink := ⟨write, ready⟩

/-- The end of the output: waits for the last reports and lets go of the device. If
nothing has failed so far, a failure of the last writes is told now. -/
def finish (d : DeviceSink) (failure : Option Failure) : Option Failure × DeviceSink :=
  let flushed := d.sink.step .flush
  let released := flushed.sink.step .release
  let last := match (released.sink.step .assertHealthy).answer with
    | .failed e => some (.transfer e)
    | _ => none
  (failure.or last, { d with sink := released.sink })

end DeviceSink
end LiveProgress
