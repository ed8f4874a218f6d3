import LiveProgress.Output.Device

/-!
# Devices that report later

A device need not report on a write before the write returns. Behind each call of the sink some of
the reports that are owed come, in the order of their writes; which ones is laid down in advance.
The others come while the end of the output is waited for.
-/

namespace LiveProgress

/-- A failure is the error of one of the writes up to a number. -/
def Device.Explains (d : Device) (high : Nat) (f : Failure) : Prop :=
  ∃ n error, 0 < n ∧ n ≤ high ∧ d.failing.lookup n = some error ∧ f = .transfer error

/-- The device reports on a write. -/
def DeviceSink.report (d : DeviceSink) (n : Nat) : DeviceSink :=
  { d with sink := (d.sink.step (.reported (d.device.failing.lookup n))).sink }

structure LateSink where
  sink : DeviceSink := {}
  /-- The writes that have not been reported on. -/
  owed : List Nat := []
  /-- Whether the report on a write comes behind the call of a number, if it is still owed. -/
  due : Nat → Nat → Bool
  calls : Nat := 0

namespace LateSink

/-- The reports that are due behind a call. -/
def turn (l : LateSink) : LateSink :=
  let now := l.due l.calls
  { l with
    sink := (l.owed.filter now).foldl DeviceSink.report l.sink
    owed := l.owed.filter fun n => ! now n
    calls := l.calls + 1 }

def write (l : LateSink) (text : String) : Option Failure × LateSink :=
  let d := l.sink
  let n := d.attempts + 1
  let call := d.sink.step (.write (! d.device.slow.contains n))
  match call.answer with
  | .failed e => (some (.transfer e), { l with sink := { d with sink := call.sink } }.turn)
  | _ =>
      let failed := (d.device.failing.lookup n).isSome
      let sink := { d with
        sink := call.sink
        attempts := n
        written := if failed then d.written else d.written ++ [text] }
      (none, { l with sink, owed := l.owed ++ [n] }.turn)

def ready (l : LateSink) : Option Failure × LateSink :=
  let (failure, sink) := l.sink.ready
  (failure, { l with sink }.turn)

instance : Destination LateSink := ⟨write, ready⟩

/-- The end of the output, for which all reports are waited for that are still owed. -/
def finish (l : LateSink) (failure : Option Failure) : Option Failure × LateSink :=
  let flushed := l.sink.sink.step .flush
  let settled := l.owed.foldl DeviceSink.report { l.sink with sink := flushed.sink }
  let released := settled.sink.step .release
  let last := match (released.sink.step .assertHealthy).answer with
    | .failed e => some (.transfer e)
    | _ => none
  (failure.or last, { l with sink := { settled with sink := released.sink }, owed := [] })

end LateSink
end LiveProgress
