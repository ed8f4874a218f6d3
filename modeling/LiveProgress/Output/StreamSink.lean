/-!
# Sinks over a stream

A stream takes text and reports later, write by write, whether it arrived; it may also
ask for a pause, and fail or close at any time. A sink in front of it turns these
reports into failures of the calls that follow: the first error is kept and every
later write fails with it. Its two waiting calls give out tickets, which are settled by
later events.
-/

namespace LiveProgress

structure StreamSink where
  /-- The first error seen. -/
  failure : Option String := none
  /-- Writes that have not been reported on. -/
  pending : Nat := 0
  /-- A write was taken with the request to pause, and nobody has waited since. -/
  needsDrain : Bool := false
  closed : Bool := false
  released : Bool := false
  /-- Tickets given out. -/
  tickets : Nat := 0
  /-- Tickets that wait for the stream to drain. -/
  draining : List Nat := []
  /-- Tickets that wait for all writes to be reported on. -/
  flushing : List Nat := []
deriving DecidableEq, Repr

namespace StreamSink

/-- Calls of the sink and events of the stream. -/
inductive Event where
  /-- A write, and whether the stream takes more behind it. -/
  | write (accepted : Bool)
  /-- The report on a write, with the error if it failed. -/
  | reported (error : Option String)
  | error (text : String)
  | close
  | drain
  | ready
  | flush
  | assertHealthy
  | release
deriving DecidableEq, Repr

inductive Answer where
  /-- What the stream answered to a write. -/
  | written (accepted : Bool)
  | failed (error : String)
  | ticket (number : Nat)
  /-- Whether anyone listened to an event. -/
  | heard (anyone : Bool)
  | done
deriving DecidableEq, Repr

/-- A settled ticket, with the error if its wait failed. -/
structure Settlement where
  ticket : Nat
  error : Option String
deriving DecidableEq, Repr

/-- What one event brings about. -/
structure Effect where
  answer : Answer := .done
  settled : List Settlement := []
  sink : StreamSink
deriving DecidableEq, Repr

/-- Keeps an error unless there is one already. -/
def record (s : StreamSink) (error : String) : StreamSink :=
  { s with failure := s.failure.or (some error) }

def settle (tickets : List Nat) (error : Option String) : List Settlement :=
  tickets.map (⟨·, error⟩)

/-- Settles the flushes. -/
def wake (s : StreamSink) (answer : Answer) : Effect :=
  { answer, settled := settle s.flushing none, sink := { s with flushing := [] } }

def write (s : StreamSink) (accepted : Bool) : Effect :=
  match s.failure with
  | some e => { answer := .failed e, sink := s }
  | none =>
      { answer := .written accepted
        sink := { s with pending := s.pending + 1, needsDrain := s.needsDrain || !accepted } }

def reported (s : StreamSink) (error : Option String) : Effect :=
  let s := error.elim s s.record
  let s := { s with pending := s.pending - 1 }
  if s.pending = 0 then s.wake .done else { sink := s }

/-- An error event: it fails the waits for draining, and is kept unless the sink has
been released. -/
def onError (s : StreamSink) (text : String) : Effect :=
  { answer := .heard (!s.released || !s.draining.isEmpty)
    settled := settle s.draining (some text)
    sink := { (if s.released then s else s.record text) with draining := [] } }

/-- After a close no report may come, so nothing waits for one. -/
def onClose (s : StreamSink) : Effect :=
  if s.released then { answer := .heard false, sink := s }
  else { s with closed := true }.wake (.heard true)

def onDrain (s : StreamSink) : Effect :=
  if s.draining.isEmpty then { answer := .heard false, sink := s }
  else
    { answer := .heard true
      settled := settle s.draining none
      sink := { s with draining := [], needsDrain := false } }

def ready (s : StreamSink) : Effect :=
  let n := s.tickets + 1
  let s := { s with tickets := n }
  match s.failure with
  | some e => { answer := .ticket n, settled := [⟨n, some e⟩], sink := s }
  | none =>
      if s.needsDrain then
        { answer := .ticket n, sink := { s with draining := s.draining ++ [n] } }
      else { answer := .ticket n, settled := [⟨n, none⟩], sink := s }

def flush (s : StreamSink) : Effect :=
  let n := s.tickets + 1
  let s := { s with tickets := n }
  if 0 < s.pending ∧ ¬ s.closed then
    { answer := .ticket n, sink := { s with flushing := s.flushing ++ [n] } }
  else { answer := .ticket n, settled := [⟨n, none⟩], sink := s }

def assertHealthy (s : StreamSink) : Effect :=
  { answer := s.failure.elim .done .failed, sink := s }

def release (s : StreamSink) : Effect := { sink := { s with released := true } }

def step (s : StreamSink) : Event → Effect
  | .write accepted => s.write accepted
  | .reported error => s.reported error
  | .error text => s.onError text
  | .close => s.onClose
  | .drain => s.onDrain
  | .ready => s.ready
  | .flush => s.flush
  | .assertHealthy => s.assertHealthy
  | .release => s.release

/-- Hands a text to a stream, which answers whether it takes more, unless the sink has failed. -/
def send {σ : Type} (take : σ → String → Bool × σ) (s : StreamSink) (stream : σ) (text : String) :
    Effect × σ :=
  let check := s.step .assertHealthy
  match check.answer with
  | .failed _ => (check, stream)
  | _ =>
      let (accepted, stream) := take stream text
      (s.step (.write accepted), stream)

/-- Listeners for errors and for the close that the sink itself holds on its stream. -/
def listeners (s : StreamSink) : Nat := if s.released then 0 else 2

end StreamSink
end LiveProgress
