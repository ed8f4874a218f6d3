import LiveProgress.Output.Recorder

/-!
# Unreliable destinations

A destination on which any writes may fail, each with a failure of its own. It numbers the writes
from one, those that fail among them, and keeps the texts of the others. A recorder is one of
these.
-/

namespace LiveProgress

structure UnreliableSink where
  /-- The failures of the writes that fail, by their numbers. -/
  failing : Nat → Option Failure
  attempts : Nat := 0
  written : List String := []

namespace UnreliableSink

def write (u : UnreliableSink) (text : String) : Option Failure × UnreliableSink :=
  let attempts := u.attempts + 1
  match u.failing attempts with
  | some f => (some f, { u with attempts })
  | none => (none, { u with attempts, written := u.written ++ [text] })

instance : Destination UnreliableSink := ⟨write, fun u => (none, u)⟩

/-- None of the next writes fails. -/
def Takes (u : UnreliableSink) (count : Nat) : Prop :=
  ∀ j, j < count → u.failing (u.attempts + j + 1) = none

/-- Of the writes to come, the first that fails is the one behind a number of others. -/
structure FailsBehind (u : UnreliableSink) (count : Nat) (f : Failure) : Prop where
  takes : u.Takes count
  fails : u.failing (u.attempts + count + 1) = some f

end UnreliableSink

/-- The writes that a recorder refuses fail. -/
def Recorder.unreliable (r : Recorder) : UnreliableSink where
  failing n := if n ∈ r.refused then some (refusal n) else none
  attempts := r.attempts
  written := r.written

end LiveProgress
