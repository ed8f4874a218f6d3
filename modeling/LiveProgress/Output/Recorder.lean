import LiveProgress.Output.Destination

/-!
# Recorders

A destination that keeps what is written to it. It counts the attempts from one and
refuses those whose numbers it is given.
-/

namespace LiveProgress

structure Recorder where
  refused : List Nat := []
  attempts : Nat := 0
  written : List String := []
deriving DecidableEq, Repr

namespace Recorder

def refusal (attempt : Nat) : Failure :=
  .transfer ("sink failure at write " ++ toString attempt)

def write (r : Recorder) (text : String) : Option Failure × Recorder :=
  let attempts := r.attempts + 1
  if attempts ∈ r.refused then (some (refusal attempts), { r with attempts })
  else (none, { r with attempts, written := r.written ++ [text] })

instance : Destination Recorder := ⟨write, fun r => (none, r)⟩

end Recorder
end LiveProgress
