import LiveProgress.Json.Splitter

/-!
# Calls of a splitter

A splitter is given pieces of text, and is told at any time that the text ends, which does not keep
more of it from coming. Each call is answered by the values that it completes, or by the offset of
a value that does not end.
-/

namespace LiveProgress.Json

/-- The first unit behind a value. -/
def RawValue.stop (v : RawValue) : Nat := v.offset + v.text.length

namespace Splitter

inductive Call where
  | push (text : Text)
  | finish
deriving DecidableEq, Repr

abbrev Answer := Except Nat (List RawValue)

def call (s : Splitter) : Call → Answer × Splitter
  | .push text =>
      let (values, s) := s.push text
      (.ok values, s)
  | .finish =>
      match s.finish with
      | .ok (last, s) => (.ok last.toList, s)
      | .error offset => (.error offset, s)

/-- The splitter behind calls. -/
def after (s : Splitter) : List Call → Splitter
  | [] => s
  | c :: rest => (s.call c).2.after rest

/-- The answers to calls. -/
def answers (s : Splitter) : List Call → List Answer
  | [] => []
  | c :: rest => (s.call c).1 :: (s.call c).2.answers rest

/-- The values that an answer returns. -/
def Answer.values : Answer → List RawValue
  | .ok values => values
  | .error _ => []

/-- The text that a call brings. -/
def Call.text : Call → Text
  | .push text => text
  | .finish => []

end Splitter
end LiveProgress.Json
