import LiveProgress.Json.Calls
import LiveProgress.Json.Extent
import LiveProgress.Json.Grammar
import Mathlib.Data.List.Chain

/-!
# When values are due

JSON texts joined by white space, and the call that each of them is due with if the whole is pushed
in chunks: an object, an array or a string with the chunk that brings its last unit, a number or a
name with the one that brings the unit behind it, since only that tells its end.
-/

namespace LiveProgress.Json

/-- Whether a value is a number or a name: nothing in front of it tells where it ends. -/
def isScalar (text : Text) : Bool := text.head?.any fun u => !isOpening u && !isQuote u

/-- The position of the unit that completes a value. -/
def RawValue.due (v : RawValue) : Nat := if isScalar v.text then v.stop else v.stop - 1

/-- A JSON text and the white space behind it. -/
structure Piece where
  text : Text
  gap : Text
  isValue : Grammar.Value text []
  isBlank_of_mem : ∀ u ∈ gap, isBlank u = true

namespace Piece

/-- Two numbers or names have white space between them. -/
def Apart (p q : Piece) : Prop :=
  isScalar p.text = true → isScalar q.text = true → p.gap ≠ []

def join (pieces : List Piece) : Text := pieces.flatMap fun p => p.text ++ p.gap

/-- The values of pieces that stand one behind the other, the first at an offset. -/
def valuesFrom (offset : Nat) : List Piece → List RawValue
  | [] => []
  | p :: pieces => ⟨p.text, offset⟩ :: valuesFrom (offset + p.text.length + p.gap.length) pieces

end Piece

/-- White space, and JSON texts joined by white space. -/
structure Layout where
  lead : Text
  pieces : List Piece
  isBlank_of_mem : ∀ u ∈ lead, isBlank u = true
  apart : pieces.IsChain Piece.Apart

namespace Layout

def text (l : Layout) : Text := l.lead ++ Piece.join l.pieces

def values (l : Layout) : List RawValue := Piece.valuesFrom l.lead.length l.pieces

end Layout

namespace Splitter

/-- The values that are due from a position on, up to another one. -/
def dueWithin (values : List RawValue) (start stop : Nat) : List RawValue :=
  values.filter fun v => start ≤ v.due ∧ v.due < stop

/-- The answers that bring each value when it is due, if a text is pushed in chunks from a position
on and then ends. -/
def promptAnswers (values : List RawValue) (position : Nat) : List Text → List Answer
  | [] => [.ok (values.filter fun v => position ≤ v.due)]
  | chunk :: chunks =>
      .ok (dueWithin values position (position + chunk.length)) ::
        promptAnswers values (position + chunk.length) chunks

end Splitter
end LiveProgress.Json
