import LiveProgress.Json.Extent
import LiveProgress.Json.Grammar
import LiveProgress.Message.Decoder

/-!
# Sequences of messages

The texts of a stream, told without decoding them: objects that hold a message each, with
white space around them, and behind these what holds none.
-/

namespace LiveProgress

/-- The text that chunks bring behind those that a decoder has read, unless the input fails. -/
def Utf8.Decoder.text? (d : Utf8.Decoder) : List Chunk → Option Text
  | [] => some (Text.units d.finish)
  | .text s :: rest => (d.text? rest).map (s ++ ·)
  | .bytes b :: rest =>
      let (chars, d) := d.push b
      (d.text? rest).map (Text.units chars ++ ·)
  | .broken _ :: _ => none

/-- The text of an object that holds the message. -/
structure Message.Written (m : Message) (x : Text) : Prop where
  isObject : ∃ rest, Json.Grammar.Mark '{' x rest
  isValue : Json.Grammar.Value x []
  holds : ∃ v, Json.read x = .ok v ∧ Message.ofJson v = .ok m

/-- The messages at the front of a text, and what follows them. -/
inductive MessageSequence : Text → List Message → Text → Prop
  | done {s rest : Text} : Json.Grammar.Blanks s rest → MessageSequence s [] rest
  | cons {s x t rest : Text} {m : Message} {ms : List Message} :
      Json.Grammar.Blanks s (x ++ t) → m.Written x → MessageSequence t ms rest →
      MessageSequence s (m :: ms) rest

/-- The value at the front of a text is JSON. -/
def Json.StartsText (s : Text) : Prop :=
  ∃ x rest, s = x ++ rest ∧ Json.Extent s rest ∧ Json.Grammar.Document x

/-- How the value at the front of a text, which holds no message, is told if it stands at an
offset: it does not end, it is not JSON, or it is something else than a message. -/
inductive Message.Offence (offset : Nat) : Text → Failure → Prop
  | unfinished {u : CodeUnit} {s : Text} : Json.isBlank u = false →
      (∀ rest, ¬ Json.Extent (u :: s) rest) →
      Message.Offence offset (u :: s) (.truncated (.ofNat offset))
  | malformed {x rest : Text} {fault : Json.Fault} : Json.Extent (x ++ rest) rest →
      ¬ Json.Grammar.Document x → Json.read x = .error fault →
      Message.Offence offset (x ++ rest) (.malformed (.ofNat offset) (fault.message x))
  | invalid {x rest : Text} {v : Json} {defect : Defect} : Json.Extent (x ++ rest) rest →
      Json.Grammar.Document x → Json.read x = .ok v → Message.ofJson v = .error defect →
      Message.Offence offset (x ++ rest) (.invalid defect)

end LiveProgress
