import LiveProgress.Json.Reader
import LiveProgress.Json.Splitter
import LiveProgress.Message.Validation
import LiveProgress.Text.Utf8

/-!
# Decoding a stream of messages

The input comes in chunks of text or bytes. Its text is split into values, each value
is read and validated, and the first failure ends the stream; the messages in front
of it are still delivered.
-/

namespace LiveProgress

inductive Chunk where
  | text (s : Text)
  | bytes (b : List UInt8)
  /-- The input fails here. -/
  | broken (reason : String)
deriving DecidableEq, Repr

/-- The message that the text of one value holds, with the offset that is told if it is
not JSON. -/
def Message.ofText (text : Text) (offset : Number) : Except Failure Message :=
  match Json.read text with
  | .error fault => .error (.malformed offset (fault.message text))
  | .ok v => (Message.ofJson v).mapError .invalid

def Json.RawValue.message (raw : Json.RawValue) : Except Failure Message :=
  Message.ofText raw.text (.ofNat raw.offset)

structure Decoder where
  bytes : Utf8.Decoder := {}
  splitter : Json.Splitter := {}
deriving DecidableEq, Repr

namespace Decoder

/-- The values that a chunk completes. -/
def push (d : Decoder) : Chunk → Except Failure (List Json.RawValue × Decoder)
  | .text s =>
      let (values, splitter) := d.splitter.push s
      .ok (values, { d with splitter })
  | .bytes b =>
      let (chars, bytes) := d.bytes.push b
      let (values, splitter) := d.splitter.push (Text.units chars)
      .ok (values, ⟨bytes, splitter⟩)
  | .broken reason => .error (.transfer reason)

/-- The values that the end of the input completes, and the failure if it ends inside
a value. -/
def finish (d : Decoder) : List Json.RawValue × Option Failure :=
  let (values, splitter) := d.splitter.push (Text.units d.bytes.finish)
  match splitter.finish with
  | .ok (last, _) => (values ++ last.toList, none)
  | .error offset => (values, some (.truncated (.ofNat offset)))

/-- All values of the input, and how it ends. -/
def values (d : Decoder) : List Chunk → List Json.RawValue × Option Failure
  | [] => d.finish
  | c :: rest =>
      match d.push c with
      | .error f => ([], some f)
      | .ok (now, d) =>
          let (later, ending) := d.values rest
          (now ++ later, ending)

end Decoder

namespace Message

/-- The messages that values hold, up to the first that holds none; if all do, the
stream ends as the values do. -/
def ofValues (ending : Option Failure) : List Json.RawValue → List Message × Option Failure
  | [] => ([], ending)
  | raw :: rest =>
      match raw.message with
      | .error f => ([], some f)
      | .ok m =>
          let (later, ending) := ofValues ending rest
          (m :: later, ending)

/-- The messages of an input and the failure that ends it, if one does. -/
def ofChunks (chunks : List Chunk) : List Message × Option Failure :=
  let (values, ending) := Decoder.values {} chunks
  ofValues ending values

end Message
end LiveProgress
