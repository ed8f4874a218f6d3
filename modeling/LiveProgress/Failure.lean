import LiveProgress.Json.Printer
import LiveProgress.Message.Basic

/-!
# Failures

The ways in which the display of a stream ends early, each with its cause, and the
texts that describe them. A failure of the stream's content has a code and details;
a failure of reading or writing has only the text it came with, and one of making a
text only that of the engine.
-/

namespace LiveProgress

inductive FieldType where
  | string | integer | boolean | object
deriving DecidableEq, Repr

def FieldType.name : FieldType → String
  | .string => "string"
  | .integer => "integer"
  | .boolean => "boolean"
  | .object => "object"

/-- Why a value is no message: it is not an object, or a field has another type than
it should. `found` names what is there instead. -/
inductive Defect where
  | notObject (found : String)
  | wrongType (field : String) (expected : FieldType) (found : String)
deriving DecidableEq, Repr

namespace Defect

/-- The path of the offending field, and `$` for the whole value. -/
def field : Defect → String
  | .notObject _ => "$"
  | .wrongType field .. => field

def message : Defect → String
  | .notObject found => "Invalid message: expected object, got " ++ found
  | .wrongType field expected found =>
      "Invalid field " ++ field ++ ": expected " ++ expected.name ++ ", got " ++ found

end Defect

inductive Failure where
  /-- The value that begins at `offset` is not JSON. -/
  | malformed (offset : Number) (reason : String)
  /-- The input ends inside the value that begins at `offset`. -/
  | truncated (offset : Number)
  | invalid (defect : Defect)
  | authenticationRequired
  | operationFailed (code : Option Number) (message : String)
  /-- Reading the input or writing the output failed. -/
  | transfer (text : String)
  /-- A text would have been longer than a text can be. -/
  | oversized
deriving DecidableEq

/-- What is told about a failure of the stream's content. -/
structure Report where
  code : String
  message : String
  details : List (Text × Json) := []
  cause : Option String := none

namespace Report

/-- Failures of the transport: the text is not JSON or not a message. -/
def isDecodeError (r : Report) : Bool := r.code == "DECODE_FAILED" || r.code == "INVALID_MESSAGE"

/-- Failures that a message reports. -/
def isReportedFailure (r : Report) : Bool :=
  r.code == "AUTHENTICATION_REQUIRED" || r.code == "OPERATION_FAILED"

/-- Code and message, then a line for each detail and one for the cause. -/
def detailed (r : Report) : String :=
  "\n".intercalate <|
    ("[" ++ r.code ++ "] " ++ r.message) ::
      ((Members.listed r.details).map fun d => "  " ++ d.1.string ++ ": " ++ d.2.text) ++
      (r.cause.map ("  Cause: " ++ ·)).toList

end Report

namespace Failure

/-- The failure that a reported error means. One code stands for missing credentials,
whatever its message. -/
def ofReported (e : ReportedError) : Failure :=
  if e.code = some 401 then .authenticationRequired
  else .operationFailed e.code (e.message.getD []).string

def detail (name : String) (value : Json) : List (Text × Json) := [(Text.ofString name, value)]

def report? : Failure → Option Report
  | .malformed offset reason => some {
      code := "DECODE_FAILED"
      message := "invalid JSON at offset " ++ offset.text ++ ": " ++ reason
      details := detail "offset" (.number offset)
      cause := some reason }
  | .truncated offset => some {
      code := "DECODE_FAILED"
      message := "unexpected end of JSON input"
      details := detail "offset" (.number offset) }
  | .invalid defect => some {
      code := "INVALID_MESSAGE"
      message := defect.message
      details := detail "field" (.ofString defect.field) }
  | .authenticationRequired => some {
      code := "AUTHENTICATION_REQUIRED"
      message := "authentication is required" }
  | .operationFailed code message => some {
      code := "OPERATION_FAILED"
      message
      details := code.elim [] fun c => detail "code" (.number c) }
  | .transfer _ | .oversized => none

def message (f : Failure) : String :=
  match f with
  | .transfer text => text
  | .oversized => "Invalid string length"
  | f => (f.report?.map (·.message)).getD ""

end Failure
end LiveProgress
