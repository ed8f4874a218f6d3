import LiveProgress.Failure

/-!
# Validation of messages

A JSON value is a message if it is an object whose known fields are missing, null or
of their type; other fields are ignored. The first field of the wrong type, in a fixed
order, is the defect that is told.
-/

namespace LiveProgress

/-- The name of a value's type in error texts. -/
def Json.typeName : Json → String
  | .null => "null"
  | .bool _ => "boolean"
  | .number _ => "number"
  | .string _ => "string"
  | .array _ => "array"
  | .object _ => "object"

namespace Message

/-- The members of an object by name. -/
abbrev Fields := List (Text × Json)

/-- Reads an optional field. A missing field and null are both absent; any other value
that `read` does not take is a defect. -/
def readField {α : Type} (expected : FieldType) (read : Json → Option α)
    (found : Json → String) (fields : Fields) (name path : String) :
    Except Defect (Option α) :=
  match Members.get? (Text.ofString name) fields with
  | none | some .null => .ok none
  | some v =>
      match read v with
      | some a => .ok (some a)
      | none => .error (.wrongType path expected (found v))

def readString : Fields → String → String → Except Defect (Option Text) :=
  readField .string (fun | .string s => some s | _ => none) Json.typeName

/-- A number that is no integer is named by its text. -/
def readInteger : Fields → String → String → Except Defect (Option Number) :=
  readField .integer (fun | .number x => if x.isInteger then some x else none | _ => none)
    (fun | .number x => x.text | v => v.typeName)

def readBoolean : Fields → String → String → Except Defect (Option Bool) :=
  readField .boolean (fun | .bool b => some b | _ => none) Json.typeName

def readObject : Fields → String → String → Except Defect (Option Fields) :=
  readField .object (fun | .object fields => some fields | _ => none) Json.typeName

def readProgress (fields : Fields) : Except Defect Progress := do
  let current ← readInteger fields "current" "progressDetail.current"
  let total ← readInteger fields "total" "progressDetail.total"
  let start ← readInteger fields "start" "progressDetail.start"
  let hideCounts ← readBoolean fields "hidecounts" "progressDetail.hidecounts"
  let units ← readString fields "units" "progressDetail.units"
  pure { current, total, start, hideCounts, units }

def readError (fields : Fields) : Except Defect ReportedError := do
  let code ← readInteger fields "code" "errorDetail.code"
  let message ← readString fields "message" "errorDetail.message"
  pure { code, message }

/-- Reads the fields of a nested object, if there is one. -/
def readNested {α : Type} (read : Fields → Except Defect α) :
    Option Fields → Except Defect (Option α)
  | none => .ok none
  | some fields => (read fields).map some

/-- The payload: any value but null. -/
def readAux (fields : Fields) : Option Json :=
  match Members.get? (Text.ofString "aux") fields with
  | some .null => none
  | v => v

/-- The message that a JSON value holds. That both nested fields are objects is
checked first, the contents of each in the place of its field. -/
def ofJson : Json → Except Defect Message
  | .object fields => do
      let progressFields ← readObject fields "progressDetail" "progressDetail"
      let errorFields ← readObject fields "errorDetail" "errorDetail"
      let stream ← readString fields "stream" "stream"
      let status ← readString fields "status" "status"
      let progressDetail ← readNested readProgress progressFields
      let progress ← readString fields "progress" "progress"
      let id ← readString fields "id" "id"
      let origin ← readString fields "from" "from"
      let time ← readInteger fields "time" "time"
      let timeNano ← readInteger fields "timeNano" "timeNano"
      let errorDetail ← readNested readError errorFields
      let error ← readString fields "error" "error"
      pure { stream, status, progressDetail, progress, id, origin, time, timeNano,
             errorDetail, error, aux := readAux fields }
  | v => .error (.notObject v.typeName)

end Message
end LiveProgress
