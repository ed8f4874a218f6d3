import LiveProgress.Message.Validation

/-!
# Known fields

The fields that a message may have, each told by its type and by the path to it, in the order in
which they are checked. What a value holds at a path, what of it is known, and the value that holds
a message.
-/

namespace LiveProgress

namespace Json

/-- What stands at a path of names: nothing if the path leads nowhere, or to null. -/
def at? : List String → Json → Option Json
  | [], .null => none
  | [], v => some v
  | name :: path, .object members => (Members.get? (Text.ofString name) members).bind (at? path)
  | _ :: _, _ => none

/-- An object with the fields that are there. -/
def ofFields (fields : List (String × Option Json)) : Json :=
  .object (fields.filterMap fun (name, value) => value.map (Text.ofString name, ·))

/-- Leaves out the members of other names. -/
def only (names : List String) : Json → Json
  | .object members => .object (members.filter fun m => (names.map Text.ofString).contains m.1)
  | v => v

end Json

namespace FieldType

/-- Whether a value is of the type. -/
def admits : FieldType → Json → Bool
  | .string, .string _ => true
  | .integer, .number x => x.isInteger
  | .boolean, .bool _ => true
  | .object, .object _ => true
  | _, _ => false

/-- How a value that is not of the type is named. -/
def foundName : FieldType → Json → String
  | .integer, .number x => x.text
  | _, v => v.typeName

end FieldType

namespace Message

structure Field where
  path : List String
  type : FieldType
deriving DecidableEq, Repr

namespace Field

/-- The path as it is told. -/
def text (f : Field) : String := ".".intercalate f.path

/-- A field is sound if it is missing, null or of its type. -/
def IsSound (f : Field) (v : Json) : Prop := ∀ found, v.at? f.path = some found → f.type.admits found

/-- The defect of a value that has something else in the place of the field. -/
def defect (f : Field) (found : Json) : Defect := .wrongType f.text f.type (f.type.foundName found)

end Field

def progressFields : List Field := [
  ⟨["progressDetail", "current"], .integer⟩,
  ⟨["progressDetail", "total"], .integer⟩,
  ⟨["progressDetail", "start"], .integer⟩,
  ⟨["progressDetail", "hidecounts"], .boolean⟩,
  ⟨["progressDetail", "units"], .string⟩]

def errorFields : List Field := [
  ⟨["errorDetail", "code"], .integer⟩,
  ⟨["errorDetail", "message"], .string⟩]

def knownFields : List Field :=
  ⟨["progressDetail"], .object⟩ :: ⟨["errorDetail"], .object⟩ ::
  ⟨["stream"], .string⟩ :: ⟨["status"], .string⟩ :: (progressFields ++
  ⟨["progress"], .string⟩ :: ⟨["id"], .string⟩ :: ⟨["from"], .string⟩ ::
  ⟨["time"], .integer⟩ :: ⟨["timeNano"], .integer⟩ :: (errorFields ++
  [⟨["error"], .string⟩]))

/-- The names that are known below a path; the payload is known, though of no type. -/
def namesBelow (path : List String) : List String :=
  (["aux"] :: knownFields.map Field.path).filterMap fun known =>
    if known.dropLast = path then known.getLast? else none

/-- What of a member is known. The payload is known as a whole. -/
def prunedMember (name : Text) (v : Json) : Json :=
  if name = Text.ofString "progressDetail" then v.only (namesBelow ["progressDetail"])
  else if name = Text.ofString "errorDetail" then v.only (namesBelow ["errorDetail"])
  else v

/-- Leaves out the unknown members of a value and of its nested objects. -/
def pruned : Json → Json
  | .object members => .object <|
      (members.filter fun m => ((namesBelow []).map Text.ofString).contains m.1).map fun m =>
        (m.1, prunedMember m.1 m.2)
  | v => v

/-- The defect of a value: that it is no object, or else what stands in the place of the first
field that is not sound. -/
inductive HasDefect (v : Json) : Defect → Prop
  | notObject : (∀ members, v ≠ .object members) → HasDefect v (.notObject v.typeName)
  | field {before behind : List Field} {f : Field} {found : Json} :
      knownFields = before ++ f :: behind → (∀ earlier ∈ before, earlier.IsSound v) →
      v.at? f.path = some found → f.type.admits found = false → HasDefect v (f.defect found)

/-- A message whose fields are those of a value: a field is absent exactly if the value holds
nothing in its place. -/
structure IsReadFrom (m : Message) (v : Json) : Prop where
  stream : m.stream.map .string = v.at? ["stream"]
  status : m.status.map .string = v.at? ["status"]
  progressDetail : m.progressDetail.isSome = (v.at? ["progressDetail"]).isSome
  current : (m.progressDetail.bind (·.current)).map .number = v.at? ["progressDetail", "current"]
  total : (m.progressDetail.bind (·.total)).map .number = v.at? ["progressDetail", "total"]
  start : (m.progressDetail.bind (·.start)).map .number = v.at? ["progressDetail", "start"]
  hideCounts : (m.progressDetail.bind (·.hideCounts)).map .bool =
    v.at? ["progressDetail", "hidecounts"]
  units : (m.progressDetail.bind (·.units)).map .string = v.at? ["progressDetail", "units"]
  progress : m.progress.map .string = v.at? ["progress"]
  id : m.id.map .string = v.at? ["id"]
  origin : m.origin.map .string = v.at? ["from"]
  time : m.time.map .number = v.at? ["time"]
  timeNano : m.timeNano.map .number = v.at? ["timeNano"]
  errorDetail : m.errorDetail.isSome = (v.at? ["errorDetail"]).isSome
  code : (m.errorDetail.bind (·.code)).map .number = v.at? ["errorDetail", "code"]
  message : (m.errorDetail.bind (·.message)).map .string = v.at? ["errorDetail", "message"]
  error : m.error.map .string = v.at? ["error"]
  aux : m.aux = v.at? ["aux"]

end Message

/-! ### Messages as values -/

def Progress.fields (p : Progress) : List (String × Option Json) := [
  ("current", p.current.map .number),
  ("total", p.total.map .number),
  ("start", p.start.map .number),
  ("hidecounts", p.hideCounts.map .bool),
  ("units", p.units.map .string)]

def Progress.toJson (p : Progress) : Json := .ofFields p.fields

def ReportedError.fields (e : ReportedError) : List (String × Option Json) := [
  ("code", e.code.map .number),
  ("message", e.message.map .string)]

def ReportedError.toJson (e : ReportedError) : Json := .ofFields e.fields

def Message.fields (m : Message) : List (String × Option Json) := [
  ("stream", m.stream.map .string),
  ("status", m.status.map .string),
  ("progressDetail", m.progressDetail.map Progress.toJson),
  ("progress", m.progress.map .string),
  ("id", m.id.map .string),
  ("from", m.origin.map .string),
  ("time", m.time.map .number),
  ("timeNano", m.timeNano.map .number),
  ("errorDetail", m.errorDetail.map ReportedError.toJson),
  ("error", m.error.map .string),
  ("aux", m.aux)]

def Message.toJson (m : Message) : Json := .ofFields m.fields

end LiveProgress
