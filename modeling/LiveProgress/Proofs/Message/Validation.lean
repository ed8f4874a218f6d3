import LiveProgress.Message.Fields
import LiveProgress.Proofs.Text.Units
import Mathlib.Data.List.Basic

/-!
# Validation is exact

Reading the known fields one after the other comes to the message that holds them, unless one of
them has a defect, and then to the defect of the first that has one. So a value is a message exactly
if it is an object of sound fields, whatever else it holds; and a message that was read is read
again from the value that holds its fields.
-/

namespace LiveProgress

/-! ### Looking up -/

namespace Members

variable {α : Type} {name : Text}

/-- The members of some names are found among those alone. -/
theorem get?_filter_contains {name : String} {names : List String} (h : name ∈ names)
    (members : List (Text × α)) :
    get? (Text.ofString name) (members.filter fun m => (names.map Text.ofString).contains m.1) =
      get? (Text.ofString name) members := by
  have hkept : (names.map Text.ofString).contains (Text.ofString name) = true :=
    List.contains_iff_mem.mpr (List.mem_map_of_mem h)
  have hboth (m : Text × α) : ((names.map Text.ofString).contains m.1 &&
      m.1 == Text.ofString name) = (m.1 == Text.ofString name) := by
    cases hm : m.1 == Text.ofString name with
    | false => rw [Bool.and_false]
    | true => rw [eq_of_beq hm, hkept]; rfl
  simp only [get?, ← List.filter_reverse, List.find?_filter, Bool.decide_and,
    Bool.decide_eq_true, hboth]

theorem get?_map (f : Text → α → α) (members : List (Text × α)) :
    get? name (members.map fun m => (m.1, f m.1 m.2)) = (get? name members).map (f name) := by
  simp only [get?, ← List.map_reverse, List.find?_map, Function.comp_def, Option.map_map]
  cases hfound : members.reverse.find? (·.1 == name) with
  | none => rfl
  | some m =>
    have hm := List.find?_some hfound
    simp only [Option.map_some, eq_of_beq hm]

theorem get?_cons_of_ne {m : Text × α} {members : List (Text × α)} (h : m.1 ≠ name) :
    get? name (m :: members) = get? name members := by
  have hm : (m.1 == name) = false := beq_eq_false_iff_ne.mpr h
  simp only [get?, List.reverse_cons, List.find?_append, List.find?_cons, hm, List.find?_nil,
    Option.or_none]

theorem get?_cons_self {value : α} {members : List (Text × α)}
    (h : ∀ m ∈ members, m.1 ≠ name) : get? name ((name, value) :: members) = some value := by
  have hnone : members.reverse.find? (·.1 == name) = none := by
    rw [List.find?_eq_none]
    intro m hm heq
    exact h m (List.mem_reverse.mp hm) (eq_of_beq heq)
  simp only [get?, List.reverse_cons, List.find?_append, hnone, List.find?_cons, beq_self_eq_true,
    Option.none_or, Option.map_some]

theorem get?_eq_none {members : List (Text × α)} (h : ∀ m ∈ members, m.1 ≠ name) :
    get? name members = none := by
  induction members with
  | nil => rfl
  | cons m members ih =>
    rw [get?_cons_of_ne (h m List.mem_cons_self)]
    exact ih fun n hn => h n (List.mem_cons_of_mem _ hn)

end Members

namespace Json

variable {v : Json} {name : String} {path : List String}

theorem at?_object (name : String) (path : List String) (members : List (Text × Json)) :
    (Json.object members).at? (name :: path) =
      (Members.get? (Text.ofString name) members).bind (at? path) := rfl

theorem at?_nil_of_ne_null (h : v ≠ .null) : v.at? [] = some v := by
  cases v with
  | null => contradiction
  | _ => rfl

theorem at?_ne_null (path : List String) (v : Json) : v.at? path ≠ some .null := by
  induction path generalizing v with
  | nil => cases v <;> nofun
  | cons name path ih =>
    cases v with
    | object members =>
      intro hnull
      obtain ⟨w, -, hw⟩ := Option.bind_eq_some_iff.mp hnull
      exact ih w hw
    | _ => nofun

theorem at?_of_not_object (h : ∀ members, v ≠ .object members) (name : String)
    (path : List String) : v.at? (name :: path) = none := by
  cases v with
  | object members => exact absurd rfl (h members)
  | _ => rfl

/-- Below an object, a path goes on from the object. -/
theorem at?_cons_of_object {members : List (Text × Json)} (h : v.at? [name] = some (.object members))
    (path : List String) : v.at? (name :: path) = (Json.object members).at? path := by
  cases v with
  | object outer =>
    rw [at?_object] at h ⊢
    cases hget : Members.get? (Text.ofString name) outer with
    | none => rw [hget] at h; cases h
    | some inner =>
      rw [hget] at h
      cases inner with
      | object =>
        rw [Option.some.inj (h : some _ = some _)]
        rfl
      | null => cases h
      | _ => cases h
  | _ => cases h

/-- Where there is no object, there is nothing below. -/
theorem at?_cons_of_not_object (h : ∀ members, v.at? [name] ≠ some (.object members))
    (inner : String) : v.at? [name, inner] = none := by
  cases v with
  | object outer =>
    rw [at?_object] at h ⊢
    cases hget : Members.get? (Text.ofString name) outer with
    | none => rfl
    | some w =>
      rw [hget] at h
      cases w with
      | object members => exact absurd rfl (h members)
      | _ => rfl
  | _ => rfl

theorem fst_ne_of_mem_fields {fields : List (String × Option Json)} (h : name ∉ fields.map (·.1)) :
    ∀ m ∈ fields.filterMap fun field => field.2.map (Text.ofString field.1, ·),
      m.1 ≠ Text.ofString name := by
  intro m hm heq
  obtain ⟨field, hfield, hvalue⟩ := List.mem_filterMap.mp hm
  obtain ⟨value, -, rfl⟩ := Option.map_eq_some_iff.mp hvalue
  exact h (List.mem_map.mpr ⟨field, hfield, Text.ofString_inj.mp heq⟩)

/-- An object holds the fields that it is made of, if no name comes twice. -/
theorem at?_ofFields {fields : List (String × Option Json)} {value : Option Json}
    (hnodup : (fields.map (·.1)).Nodup) (hmem : (name, value) ∈ fields) (path : List String) :
    (ofFields fields).at? (name :: path) = value.bind (at? path) := by
  have hget : Members.get? (Text.ofString name)
      (fields.filterMap fun field => field.2.map (Text.ofString field.1, ·)) = value := by
    induction fields with
    | nil => cases hmem
    | cons field fields ih =>
      have hhead : field.1 ∉ fields.map (·.1) := (List.nodup_cons.mp hnodup).1
      have htail : (fields.map (·.1)).Nodup := (List.nodup_cons.mp hnodup).2
      cases hmem with
      | head =>
        have hfree := fst_ne_of_mem_fields hhead
        cases value with
        | none => exact Members.get?_eq_none hfree
        | some v => exact Members.get?_cons_self hfree
      | tail _ hmem =>
        have hne : field.1 ≠ name := by
          intro heq
          exact hhead (heq ▸ List.mem_map.mpr ⟨_, hmem, rfl⟩)
        rw [← ih htail hmem, List.filterMap_cons]
        cases field.2 with
        | none => rfl
        | some v => exact Members.get?_cons_of_ne (mt Text.ofString_inj.mp hne)
  rw [ofFields, at?_object, hget]

/-- A field that is written is found again. -/
theorem at?_ofFields_map {α : Type} {wrap : α → Json} {fields : List (String × Option Json)}
    {o : Option α} (hwrap : ∀ a, wrap a ≠ .null) (hnodup : (fields.map (·.1)).Nodup)
    (hmem : (name, o.map wrap) ∈ fields) : (ofFields fields).at? [name] = o.map wrap := by
  rw [at?_ofFields hnodup hmem]
  cases o with
  | none => rfl
  | some a => exact at?_nil_of_ne_null (hwrap a)

/-- What is left out of a value does not change whether it is null. -/
theorem at?_nil_only (names : List String) (v : Json) :
    (v.only names).at? [] = (v.at? []).map (only names) := by
  cases v <;> rfl

theorem at?_only {names : List String} (h : name ∈ names) (path : List String) (v : Json) :
    (v.only names).at? (name :: path) = v.at? (name :: path) := by
  cases v with
  | object members =>
    rw [only, at?_object, at?_object, Members.get?_filter_contains h]
  | _ => rfl

/-! ### Values by type -/

def string? : Json → Option Text
  | .string s => some s
  | _ => none

def integer? : Json → Option Number
  | .number x => if x.isInteger then some x else none
  | _ => none

def bool? : Json → Option Bool
  | .bool b => some b
  | _ => none

def members? : Json → Option (List (Text × Json))
  | .object members => some members
  | _ => none

theorem bind_members?_of_not_object {o : Option Json} (h : ∀ members, o ≠ some (.object members)) :
    o.bind members? = none := by
  cases o with
  | none => rfl
  | some v =>
    cases v with
    | object members => exact absurd rfl (h members)
    | _ => rfl

end Json

/-! ### Fields of a message -/

theorem Progress.fields_nodup (p : Progress) : (p.fields.map (·.1)).Nodup := by
  simp [Progress.fields]

theorem ReportedError.fields_nodup (e : ReportedError) : (e.fields.map (·.1)).Nodup := by
  simp [ReportedError.fields]

namespace Message
open Json

/-! ### The known fields -/

def nestedNames : List String := ["progressDetail", "errorDetail"]

/-- A known field is one of the message alone, a nested object, or one below a nested object. -/
theorem knownFields_cases : ∀ f ∈ knownFields,
    (∃ name ∈ namesBelow [], name ∉ nestedNames ∧ f.path = [name]) ∨
      (∃ name ∈ nestedNames, f.path = [name] ∧ f.type = .object) ∨
      ∃ name ∈ nestedNames, ∃ inner ∈ namesBelow [name], f.path = [name, inner] := by
  decide

theorem knownFields_path_eq_cons : ∀ f ∈ knownFields, ∃ name path, f.path = name :: path := by
  intro f hf
  rcases knownFields_cases f hf with ⟨name, -, -, hpath⟩ | ⟨name, -, hpath, -⟩ |
    ⟨name, -, inner, -, hpath⟩
  · exact ⟨_, _, hpath⟩
  · exact ⟨_, _, hpath⟩
  · exact ⟨_, _, hpath⟩

theorem nested_of_type_object :
    ∀ f ∈ knownFields, f.type = .object → ∃ name ∈ nestedNames, f.path = [name] := by
  decide

theorem nestedNames_known : ∀ name ∈ nestedNames, name ∈ namesBelow [] := by decide

/-! ### The first defect -/

/-- The defect of a value in the place of a field. -/
def Field.defect? (f : Field) (v : Json) : Option Defect :=
  (v.at? f.path).bind fun found => if f.type.admits found then none else some (f.defect found)

theorem Field.defect?_eq_none {f : Field} {v : Json} : f.defect? v = none ↔ f.IsSound v := by
  cases hfound : v.at? f.path with
  | none => simp [defect?, IsSound, hfound]
  | some found => simp [defect?, IsSound, hfound]

theorem Field.defect?_eq_some {f : Field} {v : Json} {d : Defect} :
    f.defect? v = some d ↔
      ∃ found, v.at? f.path = some found ∧ f.type.admits found = false ∧ d = f.defect found := by
  cases hfound : v.at? f.path with
  | none => simp [defect?, hfound]
  | some found =>
    have hswap : f.defect found = d ↔ d = f.defect found := eq_comm
    simp [defect?, hfound, hswap]

/-- What reading fields comes to: a result, or the first defect. -/
def outcome {α : Type} (v : Json) (fields : List Field) (a : α) : Except Defect α :=
  match fields.findSome? (·.defect? v) with
  | none => .ok a
  | some d => .error d

section Reading

variable {α β : Type} {v : Json} {f : Field} {inner : Fields} {name : String}

theorem outcome_bind {x : Except Defect α} {g : α → Except Defect β} {fields later : List Field}
    {a : α} {b : β} (hx : x = outcome v fields a) (hg : g a = outcome v later b) :
    x >>= g = outcome v (fields ++ later) b := by
  subst hx
  unfold outcome at hg ⊢
  rw [List.findSome?_append]
  cases fields.findSome? (·.defect? v) with
  | none => exact hg
  | some d => rfl

theorem outcome_cons {x : Except Defect α} {g : α → Except Defect β} {later : List Field}
    {a : α} {b : β} (hx : x = outcome v [f] a) (hg : g a = outcome v later b) :
    x >>= g = outcome v (f :: later) b := outcome_bind hx hg

theorem readField_eq_match {expected : FieldType} {read : Json → Option α}
    {found : Json → String} {path : String} :
    readField expected read found inner name path =
      match (Json.object inner).at? [name] with
      | none => .ok none
      | some x =>
          match read x with
          | some a => .ok (some a)
          | none => .error (.wrongType path expected (found x)) := by
  rw [readField, at?_object]
  cases Members.get? (Text.ofString name) inner with
  | none => rfl
  | some x => cases x <;> rfl

theorem readField_eq {expected : FieldType} {read : Json → Option α} {found : Json → String}
    {path : String} (hat : v.at? f.path = (Json.object inner).at? [name]) (hpath : path = f.text)
    (htype : expected = f.type) (hread : ∀ x, (read x).isSome = expected.admits x)
    (hfound : ∀ x, found x = expected.foundName x) :
    readField expected read found inner name path =
      outcome v [f] (((Json.object inner).at? [name]).bind read) := by
  subst hpath htype
  rw [readField_eq_match, outcome, List.findSome?_singleton, Field.defect?, hat]
  cases (Json.object inner).at? [name] with
  | none => rfl
  | some x =>
    simp only [Option.bind_some, ← hread, hfound]
    cases read x <;> rfl

theorem readString_eq {path : String} (hat : v.at? f.path = (Json.object inner).at? [name])
    (hpath : path = f.text) (htype : .string = f.type) :
    readString inner name path =
      outcome v [f] (((Json.object inner).at? [name]).bind string?) := by
  refine readField_eq hat hpath htype ?_ ?_
  · intro x
    cases x <;> rfl
  · intro x
    cases x <;> rfl

theorem readInteger_eq {path : String} (hat : v.at? f.path = (Json.object inner).at? [name])
    (hpath : path = f.text) (htype : .integer = f.type) :
    readInteger inner name path =
      outcome v [f] (((Json.object inner).at? [name]).bind integer?) := by
  refine readField_eq hat hpath htype ?_ ?_
  · intro x
    cases x with
    | number x =>
      change (if x.isInteger then some x else none).isSome = x.isInteger
      cases x.isInteger <;> rfl
    | _ => rfl
  · intro x
    cases x <;> rfl

theorem readBoolean_eq {path : String} (hat : v.at? f.path = (Json.object inner).at? [name])
    (hpath : path = f.text) (htype : .boolean = f.type) :
    readBoolean inner name path =
      outcome v [f] (((Json.object inner).at? [name]).bind bool?) := by
  refine readField_eq hat hpath htype ?_ ?_
  · intro x
    cases x <;> rfl
  · intro x
    cases x <;> rfl

theorem readObject_eq {path : String} (hat : v.at? f.path = (Json.object inner).at? [name])
    (hpath : path = f.text) (htype : .object = f.type) :
    readObject inner name path =
      outcome v [f] (((Json.object inner).at? [name]).bind members?) := by
  refine readField_eq hat hpath htype ?_ ?_
  · intro x
    cases x <;> rfl
  · intro x
    cases x <;> rfl

/-- The fields below a nested object are read if there is one, and have no defect if there is
none. -/
theorem readNested_eq {read : Fields → Except Defect α} {held : Fields → α} {below : List Field}
    (hbelow : ∀ f ∈ below, f.path.dropLast = [name])
    (hread : ∀ members, v.at? [name] = some (.object members) →
      read members = outcome v below (held members)) :
    readNested read ((v.at? [name]).bind members?) =
      outcome v below (((v.at? [name]).bind members?).map held) := by
  by_cases hobject : ∃ members, v.at? [name] = some (.object members)
  · obtain ⟨members, hmembers⟩ := hobject
    have hheld : ((v.at? [name]).bind members?) = some members := by rw [hmembers]; rfl
    rw [hheld, readNested, hread members hmembers]
    unfold outcome
    cases below.findSome? (·.defect? v) <;> rfl
  · have hnot : ∀ members, v.at? [name] ≠ some (.object members) := by
      intro members hmembers
      exact hobject ⟨members, hmembers⟩
    have hclean : below.findSome? (·.defect? v) = none := by
      rw [List.findSome?_eq_none_iff]
      intro f hf
      have hne : f.path ≠ [] := fun hnil => by simpa [hnil] using hbelow f hf
      have hpath := List.dropLast_concat_getLast hne
      rw [hbelow f hf] at hpath
      rw [Field.defect?, ← hpath]
      exact congrArg (Option.bind · _) (at?_cons_of_not_object hnot _)
    rw [bind_members?_of_not_object hnot, outcome, hclean]
    rfl

end Reading

/-! ### The message that a value holds -/

def progressHeld (members : Fields) : Progress where
  current := ((Json.object members).at? ["current"]).bind integer?
  total := ((Json.object members).at? ["total"]).bind integer?
  start := ((Json.object members).at? ["start"]).bind integer?
  hideCounts := ((Json.object members).at? ["hidecounts"]).bind bool?
  units := ((Json.object members).at? ["units"]).bind string?

def errorHeld (members : Fields) : ReportedError where
  code := ((Json.object members).at? ["code"]).bind integer?
  message := ((Json.object members).at? ["message"]).bind string?

/-- The message that a value holds, without the fields that are of another type. -/
def heldBy (v : Json) : Message where
  stream := (v.at? ["stream"]).bind string?
  status := (v.at? ["status"]).bind string?
  progressDetail := ((v.at? ["progressDetail"]).bind members?).map progressHeld
  progress := (v.at? ["progress"]).bind string?
  id := (v.at? ["id"]).bind string?
  origin := (v.at? ["from"]).bind string?
  time := (v.at? ["time"]).bind integer?
  timeNano := (v.at? ["timeNano"]).bind integer?
  errorDetail := ((v.at? ["errorDetail"]).bind members?).map errorHeld
  error := (v.at? ["error"]).bind string?
  aux := v.at? ["aux"]

section Reading

variable {v : Json} {members : Fields}

theorem readProgress_eq (h : v.at? ["progressDetail"] = some (.object members)) :
    readProgress members = outcome v progressFields (progressHeld members) := by
  refine outcome_cons (readInteger_eq (at?_cons_of_object h _) rfl rfl) ?_
  refine outcome_cons (readInteger_eq (at?_cons_of_object h _) rfl rfl) ?_
  refine outcome_cons (readInteger_eq (at?_cons_of_object h _) rfl rfl) ?_
  refine outcome_cons (readBoolean_eq (at?_cons_of_object h _) rfl rfl) ?_
  exact outcome_cons (readString_eq (at?_cons_of_object h _) rfl rfl) rfl

theorem readError_eq (h : v.at? ["errorDetail"] = some (.object members)) :
    readError members = outcome v errorFields (errorHeld members) := by
  refine outcome_cons (readInteger_eq (at?_cons_of_object h _) rfl rfl) ?_
  exact outcome_cons (readString_eq (at?_cons_of_object h _) rfl rfl) rfl

theorem readAux_eq (members : Fields) : readAux members = (Json.object members).at? ["aux"] := by
  rw [readAux, at?_object]
  cases Members.get? (Text.ofString "aux") members with
  | none => rfl
  | some v => cases v <;> rfl

theorem ofJson_object (members : Fields) :
    ofJson (.object members) = outcome (.object members) knownFields (heldBy (.object members)) := by
  unfold ofJson knownFields
  refine outcome_cons (readObject_eq rfl rfl rfl) ?_
  refine outcome_cons (readObject_eq rfl rfl rfl) ?_
  refine outcome_cons (readString_eq rfl rfl rfl) ?_
  refine outcome_cons (readString_eq rfl rfl rfl) ?_
  refine outcome_bind (readNested_eq (by decide) fun _ h => readProgress_eq h) ?_
  refine outcome_cons (readString_eq rfl rfl rfl) ?_
  refine outcome_cons (readString_eq rfl rfl rfl) ?_
  refine outcome_cons (readString_eq rfl rfl rfl) ?_
  refine outcome_cons (readInteger_eq rfl rfl rfl) ?_
  refine outcome_cons (readInteger_eq rfl rfl rfl) ?_
  refine outcome_bind (readNested_eq (by decide) fun _ h => readError_eq h) ?_
  refine outcome_cons (readString_eq rfl rfl rfl) ?_
  rw [readAux_eq]
  rfl

end Reading

section Held

variable {v w : Json} {m m' : Message} {o : Option Json}

/-- What is read of a value of its type is the value. -/
theorem held {α : Type} {type : FieldType} {read : Json → Option α} {wrap : α → Json}
    (hread : ∀ found, type.admits found → (read found).map wrap = some found)
    (h : ∀ found, o = some found → type.admits found) : (o.bind read).map wrap = o := by
  cases o with
  | none => rfl
  | some found => exact hread found (h found rfl)

theorem held_string (h : ∀ found, o = some found → FieldType.string.admits found) :
    (o.bind string?).map .string = o := by
  refine held ?_ h
  intro found hfound
  cases found with
  | string s => rfl
  | _ => cases hfound

theorem held_bool (h : ∀ found, o = some found → FieldType.boolean.admits found) :
    (o.bind bool?).map .bool = o := by
  refine held ?_ h
  intro found hfound
  cases found with
  | bool b => rfl
  | _ => cases hfound

theorem held_integer (h : ∀ found, o = some found → FieldType.integer.admits found) :
    (o.bind integer?).map .number = o := by
  refine held ?_ h
  intro found hfound
  cases found with
  | number x => exact congrArg (Option.map _) (if_pos hfound)
  | _ => cases hfound

theorem isSome_held_members (h : ∀ found, o = some found → FieldType.object.admits found) :
    (o.bind members?).isSome = o.isSome := by
  have hheld : (o.bind members?).map .object = o := by
    refine held ?_ h
    intro found hfound
    cases found with
    | object members => rfl
    | _ => cases hfound
  rw [← hheld, Option.isSome_map, hheld]

/-- A field of a nested object is held at the path to it. -/
theorem held_below {α β : Type} {name inner : String} {held : Fields → α} {get : α → Option β}
    {read : Json → Option β}
    (hget : ∀ members, get (held members) = ((Json.object members).at? [inner]).bind read) :
    (((v.at? [name]).bind members?).map held).bind get = (v.at? [name, inner]).bind read := by
  by_cases hobject : ∃ members, v.at? [name] = some (.object members)
  · obtain ⟨members, hmembers⟩ := hobject
    rw [hmembers, at?_cons_of_object hmembers, ← hget]
    rfl
  · have hnot : ∀ members, v.at? [name] ≠ some (.object members) := by
      intro members hmembers
      exact hobject ⟨members, hmembers⟩
    rw [at?_cons_of_not_object hnot, bind_members?_of_not_object hnot]
    rfl

theorem heldBy_isReadFrom (h : ∀ f ∈ knownFields, f.IsSound v) : (heldBy v).IsReadFrom v where
  stream := held_string (h ⟨["stream"], .string⟩ (by decide))
  status := held_string (h ⟨["status"], .string⟩ (by decide))
  progressDetail := by
    rw [heldBy, Option.isSome_map]
    exact isSome_held_members (h ⟨["progressDetail"], .object⟩ (by decide))
  current := by
    rw [heldBy, held_below (fun _ => rfl)]
    exact held_integer (h ⟨["progressDetail", "current"], .integer⟩ (by decide))
  total := by
    rw [heldBy, held_below (fun _ => rfl)]
    exact held_integer (h ⟨["progressDetail", "total"], .integer⟩ (by decide))
  start := by
    rw [heldBy, held_below (fun _ => rfl)]
    exact held_integer (h ⟨["progressDetail", "start"], .integer⟩ (by decide))
  hideCounts := by
    rw [heldBy, held_below (fun _ => rfl)]
    exact held_bool (h ⟨["progressDetail", "hidecounts"], .boolean⟩ (by decide))
  units := by
    rw [heldBy, held_below (fun _ => rfl)]
    exact held_string (h ⟨["progressDetail", "units"], .string⟩ (by decide))
  progress := held_string (h ⟨["progress"], .string⟩ (by decide))
  id := held_string (h ⟨["id"], .string⟩ (by decide))
  origin := held_string (h ⟨["from"], .string⟩ (by decide))
  time := held_integer (h ⟨["time"], .integer⟩ (by decide))
  timeNano := held_integer (h ⟨["timeNano"], .integer⟩ (by decide))
  errorDetail := by
    rw [heldBy, Option.isSome_map]
    exact isSome_held_members (h ⟨["errorDetail"], .object⟩ (by decide))
  code := by
    rw [heldBy, held_below (fun _ => rfl)]
    exact held_integer (h ⟨["errorDetail", "code"], .integer⟩ (by decide))
  message := by
    rw [heldBy, held_below (fun _ => rfl)]
    exact held_string (h ⟨["errorDetail", "message"], .string⟩ (by decide))
  error := held_string (h ⟨["error"], .string⟩ (by decide))
  aux := rfl

theorem eq_of_map {α : Type} {wrap : α → Json} (hwrap : ∀ a b, wrap a = wrap b → a = b)
    {a b : Option α} (ha : a.map wrap = o) (hb : b.map wrap = o) : a = b :=
  Option.map_injective hwrap (ha.trans hb.symm)

theorem progress_eq_of_held {p p' : Option Progress} (hsome : p.isSome = p'.isSome)
    (hcurrent : p.bind (·.current) = p'.bind (·.current))
    (htotal : p.bind (·.total) = p'.bind (·.total))
    (hstart : p.bind (·.start) = p'.bind (·.start))
    (hhide : p.bind (·.hideCounts) = p'.bind (·.hideCounts))
    (hunits : p.bind (·.units) = p'.bind (·.units)) : p = p' := by
  cases p with
  | none => exact (Option.not_isSome_iff_eq_none.mp (hsome ▸ Bool.false_ne_true)).symm
  | some p =>
    obtain ⟨p', rfl⟩ := Option.isSome_iff_exists.mp hsome.symm
    cases p
    cases p'
    simp only [Option.bind_some] at hcurrent htotal hstart hhide hunits
    subst hcurrent htotal hstart hhide hunits
    rfl

theorem error_eq_of_held {e e' : Option ReportedError} (hsome : e.isSome = e'.isSome)
    (hcode : e.bind (·.code) = e'.bind (·.code))
    (hmessage : e.bind (·.message) = e'.bind (·.message)) : e = e' := by
  cases e with
  | none => exact (Option.not_isSome_iff_eq_none.mp (hsome ▸ Bool.false_ne_true)).symm
  | some e =>
    obtain ⟨e', rfl⟩ := Option.isSome_iff_exists.mp hsome.symm
    cases e
    cases e'
    simp only [Option.bind_some] at hcode hmessage
    subst hcode hmessage
    rfl

/-- A value holds one message at most. -/
theorem IsReadFrom.unique (h : m.IsReadFrom v) (h' : m'.IsReadFrom v) : m = m' := by
  have hstring (a b : Text) : Json.string a = .string b → a = b := Json.string.inj
  have hnumber (a b : Number) : Json.number a = .number b → a = b := Json.number.inj
  have hbool (a b : Bool) : Json.bool a = .bool b → a = b := Json.bool.inj
  have hprogressDetail : m.progressDetail = m'.progressDetail :=
    progress_eq_of_held (h.progressDetail.trans h'.progressDetail.symm)
      (eq_of_map hnumber h.current h'.current) (eq_of_map hnumber h.total h'.total)
      (eq_of_map hnumber h.start h'.start) (eq_of_map hbool h.hideCounts h'.hideCounts)
      (eq_of_map hstring h.units h'.units)
  have herrorDetail : m.errorDetail = m'.errorDetail :=
    error_eq_of_held (h.errorDetail.trans h'.errorDetail.symm)
      (eq_of_map hnumber h.code h'.code) (eq_of_map hstring h.message h'.message)
  have hstream := eq_of_map hstring h.stream h'.stream
  have hstatus := eq_of_map hstring h.status h'.status
  have hprogress := eq_of_map hstring h.progress h'.progress
  have hid := eq_of_map hstring h.id h'.id
  have horigin := eq_of_map hstring h.origin h'.origin
  have htime := eq_of_map hnumber h.time h'.time
  have htimeNano := eq_of_map hnumber h.timeNano h'.timeNano
  have herror := eq_of_map hstring h.error h'.error
  have haux := h.aux.trans h'.aux.symm
  cases m
  cases m'
  simp only [Message.mk.injEq]
  exact ⟨hstream, hstatus, hprogressDetail, hprogress, hid, horigin, htime, htimeNano,
    herrorDetail, herror, haux⟩

/-- Values that hold one message hold the same in its fields. -/
theorem IsReadFrom.at?_eq (h : m.IsReadFrom v) (h' : m.IsReadFrom w) :
    ∀ f ∈ knownFields, f.type = .object ∨ v.at? f.path = w.at? f.path := by
  simp only [knownFields, progressFields, errorFields, List.cons_append, List.nil_append,
    List.forall_mem_cons, List.not_mem_nil, false_imp_iff, implies_true, and_true]
  exact ⟨.inl trivial, .inl trivial, .inr (h.stream.symm.trans h'.stream),
    .inr (h.status.symm.trans h'.status), .inr (h.current.symm.trans h'.current),
    .inr (h.total.symm.trans h'.total), .inr (h.start.symm.trans h'.start),
    .inr (h.hideCounts.symm.trans h'.hideCounts), .inr (h.units.symm.trans h'.units),
    .inr (h.progress.symm.trans h'.progress), .inr (h.id.symm.trans h'.id),
    .inr (h.origin.symm.trans h'.origin), .inr (h.time.symm.trans h'.time),
    .inr (h.timeNano.symm.trans h'.timeNano), .inr (h.code.symm.trans h'.code),
    .inr (h.message.symm.trans h'.message), .inr (h.error.symm.trans h'.error)⟩

end Held

/-! ### A message as a value -/

section ToJson

variable {m : Message} {v : Json}

theorem fields_nodup (m : Message) : (m.fields.map (·.1)).Nodup := by
  simp [Message.fields]

theorem held_at_toJson {α : Type} {wrap : α → Json} (hwrap : ∀ a, wrap a ≠ .null) {name : String}
    {o : Option α} (hmem : (name, o.map wrap) ∈ m.fields) : o.map wrap = m.toJson.at? [name] :=
  (at?_ofFields_map hwrap m.fields_nodup hmem).symm

theorem at?_toJson_progressDetail (path : List String) :
    m.toJson.at? ("progressDetail" :: path) =
      (m.progressDetail.map Progress.toJson).bind (at? path) :=
  at?_ofFields m.fields_nodup (by simp [Message.fields]) path

theorem at?_toJson_errorDetail (path : List String) :
    m.toJson.at? ("errorDetail" :: path) =
      (m.errorDetail.map ReportedError.toJson).bind (at? path) :=
  at?_ofFields m.fields_nodup (by simp [Message.fields]) path

theorem progress_held_at_toJson {α : Type} {wrap : α → Json} (hwrap : ∀ a, wrap a ≠ .null)
    {name : String} {get : Progress → Option α}
    (hmem : ∀ p, (name, (get p).map wrap) ∈ p.fields) :
    (m.progressDetail.bind get).map wrap = m.toJson.at? ["progressDetail", name] := by
  rw [at?_toJson_progressDetail]
  cases m.progressDetail with
  | none => rfl
  | some p => exact (at?_ofFields_map hwrap p.fields_nodup (hmem p)).symm

theorem error_held_at_toJson {α : Type} {wrap : α → Json} (hwrap : ∀ a, wrap a ≠ .null)
    {name : String} {get : ReportedError → Option α}
    (hmem : ∀ e, (name, (get e).map wrap) ∈ e.fields) :
    (m.errorDetail.bind get).map wrap = m.toJson.at? ["errorDetail", name] := by
  rw [at?_toJson_errorDetail]
  cases m.errorDetail with
  | none => rfl
  | some e => exact (at?_ofFields_map hwrap e.fields_nodup (hmem e)).symm

theorem aux_held_at_toJson (h : m.aux ≠ some .null) : m.aux = m.toJson.at? ["aux"] := by
  have haux : m.toJson.at? ["aux"] = m.aux.bind (at? []) :=
    at?_ofFields m.fields_nodup (by simp [Message.fields]) []
  rw [haux]
  cases hm : m.aux with
  | none => rfl
  | some v => exact (at?_nil_of_ne_null fun hnull => h (hnull ▸ hm)).symm

theorem toJson_isReadFrom (h : m.aux ≠ some .null) : m.IsReadFrom m.toJson := by
  have hstring (s : Text) : Json.string s ≠ .null := nofun
  have hnumber (x : Number) : Json.number x ≠ .null := nofun
  have hbool (b : Bool) : Json.bool b ≠ .null := nofun
  exact {
    stream := held_at_toJson hstring (by simp [Message.fields])
    status := held_at_toJson hstring (by simp [Message.fields])
    progressDetail := by
      rw [at?_toJson_progressDetail]
      cases m.progressDetail <;> rfl
    current := progress_held_at_toJson hnumber fun p => by simp [Progress.fields]
    total := progress_held_at_toJson hnumber fun p => by simp [Progress.fields]
    start := progress_held_at_toJson hnumber fun p => by simp [Progress.fields]
    hideCounts := progress_held_at_toJson hbool fun p => by simp [Progress.fields]
    units := progress_held_at_toJson hstring fun p => by simp [Progress.fields]
    progress := held_at_toJson hstring (by simp [Message.fields])
    id := held_at_toJson hstring (by simp [Message.fields])
    origin := held_at_toJson hstring (by simp [Message.fields])
    time := held_at_toJson hnumber (by simp [Message.fields])
    timeNano := held_at_toJson hnumber (by simp [Message.fields])
    errorDetail := by
      rw [at?_toJson_errorDetail]
      cases m.errorDetail <;> rfl
    code := error_held_at_toJson hnumber fun e => by simp [ReportedError.fields]
    message := error_held_at_toJson hstring fun e => by simp [ReportedError.fields]
    error := held_at_toJson hstring (by simp [Message.fields])
    aux := aux_held_at_toJson h }

/-- The fields of a message that was read are sound in the value that it is written as. -/
theorem isSound_toJson (hread : m.IsReadFrom v) (hsound : ∀ f ∈ knownFields, f.IsSound v)
    (haux : m.aux ≠ some .null) : ∀ f ∈ knownFields, f.IsSound m.toJson := by
  intro f hf found hfound
  cases hread.at?_eq (toJson_isReadFrom haux) f hf with
  | inr hleaf => exact hsound f hf found (hleaf.trans hfound)
  | inl hobject =>
    obtain ⟨name, hname, hpath⟩ := nested_of_type_object f hf hobject
    rw [hobject]
    rw [hpath] at hfound
    simp only [nestedNames, List.mem_cons, List.not_mem_nil, or_false] at hname
    cases hname with
    | inl hname =>
      rw [hname, at?_toJson_progressDetail] at hfound
      obtain ⟨w, hw, hfound⟩ := Option.bind_eq_some_iff.mp hfound
      obtain ⟨p, -, rfl⟩ := Option.map_eq_some_iff.mp hw
      obtain rfl := Option.some.inj hfound
      rfl
    | inr hname =>
      rw [hname, at?_toJson_errorDetail] at hfound
      obtain ⟨w, hw, hfound⟩ := Option.bind_eq_some_iff.mp hfound
      obtain ⟨e, -, rfl⟩ := Option.map_eq_some_iff.mp hw
      obtain rfl := Option.some.inj hfound
      rfl

end ToJson

/-! ### Unknown members -/

section Pruned

variable {v w : Json} {name inner : String}

theorem at?_pruned_cons (h : name ∈ namesBelow []) (path : List String) (members : Fields) :
    (pruned (.object members)).at? (name :: path) =
      (Members.get? (Text.ofString name) members).bind fun w =>
        (prunedMember (Text.ofString name) w).at? path := by
  rw [pruned, at?_object, Members.get?_map, Members.get?_filter_contains h, Option.bind_map]
  rfl

theorem prunedMember_nested :
    ∀ name ∈ nestedNames, prunedMember (Text.ofString name) = only (namesBelow [name]) := by
  intro name hname
  funext v
  simp only [nestedNames, List.mem_cons, List.not_mem_nil, or_false] at hname
  cases hname with
  | inl hname => rw [hname, prunedMember, if_pos rfl]
  | inr hname => rw [hname, prunedMember, if_neg (by decide), if_pos rfl]

theorem prunedMember_of_not_nested (h : name ∉ nestedNames) (v : Json) :
    prunedMember (Text.ofString name) v = v := by
  simp only [nestedNames, List.mem_cons, List.not_mem_nil, or_false, not_or] at h
  rw [prunedMember, if_neg (mt Text.ofString_inj.mp h.1), if_neg (mt Text.ofString_inj.mp h.2)]

theorem at?_pruned_alone (h : name ∈ namesBelow []) (hnested : name ∉ nestedNames) :
    (pruned v).at? [name] = v.at? [name] := by
  cases v with
  | object members =>
    rw [at?_pruned_cons h, at?_object]
    simp only [prunedMember_of_not_nested hnested]
  | _ => rfl

theorem at?_pruned_nested (h : name ∈ nestedNames) :
    (pruned v).at? [name] = (v.at? [name]).map (only (namesBelow [name])) := by
  cases v with
  | object members =>
    rw [at?_pruned_cons (nestedNames_known name h), at?_object, prunedMember_nested name h]
    simp only [at?_nil_only, Option.map_bind]
    rfl
  | _ => rfl

theorem at?_pruned_below (h : name ∈ nestedNames) (hinner : inner ∈ namesBelow [name]) :
    (pruned v).at? [name, inner] = v.at? [name, inner] := by
  cases v with
  | object members =>
    rw [at?_pruned_cons (nestedNames_known name h), at?_object, prunedMember_nested name h]
    simp only [at?_only hinner]
  | _ => rfl

/-- What is left out is no defect, and hides none. -/
theorem defect?_pruned : ∀ f ∈ knownFields, f.defect? (pruned v) = f.defect? v := by
  intro f hf
  rcases knownFields_cases f hf with ⟨name, hname, halone, hpath⟩ |
    ⟨name, hnested, hpath, htype⟩ | ⟨name, hnested, inner, hinner, hpath⟩
  · rw [Field.defect?, Field.defect?, hpath, at?_pruned_alone hname halone]
  · rw [Field.defect?, Field.defect?, hpath, at?_pruned_nested hnested, Option.bind_map, htype]
    congr 1
    funext found
    cases found <;> rfl
  · rw [Field.defect?, Field.defect?, hpath, at?_pruned_below hnested hinner]

theorem held_only {α : Type} {names : List String} {held : Fields → α}
    (hheld : ∀ members kept, (Json.object members).only names = .object kept →
      held kept = held members) (o : Option Json) :
    ((o.map (only names)).bind members?).map held = (o.bind members?).map held := by
  cases o with
  | none => rfl
  | some v =>
    cases v with
    | object members => exact congrArg some (hheld members _ rfl)
    | _ => rfl

theorem progressHeld_only (members kept : Fields)
    (h : (Json.object members).only (namesBelow ["progressDetail"]) = .object kept) :
    progressHeld kept = progressHeld members := by
  have hat (name : String) (hname : name ∈ namesBelow ["progressDetail"]) :
      (Json.object kept).at? [name] = (Json.object members).at? [name] := by
    rw [← h, at?_only hname]
  rw [progressHeld, hat "current" (by decide), hat "total" (by decide), hat "start" (by decide),
    hat "hidecounts" (by decide), hat "units" (by decide)]
  rfl

theorem errorHeld_only (members kept : Fields)
    (h : (Json.object members).only (namesBelow ["errorDetail"]) = .object kept) :
    errorHeld kept = errorHeld members := by
  have hat (name : String) (hname : name ∈ namesBelow ["errorDetail"]) :
      (Json.object kept).at? [name] = (Json.object members).at? [name] := by
    rw [← h, at?_only hname]
  rw [errorHeld, hat "code" (by decide), hat "message" (by decide)]
  rfl

theorem heldBy_pruned (v : Json) : heldBy (pruned v) = heldBy v := by
  have hat (name : String) (hname : name ∈ namesBelow []) (halone : name ∉ nestedNames) :
      (pruned v).at? [name] = v.at? [name] := at?_pruned_alone hname halone
  have hprogress : (pruned v).at? ["progressDetail"] =
      (v.at? ["progressDetail"]).map (only (namesBelow ["progressDetail"])) :=
    at?_pruned_nested (by decide)
  have herror : (pruned v).at? ["errorDetail"] =
      (v.at? ["errorDetail"]).map (only (namesBelow ["errorDetail"])) :=
    at?_pruned_nested (by decide)
  rw [heldBy, hat "stream" (by decide) (by decide), hat "status" (by decide) (by decide),
    hat "progress" (by decide) (by decide), hat "id" (by decide) (by decide),
    hat "from" (by decide) (by decide), hat "time" (by decide) (by decide),
    hat "timeNano" (by decide) (by decide), hat "error" (by decide) (by decide),
    hat "aux" (by decide) (by decide), hprogress, herror, held_only progressHeld_only,
    held_only errorHeld_only]
  rfl

theorem outcome_pruned (v : Json) :
    outcome (pruned v) knownFields (heldBy (pruned v)) = outcome v knownFields (heldBy v) := by
  have hdefects : knownFields.findSome? (·.defect? (pruned v)) =
      knownFields.findSome? (·.defect? v) := by
    rw [← List.head?_filterMap, ← List.head?_filterMap, List.filterMap_congr defect?_pruned]
  rw [outcome, outcome, hdefects, heldBy_pruned]

/-- Unknown members do not matter. -/
theorem ofJson_pruned (v : Json) : ofJson (pruned v) = ofJson v := by
  cases v with
  | object members =>
    have houtcome := outcome_pruned (.object members)
    rw [pruned] at houtcome ⊢
    rw [ofJson_object, ofJson_object, houtcome]
  | _ => rfl

end Pruned

/-! ### The outcome -/

section Outcome

variable {v : Json} {members : Fields} {m : Message} {d : Defect}

theorem ofJson_of_not_object (h : ∀ members, v ≠ .object members) :
    ofJson v = .error (.notObject v.typeName) := by
  cases v with
  | object members => exact absurd rfl (h members)
  | _ => rfl

theorem outcome_eq_ok {α : Type} {fields : List Field} {a b : α} :
    outcome v fields a = .ok b ↔ (∀ f ∈ fields, f.IsSound v) ∧ a = b := by
  have hsound : fields.findSome? (·.defect? v) = none ↔ ∀ f ∈ fields, f.IsSound v := by
    simp only [List.findSome?_eq_none_iff, Field.defect?_eq_none]
  rw [← hsound, outcome]
  cases fields.findSome? (·.defect? v) <;> simp

theorem outcome_eq_error {α : Type} {fields : List Field} {a : α} :
    outcome v fields a = .error d ↔ ∃ before f behind, fields = before ++ f :: behind ∧
      f.defect? v = some d ∧ ∀ earlier ∈ before, earlier.IsSound v := by
  have hfirst : outcome v fields a = .error d ↔ fields.findSome? (·.defect? v) = some d := by
    rw [outcome]
    cases fields.findSome? (·.defect? v) <;> simp
  simp only [hfirst, List.findSome?_eq_some_iff, Field.defect?_eq_none]

theorem ofJson_eq_ok : ofJson v = .ok m ↔
    (∃ members, v = .object members) ∧ (∀ f ∈ knownFields, f.IsSound v) ∧ m.IsReadFrom v := by
  by_cases hobject : ∃ members, v = .object members
  · obtain ⟨members, rfl⟩ := hobject
    rw [ofJson_object, outcome_eq_ok]
    constructor
    · rintro ⟨hsound, rfl⟩
      exact ⟨⟨members, rfl⟩, hsound, heldBy_isReadFrom hsound⟩
    · rintro ⟨-, hsound, hread⟩
      exact ⟨hsound, (heldBy_isReadFrom hsound).unique hread⟩
  · rw [ofJson_of_not_object fun members hv => hobject ⟨members, hv⟩]
    simp only [reduceCtorEq, hobject, false_and]

theorem ofJson_eq_error : ofJson v = .error d ↔ HasDefect v d := by
  by_cases hobject : ∃ members, v = .object members
  · obtain ⟨members, rfl⟩ := hobject
    rw [ofJson_object, outcome_eq_error]
    constructor
    · rintro ⟨before, f, behind, hsplit, hdefect, hbefore⟩
      obtain ⟨found, hfound, hadmits, rfl⟩ := Field.defect?_eq_some.mp hdefect
      exact .field hsplit hbefore hfound hadmits
    · intro h
      cases h with
      | notObject hnot => exact absurd rfl (hnot members)
      | field hsplit hbefore hfound hadmits =>
        exact ⟨_, _, _, hsplit, Field.defect?_eq_some.mpr ⟨_, hfound, hadmits, rfl⟩, hbefore⟩
  · have hnot : ∀ members, v ≠ .object members := fun members hv => hobject ⟨members, hv⟩
    rw [ofJson_of_not_object hnot]
    constructor
    · intro h
      rw [← Except.error.inj h]
      exact .notObject hnot
    · intro h
      cases h with
      | notObject _ => rfl
      | field hsplit _ hfound _ =>
        have hmem := hsplit ▸ List.mem_append_right _ List.mem_cons_self
        obtain ⟨name, path, hpath⟩ := knownFields_path_eq_cons _ hmem
        rw [hpath, at?_of_not_object hnot] at hfound
        cases hfound

theorem aux_ne_null (h : m.IsReadFrom v) : m.aux ≠ some .null :=
  h.aux ▸ at?_ne_null ["aux"] v

/-- Validation is exact. A value is a message exactly if it is an object whose known fields are
sound, and the message is then the one that is read from it; else the first defect is told. Unknown
members do not matter, and a message that was read is read again. -/
theorem ofJson_reads_what_is_sound (v : Json) :
    ((∃ m, ofJson v = .ok m) ↔
        (∃ members, v = .object members) ∧ ∀ f ∈ knownFields, f.IsSound v) ∧
      (∀ m, ofJson v = .ok m → m.IsReadFrom v ∧ ofJson m.toJson = .ok m) ∧
      (∀ d, ofJson v = .error d → HasDefect v d ∧ ∃ r, (Failure.invalid d).report? = some r ∧
        r.code = "INVALID_MESSAGE" ∧ r.details = Failure.detail "field" (.ofString d.field)) ∧
      ∀ w, pruned w = pruned v → ofJson w = ofJson v := by
  refine ⟨?_, ?_, ?_, ?_⟩
  · constructor
    · rintro ⟨m, hm⟩
      obtain ⟨hobject, hsound, -⟩ := ofJson_eq_ok.mp hm
      exact ⟨hobject, hsound⟩
    · rintro ⟨hobject, hsound⟩
      exact ⟨heldBy v, ofJson_eq_ok.mpr ⟨hobject, hsound, heldBy_isReadFrom hsound⟩⟩
  · intro m hm
    obtain ⟨-, hsound, hread⟩ := ofJson_eq_ok.mp hm
    have haux := aux_ne_null hread
    have hagain : ofJson m.toJson = .ok m := ofJson_eq_ok.mpr
      ⟨⟨_, rfl⟩, isSound_toJson hread hsound haux, toJson_isReadFrom haux⟩
    exact ⟨hread, hagain⟩
  · intro d hd
    exact ⟨ofJson_eq_error.mp hd, _, rfl, rfl, rfl⟩
  · intro w hw
    rw [← ofJson_pruned w, hw, ofJson_pruned]

end Outcome
end Message
end LiveProgress
