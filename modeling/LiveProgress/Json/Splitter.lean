import LiveProgress.Json.Basic

/-!
# Splitting concatenated JSON

Cuts the texts of consecutive values out of units that arrive in pieces. Only the ends of
values are found here: of an object or array by counting brackets outside strings, of a
string by its closing quotation mark, of anything else by the next white space, opening
bracket or quotation mark. What lies inside is left to the reader.
-/

namespace LiveProgress.Json

/-- The text of one value and its offset in the stream, in units. -/
structure RawValue where
  text : Text
  offset : Nat
deriving DecidableEq, Repr

/-- Where the splitter stands. In a nested value `quote` tells of an open string, and
`escaped` that its next unit is taken as it is. -/
inductive Place where
  | between
  | scalar
  | quoted (escaped : Bool)
  | nested (depth : Nat) (quote : Option Bool)
deriving DecidableEq, Repr

/-- A splitter holds the unfinished value, last unit first, and the offset of its first
unit; between values that is the offset of what comes next. -/
structure Splitter where
  offset : Nat := 0
  pending : Text := []
  place : Place := .between
deriving DecidableEq, Repr

/-- Units that open an object or an array. -/
def isOpening (u : CodeUnit) : Bool := u.toChar == '{' || u.toChar == '['

/-- Units that close one. -/
def isClosing (u : CodeUnit) : Bool := u.toChar == '}' || u.toChar == ']'

def isQuote (u : CodeUnit) : Bool := u.toChar == '"'

def isBackslash (u : CodeUnit) : Bool := u.toChar == '\\'

namespace Splitter

/-- Ends the pending value in front of the next unit. -/
def cut (s : Splitter) : RawValue × Splitter :=
  (⟨s.pending.reverse, s.offset⟩, ⟨s.offset + s.pending.length, [], .between⟩)

/-- Takes a unit into the pending value. -/
def keep (s : Splitter) (u : CodeUnit) (place : Place) : Splitter :=
  { s with pending := u :: s.pending, place }

/-- Takes the last unit of the pending value. -/
def close (s : Splitter) (u : CodeUnit) : Option RawValue × Splitter :=
  let (value, s) := (s.keep u s.place).cut
  (some value, s)

/-- A unit between values. -/
def start (s : Splitter) (u : CodeUnit) : Splitter :=
  if isBlank u then { s with offset := s.offset + 1 }
  else if isOpening u then s.keep u (.nested 1 none)
  else if isQuote u then s.keep u (.quoted false)
  else s.keep u .scalar

/-- A unit inside a string: the escape state behind it, or nothing if it closes the
string. -/
def inString (escaped : Bool) (u : CodeUnit) : Option Bool :=
  if escaped then some false
  else if isBackslash u then some true
  else if isQuote u then none
  else some false

/-- Takes one unit; it completes at most one value. -/
def step (s : Splitter) (u : CodeUnit) : Option RawValue × Splitter :=
  match s.place with
  | .between => (none, s.start u)
  | .scalar =>
      if isBlank u ∨ isOpening u ∨ isQuote u then
        let (value, s) := s.cut
        (some value, s.start u)
      else (none, s.keep u .scalar)
  | .quoted escaped =>
      match inString escaped u with
      | some escaped => (none, s.keep u (.quoted escaped))
      | none => s.close u
  | .nested depth (some escaped) =>
      (none, s.keep u (.nested depth (inString escaped u)))
  | .nested depth none =>
      if isQuote u then (none, s.keep u (.nested depth (some false)))
      else if isOpening u then (none, s.keep u (.nested (depth + 1) none))
      else if isClosing u then
        if depth = 1 then s.close u else (none, s.keep u (.nested (depth - 1) none))
      else (none, s.keep u (.nested depth none))

/-- Takes a piece of text; the values it completes, in order. -/
def push (s : Splitter) (text : Text) : List RawValue × Splitter :=
  let (out, s) := text.foldl (fun (out, s) u =>
    let (value, s) := s.step u
    (value.toList ++ out, s)) ([], s)
  (out.reverse, s)

/-- The end of the text completes a scalar. Inside an object, array or string it is an
error at the offset of that value, and the splitter stays as it is. -/
def finish (s : Splitter) : Except Nat (Option RawValue × Splitter) :=
  match s.place with
  | .between => .ok (none, s)
  | .scalar =>
      let (value, s) := s.cut
      .ok (some value, s)
  | _ => .error s.offset

theorem push_nil (s : Splitter) : s.push [] = ([], s) := rfl

theorem push_cons (s : Splitter) (u : CodeUnit) (text : Text) :
    s.push (u :: text) =
      ((s.step u).1.toList ++ ((s.step u).2.push text).1, ((s.step u).2.push text).2) := by
  have shift (out : List RawValue) (s : Splitter) (text : Text) :
      text.foldl (fun (out, s) u => ((s.step u).1.toList ++ out, (s.step u).2)) (out, s) =
        ((s.push text).1.reverse ++ out, (s.push text).2) := by
    induction text generalizing out s with
    | nil => rfl
    | cons u text ih =>
      unfold push
      simp only [List.foldl_cons]
      rw [ih, ih]
      cases (s.step u).1 <;> simp
  have h := shift ((s.step u).1.toList ++ []) (s.step u).2 text
  unfold push at h ⊢
  simp only [List.foldl_cons]
  rw [h]
  cases (s.step u).1 <;> simp

theorem push_append (s : Splitter) (a b : Text) :
    s.push (a ++ b) = ((s.push a).1 ++ ((s.push a).2.push b).1, ((s.push a).2.push b).2) := by
  induction a generalizing s with
  | nil => simp [push_nil]
  | cons x a ih => simp [push_cons, ih]

end Splitter
end LiveProgress.Json
