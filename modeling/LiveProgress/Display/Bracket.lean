import LiveProgress.Display.History

/-!
# Lines in brackets

A message that has a row on a terminal writes its line between moves of the cursor, up to the row
and back down. Any other message writes its line alone.
-/

namespace LiveProgress.Grid

/-- What is in front of a message's line: a new row is begun, and the cursor goes up to it. -/
def opening (g : Grid) (m : Message) (caps : Option CapabilitySet) : Attempt :=
  match rowId? m, caps with
  | some id, some set =>
      let begun : Attempt := { texts := if (g.rowOf? id).isSome then [] else ["\n"] }
      begun.andThen (set.cursorUp (.ofRows ((g.reserve id).distance id)))
  | _, _ => {}

/-- What is behind it: the cursor goes back down. -/
def closing (g : Grid) (m : Message) (caps : Option CapabilitySet) : Attempt :=
  match rowId? m, caps with
  | some id, some set => set.cursorDown (.ofRows ((g.reserve id).distance id))
  | _, _ => {}

section

variable (g : Grid) {m : Message} {id : Text}

theorem opening_of_row (h : rowId? m = some id) (set : CapabilitySet) :
    g.opening m (some set) =
      Attempt.andThen { texts := if (g.rowOf? id).isSome then [] else ["\n"] }
        (set.cursorUp (.ofRows ((g.reserve id).distance id))) := by
  unfold opening
  rw [h]

theorem closing_of_row (h : rowId? m = some id) (set : CapabilitySet) :
    g.closing m (some set) = set.cursorDown (.ofRows ((g.reserve id).distance id)) := by
  unfold closing
  rw [h]

/-- Only a row on a terminal has brackets. -/
theorem bracket_bare (caps : Option CapabilitySet) (h : rowId? m = none ∨ caps = none) :
    g.opening m caps = {} ∧ g.closing m caps = {} := by
  unfold opening closing
  rcases h with h | rfl
  · rw [h]
    exact ⟨rfl, rfl⟩
  · cases rowId? m with
    | none => exact ⟨rfl, rfl⟩
    | some id => exact ⟨rfl, rfl⟩

end

/-- The line of a message in its brackets. -/
def bracket (g : Grid) (m : Message) (caps : Option CapabilitySet) (v : Viewport) : Script where
  opening := g.opening m caps
  line := m.line caps v
  closing := g.closing m caps

end LiveProgress.Grid
