import LiveProgress.Proofs.Display.Line

/-!
# What a message does to a screen

A legible message that is shown in place rewrites one row: its own if it has one, and else
the one of the cursor. Every other legible message writes on at the cursor. The cursor of a
grid's message moves up to its row and down again by the same distance, which is one for the
row that has just been begun.
-/

namespace LiveProgress

/-! ### Screens as destinations -/

theorem Destination.writeAll_screen (s : Screen) (texts : List String) :
    Destination.writeAll s texts = (none, s.writeAll texts) := by
  induction texts generalizing s with
  | nil => rfl
  | cons text texts ih =>
    simp only [Destination.writeAll, Destination.write, ih]
    rfl

theorem Attempt.run_screen (a : Attempt) (s : Screen) :
    a.run s = (a.failure, s.writeAll a.texts) := by
  simp only [Attempt.run, Destination.writeAll_screen, Option.none_or]

theorem Script.run_screen (script : Script) (s : Screen) :
    script.run s = (script.calm.failure, s.writeAll script.calm.texts) := by
  simp only [Script.run, Attempt.run_screen]
  cases h : script.opening.failure with
  | some f => rw [calm, Attempt.andThen_of_failure h, h]
  | none =>
    rw [calm, Attempt.andThen_of_healthy h]
    simp only [Screen.writeAll_append]

/-! ### The writes of a message -/

namespace Message

variable {m : Message}

/-- What a legible message writes on a terminal without capabilities. -/
def writes (m : Message) (v : Viewport) : List String :=
  if m.isInPlace then
    CapabilitySet.empty.clearLine.texts ++ "\r" :: (m.heading ++ [m.content true v "\r"])
  else m.heading ++ [m.content true v "\n"]

theorem IsLegible.line (h : m.IsLegible) (v : Viewport) :
    m.line (some .empty) v = { texts := m.writes v } := by
  simp only [Message.line, h.noError, writes]
  split
  · rfl
  · rfl

theorem IsLegible.writeAll_inPlace (h : m.IsLegible) (hp : m.isInPlace = true) (v : Viewport)
    {s : Screen} (hs : s.pending = .none) :
    s.writeAll (m.writes v) = s.rewriteRow (m.shownText v "") := by
  have hprogress : m.hasProgress = true := by
    simp only [isInPlace, Bool.and_eq_true] at hp
    exact hp.2
  obtain ⟨hline, hend⟩ := h.shownText_line (.inl hprogress) v
  rw [writes, if_pos hp]
  exact Screen.writeAll_inPlace hs ((m.shownText_eq_writes v "\r").symm.trans (hend "\r")) hline

theorem writeAll_text (hp : m.isInPlace = false) (v : Viewport) (s : Screen) :
    s.writeAll (m.writes v) = s.steps (m.shownText v "\n") := by
  rw [writes, hp, Screen.writeAll_eq_steps, shownText_eq_writes]
  rfl

end Message

/-! ### Rows of the grid -/

namespace Grid

theorem hasProgress_of_rowId? {m : Message} {id : Text} (h : rowId? m = some id) :
    m.hasProgress = true := by
  obtain ⟨_, h⟩ := Option.filter_eq_some_iff.mp h
  exact h

theorem reserve_of_mem {g : Grid} {id : Text} (h : id ∈ g.rows) : g.reserve id = g := by
  have hrow : (g.rowOf? id).isSome = true := by
    rw [rowOf?, List.isSome_idxOf?]
    exact h
  simp only [reserve, hrow, if_true]

theorem reserve_of_not_mem {g : Grid} {id : Text} (h : id ∉ g.rows) :
    g.reserve id = ⟨g.rows ++ [id]⟩ := by
  have hrow : (g.rowOf? id).isSome = false := by
    rw [← Bool.not_eq_true, rowOf?, List.isSome_idxOf?]
    exact h
  simp [reserve, hrow]

/-- An operation of the grid has a place in it, counted from the row below. -/
theorem distance_of_mem {g : Grid} {id : Text} (h : id ∈ g.rows) :
    ∃ i, g.rows[i]? = some id ∧ i < g.size ∧ g.distance id = g.size - i := by
  rw [← List.isSome_idxOf?, Option.isSome_iff_exists] at h
  obtain ⟨i, hi⟩ := h
  obtain ⟨hlt, hget, _⟩ := List.idxOf?_eq_some_iff.mp hi
  refine ⟨i, ?_, hlt, ?_⟩
  · rw [List.getElem?_eq_getElem hlt, hget]
  · simp only [distance, rowOf?, hi, Option.getD_some]

/-- A row that has just been begun lies right above the row below the grid. -/
theorem distance_of_not_mem {g : Grid} {id : Text} (h : id ∉ g.rows) :
    (g.reserve id).distance id = 1 := by
  have hindex : (g.rows ++ [id]).idxOf? id = some g.rows.length := by
    rw [List.idxOf?_eq_some_iff]
    refine ⟨by simp, by simp, fun j hj hget => h ?_⟩
    rw [List.getElem_append_left hj] at hget
    rw [← hget]
    exact List.getElem_mem hj
  simp only [reserve_of_not_mem h, distance, rowOf?, hindex, Option.getD_some, size,
    List.length_append, List.length_singleton]
  omega

/-- The screen on which a message writes its row: an operation of the grid moves up to it,
and a new one begins where the cursor is. -/
def approach (g : Grid) (id : Text) (s : Screen) : Screen :=
  if id ∈ g.rows then s.up (g.distance id) else { s with column := 0 }

theorem pending_approach (g : Grid) (id : Text) (s : Screen) :
    (g.approach id s).pending = s.pending := by
  unfold approach
  split
  · rfl
  · rfl

theorem writeAll_opening {g : Grid} {id : Text} {s : Screen} (hs : s.pending = .none) :
    s.writeAll ((if (g.rowOf? id).isSome then [] else ["\n"]) ++
      (CapabilitySet.empty.cursorUp (.ofRows ((g.reserve id).distance id))).texts) =
        g.approach id s := by
  have hmem : (g.rowOf? id).isSome = true ↔ id ∈ g.rows := by rw [rowOf?, List.isSome_idxOf?]
  rw [Screen.writeAll_append]
  by_cases h : id ∈ g.rows
  · rw [if_pos (hmem.mpr h), approach, if_pos h, reserve_of_mem h]
    exact Screen.writeAll_cursorUp hs _
  · have hfeed : s.writeAll ["\n"] = { s with row := s.row + 1, column := 0 } :=
      Screen.step_lineFeed hs
    rw [if_neg (mt hmem.mp h), hfeed, distance_of_not_mem h, approach, if_neg h,
      Screen.writeAll_cursorUp (by exact hs)]
    simp [Screen.up]

end Grid

/-! ### Messages -/

namespace Display

variable {d : Display Screen} {m : Message}

theorem run_append {σ : Type} [Destination σ] (d : Display σ) (caps : Option CapabilitySet)
    (v : Viewport) (a b : List Message) :
    d.run caps v (a ++ b) =
      match d.run caps v a with
      | (some f, d) => (some f, d)
      | (none, d) => d.run caps v b := by
  induction a generalizing d with
  | nil => rfl
  | cons m a ih =>
    simp only [List.cons_append, run]
    split
    · rfl
    · exact ih _

theorem advance_plain (h : m.IsLegible) (hid : Grid.rowId? m = none) (v : Viewport) :
    d.advance (some .empty) v m =
      (none, { d with grid := {}, out := d.out.writeAll (m.writes v) }) := by
  simp only [advance, render, Grid.react, h.noPayload, hid, h.line, Script.run_screen]
  simp [Script.calm, Attempt.andThen, Destination.ready]

/-- A message with a row writes it and comes back. -/
theorem advance_row (h : m.IsLegible) {id : Text} (hid : Grid.rowId? m = some id)
    (hs : d.out.pending = .none) (v : Viewport)
    (ht : ((d.grid.approach id d.out).writeAll (m.writes v)).pending = .none) :
    d.advance (some .empty) v m =
      (none, { d with
        grid := d.grid.reserve id
        out := ((d.grid.approach id d.out).writeAll (m.writes v)).down
          ((d.grid.reserve id).distance id) }) := by
  have hup := CapabilitySet.answers_empty.cursorUp ((d.grid.reserve id).distance id)
  have hdown := CapabilitySet.answers_empty.cursorDown ((d.grid.reserve id).distance id)
  simp only [advance, render, Grid.react, h.noPayload, hid, Grid.rowScript, h.line,
    Script.run_screen, Script.calm, Attempt.andThen, hup, hdown, Option.none_or]
  rw [Screen.writeAll_append, Screen.writeAll_append, Grid.writeAll_opening hs,
    Screen.writeAll_cursorDown ht]
  rfl

end Display
end LiveProgress
