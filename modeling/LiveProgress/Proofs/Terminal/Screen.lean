import LiveProgress.Proofs.Terminal.Control
import LiveProgress.Terminal.Screen
import Mathlib.Tactic.Common

/-!
# Writing on a screen

What a screen shows after printable text, a line end, and the control sequences that move
the cursor and clear a line, told cell by cell. Clearing the cursor's line and writing it
anew leaves nothing of what it showed before.
-/

namespace LiveProgress

namespace Screen

@[ext]
theorem ext {s t : Screen} (hcell : ∀ row column, s.cell row column = t.cell row column)
    (hrow : s.row = t.row) (hcolumn : s.column = t.column) (hpending : s.pending = t.pending) :
    s = t := by
  obtain ⟨cell, row, column, pending⟩ := s
  obtain ⟨cell', row', column', pending'⟩ := t
  obtain rfl : cell = cell' := funext fun row => funext fun column => hcell row column
  obtain rfl : row = row' := hrow
  obtain rfl : column = column' := hcolumn
  obtain rfl : pending = pending' := hpending
  rfl

/-- Takes characters one after the other. -/
def steps (s : Screen) (cs : List Char) : Screen := cs.foldl step s

theorem steps_append (s : Screen) (a b : List Char) : s.steps (a ++ b) = (s.steps a).steps b :=
  List.foldl_append

theorem steps_cons (s : Screen) (c : Char) (cs : List Char) :
    s.steps (c :: cs) = (s.step c).steps cs := rfl

theorem writeAll_eq_steps (s : Screen) (texts : List String) :
    s.writeAll texts = s.steps (texts.flatMap String.toList) := by
  induction texts generalizing s with
  | nil => rfl
  | cons text texts ih =>
    rw [List.flatMap_cons, steps_append, ← ih]
    rfl

/-! ### Single characters -/

theorem step_lineFeed {s : Screen} (h : s.pending = .none) :
    s.step '\n' = { s with row := s.row + 1, column := 0 } := by
  simp only [step, h, if_true]

theorem step_return {s : Screen} (h : s.pending = .none) :
    s.step '\r' = { s with column := 0 } := by
  simp [step, h]

theorem step_printable {s : Screen} (h : s.pending = .none) {c : Char}
    (hc : isControl c = false) : s.step c = s.put c := by
  have hne {d : Char} (hd : isControl d = true) : c ≠ d := by
    rintro rfl
    rw [hc] at hd
    cases hd
  simp only [step, h, if_neg (hne (by decide : isControl '\n' = true)),
    if_neg (hne (by decide : isControl '\r' = true)),
    if_neg (hne (by decide : isControl '\x1b' = true))]

/-! ### Printable text -/

/-- Puts characters one after the other. -/
def putAll (s : Screen) (cs : List Char) : Screen := cs.foldl put s

theorem steps_printable {s : Screen} (h : s.pending = .none) {cs : List Char}
    (hcs : ∀ c ∈ cs, isControl c = false) : s.steps cs = s.putAll cs := by
  induction cs generalizing s with
  | nil => rfl
  | cons c cs ih =>
    rw [steps_cons, step_printable h (hcs c List.mem_cons_self)]
    exact ih h fun d hd => hcs d (List.mem_cons_of_mem c hd)

@[simp]
theorem row_putAll (s : Screen) (cs : List Char) : (s.putAll cs).row = s.row := by
  induction cs generalizing s with
  | nil => rfl
  | cons c cs ih => exact ih (s.put c)

@[simp]
theorem pending_putAll (s : Screen) (cs : List Char) : (s.putAll cs).pending = s.pending := by
  induction cs generalizing s with
  | nil => rfl
  | cons c cs ih => exact ih (s.put c)

theorem cell_putAll (s : Screen) (cs : List Char) (row : Int) (column : Nat) :
    (s.putAll cs).cell row column =
      if row = s.row ∧ s.column ≤ column then (cs[column - s.column]?).getD (s.cell row column)
      else s.cell row column := by
  induction cs generalizing s with
  | nil => simp [putAll]
  | cons c cs ih =>
    have h : (s.putAll (c :: cs)).cell row column = ((s.put c).putAll cs).cell row column := rfl
    rw [h, ih]
    by_cases hrow : row = s.row
    · by_cases hcolumn : column = s.column
      · have hlt : ¬ s.column + 1 ≤ s.column := by omega
        simp [put, hrow, hcolumn, hlt]
      · by_cases hlt : s.column < column
        · have hindex : column - s.column = column - (s.column + 1) + 1 := by omega
          have hle : s.column + 1 ≤ column := hlt
          have hle' : s.column ≤ column := by omega
          simp [put, hrow, hle, hle', hindex, hcolumn]
        · have hlt' : ¬ s.column + 1 ≤ column := by omega
          have hle' : ¬ s.column ≤ column := by omega
          simp [put, hrow, hlt', hle', hcolumn]
    · simp [put, hrow]

/-! ### Control sequences -/

theorem steps_digits {s : Screen} {taken : List Char} (h : s.pending = .sequence taken)
    {digits : List Char} (hdigits : ∀ c ∈ digits, c.isDigit = true) :
    s.steps digits = { s with pending := .sequence (digits.reverse ++ taken) } := by
  induction digits generalizing s taken with
  | nil =>
    simp only [List.reverse_nil, List.nil_append]
    rw [← h]
    rfl
  | cons c digits ih =>
    have hc : s.step c = { s with pending := .sequence (c :: taken) } := by
      simp only [step, h, hdigits c List.mem_cons_self, if_true]
    rw [steps_cons, hc, ih rfl fun d hd => hdigits d (List.mem_cons_of_mem c hd)]
    simp

/-- A whole sequence is carried out. -/
theorem steps_sequence {s : Screen} (h : s.pending = .none) {digits : List Char}
    (hdigits : ∀ c ∈ digits, c.isDigit = true) {final : Char} (hfinal : final.isDigit = false) :
    s.steps ('\x1b' :: '[' :: digits ++ [final]) = s.control digits final := by
  have hescape : s.step '\x1b' = { s with pending := .escape } := by
    simp [step, h]
  have hbracket : ({ s with pending := .escape } : Screen).step '[' =
      { s with pending := .sequence [] } := by
    simp [step]
  rw [List.cons_append, List.cons_append, steps_cons, hescape, steps_cons, hbracket, steps_append,
    steps_digits rfl hdigits, List.append_nil]
  obtain ⟨cell, row, column, pending⟩ := s
  obtain rfl : pending = .none := h
  simp [steps, step, hfinal]

/-- Moves the cursor up. -/
def up (s : Screen) (n : Nat) : Screen := { s with row := s.row - n }

/-- Moves the cursor down. -/
def down (s : Screen) (n : Nat) : Screen := { s with row := s.row + n }

theorem control_count (s : Screen) (n : Nat) :
    s.control (Nat.toDigits 10 n) 'A' = s.up n ∧ s.control (Nat.toDigits 10 n) 'B' = s.down n := by
  have hvalue : Number.digitsValue (Nat.toDigits 10 n) = n := Nat.ofDigitChars_ten_toDigits
  constructor
  · simp [control, hvalue, up]
  · simp [control, hvalue, down]

theorem isDigit_toDigits (n : Nat) : ∀ c ∈ Nat.toDigits 10 n, c.isDigit = true :=
  fun _ h => Nat.isDigit_of_mem_toDigits (by decide) (by decide) h

theorem write_up {s : Screen} (h : s.pending = .none) (n : Nat) :
    s.write (Ansi.up (toString n)) = s.up n := by
  have htext : (Ansi.up (toString n)).toList = '\x1b' :: '[' :: Nat.toDigits 10 n ++ ['A'] := by
    simp [Ansi.up]
  rw [← (control_count s n).1, ← steps_sequence h (isDigit_toDigits n) (by decide), ← htext]
  rfl

theorem write_down {s : Screen} (h : s.pending = .none) (n : Nat) :
    s.write (Ansi.down (toString n)) = s.down n := by
  have htext : (Ansi.down (toString n)).toList = '\x1b' :: '[' :: Nat.toDigits 10 n ++ ['B'] := by
    simp [Ansi.down]
  rw [← (control_count s n).2, ← steps_sequence h (isDigit_toDigits n) (by decide), ← htext]
  rfl

/-- Without capabilities the rows of a grid are counted in plain sequences. -/
theorem writeAll_cursorUp {s : Screen} (h : s.pending = .none) (n : Nat) :
    s.writeAll (CapabilitySet.empty.cursorUp (.ofRows n)).texts = s.up n := by
  rw [CapabilitySet.cursorUp_ofRows]
  split
  · rename_i hn
    simp [writeAll, hn, up]
  · exact write_up h n

theorem writeAll_cursorDown {s : Screen} (h : s.pending = .none) (n : Nat) :
    s.writeAll (CapabilitySet.empty.cursorDown (.ofRows n)).texts = s.down n := by
  rw [CapabilitySet.cursorDown_ofRows]
  split
  · rename_i hn
    simp [writeAll, hn, down]
  · exact write_down h n

/-! ### Clearing -/

/-- Blanks the row of the cursor. -/
def clearRow (s : Screen) : Screen :=
  { s with cell := fun row column => if row = s.row then ' ' else s.cell row column }

theorem writeAll_clearLine {s : Screen} (h : s.pending = .none) :
    s.writeAll CapabilitySet.empty.clearLine.texts = s.clearRow := by
  have hstart : s.write Ansi.clearToLineStart = s.erase fun column => column ≤ s.column := by
    have hsequence : s.steps ('\x1b' :: '[' :: ['1'] ++ ['K']) = s.control ['1'] 'K' :=
      steps_sequence h (by decide) (by decide)
    exact hsequence
  have hend (t : Screen) (ht : t.pending = .none) :
      t.write Ansi.clearToLineEnd = t.erase fun column => t.column ≤ column := by
    have hsequence : t.steps ('\x1b' :: '[' :: [] ++ ['K']) = t.control [] 'K' :=
      steps_sequence ht (by decide) (by decide)
    exact hsequence
  have hclear : s.writeAll CapabilitySet.empty.clearLine.texts =
      (s.write Ansi.clearToLineStart).write Ansi.clearToLineEnd := rfl
  rw [hclear, hstart, hend _ (by exact h)]
  ext row column
  · by_cases hrow : row = s.row
    · by_cases hcolumn : s.column ≤ column
      · simp [erase, clearRow, hrow, hcolumn]
      · have hcolumn' : column ≤ s.column := by omega
        simp [erase, clearRow, hrow, hcolumn, hcolumn']
    · simp [erase, clearRow, hrow]
  · rfl
  · rfl
  · rfl

/-- The cursor's row with a new text in it, and the cursor in front of that. -/
def rewriteRow (s : Screen) (text : List Char) : Screen :=
  { s with
    cell := fun row column =>
      if row = s.row then (text[column]?).getD ' ' else s.cell row column
    column := 0 }

/-- Clears a line, returns, writes it and returns again. -/
theorem writeAll_inPlace {s : Screen} (h : s.pending = .none) {texts : List String}
    {line : List Char} (htexts : texts.flatMap String.toList = line ++ ['\r'])
    (hline : ∀ c ∈ line, isControl c = false) :
    s.writeAll (CapabilitySet.empty.clearLine.texts ++ "\r" :: texts) = s.rewriteRow line := by
  have hreturn : (s.clearRow).write "\r" = { s.clearRow with column := 0 } := step_return h
  have hall : s.writeAll (CapabilitySet.empty.clearLine.texts ++ "\r" :: texts) =
      ({ s.clearRow with column := 0 } : Screen).writeAll texts := by
    rw [writeAll_append, writeAll_clearLine h, ← hreturn]
    rfl
  rw [hall, writeAll_eq_steps, htexts, steps_append, steps_printable (by exact h) hline, steps_cons,
    step_return (by rw [pending_putAll]; exact h)]
  ext row column
  · simp only [steps, List.foldl_nil, cell_putAll, clearRow, rewriteRow, Nat.zero_le, and_true,
      Nat.sub_zero]
    split
    · rfl
    · rfl
  · simp [steps, clearRow, rewriteRow]
  · rfl
  · simp [steps, clearRow, rewriteRow]

end Screen
end LiveProgress
