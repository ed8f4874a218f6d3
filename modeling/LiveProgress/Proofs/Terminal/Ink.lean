import LiveProgress.Proofs.Terminal.Screen
import LiveProgress.Terminal.Ink

/-!
# Ink that stays

Text in which nothing but line ends moves the cursor from its line is put behind the cursor,
in the order of reading, and leaves alone what the cursor has passed, whatever it is. A row
that is rewritten and a cell in which a character is put keep nothing of what they held.
-/

namespace LiveProgress
namespace Screen

/-! ### Cells -/

theorem cell_fill (s : Screen) (row : Int) (column : Nat) (c : Char) :
    (s.fill row column c).cell row column = c := by
  simp [fill]

theorem fill_cell (s : Screen) (row : Int) (column : Nat) :
    s.fill row column (s.cell row column) = s := by
  refine Screen.ext (fun r k => ?_) rfl rfl rfl
  simp only [fill]
  split
  · rename_i h
    rw [h.1, h.2]
  · rfl

/-- The cursor is behind a cell. -/
def Passed (s : Screen) (row : Int) (column : Nat) : Prop :=
  row < s.row ∨ row = s.row ∧ column < s.column

variable {s : Screen} {row : Int} {column : Nat}

theorem put_fill (h : s.Passed row column) (c x : Char) :
    (s.fill row column x).put c = (s.put c).fill row column x := by
  refine Screen.ext (fun r k => ?_) rfl rfl rfl
  change (if r = s.row ∧ k = s.column then c
      else if r = row ∧ k = column then x else s.cell r k) =
    if r = row ∧ k = column then x else if r = s.row ∧ k = s.column then c else s.cell r k
  by_cases hcursor : r = s.row ∧ k = s.column
  · have hne : ¬ (r = row ∧ k = column) := by
      rintro ⟨hr, hk⟩
      rcases h with h | ⟨_, h⟩
      · omega
      · omega
    rw [if_pos hcursor, if_neg hne, if_pos hcursor]
  · rw [if_neg hcursor, if_neg hcursor]

/-! ### Printable characters and line ends -/

theorem pending_step (hs : s.pending = .none) {c : Char} (hc : isControl c = true → c = '\n') :
    (s.step c).pending = .none := by
  cases hcontrol : isControl c with
  | true =>
    rw [hc hcontrol, step_lineFeed hs]
    exact hs
  | false =>
    rw [step_printable hs hcontrol]
    exact hs

theorem passed_step (hs : s.pending = .none) {c : Char} (hc : isControl c = true → c = '\n')
    (h : s.Passed row column) : (s.step c).Passed row column := by
  cases hcontrol : isControl c with
  | true =>
    rw [hc hcontrol, step_lineFeed hs]
    left
    change row < s.row + 1
    rcases h with h | ⟨h, _⟩
    · omega
    · omega
  | false =>
    rw [step_printable hs hcontrol]
    rcases h with h | ⟨hr, hk⟩
    · exact .inl h
    · exact .inr ⟨hr, Nat.lt_succ_of_lt hk⟩

/-- Cells that the cursor has passed are left alone. -/
theorem step_fill (hs : s.pending = .none) {c : Char} (hc : isControl c = true → c = '\n')
    (h : s.Passed row column) (x : Char) :
    (s.fill row column x).step c = (s.step c).fill row column x := by
  cases hcontrol : isControl c with
  | true =>
    rw [hc hcontrol, step_lineFeed hs, step_lineFeed (by exact hs)]
    rfl
  | false => rw [step_printable hs hcontrol, step_printable (by exact hs) hcontrol, put_fill h]

/-- Text in which line ends are the only control characters. -/
def IsRunning (text : List Char) : Prop := ∀ c ∈ text, isControl c = true → c = '\n'

theorem steps_running {text : List Char} (hs : s.pending = .none) (htext : IsRunning text)
    (h : s.Passed row column) :
    (s.steps text).pending = .none ∧ (s.steps text).Passed row column ∧
      ∀ x, (s.fill row column x).steps text = (s.steps text).fill row column x := by
  induction text generalizing s with
  | nil => exact ⟨hs, h, fun _ => rfl⟩
  | cons c text ih =>
    obtain ⟨hc, hrest⟩ := List.forall_mem_cons.mp htext
    obtain ⟨hpending, hpassed, hfill⟩ := ih (pending_step hs hc) hrest (passed_step hs hc h)
    refine ⟨hpending, hpassed, ?_⟩
    intro x
    rw [steps_cons, step_fill hs hc h x]
    exact hfill x

theorem pending_steps {text : List Char} (hs : s.pending = .none) (htext : IsRunning text) :
    (s.steps text).pending = .none := by
  have hpassed : s.Passed (s.row - 1) 0 := .inl (by omega)
  exact (steps_running hs htext hpassed).1

theorem row_steps {text : List Char} (hs : s.pending = .none) (htext : IsRunning text) :
    s.row ≤ (s.steps text).row := by
  have hpassed : s.Passed (s.row - 1) (s.steps text).column := .inl (by omega)
  have hlater := (steps_running hs htext hpassed).2.1
  simp only [Passed] at hlater
  omega

theorem column_steps_lineEnd {text : List Char} (hs : s.pending = .none)
    (htext : IsRunning text) (hlast : text.getLast? = some '\n') : (s.steps text).column = 0 := by
  obtain ⟨front, rfl⟩ := List.getLast?_eq_some_iff.mp hlast
  have hfront := pending_steps hs fun c hc => htext c (List.mem_append_left _ hc)
  rw [steps_append, steps_cons, step_lineFeed hfront]
  rfl

theorem column_steps_open {text : List Char} {c : Char} (hs : s.pending = .none)
    (htext : IsRunning text) (hlast : text.getLast? = some c) (hc : c ≠ '\n') :
    0 < (s.steps text).column := by
  obtain ⟨front, rfl⟩ := List.getLast?_eq_some_iff.mp hlast
  have hfront := pending_steps hs fun c hc => htext c (List.mem_append_left _ hc)
  have hcontrol : isControl c = false := by
    by_contra h
    exact hc (htext c (by simp) (by simpa using h))
  rw [steps_append, steps_cons, step_printable hfront hcontrol]
  exact Nat.succ_pos _

/-! ### Rewritten rows -/

theorem rewriteRow_fill_of_ne (h : row ≠ s.row) (text : List Char) (x : Char) :
    (s.fill row column x).rewriteRow text = (s.rewriteRow text).fill row column x := by
  refine Screen.ext (fun r k => ?_) rfl rfl rfl
  change (if r = s.row then (text[k]?).getD ' '
      else if r = row ∧ k = column then x else s.cell r k) =
    if r = row ∧ k = column then x else if r = s.row then (text[k]?).getD ' ' else s.cell r k
  by_cases hr : r = s.row
  · have hne : ¬ (r = row ∧ k = column) := fun hrk => h (hrk.1.symm.trans hr)
    rw [if_pos hr, if_neg hne, if_pos hr]
  · rw [if_neg hr, if_neg hr]

/-- Nothing is left of a row that is rewritten. -/
theorem rewriteRow_fill (s : Screen) (column : Nat) (text : List Char) (x : Char) :
    (s.fill s.row column x).rewriteRow text = s.rewriteRow text := by
  refine Screen.ext (fun r k => ?_) rfl rfl rfl
  change (if r = s.row then (text[k]?).getD ' '
      else if r = s.row ∧ k = column then x else s.cell r k) =
    if r = s.row then (text[k]?).getD ' ' else s.cell r k
  by_cases hr : r = s.row
  · rw [if_pos hr, if_pos hr]
  · have hne : ¬ (r = s.row ∧ k = column) := fun hrk => hr hrk.1
    rw [if_neg hr, if_neg hr, if_neg hne]

theorem put_fill_self (s : Screen) (c x : Char) :
    (s.fill s.row s.column x).put c = s.put c := by
  refine Screen.ext (fun r k => ?_) rfl rfl rfl
  change (if r = s.row ∧ k = s.column then c
      else if r = s.row ∧ k = s.column then x else s.cell r k) =
    if r = s.row ∧ k = s.column then c else s.cell r k
  by_cases hcursor : r = s.row ∧ k = s.column
  · rw [if_pos hcursor, if_pos hcursor]
  · rw [if_neg hcursor, if_neg hcursor, if_neg hcursor]

/-! ### Ink -/

theorem cell_steps {text : List Char} (hs : s.pending = .none) (htext : IsRunning text)
    (h : s.Passed row column) : (s.steps text).cell row column = s.cell row column := by
  have hfill := (steps_running hs htext h).2.2 (s.cell row column)
  rw [fill_cell] at hfill
  rw [hfill, cell_fill]

theorem ink_lineFeed (hs : s.pending = .none) (text : List Char) :
    s.ink ('\n' :: text) = (s.step '\n').ink text := by
  simp [ink, hs]

theorem ink_printable (hs : s.pending = .none) {c : Char} (hc : isControl c = false)
    (text : List Char) : s.ink (c :: text) = ⟨s.row, s.column, c⟩ :: (s.step c).ink text := by
  have hmark : c ∉ ['\n', '\r', '\x1b'] := by
    have hcontrol : ∀ d ∈ ['\n', '\r', '\x1b'], isControl d = true := by decide
    intro h
    rw [hcontrol c h] at hc
    cases hc
  rw [ink, if_pos ⟨hs, hmark⟩]
  rfl

/-- What the cursor has passed comes before what it has not. -/
theorem Passed.before {i j : Ink} (hi : s.Passed i.row i.column)
    (hj : ¬ s.Passed j.row j.column) : i.Before j := by
  simp only [Passed, Ink.Before] at *
  omega

/-- Text is put behind the cursor in the order of reading, and is there when the cursor has
passed it. -/
theorem ink_running {text : List Char} (hs : s.pending = .none) (htext : IsRunning text) :
    (∀ i ∈ s.ink text, ¬ s.Passed i.row i.column ∧ (s.steps text).Passed i.row i.column ∧
      (s.steps text).cell i.row i.column = i.char) ∧ (s.ink text).Pairwise Ink.Before := by
  induction text generalizing s with
  | nil =>
    refine ⟨?_, .nil⟩
    intro i hi
    cases hi
  | cons c text ih =>
    obtain ⟨hc, hrest⟩ := List.forall_mem_cons.mp htext
    have hs' := pending_step hs hc
    obtain ⟨hink, hpairs⟩ := ih hs' hrest
    have hlater : ∀ i ∈ (s.step c).ink text, ¬ s.Passed i.row i.column ∧
        (s.steps (c :: text)).Passed i.row i.column ∧
          (s.steps (c :: text)).cell i.row i.column = i.char := by
      intro i hi
      obtain ⟨hbehind, hpassed, hcell⟩ := hink i hi
      exact ⟨mt (passed_step hs hc) hbehind, hpassed, hcell⟩
    cases hcontrol : isControl c with
    | true =>
      obtain rfl := hc hcontrol
      rw [ink_lineFeed hs]
      exact ⟨hlater, hpairs⟩
    | false =>
      have hput : s.step c = s.put c := step_printable hs hcontrol
      have hpassed : (s.step c).Passed s.row s.column := by
        rw [hput]
        exact .inr ⟨rfl, Nat.lt_succ_self _⟩
      have hcell : (s.steps (c :: text)).cell s.row s.column = c := by
        rw [steps_cons, cell_steps hs' hrest hpassed, hput]
        simp [put]
      rw [ink_printable hs hcontrol]
      constructor
      · intro i hi
        rcases List.mem_cons.mp hi with rfl | hi
        · refine ⟨?_, (steps_running hs' hrest hpassed).2.1, hcell⟩
          simp [Passed]
        · exact hlater i hi
      · apply List.pairwise_cons.mpr
        refine ⟨?_, hpairs⟩
        intro j hj
        exact hpassed.before (hink j hj).1

/-- The beginning of the line in which text stops is text, its own if the line is. -/
theorem exists_ink_lineStart {text : List Char} (hs : s.pending = .none)
    (htext : IsRunning text) (hcolumn : 0 < (s.steps text).column) :
    (∃ i ∈ s.ink text, i.row = (s.steps text).row ∧ i.column = 0) ∨
      0 < s.column ∧ (s.steps text).row = s.row := by
  induction text generalizing s with
  | nil => exact .inr ⟨hcolumn, rfl⟩
  | cons c text ih =>
    obtain ⟨hc, hrest⟩ := List.forall_mem_cons.mp htext
    have hstart := ih (pending_step hs hc) hrest hcolumn
    cases hcontrol : isControl c with
    | true =>
      obtain rfl := hc hcontrol
      rcases hstart with hink | ⟨hbehind, _⟩
      · rw [ink_lineFeed hs]
        exact .inl hink
      · rw [step_lineFeed hs] at hbehind
        exact absurd hbehind (Nat.lt_irrefl 0)
    | false =>
      rw [ink_printable hs hcontrol]
      rcases hstart with ⟨i, hi, hstart⟩ | ⟨_, hrow⟩
      · exact .inl ⟨i, List.mem_cons_of_mem _ hi, hstart⟩
      · have hrow' : (s.steps (c :: text)).row = s.row := by
          rw [steps_cons, hrow, step_printable hs hcontrol]
          rfl
        rcases Nat.eq_zero_or_pos s.column with hzero | hpos
        · exact .inl ⟨⟨s.row, s.column, c⟩, List.mem_cons_self, hrow'.symm, hzero⟩
        · exact .inr ⟨hpos, hrow'⟩

end Screen
end LiveProgress
