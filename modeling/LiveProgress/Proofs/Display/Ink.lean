import LiveProgress.Display.Ink
import LiveProgress.Proofs.Display.Grid
import LiveProgress.Proofs.Terminal.Ink

/-!
# Plain text on the display

A message leaves everything above the grid alone, and what stands in front of the cursor as
long as it does not write from the beginning of the line. So text that messages without
progress show stands to the end, unless one of them stops inside a line and the next message
writes from the beginning of that line; then the beginning of the line is lost. What is in a
cell that is left alone makes no difference elsewhere, which tells such cells from those that
are written with what was in them before.
-/

namespace LiveProgress

/-! ### Ends of lines -/

namespace Text

theorem chars_ne_nil {t : Text} (h : t ≠ []) : chars t ≠ [] := by
  unfold chars
  split
  · exact absurd rfl h
  · simp
  · split
    · simp
    · simp

end Text

namespace Message

variable {m : Message}

theorem IsLegible.lineEnd_or_open (h : m.IsLegible) (v : Viewport) :
    (m.shownText v "\n").getLast? = some '\n' ∨ m.LeavesLineOpen := by
  by_cases hs : m.hasProgress = true ∨ nonEmpty m.stream = none
  · left
    rw [(h.shownText_line hs v).2]
    simp
  · rw [not_or, Bool.not_eq_true, ← ne_eq, Option.ne_none_iff_exists'] at hs
    obtain ⟨hp, t, ht⟩ := hs
    by_cases hlast : t.string.toList.getLast? = some '\n'
    · left
      rw [shownText_eq_writes, content_stream hp ht, List.flatMap_append, List.getLast?_append]
      simp [hlast]
    · exact .inr ⟨hp, t, ht, hlast⟩

theorem LeavesLineOpen.getLast? (h : m.LeavesLineOpen) (v : Viewport) :
    ∃ c, (m.shownText v "\n").getLast? = some c ∧ c ≠ '\n' := by
  obtain ⟨hp, t, ht, hlast⟩ := h
  have hne : t ≠ [] := by
    obtain ⟨_, hne⟩ := Option.filter_eq_some_iff.mp ht
    simpa using hne
  have hchars : t.string.toList ≠ [] := by
    rw [Text.string, String.toList_ofList]
    exact Text.chars_ne_nil hne
  obtain ⟨c, hc⟩ := Option.ne_none_iff_exists'.mp (mt List.getLast?_eq_none_iff.mp hchars)
  refine ⟨c, ?_, fun h => hlast (by rw [hc, h])⟩
  rw [shownText_eq_writes, content_stream hp ht, List.flatMap_append, List.getLast?_append]
  simp [hc]

theorem LeavesLineOpen.rewritesLine (h : m.LeavesLineOpen) : m.rewritesLine = false := by
  simp [Message.rewritesLine, hasRow, Grid.rowId?, isInPlace, h.1]

end Message

/-! ### The writes of a message -/

namespace Message

variable {m : Message} {s : Screen} {row : Int} {column : Nat}

theorem IsLegible.pending_writeAll (h : m.IsLegible) (v : Viewport) (hs : s.pending = .none) :
    (s.writeAll (m.writes v)).pending = .none := by
  cases hplace : m.isInPlace with
  | true =>
    rw [h.writeAll_inPlace hplace v hs]
    exact hs
  | false =>
    rw [writeAll_text hplace]
    exact Screen.pending_steps hs (h.shownText v)

theorem IsLegible.row_writeAll (h : m.IsLegible) (v : Viewport) (hs : s.pending = .none) :
    s.row ≤ (s.writeAll (m.writes v)).row := by
  cases hplace : m.isInPlace with
  | true =>
    rw [h.writeAll_inPlace hplace v hs]
    exact Int.le_refl _
  | false =>
    rw [writeAll_text hplace]
    exact Screen.row_steps hs (h.shownText v)

theorem IsLegible.column_writeAll (h : m.IsLegible) (v : Viewport) (hs : s.pending = .none) :
    (s.writeAll (m.writes v)).column = 0 ∨ m.LeavesLineOpen := by
  cases hplace : m.isInPlace with
  | true =>
    rw [h.writeAll_inPlace hplace v hs]
    exact .inl rfl
  | false =>
    rw [writeAll_text hplace]
    exact (h.lineEnd_or_open v).imp_left (Screen.column_steps_lineEnd hs (h.shownText v))

/-- A message leaves the rows above the cursor alone, and if it is not shown in place also
what stands in front of the cursor. -/
theorem IsLegible.writeAll_fill (h : m.IsLegible) (v : Viewport) (hs : s.pending = .none)
    (hp : row < s.row ∨ m.isInPlace = false ∧ s.Passed row column) (x : Char) :
    (s.fill row column x).writeAll (m.writes v) =
      (s.writeAll (m.writes v)).fill row column x := by
  cases hplace : m.isInPlace with
  | true =>
    have hne : row ≠ s.row := by
      rcases hp with hp | ⟨hp, _⟩
      · omega
      · rw [hplace] at hp
        cases hp
    rw [h.writeAll_inPlace hplace v hs, h.writeAll_inPlace hplace v (by exact hs),
      Screen.rewriteRow_fill_of_ne hne]
  | false =>
    have hpassed : s.Passed row column := hp.elim .inl And.right
    rw [writeAll_text hplace, writeAll_text hplace]
    exact (Screen.steps_running hs (h.shownText v) hpassed).2.2 x

theorem IsLegible.exists_first (h : m.IsLegible) {id : Text} (hid : nonEmpty m.id = some id)
    (hp : m.hasProgress = true) (v : Viewport) :
    ∃ c cs, m.shownText v "\n" = c :: cs ∧ isControl c = false := by
  obtain ⟨hline, hend⟩ := h.shownText_line (.inl hp) v
  have hmem : ':' ∈ m.shownText v "" := by
    rw [mem_shownText]
    refine .inl ⟨id.string ++ ": ", ?_, by simp⟩
    simp [Message.heading, hid]
  cases hcs : m.shownText v "" with
  | nil =>
    rw [hcs] at hmem
    cases hmem
  | cons c cs =>
    rw [hcs] at hline
    refine ⟨c, cs ++ ['\n'], ?_, hline c List.mem_cons_self⟩
    rw [hend, hcs]
    rfl

end Message

namespace Grid

theorem approach_fill (g : Grid) (id : Text) (s : Screen) (row : Int) (column : Nat) (x : Char) :
    g.approach id (s.fill row column x) = (g.approach id s).fill row column x := by
  unfold approach
  split
  · rfl
  · rfl

/-- A message goes to a row of the grid or to the one below, and comes back to the row below
the grid with its row. -/
theorem row_approach (g : Grid) (id : Text) (s : Screen) :
    s.row - g.size ≤ (g.approach id s).row ∧
      (g.approach id s).row + (g.reserve id).distance id =
        s.row + (g.reserve id).size - g.size := by
  by_cases h : id ∈ g.rows
  · obtain ⟨i, _, hlt, hdistance⟩ := distance_of_mem h
    rw [reserve_of_mem h, approach, if_pos h, hdistance]
    simp only [Screen.up]
    omega
  · have hsize : (g.reserve id).size = g.size + 1 := by
      rw [reserve_of_not_mem h, size, List.length_append]
      rfl
    rw [distance_of_not_mem h, approach, if_neg h, hsize]
    simp only
    omega

end Grid

/-! ### Steps of the display -/

namespace Display

variable {d : Display Screen} {m : Message} {v : Viewport} {row : Int} {column : Nat}

theorem next_row (h : m.IsLegible) {id : Text} (hid : Grid.rowId? m = some id)
    (hs : d.out.pending = .none) (v : Viewport) :
    d.next v m = { d with
      grid := d.grid.reserve id
      out := ((d.grid.approach id d.out).writeAll (m.writes v)).down
        ((d.grid.reserve id).distance id) } := by
  have happroach : (d.grid.approach id d.out).pending = .none :=
    (Grid.pending_approach _ _ _).trans hs
  rw [next, advance_row h hid hs v (h.pending_writeAll v happroach)]

theorem next_plain (h : m.IsLegible) (hid : Grid.rowId? m = none) (v : Viewport) :
    d.next v m = { d with grid := {}, out := d.out.writeAll (m.writes v) } := by
  rw [next, advance_plain h hid v]

theorem advance_eq_next (h : m.IsLegible) (hs : d.out.pending = .none) (v : Viewport) :
    d.advance (some .empty) v m = (none, d.next v m) := by
  cases hid : Grid.rowId? m with
  | none => rw [next, advance_plain h hid v]
  | some id =>
    have happroach : (d.grid.approach id d.out).pending = .none :=
      (Grid.pending_approach _ _ _).trans hs
    rw [next, advance_row h hid hs v (h.pending_writeAll v happroach)]

theorem run_cons (h : m.IsLegible) (hs : d.out.pending = .none) (v : Viewport)
    (rest : List Message) :
    d.run (some .empty) v (m :: rest) = (d.next v m).run (some .empty) v rest := by
  rw [run, advance_eq_next h hs]

theorem pending_next (h : m.IsLegible) (hs : d.out.pending = .none) (v : Viewport) :
    (d.next v m).out.pending = .none := by
  cases hid : Grid.rowId? m with
  | none =>
    rw [next_plain h hid]
    exact h.pending_writeAll v hs
  | some id =>
    rw [next_row h hid hs]
    exact h.pending_writeAll v ((Grid.pending_approach _ _ _).trans hs)

/-- The cursor rests at the beginning of a line unless a message leaves one open. -/
theorem column_next (h : m.IsLegible) (hs : d.out.pending = .none) (v : Viewport) :
    (d.next v m).out.column = 0 ∨ m.LeavesLineOpen := by
  cases hid : Grid.rowId? m with
  | none =>
    rw [next_plain h hid]
    exact h.column_writeAll v hs
  | some id =>
    rw [next_row h hid hs]
    exact h.column_writeAll v ((Grid.pending_approach _ _ _).trans hs)

/-! ### Protected cells -/

/-- Cells above the grid, and without a grid those that the cursor has passed. -/
def Protected (d : Display Screen) (row : Int) (column : Nat) : Prop :=
  row < d.out.row - d.grid.size ∨ d.grid = {} ∧ d.out.Passed row column

theorem Protected.passed (h : d.Protected row column) : d.out.Passed row column := by
  rcases h with h | ⟨_, h⟩
  · left
    omega
  · exact h

theorem Protected.above (h : d.Protected row column) (hcolumn : d.out.column = 0) :
    row < d.out.row - d.grid.size := by
  rcases h with h | ⟨hgrid, h | ⟨_, h⟩⟩
  · exact h
  · rw [hgrid]
    simpa [Grid.size] using h
  · omega

/-- A message leaves protected cells alone, and they stay protected, unless it is written from
the beginning of a line that is open. -/
theorem protected_next (h : m.IsLegible) (hs : d.out.pending = .none)
    (hopen : d.out.column = 0 ∨ m.rewritesLine = false) (hp : d.Protected row column)
    (v : Viewport) :
    (d.next v m).Protected row column ∧
      ∀ x, (d.fill row column x).next v m = (d.next v m).fill row column x := by
  cases hid : Grid.rowId? m with
  | some id =>
    have hrewrites : m.rewritesLine = true := by simp [Message.rewritesLine, Message.hasRow, hid]
    have habove := hp.above (hopen.resolve_right (by simp [hrewrites]))
    obtain ⟨hlow, hback⟩ := d.grid.row_approach id d.out
    have happroach : (d.grid.approach id d.out).pending = .none :=
      (Grid.pending_approach _ _ _).trans hs
    have hrow := h.row_writeAll v happroach
    -- The message writes below what is protected, and the cursor comes back below the grid.
    constructor
    · rw [next_row h hid hs]
      left
      simp only [Screen.down]
      omega
    · intro x
      have hfill : ((d.grid.approach id d.out).fill row column x).writeAll (m.writes v) =
          ((d.grid.approach id d.out).writeAll (m.writes v)).fill row column x :=
        h.writeAll_fill v happroach (.inl (by omega)) x
      rw [next_row h hid hs, next_row h hid (by exact hs)]
      simp only [fill, Grid.approach_fill, hfill]
      rfl
  | none =>
    have hpassed := hp.passed
    have hplain : row < d.out.row ∨ m.isInPlace = false ∧ d.out.Passed row column := by
      cases hplace : m.isInPlace with
      | false => exact .inr ⟨rfl, hpassed⟩
      | true =>
        have hrewrites : m.rewritesLine = true := by simp [Message.rewritesLine, hplace]
        have habove := hp.above (hopen.resolve_right (by simp [hrewrites]))
        left
        omega
    constructor
    · rw [next_plain h hid]
      refine .inr ⟨rfl, ?_⟩
      rcases hplain with hlt | ⟨hplace, _⟩
      · have hrow := h.row_writeAll v hs
        exact .inl (by simp only; omega)
      · simp only [Message.writeAll_text hplace]
        exact (Screen.steps_running hs (h.shownText v) hpassed).2.1
    · intro x
      rw [next_plain h hid, next_plain h hid]
      simp only [fill, h.writeAll_fill v hs hplain]

theorem fill_cell (d : Display Screen) (row : Int) (column : Nat) :
    d.fill row column (d.out.cell row column) = d := by
  rw [fill, Screen.fill_cell]

/-- The next of some messages may be written from the beginning of a line if the cursor is
there. -/
def MayGoOn (d : Display Screen) (messages : List Message) : Prop :=
  d.out.column = 0 ∨ ∀ m ∈ messages.head?, m.rewritesLine = false

theorem mayGoOn_next {rest : List Message} (h : m.IsLegible) (hs : d.out.pending = .none)
    (hchain : LinesAreLeftAlone (m :: rest)) (v : Viewport) : (d.next v m).MayGoOn rest := by
  apply (column_next h hs v).imp_right
  intro hopen b hb
  cases rest with
  | nil => cases hb
  | cons b' rest =>
    obtain rfl := Option.some.inj hb
    obtain ⟨hab, _⟩ := List.isChain_cons_cons.mp hchain
    by_contra hrewrites
    exact hab ⟨hopen, by simpa using hrewrites⟩

/-- As long as no open line is written from its beginning, protected cells are left alone. -/
theorem run_protected {messages : List Message} (h : ∀ m ∈ messages, m.IsLegible)
    (hs : d.out.pending = .none) (hopen : d.MayGoOn messages)
    (hchain : LinesAreLeftAlone messages) (hp : d.Protected row column) (v : Viewport) (x : Char) :
    ((d.fill row column x).run (some .empty) v messages).2 =
      (d.run (some .empty) v messages).2.fill row column x := by
  induction messages generalizing d with
  | nil => rfl
  | cons m rest ih =>
    obtain ⟨hm, hrest⟩ := List.forall_mem_cons.mp h
    obtain ⟨hprotected, hfill⟩ :=
      protected_next hm hs (hopen.imp_right fun h => h m rfl) hp v
    rw [run_cons hm hs, run_cons hm (by exact hs), hfill]
    exact ih hrest (pending_next hm hs v) (mayGoOn_next hm hs hchain v) hchain.of_cons hprotected

theorem Protected.keeps {messages : List Message} (hp : d.Protected row column)
    (h : ∀ m ∈ messages, m.IsLegible) (hs : d.out.pending = .none) (hopen : d.MayGoOn messages)
    (hchain : LinesAreLeftAlone messages) (v : Viewport) : d.Keeps v messages row column := by
  intro c
  rw [run_protected h hs hopen hchain hp]
  exact Screen.cell_fill _ _ _ _

theorem Protected.cell_run {messages : List Message} (hp : d.Protected row column)
    (h : ∀ m ∈ messages, m.IsLegible) (hs : d.out.pending = .none) (hopen : d.MayGoOn messages)
    (hchain : LinesAreLeftAlone messages) (v : Viewport) :
    (d.run (some .empty) v messages).2.out.cell row column = d.out.cell row column := by
  have hkeeps := hp.keeps h hs hopen hchain v (d.out.cell row column)
  rwa [fill_cell] at hkeeps

/-- Messages write behind the cells that are protected. -/
theorem Protected.before {messages : List Message} {i : Ink} (hp : d.Protected i.row i.column)
    (h : ∀ m ∈ messages, m.IsLegible) (hs : d.out.pending = .none) (hopen : d.MayGoOn messages)
    (hchain : LinesAreLeftAlone messages) (v : Viewport) :
    ∀ j ∈ d.plainInk v messages, i.Before j := by
  induction messages generalizing d with
  | nil =>
    intro j hj
    cases hj
  | cons m rest ih =>
    obtain ⟨hm, hrest⟩ := List.forall_mem_cons.mp h
    intro j hj
    rcases List.mem_append.mp hj with hj | hj
    · split at hj
      · cases hj
      · exact hp.passed.before ((Screen.ink_running hs (hm.shownText v)).1 j hj).1
    · obtain ⟨hprotected, _⟩ := protected_next hm hs (hopen.imp_right fun h => h m rfl) hp v
      exact ih hprotected hrest (pending_next hm hs v) (mayGoOn_next hm hs hchain v)
        hchain.of_cons j hj

/-! ### Text that stands -/

/-- A message without progress writes its text at the cursor. -/
theorem next_text (h : m.IsLegible) (hp : m.hasProgress = false) (v : Viewport) :
    d.next v m = { d with grid := {}, out := d.out.steps (m.shownText v "\n") } := by
  have hid : Grid.rowId? m = none := by simp [Grid.rowId?, hp]
  have hplace : m.isInPlace = false := by simp [Message.isInPlace, hp]
  rw [next_plain h hid, Message.writeAll_text hplace]

theorem protected_ink (h : m.IsLegible) (hp : m.hasProgress = false) (hs : d.out.pending = .none)
    {v : Viewport} {i : Ink} (hi : i ∈ d.out.ink (m.shownText v "\n")) :
    (d.next v m).Protected i.row i.column := by
  rw [next_text h hp]
  exact .inr ⟨rfl, ((Screen.ink_running hs (h.shownText v)).1 i hi).2.1⟩

/-- As long as no open line is written from its beginning, the texts of messages without
progress stand. -/
theorem text_stands {messages : List Message} (h : ∀ m ∈ messages, m.IsLegible)
    (hs : d.out.pending = .none) (hchain : LinesAreLeftAlone messages) (v : Viewport) :
    (∀ i ∈ d.plainInk v messages,
      (d.run (some .empty) v messages).2.out.cell i.row i.column = i.char) ∧
      (d.plainInk v messages).Pairwise Ink.Before ∧ d.KeepsPlain v messages := by
  induction messages generalizing d with
  | nil =>
    refine ⟨?_, .nil, trivial⟩
    intro i hi
    cases hi
  | cons m rest ih =>
    obtain ⟨hm, hrest⟩ := List.forall_mem_cons.mp h
    have hpending := pending_next hm hs v
    have hopen := mayGoOn_next hm hs hchain v
    obtain ⟨hshown, hpairs, hkeeps⟩ := ih hrest hpending hchain.of_cons
    rw [run_cons hm hs]
    cases hp : m.hasProgress with
    | true =>
      have hink : d.plainInk v (m :: rest) = (d.next v m).plainInk v rest := by
        simp [plainInk, hp]
      rw [hink]
      exact ⟨hshown, hpairs, fun h => absurd (hp.symm.trans h) (by decide), hkeeps⟩
    | false =>
      have hink : d.plainInk v (m :: rest) =
          d.out.ink (m.shownText v "\n") ++ (d.next v m).plainInk v rest := by
        simp [plainInk, hp]
      obtain ⟨hown, hownPairs⟩ := Screen.ink_running hs (hm.shownText v)
      rw [hink]
      refine ⟨fun i hi => ?_, List.pairwise_append.mpr ⟨hownPairs, hpairs, fun i hi => ?_⟩,
        fun _ i hi => ?_, hkeeps⟩
      · rcases List.mem_append.mp hi with hi | hi
        · rw [(protected_ink hm hp hs hi).cell_run hrest hpending hopen hchain.of_cons,
            next_text hm hp]
          exact (hown i hi).2.2
        · exact hshown i hi
      · exact (protected_ink hm hp hs hi).before hrest hpending hopen hchain.of_cons v
      · exact (protected_ink hm hp hs hi).keeps hrest hpending hopen hchain.of_cons v

/-! ### Text that is lost -/

/-- Nothing is left of the beginning of a line that a message writes from there. -/
theorem next_fill_lineStart {b : Message} (h : b.IsLegible) (hb : b.rewritesLine = true)
    (hs : d.out.pending = .none) (hgrid : d.grid = {}) (v : Viewport) (x : Char) :
    (d.fill d.out.row 0 x).next v b = d.next v b := by
  cases hid : Grid.rowId? b with
  | none =>
    have hplace : b.isInPlace = true := by
      simpa [Message.rewritesLine, Message.hasRow, hid] using hb
    rw [next_plain h hid, next_plain h hid, h.writeAll_inPlace hplace v hs,
      h.writeAll_inPlace hplace v (by exact hs)]
    exact congrArg (fun out => { d with grid := {}, out }) (Screen.rewriteRow_fill _ _ _ _)
  | some id =>
    obtain ⟨hfield, hp⟩ := Option.filter_eq_some_iff.mp hid
    have hnew : id ∉ d.grid.rows := by
      rw [hgrid]
      exact List.not_mem_nil
    have hstart : d.grid.approach id d.out = { d.out with column := 0 } := by
      rw [Grid.approach, if_neg hnew]
    have hwrites : ((d.grid.approach id d.out).fill d.out.row 0 x).writeAll (b.writes v) =
        (d.grid.approach id d.out).writeAll (b.writes v) := by
      rw [hstart]
      cases hplace : b.isInPlace with
      | true =>
        rw [h.writeAll_inPlace hplace v (by exact hs), h.writeAll_inPlace hplace v (by exact hs)]
        exact Screen.rewriteRow_fill _ _ _ _
      | false =>
        obtain ⟨c, cs, hcs, hc⟩ := h.exists_first hfield hp v
        rw [Message.writeAll_text hplace, Message.writeAll_text hplace, hcs, Screen.steps_cons,
          Screen.steps_cons, Screen.step_printable (by exact hs) hc,
          Screen.step_printable (by exact hs) hc]
        exact congrArg (Screen.steps · cs) (Screen.put_fill_self _ c x)
    rw [next_row h hid hs, next_row h hid (by exact hs)]
    simp only [fill, Grid.approach_fill, hwrites]

theorem not_keeps_lineStart {b : Message} {rest : List Message} (h : b.IsLegible)
    (hb : b.rewritesLine = true) (hs : d.out.pending = .none) (hgrid : d.grid = {})
    (v : Viewport) : ¬ d.Keeps v (b :: rest) d.out.row 0 := by
  intro hkeeps
  have hcell (c : Char) : ((d.next v b).run (some .empty) v rest).2.out.cell d.out.row 0 = c := by
    have hc := hkeeps c
    rwa [run_cons h (by exact hs), next_fill_lineStart h hb hs hgrid] at hc
  have hsame : 'a' = 'b' := (hcell 'a').symm.trans (hcell 'b')
  exact absurd hsame (by decide)

/-- Where all text stands, no open line is written from its beginning: not one that the
messages leave open, and not the one they find. -/
theorem linesAreLeftAlone_of_keepsPlain {messages : List Message}
    (h : ∀ m ∈ messages, m.IsLegible) (hs : d.out.pending = .none)
    (hgrid : 0 < d.out.column → d.grid = {})
    (hstart : 0 < d.out.column → d.Keeps v messages d.out.row 0)
    (hkeeps : d.KeepsPlain v messages) :
    LinesAreLeftAlone messages ∧
      (0 < d.out.column → ∀ b ∈ messages.head?, b.rewritesLine = false) := by
  -- The second part carries the induction: a line that is found open may have been begun by
  -- messages far in front, and it is their text at its beginning that would be lost.
  induction messages generalizing d with
  | nil =>
    refine ⟨.nil, ?_⟩
    intro _ b hb
    cases hb
  | cons m rest ih =>
    obtain ⟨hm, hrest⟩ := List.forall_mem_cons.mp h
    have hfound (hcolumn : 0 < d.out.column) : m.rewritesLine = false := by
      by_contra hrewrites
      exact not_keeps_lineStart hm (by simpa using hrewrites) hs (hgrid hcolumn) v (hstart hcolumn)
    have hopen (hcolumn : 0 < (d.next v m).out.column) : m.LeavesLineOpen :=
      (column_next hm hs v).resolve_left (by omega)
    have hgrid' (hcolumn : 0 < (d.next v m).out.column) : (d.next v m).grid = {} := by
      rw [next_text hm (hopen hcolumn).1]
    have hstart' (hcolumn : 0 < (d.next v m).out.column) :
        (d.next v m).Keeps v rest (d.next v m).out.row 0 := by
      have hp := (hopen hcolumn).1
      have hout : (d.next v m).out = d.out.steps (m.shownText v "\n") := by rw [next_text hm hp]
      rw [hout] at hcolumn
      rcases Screen.exists_ink_lineStart hs (hm.shownText v) hcolumn with
        ⟨i, hi, hrow, hzero⟩ | ⟨hpos, hrow⟩
      · have hi' := hkeeps.1 hp i hi
        rwa [hrow, hzero, ← hout] at hi'
      · -- The line was open before, and the message writes on in it.
        have hprotected : d.Protected d.out.row 0 := .inr ⟨hgrid hpos, .inr ⟨rfl, hpos⟩⟩
        obtain ⟨_, hfill⟩ := protected_next hm hs (.inr (hfound hpos)) hprotected v
        intro c
        have hc := hstart hpos c
        rw [run_cons hm (by exact hs), hfill] at hc
        rw [hout, hrow]
        exact hc
    obtain ⟨hchain, hnext⟩ := ih hrest (pending_next hm hs v) hgrid' hstart' hkeeps.2
    constructor
    · apply List.isChain_cons.mpr
      refine ⟨?_, hchain⟩
      rintro b hb ⟨hleaves, hrewrites⟩
      obtain ⟨c, hlast, hc⟩ := hleaves.getLast? v
      have hcolumn : 0 < (d.next v m).out.column := by
        rw [next_text hm hleaves.1]
        exact Screen.column_steps_open hs (hm.shownText v) hlast hc
      rw [hnext hcolumn b hb] at hrewrites
      cases hrewrites
    · intro hcolumn b hb
      obtain rfl := Option.some.inj hb
      exact hfound hcolumn

end Display

/-- On an empty screen, the texts of messages without progress stand at the end exactly if no
message that is written from the beginning of a line follows text that stops inside one. -/
theorem plain_text_stands_iff (v : Viewport) (messages : List Message)
    (h : ∀ m ∈ messages, m.IsLegible) :
    PlainTextStands v messages ↔ LinesAreLeftAlone messages := by
  constructor
  · intro hstands
    exact (Display.linesAreLeftAlone_of_keepsPlain h rfl (fun _ => rfl)
      (fun hcolumn => absurd hcolumn (Nat.lt_irrefl 0)) hstands.kept).1
  · intro hchain
    obtain ⟨hshown, hpairs, hkeeps⟩ := Display.text_stands (d := { out := {} }) h rfl hchain v
    exact ⟨hshown, hpairs, hkeeps⟩

/-- Text that stops inside a line is gone on in, and a grid is begun behind the end of the
line. -/
theorem plain_text_stands_before_grid :
    let text := Text.ofString
    let messages : List Message := [{ stream := text "a" }, { stream := text "b\n" },
      { id := text "x", progress := text "1" }, { progress := text "2" }, { stream := text "c" }]
    (∀ m ∈ messages, m.IsLegible) ∧ PlainTextStands {} messages := by
  intro text messages
  have h : ∀ m ∈ messages, m.IsLegible := by decide
  exact ⟨h, (plain_text_stands_iff {} messages h).mpr (by decide)⟩

/-- A row that is begun behind text that stops inside a line wipes the text out. -/
theorem plain_text_is_wiped_out :
    let text := Text.ofString
    let messages : List Message :=
      [{ stream := text "abc" }, { id := text "a", progress := text "x" }]
    let shown := (({ out := {} } : Display Screen).run (some .empty) {} messages).2.out
    (∀ m ∈ messages, m.IsLegible) ∧ (List.range 6).map (shown.cell 0) = "a:  x ".toList ∧
      ¬ PlainTextStands {} messages := by
  intro text messages shown
  refine ⟨by decide, by decide +kernel, ?_⟩
  intro hstands
  have hwritten : shown.cell 0 1 = 'b' := hstands.shown ⟨0, 1, 'b'⟩ (by decide +kernel)
  exact absurd hwritten (by decide +kernel)

end LiveProgress
