import LiveProgress.Proofs.Display.Grid
import Mathlib.Data.List.Induction
import Mathlib.Data.List.Nodup
import Mathlib.Data.List.TakeWhile

/-!
# The display refines a compacted log

Messages that keep to whole lines leave on a screen the rows of the compacted log and
nothing else. Along a run of messages with progress the operations of the grid are those
seen so far, in the order in which they were first seen, and the rows below the settled ones
show their last lines; so the distance to a row leads to the row of its operation.
-/

namespace LiveProgress

/-! ### First appearances -/

section Dups

variable {α : Type} [BEq α] [LawfulBEq α]

theorem eraseDups_concat (l : List α) (a : α) :
    (l ++ [a]).eraseDups = if a ∈ l then l.eraseDups else l.eraseDups ++ [a] := by
  rw [List.eraseDups_append]
  by_cases h : a ∈ l
  · simp [List.removeAll, h]
  · simp [List.removeAll, h, List.eraseDups_cons]

theorem nodup_eraseDups (l : List α) : l.eraseDups.Nodup := by
  induction l using List.reverseRecOn with
  | nil => exact List.nodup_nil
  | append_singleton l b ih =>
    rw [eraseDups_concat]
    split
    · exact ih
    · rename_i hb
      rw [List.nodup_append_comm]
      exact List.nodup_cons.mpr ⟨mt List.mem_eraseDups.mp hb, ih⟩

end Dups

/-! ### Rows of a screen -/

namespace Screen

theorem cell_showing {rows : List (List Char)} {row : Int} (h : 0 ≤ row) (column : Nat) :
    (showing rows).cell row column = ((rows[row.toNat]?).bind (·[column]?)).getD ' ' := by
  have hneg : ¬ row < 0 := by omega
  simp only [showing, if_neg hneg]

theorem cell_showing_neg {rows : List (List Char)} {row : Int} (h : row < 0) (column : Nat) :
    (showing rows).cell row column = ' ' := by
  simp only [showing, if_pos h]

/-- A row of a screen is rewritten from below. -/
theorem rewriteRow_showing {rows : List (List Char)} {i n : Nat} (hi : i < rows.length)
    (hn : i + n = rows.length) (text : List Char) :
    (((showing rows).up n).rewriteRow text).down n = showing (rows.set i text) := by
  have hup : (showing rows).row - n = i := by
    simp only [showing]
    omega
  refine Screen.ext (fun row column => ?_) (by simp [rewriteRow, down, up, showing]) rfl rfl
  change (if row = (showing rows).row - n then (text[column]?).getD ' '
    else (showing rows).cell row column) = _
  rw [hup]
  by_cases hneg : row < 0
  · rw [if_neg (by omega), cell_showing_neg hneg, cell_showing_neg hneg]
  · rw [cell_showing (by omega), cell_showing (by omega)]
    by_cases hrow : row = i
    · have hnat : row.toNat = i := by omega
      rw [if_pos hrow, hnat]
      simp [hi]
    · have hnat : i ≠ row.toNat := by omega
      rw [if_neg hrow, List.getElem?_set_ne hnat]

theorem cell_showing_concat (rows : List (List Char)) (text : List Char) (row : Int)
    (column : Nat) : (showing (rows ++ [text])).cell row column =
      if row = rows.length then (text[column]?).getD ' ' else (showing rows).cell row column := by
  by_cases hneg : row < 0
  · rw [if_neg (by omega), cell_showing_neg hneg, cell_showing_neg hneg]
  · rw [cell_showing (by omega), cell_showing (by omega)]
    by_cases hrow : row = rows.length
    · have hnat : row.toNat = rows.length := by omega
      rw [if_pos hrow, hnat]
      simp
    · rw [if_neg hrow]
      by_cases hlt : row.toNat < rows.length
      · rw [List.getElem?_append_left hlt]
      · have hle : (rows ++ [text]).length ≤ row.toNat := by
          simp only [List.length_append, List.length_singleton]
          omega
        rw [List.getElem?_eq_none hle, List.getElem?_eq_none (by omega)]

theorem rewriteRow_showing_end (rows : List (List Char)) (line : List Char) :
    ((showing rows).rewriteRow line).down 1 = showing (rows ++ [line]) :=
  Screen.ext (fun row column => (cell_showing_concat rows line row column).symm)
    (by simp [rewriteRow, down, showing]) rfl rfl

theorem steps_line (rows : List (List Char)) {line : List Char}
    (h : ∀ c ∈ line, isControl c = false) :
    (showing rows).steps (line ++ ['\n']) = showing (rows ++ [line]) := by
  rw [steps_append, steps_printable rfl h, steps_cons, step_lineFeed (by simp [showing])]
  refine Screen.ext (fun row column => ?_) (by simp [steps, showing]) rfl (by simp [steps, showing])
  have hcell := cell_putAll (showing rows) line row column
  have hblank : (showing rows).cell rows.length column = ' ' := by
    rw [cell_showing (by omega)]
    simp
  rw [cell_showing_concat]
  by_cases hrow : row = rows.length
  · rw [if_pos hrow]
    rw [if_pos ⟨hrow, Nat.zero_le _⟩, hrow, hblank] at hcell
    rw [hrow]
    exact hcell
  · rw [if_neg hrow]
    rw [if_neg fun h => hrow h.1] at hcell
    exact hcell

end Screen

/-! ### Lines of text -/

namespace Text

theorem lines_flatten (s : List Char) : (lines s).flatten = s := by
  induction s with
  | nil => rfl
  | cons c s ih =>
    unfold lines
    split
    · rw [List.flatten_cons, ih]
      rfl
    · split
      · rename_i h
        rw [h] at ih
        rw [← ih]
        rfl
      · rename_i line more h
        rw [h] at ih
        rw [← ih]
        rfl

/-- If the last line has its line end, then every line has. -/
theorem mem_lines {s : List Char} (h : s = [] ∨ s.getLast? = some '\n') {l : List Char}
    (hl : l ∈ lines s) : ∃ line, l = line ++ ['\n'] ∧ '\n' ∉ line := by
  induction s generalizing l with
  | nil => cases hl
  | cons c s ih =>
    have hrest : s = [] ∨ s.getLast? = some '\n' := by
      cases s with
      | nil => exact .inl rfl
      | cons d s =>
        refine .inr ?_
        rcases h with h | h
        · cases h
        · rwa [List.getLast?_cons_cons] at h
    unfold lines at hl
    split at hl
    · rename_i hc
      rcases List.mem_cons.mp hl with rfl | hl
      · exact ⟨[], by simp [hc], by simp⟩
      · exact ih hrest hl
    · rename_i hc
      split at hl
      · rename_i hs
        have hs : s = [] := by rw [← lines_flatten s, hs]; rfl
        rw [hs] at h
        exact absurd (by simpa using h) hc
      · rename_i line more hs
        rcases List.mem_cons.mp hl with rfl | hl
        · obtain ⟨line', rfl, hline⟩ := ih hrest (hs ▸ List.mem_cons_self)
          refine ⟨c :: line', rfl, ?_⟩
          rw [List.mem_cons, not_or]
          exact ⟨Ne.symm hc, hline⟩
        · exact ih hrest (hs ▸ List.mem_cons_of_mem _ hl)

end Text

/-- Text that ends in a line end is shown row by row. -/
theorem Screen.steps_text (rows : List (List Char)) {s : List Char}
    (hs : s.getLast? = some '\n') (h : ∀ c ∈ s, isControl c = true → c = '\n') :
    (showing rows).steps s = showing (rows ++ Text.rows s) := by
  have hlines (ls : List (List Char)) (hls : ∀ l ∈ ls, ∃ line, l = line ++ ['\n'] ∧
      ∀ c ∈ line, isControl c = false) (rows : List (List Char)) :
      (showing rows).steps ls.flatten = showing (rows ++ ls.map (·.filter (· ≠ '\n'))) := by
    induction ls generalizing rows with
    | nil => rw [List.map_nil, List.append_nil]; rfl
    | cons l ls ih =>
      obtain ⟨line, rfl, hline⟩ := hls l List.mem_cons_self
      have hfilter : (line ++ ['\n']).filter (· ≠ '\n') = line := by
        rw [List.filter_append, List.filter_eq_self.mpr]
        · simp
        · intro c hc
          rw [decide_eq_true_eq]
          rintro rfl
          cases hline _ hc
      rw [List.flatten_cons, steps_append, steps_line rows hline,
        ih fun l hl => hls l (List.mem_cons_of_mem _ hl)]
      rw [List.map_cons, hfilter, List.append_assoc]
      rfl
  have hall := hlines (Text.lines s) ?_ rows
  · rwa [Text.lines_flatten] at hall
  · intro l hl
    obtain ⟨line, rfl, hline⟩ := Text.mem_lines (.inr hs) hl
    refine ⟨line, rfl, ?_⟩
    intro c hc
    have hmem : c ∈ s := by
      rw [← Text.lines_flatten s]
      exact List.mem_flatten.mpr ⟨_, hl, List.mem_append_left _ hc⟩
    by_contra hcontrol
    rw [Bool.not_eq_false] at hcontrol
    rw [h c hmem hcontrol] at hc
    exact hline hc

/-! ### Rows of a grid -/

namespace CompactedLog

variable {v : Viewport} {run : List Message} {m : Message} {id : Text}

theorem lastLine_concat (hid : Grid.rowId? m = some id) (other : Text) :
    lastLine v (run ++ [m]) other =
      if other = id then m.shownText v "" else lastLine v run other := by
  unfold lastLine
  rw [List.filter_append]
  by_cases h : other = id
  · simp [h, hid]
  · have hne : ¬ id = other := fun heq => h heq.symm
    simp [h, hid, hne]

/-- An operation that is seen for the first time has a new row. -/
theorem gridRows_concat_new (hid : Grid.rowId? m = some id)
    (hnew : id ∉ run.filterMap Grid.rowId?) :
    gridRows v (run ++ [m]) = gridRows v run ++ [m.shownText v ""] := by
  have hids : (run ++ [m]).filterMap Grid.rowId? = run.filterMap Grid.rowId? ++ [id] := by
    simp [List.filterMap_append, hid]
  rw [gridRows, hids, eraseDups_concat, if_neg hnew, List.map_append, List.map_singleton,
    lastLine_concat hid, if_pos rfl, gridRows]
  congr 1
  apply List.map_congr_left
  intro other hother
  rw [lastLine_concat hid, if_neg]
  rintro rfl
  exact hnew (List.mem_eraseDups.mp hother)

/-- An operation that was seen before has its line replaced. -/
theorem gridRows_concat_old (hid : Grid.rowId? m = some id) {i : Nat}
    (hi : (run.filterMap Grid.rowId?).eraseDups[i]? = some id) :
    gridRows v (run ++ [m]) = (gridRows v run).set i (m.shownText v "") := by
  have hids : (run ++ [m]).filterMap Grid.rowId? = run.filterMap Grid.rowId? ++ [id] := by
    simp [List.filterMap_append, hid]
  have hmem : id ∈ run.filterMap Grid.rowId? := List.mem_eraseDups.mp (List.mem_of_getElem? hi)
  rw [gridRows, hids, eraseDups_concat, if_pos hmem, gridRows]
  have hnodup := nodup_eraseDups (run.filterMap Grid.rowId?)
  generalize (run.filterMap Grid.rowId?).eraseDups = ids at hi hnodup ⊢
  apply List.ext_getElem?
  intro j
  rw [List.getElem?_map, List.getElem?_set, List.getElem?_map]
  obtain ⟨hlt, hget⟩ := List.getElem?_eq_some_iff.mp hi
  by_cases hj : i = j
  · subst hj
    simp [hlt, hget, lastLine_concat hid]
  · rw [if_neg hj]
    cases hother : ids[j]? with
    | none => rfl
    | some other =>
      have hne : other ≠ id := by
        rintro rfl
        obtain ⟨hlt', hget'⟩ := List.getElem?_eq_some_iff.mp hother
        exact hj ((List.Nodup.getElem_inj_iff hnodup).mp (hget.trans hget'.symm))
      simp [lastLine_concat hid, hne]

theorem length_gridRows :
    (gridRows v run).length = (run.filterMap Grid.rowId?).eraseDups.length := by
  rw [gridRows, List.length_map]

end CompactedLog

/-! ### Messages that keep to whole lines -/

namespace Message

variable {m : Message}

theorem IsLine.isInPlace (h : m.IsLine) (hp : m.hasProgress = true) : m.isInPlace = true := by
  simp only [Message.isInPlace, (h.row hp).2, hp]
  rfl

theorem IsLine.hasProgress (h : m.IsLine) (hrow : m.hasRow = false) : m.hasProgress = false := by
  by_contra hp
  rw [Bool.not_eq_false] at hp
  obtain ⟨t, ht⟩ := Option.isSome_iff_exists.mp (h.row hp).1
  simp [hasRow, Grid.rowId?, ht, hp] at hrow

theorem IsLine.getLast?_shownText (h : m.IsLine) (hp : m.hasProgress = false) (v : Viewport) :
    (m.shownText v "\n").getLast? = some '\n' := by
  cases hs : nonEmpty m.stream with
  | none =>
    rw [(h.toIsLegible.shownText_line (.inr hs) v).2]
    simp
  | some t =>
    rw [shownText_eq_writes, content_stream hp hs, List.flatMap_append, List.getLast?_append]
    simp [h.lineEnd hp t hs]

end Message

namespace Display

variable {v : Viewport} {m : Message} {rows : List (List Char)}

/-- One message with progress: its operation's row is shown anew, or begun. -/
theorem advance_grid {d : Display Screen} {run : List Message} (h : m.IsLine)
    (hrow : m.hasRow = true) (hgrid : d.grid = ⟨(run.filterMap Grid.rowId?).eraseDups⟩)
    (hout : d.out = .showing (rows ++ CompactedLog.gridRows v run)) :
    d.advance (some .empty) v m = (none, { d with
      grid := ⟨((run ++ [m]).filterMap Grid.rowId?).eraseDups⟩
      out := .showing (rows ++ CompactedLog.gridRows v (run ++ [m])) }) := by
  obtain ⟨id, hid⟩ := Option.isSome_iff_exists.mp hrow
  have hp := Grid.hasProgress_of_rowId? hid
  have hplace := h.isInPlace hp
  have hids : (run ++ [m]).filterMap Grid.rowId? = run.filterMap Grid.rowId? ++ [id] := by
    simp [List.filterMap_append, hid]
  have hpending : d.out.pending = .none := by rw [hout]; rfl
  have hrewrite := h.toIsLegible.writeAll_inPlace hplace v
    (s := d.grid.approach id d.out) (by rw [Grid.pending_approach, hpending])
  rw [advance_row h.toIsLegible hid hpending v
    (by rw [hrewrite]; exact (Grid.pending_approach _ _ _).trans hpending), hrewrite]
  have hsize : (CompactedLog.gridRows v run).length = d.grid.size := by
    rw [CompactedLog.length_gridRows, hgrid]
    rfl
  by_cases hmem : id ∈ d.grid.rows
  · obtain ⟨i, hi, hlt, hdistance⟩ := Grid.distance_of_mem hmem
    have hgrid' : (run.filterMap Grid.rowId? ++ [id]).eraseDups = d.grid.rows := by
      rw [hgrid] at hmem ⊢
      rw [eraseDups_concat, if_pos (List.mem_eraseDups.mp hmem)]
    have hline : CompactedLog.gridRows v (run ++ [m]) =
        (CompactedLog.gridRows v run).set i (m.shownText v "") :=
      CompactedLog.gridRows_concat_old hid (by rw [hgrid] at hi; exact hi)
    have hset : rows ++ (CompactedLog.gridRows v run).set i (m.shownText v "") =
        (rows ++ CompactedLog.gridRows v run).set (rows.length + i) (m.shownText v "") := by
      simp
    have hdown : rows.length + i + d.grid.distance id =
        (rows ++ CompactedLog.gridRows v run).length := by
      rw [List.length_append, hsize, hdistance]
      omega
    rw [hids, hgrid', hline, hset, ← Screen.rewriteRow_showing (by omega) hdown,
      Grid.reserve_of_mem hmem, Grid.approach, if_pos hmem, hout]
  · have hnew : id ∉ run.filterMap Grid.rowId? := by
      rw [hgrid] at hmem
      exact mt List.mem_eraseDups.mpr hmem
    rw [hids, CompactedLog.gridRows_concat_new hid hnew, Grid.distance_of_not_mem hmem,
      Grid.reserve_of_not_mem hmem, Grid.approach, if_neg hmem, hout, ← List.append_assoc,
      ← Screen.rewriteRow_showing_end, eraseDups_concat, if_neg hnew, hgrid]
    rfl

/-- Messages with progress in a row share a grid that is begun with the first. -/
theorem run_grid {d : Display Screen} (hgrid : d.grid = {}) (hout : d.out = .showing rows)
    {run : List Message} (h : ∀ m ∈ run, m.IsLine) (hrow : ∀ m ∈ run, m.hasRow = true) :
    d.run (some .empty) v run = (none, { d with
      grid := ⟨(run.filterMap Grid.rowId?).eraseDups⟩
      out := .showing (rows ++ CompactedLog.gridRows v run) }) := by
  -- From the end: a message changes what all messages in front of it have left.
  induction run using List.reverseRecOn with
  | nil =>
    obtain ⟨grid, out, handedOn⟩ := d
    obtain rfl : grid = {} := hgrid
    obtain rfl : out = .showing rows := hout
    simp [Display.run, CompactedLog.gridRows]
  | append_singleton run m ih =>
    rw [run_append, ih (fun m hm => h m (List.mem_append_left _ hm))
      (fun m hm => hrow m (List.mem_append_left _ hm))]
    have hm : m ∈ run ++ [m] := List.mem_append_right _ (List.mem_singleton_self m)
    simp only [Display.run]
    rw [advance_grid (h m hm) (hrow m hm) rfl rfl]

/-- One message without progress: its lines are shown below. -/
theorem advance_line {d : Display Screen} (h : m.IsLine) (hrow : m.hasRow = false)
    (hout : d.out = .showing rows) :
    d.advance (some .empty) v m = (none, { d with
      grid := {}
      out := .showing (rows ++ Text.rows (m.shownText v "\n")) }) := by
  have hid : Grid.rowId? m = none := by simpa [Message.hasRow] using hrow
  have hp := h.hasProgress hrow
  have hplace : m.isInPlace = false := by simp [Message.isInPlace, hp]
  rw [advance_plain h.toIsLegible hid, Message.writeAll_text hplace, hout,
    Screen.steps_text rows (h.getLast?_shownText hp v) (h.toIsLegible.shownText v)]

/-- From a screen of whole rows on, messages leave the rows of their log below these, if no
grid is open that the first of them could go on with. -/
theorem run_rows {d : Display Screen} {messages : List Message} (h : ∀ m ∈ messages, m.IsLine)
    (hgrid : d.grid = {} ∨ ∀ m ∈ messages.head?, m.hasRow = false)
    (hout : d.out = .showing rows) :
    ∃ grid, d.run (some .empty) v messages = (none, { d with
      grid, out := .showing (rows ++ CompactedLog.rows v messages) }) := by
  -- The steps of the log are whole runs, so a grid is never open where one begins.
  fun_induction CompactedLog.rows v messages generalizing d rows with
  | case1 =>
    refine ⟨d.grid, ?_⟩
    rw [List.append_nil, ← hout]
    rfl
  | case2 m rest hm ih =>
    have hsplit : m :: rest =
        (m :: rest.takeWhile Message.hasRow) ++ rest.dropWhile Message.hasRow := by simp
    have hopen : d.grid = {} := by
      rcases hgrid with hgrid | hhead
      · exact hgrid
      · rw [hhead m rfl] at hm
        cases hm
    rw [hsplit] at h ⊢
    have hrows : ∀ m' ∈ m :: rest.takeWhile Message.hasRow, m'.hasRow = true := by
      intro m' hm'
      rcases List.mem_cons.mp hm' with rfl | hm'
      · exact hm
      · exact List.mem_takeWhile_imp hm'
    have hnext : ∀ m' ∈ (rest.dropWhile Message.hasRow).head?, m'.hasRow = false := by
      intro m' hm'
      have hhead := List.head?_dropWhile_not Message.hasRow rest
      rw [Option.mem_def.mp hm'] at hhead
      simpa using hhead
    obtain ⟨grid, hrest⟩ := ih (d := { d with
      grid := ⟨((m :: rest.takeWhile Message.hasRow).filterMap Grid.rowId?).eraseDups⟩
      out := .showing (rows ++ CompactedLog.gridRows v (m :: rest.takeWhile Message.hasRow)) })
      (fun m' hm' => h m' (List.mem_append_right _ hm')) (.inr hnext) rfl
    refine ⟨grid, ?_⟩
    rw [run_append, run_grid hopen hout (fun m' hm' => h m' (List.mem_append_left _ hm')) hrows]
    simp only [hrest, List.append_assoc]
  | case3 m rest hm ih =>
    have hline := h m List.mem_cons_self
    obtain ⟨grid, hrest⟩ := ih (d := { d with
      grid := {}, out := .showing (rows ++ Text.rows (m.shownText v "\n")) })
      (fun m' hm' => h m' (List.mem_cons_of_mem m hm')) (.inl rfl) rfl
    refine ⟨grid, ?_⟩
    rw [Display.run, advance_line hline (by simpa using hm) hout]
    simp only [hrest, List.append_assoc]

end Display

/-- On an empty screen, messages that keep to whole lines leave exactly the rows of their
compacted log, and the cursor in front of the row below these. -/
theorem run_shows_compacted_log (v : Viewport) (messages : List Message)
    (h : ∀ m ∈ messages, m.IsLine) :
    let shown := ({ out := {} } : Display Screen).run (some .empty) v messages
    shown.1 = none ∧ shown.2.out = Screen.showing (CompactedLog.rows v messages) := by
  have hempty : ({} : Screen) = Screen.showing [] :=
    Screen.ext (fun row column => by simp [Screen.showing]) rfl rfl rfl
  obtain ⟨grid, hrun⟩ := Display.run_rows (d := { out := {} }) (v := v) h (.inl rfl) hempty
  intro shown
  simp only [shown, hrun, List.nil_append, and_self]

/-- Two operations take turns, text in between settles their rows, and one of them goes on in
a new grid, with its time, where it comes from and its progress in numbers. -/
theorem run_shows_rows_of_turns :
    let text := Text.ofString
    let progress (id shown : String) : Message := { id := text id, progress := text shown }
    let layer : Message :=
      { id := text "a", origin := text "hub", status := text "Pulling", time := some 1
        progressDetail := some { current := some 1, total := some 4, units := text "layers" } }
    let messages := [progress "a" "1", progress "b" "1", progress "a" "22", progress "b" "2",
      { stream := text "x\ny\n" }, layer]
    let v : Viewport := { width := some 80 }
    (∀ m ∈ messages, m.IsLine) ∧
      let shown := ({ out := {} } : Display Screen).run (some .empty) v messages
      shown.1 = none ∧ shown.2.out = Screen.showing
        ["a:  22".toList, "b:  2".toList, "x".toList, "y".toList,
          "1970-01-01T00:00:01.000000000Z a: (from hub) Pulling 1/4 layers".toList] := by
  intro text progress layer messages v
  have h : ∀ m ∈ messages, m.IsLine := by decide
  have hrows : CompactedLog.rows v messages =
      ["a:  22".toList, "b:  2".toList, "x".toList, "y".toList,
        "1970-01-01T00:00:01.000000000Z a: (from hub) Pulling 1/4 layers".toList] := by
    decide +kernel
  rw [← hrows]
  exact ⟨h, run_shows_compacted_log v messages h⟩

end LiveProgress
