import LiveProgress.Display.Stroke
import LiveProgress.Proofs.Display.Ledger

/-!
# The balance of the cursor

A message with a row moves up to it, writes its line and moves down by the same distance. The
line itself stays in its row unless the message has text to be shown as it is as well: then
it ends in a line feed, and the cursor comes to rest a row too low. All this holds for every
set of capabilities, since the strokes do not depend on it.
-/

namespace LiveProgress

/-! ### What is written -/

namespace Recorder

theorem writeAll_unrefused {r : Recorder} (h : r.refused = []) (texts : List String) :
    ∃ r', Destination.writeAll r texts = (none, r') ∧ r'.refused = [] ∧
      r'.written = r.written ++ texts := by
  induction texts generalizing r with
  | nil => exact ⟨r, rfl, h, (List.append_nil _).symm⟩
  | cons text texts ih =>
    have hwrite : Destination.write r text =
        (none, { r with attempts := r.attempts + 1, written := r.written ++ [text] }) := by
      simp [Destination.write, write, h]
    obtain ⟨r', hrest, hrefused, hwritten⟩ :=
      ih (r := { r with attempts := r.attempts + 1, written := r.written ++ [text] }) h
    refine ⟨r', ?_, hrefused, ?_⟩
    · simp only [Destination.writeAll, hwrite, hrest]
    · rw [hwritten, List.append_assoc]
      rfl

theorem attempt_unrefused {r : Recorder} (h : r.refused = []) (a : Attempt) :
    ∃ r', a.run r = (a.failure, r') ∧ r'.refused = [] ∧ r'.written = r.written ++ a.texts := by
  obtain ⟨r', htexts, hrefused, hwritten⟩ := writeAll_unrefused h a.texts
  exact ⟨r', by simp only [Attempt.run, htexts, Option.none_or], hrefused, hwritten⟩

theorem run_unrefused {r : Recorder} (h : r.refused = []) (script : Script) :
    ∃ r', script.run r = (script.calm.failure, r') ∧ r'.refused = [] ∧
      r'.written = r.written ++ script.calm.texts := by
  obtain ⟨r₁, hopening, h₁, hwritten₁⟩ := attempt_unrefused h script.opening
  cases hfailure : script.opening.failure with
  | some f =>
    refine ⟨r₁, ?_, h₁, ?_⟩
    · simp only [Script.run, hopening, Script.calm, Attempt.andThen, hfailure]
    · rw [hwritten₁, Script.calm, Attempt.andThen_of_failure hfailure]
  | none =>
    obtain ⟨r₂, hline, h₂, hwritten₂⟩ := attempt_unrefused h₁ script.line
    obtain ⟨r₃, hclosing, h₃, hwritten₃⟩ := attempt_unrefused h₂ script.closing
    refine ⟨r₃, ?_, h₃, ?_⟩
    · simp only [Script.run, hopening, hline, hclosing, Script.calm, Attempt.andThen, hfailure]
    · rw [hwritten₃, hwritten₂, hwritten₁, Script.calm, Attempt.andThen_of_healthy hfailure]
      simp only [List.append_assoc]

end Recorder

section

variable {set : CapabilitySet} (hset : set.Answers)
include hset

theorem Message.allWrites_strokes (m : Message) (v : Viewport) :
    Stroke.allWrites set (m.strokes v) = (m.line (some set) v).texts := by
  unfold strokes line
  cases m.reportedError with
  | some e => rfl
  | none =>
    dsimp only
    split
    · rw [Attempt.andThen_of_healthy hset.clearLine]
      simp only [Stroke.allWrites, List.flatMap_cons, Stroke.writes]
      rw [← Stroke.allWrites, Stroke.allWrites_texts]
      simp
    · rw [Stroke.allWrites_texts]

/-- If no look-up fails, a message is written by its strokes, whatever the capabilities. -/
theorem Grid.allWrites_strokes (g : Grid) (m : Message) (v : Viewport) :
    Stroke.allWrites set (g.strokes m v) = (g.script m (some set) v).calm.texts := by
  unfold strokes script react
  cases m.aux with
  | some payload => rfl
  | none =>
    cases rowId? m with
    | none =>
      dsimp only
      rw [m.allWrites_strokes hset v, Script.calm_of_line]
    | some id =>
      have hup := hset.cursorUp ((g.reserve id).distance id)
      have hopening : Stroke.allWrites set (g.approachStrokes id) =
          (g.rowScript id m (some set) v).opening.texts := by
        unfold approachStrokes rowScript
        split
        · simp [Stroke.allWrites, Stroke.writes, Attempt.andThen]
        · simp [Stroke.allWrites, Stroke.writes, Attempt.andThen]
      have hclosing : Stroke.allWrites set [.down ((g.reserve id).distance id)] =
          (g.rowScript id m (some set) v).closing.texts := by
        simp [Stroke.allWrites, Stroke.writes, rowScript]
      have hhealthy : (g.rowScript id m (some set) v).opening.failure = none := by
        simp [rowScript, Attempt.failure_andThen, hup]
      simp only [Script.calm, Attempt.andThen_of_healthy hhealthy, Stroke.allWrites_append,
        hopening, hclosing, Message.allWrites_strokes hset, List.append_assoc]
      rfl

namespace Display

theorem written_render {d : Display Recorder} (h : d.out.refused = []) (v : Viewport)
    (m : Message) :
    (d.render (some set) v m).2.out.refused = [] ∧
      (d.render (some set) v m).2.out.written =
        d.out.written ++ Stroke.allWrites set (d.grid.strokes m v) := by
  obtain ⟨r, hrun, hrefused, hwritten⟩ :=
    Recorder.run_unrefused h (d.grid.script m (some set) v)
  rw [render_eq_script, hrun, Grid.allWrites_strokes hset]
  exact ⟨hrefused, hwritten⟩

theorem written_renderAll {d : Display Recorder} (h : d.out.refused = [])
    (calls : List (Viewport × Message)) :
    (d.renderAll (some set) calls).out.refused = [] ∧
      (d.renderAll (some set) calls).out.written =
        d.out.written ++ Stroke.allWrites set (d.grid.historyStrokes calls) := by
  induction calls generalizing d with
  | nil => exact ⟨h, (List.append_nil _).symm⟩
  | cons call calls ih =>
    obtain ⟨hrefused, hwritten⟩ := written_render hset h call.1 call.2
    obtain ⟨hrefused', hwritten'⟩ := ih hrefused
    refine ⟨hrefused', ?_⟩
    rw [renderAll, hwritten', hwritten, grid_render, List.append_assoc, ← Stroke.allWrites_append]
    rfl

end Display

end

/-! ### What a screen makes of it -/

namespace Screen

theorem row_steps_legible {s : Screen} (hs : s.pending = .none) {text : List Char}
    (h : ∀ c ∈ text, isControl c = true → c = '\n' ∨ c = '\r') :
    (s.steps text).pending = .none ∧ (s.steps text).row = s.row + text.count '\n' := by
  induction text generalizing s with
  | nil => exact ⟨hs, (Int.add_zero _).symm⟩
  | cons c text ih =>
    obtain ⟨hc, htext⟩ := List.forall_mem_cons.mp h
    have hstep : (s.step c).pending = .none ∧
        (s.step c).row = s.row + if c = '\n' then 1 else 0 := by
      cases hcontrol : isControl c with
      | false =>
        have hfeed : c ≠ '\n' := by
          rintro rfl
          cases hcontrol
        rw [step_printable hs hcontrol, if_neg hfeed]
        exact ⟨hs, (Int.add_zero _).symm⟩
      | true =>
        rcases hc hcontrol with rfl | rfl
        · rw [step_lineFeed hs]
          exact ⟨hs, rfl⟩
        · rw [step_return hs]
          exact ⟨hs, (Int.add_zero _).symm⟩
    obtain ⟨hpending, hrow⟩ := ih hstep.1 htext
    refine ⟨hpending, ?_⟩
    rw [steps_cons, hrow, hstep.2, List.count_cons]
    by_cases hfeed : c = '\n'
    · simp [hfeed]
      omega
    · simp [hfeed]

/-- The cursor of a screen descends as far as the strokes do. -/
theorem row_allWrites {s : Screen} (hs : s.pending = .none) {strokes : List Stroke}
    (h : ∀ stroke ∈ strokes, stroke.IsLegible) :
    (s.writeAll (Stroke.allWrites .empty strokes)).row = s.row + Stroke.totalDescent strokes := by
  induction strokes generalizing s with
  | nil => exact (Int.add_zero _).symm
  | cons stroke strokes ih =>
    obtain ⟨hstroke, hstrokes⟩ := List.forall_mem_cons.mp h
    have hone : (s.writeAll (stroke.writes .empty)).pending = .none ∧
        (s.writeAll (stroke.writes .empty)).row = s.row + stroke.descent := by
      cases stroke with
      | text text => exact row_steps_legible hs hstroke
      | up rows =>
        rw [Stroke.writes, writeAll_cursorUp hs]
        exact ⟨hs, Int.sub_eq_add_neg⟩
      | down rows =>
        rw [Stroke.writes, writeAll_cursorDown hs]
        exact ⟨hs, rfl⟩
      | clear =>
        rw [Stroke.writes, writeAll_clearLine hs]
        exact ⟨hs, (Int.add_zero _).symm⟩
    have hsplit : Stroke.allWrites .empty (stroke :: strokes) =
        stroke.writes .empty ++ Stroke.allWrites .empty strokes := rfl
    rw [hsplit, writeAll_append, ih hone.1 hstrokes, hone.2, Stroke.totalDescent]
    omega

end Screen

/-! ### How far the cursor descends -/

namespace Message

variable {m : Message} (h : ∀ t ∈ m.lineTexts, IsPrintable t.string)
include h

/-- What a message shows of its progress is a printable line and the line end, with or without
other text, a payload or an error beside it. -/
theorem shownText_progress (hp : m.hasProgress = true) (v : Viewport) :
    (∀ c ∈ m.shownText v "", isControl c = false) ∧
      ∀ lineEnd, m.shownText v lineEnd = m.shownText v "" ++ lineEnd.toList := by
  let bare : Message := { m with stream := none, errorDetail := none, error := none, aux := none }
  have hbare : bare.IsLegible := ⟨rfl, rfl, h, by simp [bare]⟩
  have hshown (lineEnd : String) : m.shownText v lineEnd = bare.shownText v lineEnd := by
    have hcontent : m.content true v lineEnd = bare.content true v lineEnd := by
      unfold content
      cases hd : m.progressDetail with
      | some p => rfl
      | none =>
        cases hq : nonEmpty m.progress with
        | some t => simp [bare]
        | none => simp [hasProgress, hd, hq] at hp
    rw [shownText_eq_writes, shownText_eq_writes, hcontent]
    rfl
  simp only [hshown]
  exact hbare.shownText_line (.inl hp) v

theorem isLegible_strokes (hp : m.hasProgress = true) (v : Viewport) :
    ∀ stroke ∈ m.strokes v, stroke.IsLegible := by
  obtain ⟨hline, hend⟩ := shownText_progress h hp v
  have htexts {lineEnd : String} (hlineEnd : lineEnd = "\n" ∨ lineEnd = "\r") :
      ∀ stroke ∈ (m.heading ++ [m.content true v lineEnd]).map Stroke.text, stroke.IsLegible := by
    rw [List.forall_mem_map]
    intro text htext c hc hcontrol
    have hmem : c ∈ m.shownText v lineEnd := by
      rw [shownText_eq_writes]
      exact List.mem_flatMap.mpr ⟨text, htext, hc⟩
    rw [hend] at hmem
    rcases List.mem_append.mp hmem with hmem | hmem
    · rw [hline c hmem] at hcontrol
      cases hcontrol
    · apply hlineEnd.imp
      · rintro rfl
        simpa using hmem
      · rintro rfl
        simpa using hmem
  unfold strokes
  cases m.reportedError with
  | some e => simp
  | none =>
    simp only
    split
    · have hreturn : (Stroke.text "\r").IsLegible := by
        intro c hc _
        exact .inr (by simpa using hc)
      exact List.forall_mem_cons.mpr ⟨trivial, List.forall_mem_cons.mpr ⟨hreturn, htexts (.inr rfl)⟩⟩
    · exact htexts (.inl rfl)

/-- The line of a message with progress descends if there is text to be shown as it is. -/
theorem totalDescent_strokes (hp : m.hasProgress = true) (v : Viewport) :
    Stroke.totalDescent (m.strokes v) =
      if m.reportedError.isNone && (nonEmpty m.stream).isSome then 1 else 0 := by
  obtain ⟨hline, hend⟩ := shownText_progress h hp v
  have hfeeds : (m.shownText v "").count '\n' = 0 := by
    apply List.count_eq_zero.mpr
    intro hmem
    cases hline _ hmem
  have htexts (lineEnd : String) :
      Stroke.totalDescent ((m.heading ++ [m.content true v lineEnd]).map .text) =
        lineEnd.toList.count '\n' := by
    rw [Stroke.totalDescent_texts, ← shownText_eq_writes, hend, List.count_append, hfeeds, Nat.zero_add]
  unfold strokes
  cases m.reportedError with
  | some e => rfl
  | none =>
    cases hs : nonEmpty m.stream with
    | none =>
      have hplace : m.isInPlace = true := by simp [isInPlace, hs, hp]
      rw [if_pos hplace]
      simp only [Stroke.totalDescent, htexts]
      decide
    | some t =>
      have hplace : m.isInPlace = false := by simp [isInPlace, hs]
      simp only [hplace, Bool.false_eq_true, if_false, htexts]
      rfl

end Message

namespace Grid

theorem totalDescent_approach (g : Grid) (id : Text) :
    Stroke.totalDescent (g.approachStrokes id) =
      (if (g.rowOf? id).isSome then 0 else 1) - ((g.reserve id).distance id : Int) := by
  unfold approachStrokes
  split
  · simp [Stroke.totalDescent, Stroke.descent]
  · have hfeed : "\n".toList.count '\n' = 1 := by decide
    simp only [List.cons_append, List.nil_append, Stroke.totalDescent, Stroke.descent, hfeed]
    omega

/-- Up and down cancel out: what remains is the line feed of a new row and that of a line
that overruns its row. -/
theorem totalDescent_strokes (g : Grid) {m : Message} {id : Text} (hid : m.operation? = some id)
    (h : ∀ t ∈ m.lineTexts, IsPrintable t.string) (v : Viewport) :
    Stroke.totalDescent (g.strokes m v) =
      (if (g.rowOf? id).isSome then 0 else 1) + (if m.overruns then 1 else 0) := by
  obtain ⟨haux, hrow⟩ := Message.operation?_eq_some_iff.mp hid
  have hline := Message.totalDescent_strokes h (hasProgress_of_rowId? hrow) v
  have hoverruns : m.overruns = (m.reportedError.isNone && (Message.nonEmpty m.stream).isSome) := by
    simp [Message.overruns, hid]
  simp only [strokes, haux, hrow, Stroke.totalDescent_append, totalDescent_approach, hline,
    hoverruns]
  simp only [Stroke.totalDescent, Stroke.descent]
  omega

theorem size_reserve (g : Grid) (id : Text) :
    (g.reserve id).size = g.size + if (g.rowOf? id).isSome then 0 else 1 := by
  unfold reserve
  split
  · rfl
  · exact List.length_append

/-- A message of the grid descends by the rows it adds and by the one it overruns. -/
theorem totalDescent_next (g : Grid) {m : Message} (hgrid : m.endsGrid = false)
    (h : ∀ t ∈ m.lineTexts, IsPrintable t.string) (v : Viewport) :
    Stroke.totalDescent (g.strokes m v) =
      ((g.next m).size : Int) - g.size + (if m.overruns then 1 else 0) := by
  cases hop : m.operation? with
  | none =>
    obtain ⟨payload, haux⟩ :=
      Option.isSome_iff_exists.mp (Message.aux_of_operation?_eq_none hgrid hop)
    have hoverruns : m.overruns = false := by simp [Message.overruns, hop]
    simp [strokes, next, haux, hoverruns, Stroke.totalDescent]
  | some id =>
    rw [totalDescent_strokes g hop h, next_of_operation g hop, size_reserve]
    split
    · omega
    · omega

/-- The cursor comes to rest as many rows below the first row of the grid as the grid has, and
lower by one for every message that has overrun its row. -/
theorem totalDescent_history (g : Grid) {run : List (Viewport × Message)}
    (h : ∀ call ∈ run, call.2.endsGrid = false ∧ ∀ t ∈ call.2.lineTexts, IsPrintable t.string) :
    Stroke.totalDescent (g.historyStrokes run) =
      ((g.after (run.map Prod.snd)).size : Int) - g.size + run.countP (·.2.overruns) := by
  induction run generalizing g with
  | nil => simp [historyStrokes, after, Stroke.totalDescent]
  | cons call run ih =>
    obtain ⟨⟨hgrid, htexts⟩, hrun⟩ := List.forall_mem_cons.mp h
    have hnext := g.totalDescent_next hgrid htexts call.1
    have hrest := ih (g.next call.2) hrun
    have hafter : g.after ((call :: run).map Prod.snd) =
        (g.next call.2).after (run.map Prod.snd) := rfl
    simp only [historyStrokes, Stroke.totalDescent_append, hnext, hrest, hafter, List.countP_cons]
    split
    · omega
    · omega

theorem historyStrokes_append (g : Grid) (a b : List (Viewport × Message)) :
    g.historyStrokes (a ++ b) =
      g.historyStrokes a ++ (g.after (a.map Prod.snd)).historyStrokes b := by
  induction a generalizing g with
  | nil => rfl
  | cons call a ih =>
    simp only [List.cons_append, historyStrokes, ih, List.append_assoc]
    rfl

theorem isLegible_strokes (g : Grid) {m : Message} {id : Text} (hid : m.operation? = some id)
    (h : ∀ t ∈ m.lineTexts, IsPrintable t.string) (v : Viewport) :
    ∀ stroke ∈ g.strokes m v, stroke.IsLegible := by
  obtain ⟨haux, hrow⟩ := Message.operation?_eq_some_iff.mp hid
  have hline := Message.isLegible_strokes h (hasProgress_of_rowId? hrow) v
  have happroach : ∀ stroke ∈ g.approachStrokes id, stroke.IsLegible := by
    unfold approachStrokes
    split
    · simp [Stroke.IsLegible]
    · simp [Stroke.IsLegible]
  simp only [strokes, haux, hrow]
  intro stroke hmem
  rcases List.mem_append.mp hmem with hmem | hmem
  · exact (List.mem_append.mp hmem).elim (happroach stroke) (hline stroke)
  · obtain rfl := List.mem_singleton.mp hmem
    trivial

end Grid

/-- The cursor of a screen descends as far as the strokes of a message do. -/
theorem Display.row_render {d : Display Screen} (hs : d.out.pending = .none) {m : Message}
    {id : Text} (hid : m.operation? = some id) (h : ∀ t ∈ m.lineTexts, IsPrintable t.string)
    (v : Viewport) :
    (d.render (some .empty) v m).2.out.row =
      d.out.row + Stroke.totalDescent (d.grid.strokes m v) := by
  rw [render_eq_script, Script.run_screen, ← Grid.allWrites_strokes CapabilitySet.answers_empty]
  exact Screen.row_allWrites hs (d.grid.isLegible_strokes hid h v)

/-- On every terminal whose look-ups do not fail and behind any history, a message with a row leads
the cursor down by one row if its operation is new and by none if it is not, and by one more exactly
if it overruns its row. Within a grid every line is begun in the row of its operation, lower only by
the number of messages before it that have overrun theirs. -/
theorem descent_of_row {set : CapabilitySet} (hset : set.Answers)
    (calls : List (Viewport × Message)) (v : Viewport) {m : Message} {id : Text}
    (hid : m.operation? = some id)
    (h : ∀ t ∈ m.lineTexts, IsPrintable t.string) :
    let d := ({ out := {} } : Display Recorder).renderAll (some set) calls
    let shown := (d.render (some set) v m).2
    let strokes := d.grid.strokes m v
    d.out.written = Stroke.allWrites set (({} : Grid).historyStrokes calls) ∧
    shown.out.written = d.out.written ++ Stroke.allWrites set strokes ∧
    Stroke.totalDescent strokes =
      (if (d.grid.rowOf? id).isSome then 0 else 1) + (if m.overruns then 1 else 0) ∧
    (∀ s : Display Screen, s.grid = d.grid → s.out.pending = .none →
      (s.render (some .empty) v m).2.out.row = s.out.row + Stroke.totalDescent strokes) ∧
    ∀ start run, calls = start ++ run → ({} : Grid).after (start.map Prod.snd) = {} →
      (∀ call ∈ run, call.2.endsGrid = false ∧ ∀ t ∈ call.2.lineTexts, IsPrintable t.string) →
      ∃ row, shown.grid.rowOf? id = some row ∧
        Stroke.totalDescent (({} : Grid).historyStrokes calls ++ d.grid.approachStrokes id) =
          Stroke.totalDescent (({} : Grid).historyStrokes start) + row +
            run.countP (·.2.overruns) := by
  intro d shown strokes
  obtain ⟨hrefused, hwritten⟩ :=
    Display.written_renderAll (d := { out := {} }) hset rfl calls
  refine ⟨hwritten, ?_, d.grid.totalDescent_strokes hid h v, ?_, ?_⟩
  · exact (Display.written_render hset hrefused v m).2
  · intro s hgrid hs
    rw [Display.row_render hs hid h, hgrid]
  · rintro start run rfl hstart hrun
    obtain ⟨row, hrow, hsum, _⟩ := d.grid.distance_reserve id
    have hgrid : d.grid = ({} : Grid).after (run.map Prod.snd) := by
      have hafter : d.grid = ({} : Grid).after ((start ++ run).map Prod.snd) :=
        Display.grid_renderAll _ _ _
      rw [hafter, List.map_append, Grid.after_append, hstart]
    have hhistory := ({} : Grid).totalDescent_history hrun
    rw [← hgrid] at hhistory
    refine ⟨row, ?_, ?_⟩
    · rw [Display.grid_render, Grid.next_of_operation _ hid]
      exact hrow
    · have hsize := d.grid.size_reserve id
      have hempty : ({} : Grid).size = 0 := rfl
      rw [Stroke.totalDescent_append, Grid.historyStrokes_append, hstart,
        Stroke.totalDescent_append, hhistory, Grid.totalDescent_approach, hempty]
      split at hsize
      · rename_i hold
        rw [if_pos hold]
        omega
      · rename_i hnew
        rw [if_neg hnew]
        omega

/-- The second operation of a grid that begins in row 2 overruns its row, and the line of the
first one is then written a row too low, in row 3. -/
theorem descent_of_overrun_row :
    let text := Text.ofString
    let progress (id : String) : Message := { id := text id, progress := text "1" }
    let overrun : Message := { progress "b" with stream := text "s" }
    let start : List (Viewport × Message) := [({}, progress "a"), ({}, { status := text "done" })]
    let run : List (Viewport × Message) := [({}, progress "a"), ({}, overrun)]
    let d := ({ out := {} } : Display Recorder).renderAll (some .labels) (start ++ run)
    CapabilitySet.labels.Answers ∧ (progress "a").operation? = some (text "a") ∧
    (∀ t ∈ (progress "a").lineTexts, IsPrintable t.string) ∧
    Stroke.totalDescent (({} : Grid).historyStrokes start) = 2 ∧
    Stroke.totalDescent
      (({} : Grid).historyStrokes (start ++ run) ++ d.grid.approachStrokes (text "a")) = 3 := by
  intro text progress overrun start run d
  have hid : (progress "a").operation? = some (text "a") := by decide
  have hprintable : ∀ t ∈ (progress "a").lineTexts, IsPrintable t.string := by decide
  obtain ⟨_, _, _, _, hline⟩ :=
    descent_of_row CapabilitySet.answers_labels (start ++ run) {} hid hprintable
  obtain ⟨row, hrow, hplace⟩ := hline start run rfl (by decide) (by decide)
  have hfirst : row = 0 := by
    rw [Display.grid_render, Display.grid_renderAll] at hrow
    have hzero : ((({} : Grid).after ((start ++ run).map Prod.snd)).next (progress "a")).rowOf?
        (text "a") = some 0 := by decide +kernel
    exact Option.some.inj (hrow.symm.trans hzero)
  have hstart : Stroke.totalDescent (({} : Grid).historyStrokes start) = 2 := by decide +kernel
  have hcount : run.countP (·.2.overruns) = 1 := by decide
  refine ⟨CapabilitySet.answers_labels, hid, hprintable, hstart, ?_⟩
  rw [hplace, hstart, hfirst, hcount]
  rfl

/-- The cursor does not always come back to the row below the grid: progress with text to be
shown as it is leaves it a row further down, on a screen in the third row instead of the second. -/
theorem cursor_falls_below_grid :
    let m : Message :=
      { id := Text.ofString "a", progress := Text.ofString "x", stream := Text.ofString "s" }
    (({ out := {} } : Display Screen).render (some .empty) {} m).2.out.row = 2 ∧
    ¬ ∀ (g : Grid) (v : Viewport) (m : Message) (id : Text), m.operation? = some id →
      (∀ t ∈ m.lineTexts, IsPrintable t.string) →
        Stroke.totalDescent (g.strokes m v) = if (g.rowOf? id).isSome then 0 else 1 := by
  intro m
  have hdescent : Stroke.totalDescent (({} : Grid).strokes m {}) = 2 := by decide +kernel
  refine ⟨by decide +kernel, ?_⟩
  intro h
  have hone := h {} {} m (Text.ofString "a") (by decide) (by decide)
  rw [hdescent] at hone
  cases hone

end LiveProgress
