import LiveProgress.Display.Trace
import LiveProgress.Proofs.Display.Balance
import LiveProgress.Proofs.Display.Handled

/-!
# What showing a message depends on

On a destination that takes every write, what is seen of a message depends on the message, its
viewport and the rows of the grid. A payload leaves the grid as it is and is not written, so it is
not seen in what comes later; a message without a row leaves an empty grid, so nothing in front of
it is. Without the capabilities of a terminal the rows are not seen in what is written.
-/

namespace LiveProgress

/-- What is seen of a message that is shown below the rows of a grid. -/
def Grid.showing (g : Grid) (caps : Option CapabilitySet) (v : Viewport) (m : Message) :
    Showing where
  message := m
  written := (g.script m caps v).calm.texts
  rows := (g.next m).rows
  failure := (g.script m caps v).calm.failure
  handedOn := m.aux.isSome

/-- What is seen of messages of which the first is shown below the rows of a grid. -/
def Grid.showings (g : Grid) (caps : Option CapabilitySet) :
    List (Viewport × Message) → List Showing
  | [] => []
  | (v, m) :: rest => g.showing caps v m :: (g.next m).showings caps rest

/-- A message without an identifier or without progress has no row. -/
theorem Message.endsGrid_of_no_row {m : Message} (haux : m.aux = none)
    (h : Message.nonEmpty m.id = none ∨ m.hasProgress = false) : m.endsGrid = true := by
  have hrow : Grid.rowId? m = none := by
    rcases h with hid | hprogress
    · simp [Grid.rowId?, hid]
    · simp [Grid.rowId?, hprogress]
  simp [endsGrid, haux, hrow]

namespace Grid

theorem isDelivery_react (g : Grid) (m : Message) (caps : Option CapabilitySet) (v : Viewport) :
    (g.react m caps v).2.isDelivery = m.aux.isSome := by
  unfold react
  cases m.aux with
  | some payload => rfl
  | none =>
    cases rowId? m with
    | some id => rfl
    | none => rfl

/-- Messages with a payload are seen by nobody but those whom they are handed to. -/
theorem showings_filter (g : Grid) (caps : Option CapabilitySet)
    (calls : List (Viewport × Message)) :
    g.showings caps (calls.filter (·.2.aux.isNone)) =
      (g.showings caps calls).filter (·.message.aux.isNone) := by
  induction calls generalizing g with
  | nil => rfl
  | cons call calls ih =>
    obtain ⟨v, m⟩ := call
    cases haux : m.aux with
    | none => simp [showings, showing, haux, ih]
    | some payload =>
      have hnext : g.next m = g := g.next_of_aux (by simp [haux])
      simp [showings, showing, haux, hnext, ih]

/-- They write nothing. -/
theorem written_filter (g : Grid) (caps : Option CapabilitySet)
    (calls : List (Viewport × Message)) :
    ((g.showings caps calls).filter (·.message.aux.isNone)).flatMap (·.written) =
      (g.showings caps calls).flatMap (·.written) := by
  induction calls generalizing g with
  | nil => rfl
  | cons call calls ih =>
    obtain ⟨v, m⟩ := call
    cases haux : m.aux with
    | none => simp [showings, showing, haux, ih]
    | some payload =>
      have hnothing : (g.script m caps v).calm.texts = [] := by
        rw [script_of_payload g caps v (by rw [haux]; rfl)]
        rfl
      simp [showings, showing, haux, hnothing, ih]

theorem after_filter (g : Grid) (calls : List (Viewport × Message)) :
    g.after ((calls.filter (·.2.aux.isNone)).map Prod.snd) = g.after (calls.map Prod.snd) := by
  induction calls generalizing g with
  | nil => rfl
  | cons call calls ih =>
    obtain ⟨v, m⟩ := call
    cases haux : m.aux with
    | none =>
      have hrest := ih (g.next m)
      simpa [after, haux] using hrest
    | some payload =>
      have hnext : g.next m = g := g.next_of_aux (by simp [haux])
      have hrest := ih g
      simpa [after, haux, hnext] using hrest

theorem handedOn_showings (g : Grid) (caps : Option CapabilitySet)
    (calls : List (Viewport × Message)) :
    ((g.showings caps calls).filter (·.handedOn)).map (·.message) =
      (calls.map Prod.snd).filter (·.aux.isSome) := by
  induction calls generalizing g with
  | nil => rfl
  | cons call calls ih =>
    obtain ⟨v, m⟩ := call
    cases haux : m.aux <;> simp [showings, showing, haux, ih]

/-- Without the capabilities of a terminal a message is written as its line. -/
theorem script_none (g : Grid) (m : Message) (v : Viewport) :
    g.script m none v = if m.aux.isSome then {} else { line := m.line none v } := by
  unfold script react
  cases m.aux with
  | some payload => rfl
  | none =>
    cases rowId? m with
    | some id => rfl
    | none => rfl

end Grid

namespace Display

variable {d : Display Recorder} (caps : Option CapabilitySet)

/-- A message whose writes are all taken comes to its script. -/
theorem render_unrefused (h : d.out.refused = []) (v : Viewport) (m : Message) :
    ∃ out : Recorder, d.render caps v m = ((d.grid.script m caps v).calm.failure,
        { grid := d.grid.next m, out, handedOn := d.handedOn ++ [m].filter (·.aux.isSome) }) ∧
      out.refused = [] ∧ out.written = d.out.written ++ (d.grid.script m caps v).calm.texts := by
  obtain ⟨out, hrun, hout⟩ := Recorder.run_unrefused h (d.grid.script m caps v)
  refine ⟨out, ?_, hout⟩
  rw [render_eq_script, hrun]

theorem observe_unrefused (h : d.out.refused = []) (v : Viewport) (m : Message) :
    d.observe caps v m = (d.grid.showing caps v m, (d.render caps v m).2) := by
  obtain ⟨out, hrender, _, hwritten⟩ := render_unrefused caps h v m
  simp only [observe, hrender, hwritten, List.drop_left, Grid.isDelivery_react, Grid.showing]

theorem trace_unrefused (h : d.out.refused = []) (calls : List (Viewport × Message)) :
    d.trace caps calls = d.grid.showings caps calls := by
  induction calls generalizing d with
  | nil => rfl
  | cons call calls ih =>
    obtain ⟨out, hrender, hrefused, _⟩ := render_unrefused caps h call.1 call.2
    have hrest := ih (d := (d.render caps call.1 call.2).2) (by rw [hrender]; exact hrefused)
    rw [grid_render] at hrest
    simp only [trace, observe_unrefused caps h, hrest, Grid.showings]

theorem renderAll_unrefused (h : d.out.refused = []) (calls : List (Viewport × Message)) :
    (d.renderAll caps calls).out.refused = [] ∧
      (d.renderAll caps calls).out.written =
        d.out.written ++ (d.grid.showings caps calls).flatMap (·.written) ∧
      (d.renderAll caps calls).handedOn =
        d.handedOn ++ (calls.map Prod.snd).filter (·.aux.isSome) := by
  rw [← and_assoc]
  refine ⟨?_, d.handedOn_renderAll caps calls⟩
  induction calls generalizing d with
  | nil => simp [renderAll, Grid.showings, h]
  | cons call calls ih =>
    obtain ⟨out, hrender, hrefused, hwritten⟩ := render_unrefused caps h call.1 call.2
    obtain ⟨hrefused', hwritten'⟩ :=
      ih (d := (d.render caps call.1 call.2).2) (by rw [hrender]; exact hrefused)
    refine ⟨hrefused', ?_⟩
    rw [renderAll, hwritten', grid_render, hrender, hwritten, List.append_assoc]
    rfl

end Display

/-- What showing a message depends on, behind any history of messages. Those with a payload are
handed on in their order, and all other messages are shown as if they had not come. A message
without a row leaves no trace in what is shown behind it, whether or not it fails. Without the
capabilities of a terminal no message leaves any in what another one writes, or in how it fails. -/
theorem showing_depends_on_current_grid (caps : Option CapabilitySet)
    (history : List (Viewport × Message)) :
    let fresh : Display Recorder := { out := {} }
    let d := fresh.renderAll caps history
    let kept := history.filter (·.2.aux.isNone)
    (fresh.trace caps kept = (fresh.trace caps history).filter (·.message.aux.isNone) ∧
      (fresh.renderAll caps kept).out.written = d.out.written ∧
      (fresh.renderAll caps kept).grid = d.grid ∧
      ((fresh.trace caps history).filter (·.handedOn)).map (·.message) =
        (history.map Prod.snd).filter (·.aux.isSome) ∧
      d.handedOn = (history.map Prod.snd).filter (·.aux.isSome)) ∧
    (∀ v m rest, m.aux = none → Message.nonEmpty m.id = none ∨ m.hasProgress = false →
      (d.render caps v m).2.trace caps rest = fresh.trace caps rest) ∧
    (caps = none → ∀ v m,
      (d.observe caps v m).1.written = (fresh.observe caps v m).1.written ∧
      (d.observe caps v m).1.failure = (fresh.observe caps v m).1.failure) := by
  intro fresh d kept
  have hfresh : fresh.out.refused = [] := rfl
  obtain ⟨hrefused, hwritten, hhanded⟩ := Display.renderAll_unrefused caps hfresh history
  obtain ⟨_, hkept, _⟩ := Display.renderAll_unrefused caps hfresh kept
  refine ⟨⟨?_, ?_, ?_, ?_, hhanded⟩, ?_, ?_⟩
  · rw [Display.trace_unrefused caps hfresh, Display.trace_unrefused caps hfresh]
    exact Grid.showings_filter {} caps history
  · rw [hkept, hwritten, Grid.showings_filter, Grid.written_filter]
  · rw [Display.grid_renderAll, Display.grid_renderAll]
    exact Grid.after_filter {} history
  · rw [Display.trace_unrefused caps hfresh]
    exact Grid.handedOn_showings {} caps history
  · intro v m rest haux hrow
    obtain ⟨out, hrender, hout, _⟩ := Display.render_unrefused caps hrefused v m
    have hends : m.endsGrid = true := Message.endsGrid_of_no_row haux hrow
    rw [Display.trace_unrefused caps (by rw [hrender]; exact hout), Display.grid_render,
      Grid.next_of_endsGrid _ hends, Display.trace_unrefused caps hfresh]
  · rintro rfl v m
    rw [Display.observe_unrefused none hrefused, Display.observe_unrefused none hfresh]
    simp only [Grid.showing, Grid.script_none, and_self]

end LiveProgress
