import LiveProgress.Display.Window
import LiveProgress.Proofs.Display.Plain
import LiveProgress.Proofs.Display.Trace
import LiveProgress.Proofs.Number.Whole

/-!
# How far a plain log depends on the window

Without the capabilities of a terminal, rows, payloads and reported failures are the same in any
window. What is written is the same exactly if each message finds the two windows on one side of the
width that decides about it, if there is such a width. The time is never seen.
-/

namespace LiveProgress

variable {v v' : Viewport}

/-! ### Fragments -/

namespace Progress

variable {p : Progress}

/-- Where there is room for a bar there is room for an estimate. -/
theorem estimateWidth_lt_of_barWidth_lt {columns : Number} (h : barWidth < columns) :
    estimateWidth < columns :=
  Number.lt_trans ((Number.ofNat_lt_ofNat (by decide) (by decide)).mpr (by decide)) h

theorem sizeColumn_ne_empty (size : Number) : sizeColumn size ≠ "" := by
  unfold sizeColumn Text.padLeft
  cases hsize : Size.text size == "" with
  | true =>
    rw [eq_of_beq hsize]
    decide
  | false =>
    have hne : Size.text size ≠ "" := ne_of_beq_false hsize
    simp [String.append_eq_empty_iff, hne]

theorem counts_ne_empty (current total : Number) (units : String) :
    counts current total units ≠ "" := by
  unfold counts
  split_ifs <;> simp [String.append_eq_empty_iff, sizeColumn_ne_empty]

theorem bar_ne_empty (percentage : Number) : bar percentage ≠ "" := by
  simp [bar, String.append_eq_empty_iff]

/-- The three parts of a fragment. -/
theorem fragment_of_total (p : Progress) (v : Viewport) (h : ¬ p.total.getD 0 ≤ 0) :
    ∃ counted estimate : String,
      (counted = "" ↔ p.hideCounts.getD false = true) ∧ estimate ≠ "" ∧
      p.fragment v =
        (if barWidth < v.columns then bar (percentage (p.current.getD 0) (p.total.getD 0)) else "") ++
          counted ++ if p.EstimateDue ∧ estimateWidth < v.columns then estimate else "" := by
  refine ⟨if p.hideCounts.getD false then ""
      else counts (p.current.getD 0) (p.total.getD 0) (p.units.getD []).string,
    " " ++ Duration.text (secondsLeft (p.current.getD 0) (p.total.getD 0) (p.start.getD 0) v.now),
    ?_, ?_, ?_⟩
  · split_ifs with hhide
    · exact iff_of_true rfl hhide
    · exact iff_of_false (counts_ne_empty _ _ _) hhide
  · simp [String.append_eq_empty_iff]
  · have hboth : ¬ (p.current.getD 0 ≤ 0 ∧ p.total.getD 0 ≤ 0) := fun hboth => h hboth.2
    simp only [fragment, if_neg hboth, if_neg h, EstimateDue, and_assoc]

/-- If the counts are shown, or nothing is, then in any window. -/
theorem fragment_eq_empty_iff_of_none (h : p.decidingWidth? = none) :
    p.fragment v = "" ↔ p.current.getD 0 ≤ 0 ∧ p.total.getD 0 ≤ 0 := by
  by_cases htotal : p.total.getD 0 ≤ 0
  · by_cases hboth : p.current.getD 0 ≤ 0 ∧ p.total.getD 0 ≤ 0
    · refine iff_of_true ?_ hboth
      simp only [fragment, if_pos hboth]
    · refine iff_of_false ?_ hboth
      simp only [fragment, if_neg hboth, if_pos htotal]
      split_ifs <;> simp [String.append_eq_empty_iff, sizeColumn_ne_empty]
  · obtain ⟨counted, estimate, hcounted, -, hfragment⟩ := p.fragment_of_total v htotal
    have hshown : ¬ p.hideCounts.getD false = true := by
      intro hhide
      simp only [decidingWidth?, htotal, hhide, Bool.true_eq_false, or_self, if_false] at h
      split at h <;> cases h
    have hne : counted ≠ "" := mt hcounted.mp hshown
    rw [hfragment]
    simp [String.append_eq_empty_iff, hne, htotal]

/-- If the counts are hidden, there is a fragment in windows that are wide enough. -/
theorem fragment_eq_empty_iff_of_some {width : Number} (h : p.decidingWidth? = some width) :
    p.fragment v = "" ↔ ¬ width < v.columns := by
  unfold decidingWidth? at h
  split at h
  · cases h
  · rename_i hknown
    obtain ⟨htotal, hshown⟩ := not_or.mp hknown
    obtain ⟨counted, estimate, hcounted, hestimate, hfragment⟩ := p.fragment_of_total v htotal
    have hempty : counted = "" := hcounted.mpr (Bool.eq_true_of_not_eq_false hshown)
    rw [hfragment, hempty]
    by_cases hdue : p.EstimateDue
    · rw [if_pos hdue] at h
      obtain rfl := Option.some.inj h
      by_cases hwide : estimateWidth < v.columns
      · simp [String.append_eq_empty_iff, hdue, hwide, hestimate]
      · have hbar : ¬ barWidth < v.columns := mt estimateWidth_lt_of_barWidth_lt hwide
        simp [hwide, hbar]
    · rw [if_neg hdue] at h
      obtain rfl := Option.some.inj h
      by_cases hwide : barWidth < v.columns
      · simp [hdue, hwide, bar_ne_empty]
      · simp [hdue, hwide]

end Progress

/-! ### Messages -/

namespace Message

variable {m : Message}

/-- Structured progress is suppressed alike in windows on one side of the deciding width, and only
in these. -/
theorem isTerminalOnly_eq_iff (haux : m.aux = none) (herror : m.reportedError = none) :
    m.isTerminalOnly v = m.isTerminalOnly v' ↔ m.SidesAlike v v' := by
  unfold SidesAlike decidingWidth? isTerminalOnly
  rw [haux, herror]
  cases m.progressDetail with
  | none => simp
  | some p =>
    change (p.fragment v != "") = (p.fragment v' != "") ↔
      ∀ width, p.decidingWidth? = some width → (width < v.columns ↔ width < v'.columns)
    rw [Bool.eq_iff_iff, bne_iff_ne, bne_iff_ne, ne_eq, ne_eq]
    cases hwidth : p.decidingWidth? with
    | none => simp [Progress.fragment_eq_empty_iff_of_none hwidth]
    | some width => simp [Progress.fragment_eq_empty_iff_of_some hwidth]

theorem sidesAlike_of_decidingWidth?_eq_none (h : m.decidingWidth? = none) :
    m.SidesAlike v v' := by
  intro width hwidth
  rw [h] at hwidth
  cases hwidth

end Message

/-! ### Scripts -/

namespace Grid

variable {m : Message}

theorem writes_script_none {g : Grid} (haux : m.aux = none) (herror : m.reportedError = none) :
    (g.script m none v).calm.texts =
      if m.isTerminalOnly v then [] else m.heading ++ [m.content false v "\n"] := by
  rw [g.script_none, haux, if_neg (by simp), Script.calm_of_line]
  unfold Message.line
  rw [herror]
  dsimp only
  cases m.isTerminalOnly v with
  | true => rfl
  | false => rfl

theorem script_none_of_sidesAlike (g : Grid) (h : m.SidesAlike v v') :
    g.script m none v = g.script m none v' := by
  rw [script_none, script_none]
  cases haux : m.aux with
  | some payload => rfl
  | none =>
    have hline : m.line none v = m.line none v' := by
      cases herror : m.reportedError with
      | some e => simp only [Message.line, herror]
      | none =>
        have hsuppressed := (Message.isTerminalOnly_eq_iff haux herror).mpr h
        exact Message.line_none_of_isTerminalOnly hsuppressed
    rw [hline]

/-- What a message writes without a terminal is the same in windows on one side of the width that
decides about it, and only in these. -/
theorem writes_none_eq_iff (g : Grid) :
    (g.script m none v).calm.texts = (g.script m none v').calm.texts ↔ m.SidesAlike v v' := by
  refine ⟨fun hwrites => ?_, fun h => by rw [g.script_none_of_sidesAlike h]⟩
  by_cases hshown : m.aux = none ∧ m.reportedError = none
  · obtain ⟨haux, herror⟩ := hshown
    rw [← Message.isTerminalOnly_eq_iff haux herror]
    rw [writes_script_none haux herror, writes_script_none haux herror] at hwrites
    cases hleft : m.isTerminalOnly v <;> cases hright : m.isTerminalOnly v' <;>
      simp [hleft, hright] at hwrites ⊢
  · apply Message.sidesAlike_of_decidingWidth?_eq_none
    unfold Message.decidingWidth?
    split
    · rename_i haux herror
      exact absurd ⟨haux, herror⟩ hshown
    · rfl

end Grid

/-! ### Displays -/

namespace Grid
open InTwoWindows

/-- Without a terminal only the writes of a message depend on the window. -/
theorem failure_script_none (g : Grid) (v : Viewport) (m : Message) :
    (g.script m none v).calm.failure = m.ownFailure := by
  have hgranted : g.IsGranted none m := nofun
  exact hgranted.failure_script v

theorem showings_none_eq_iff (g : Grid) (calls : List InTwoWindows) :
    g.showings none (inFirst calls) = g.showings none (inSecond calls) ↔ Alike calls := by
  induction calls generalizing g with
  | nil => exact iff_of_true rfl (List.forall_mem_nil _)
  | cons c calls ih =>
    have hshowing : g.showing none c.first c.message = g.showing none c.second c.message ↔
        c.message.SidesAlike c.first c.second := by
      rw [← g.writes_none_eq_iff]
      simp [showing, g.failure_script_none]
    rw [Alike, List.forall_mem_cons, ← Alike, ← hshowing, ← ih (g.next c.message)]
    exact List.cons_eq_cons

/-- Whatever the windows are, the rows, the reported failures and the messages that are handed on
are the same. -/
theorem showings_none_congr (g : Grid) (calls : List InTwoWindows) :
    (g.showings none (inFirst calls)).map (fun s => (s.message, s.rows, s.failure, s.handedOn)) =
      (g.showings none (inSecond calls)).map
        fun s => (s.message, s.rows, s.failure, s.handedOn) := by
  induction calls generalizing g with
  | nil => rfl
  | cons c calls ih =>
    have hlater := ih (g.next c.message)
    simp only [inFirst, inSecond, List.map_cons, showings, showing, g.failure_script_none] at hlater ⊢
    exact congrArg (List.cons _) hlater

end Grid

namespace Display
open InTwoWindows

variable {σ : Type} [Destination σ]

/-- On any destination, a message is shown alike in such windows. -/
theorem render_none_of_sidesAlike (d : Display σ) {m : Message} (h : m.SidesAlike v v') :
    d.render none v m = d.render none v' m := by
  rw [render_eq_script, render_eq_script, d.grid.script_none_of_sidesAlike h]

theorem shown_alike (d : Display σ) {calls : List InTwoWindows} (h : InTwoWindows.Alike calls) :
    d.failures none (inFirst calls) = d.failures none (inSecond calls) ∧
      d.renderAll none (inFirst calls) = d.renderAll none (inSecond calls) := by
  induction calls generalizing d with
  | nil => exact ⟨rfl, rfl⟩
  | cons c calls ih =>
    obtain ⟨hnow, hlater⟩ := List.forall_mem_cons.mp h
    have hrender := d.render_none_of_sidesAlike hnow
    obtain ⟨hfailures, hall⟩ := ih (d.render none c.second c.message).2 hlater
    constructor
    · change (d.render none c.first c.message).1 ::
          (d.render none c.first c.message).2.failures none (inFirst calls) = _
      rw [hrender, hfailures]
      rfl
    · change (d.render none c.first c.message).2.renderAll none (inFirst calls) = _
      rw [hrender, hall]
      rfl

end Display

/-- How far a plain log depends on the window. Whatever two windows each message is shown in, and at
whatever times, the rows, the messages that are handed on and the reported failures are the same.
What is written is the same exactly if no message finds the width that decides about it between its
two windows; then every destination is left in the same state, with the same failures. Structured
progress is suppressed in one of the windows only if it finds that width between them. -/
theorem plain_log_depends_on_deciding_widths (calls : List InTwoWindows) :
    let fresh : Display Recorder := { out := {} }
    let inFirst := InTwoWindows.inFirst calls
    let inSecond := InTwoWindows.inSecond calls
    (fresh.trace none inFirst).map (fun s => (s.message, s.rows, s.failure, s.handedOn)) =
        (fresh.trace none inSecond).map (fun s => (s.message, s.rows, s.failure, s.handedOn)) ∧
      (fresh.trace none inFirst = fresh.trace none inSecond ↔ InTwoWindows.Alike calls) ∧
      (∀ {σ : Type} [Destination σ] (d : Display σ),
        (d.renderAll none inFirst).grid = (d.renderAll none inSecond).grid ∧
        (d.renderAll none inFirst).handedOn = (d.renderAll none inSecond).handedOn ∧
        (InTwoWindows.Alike calls →
          d.failures none inFirst = d.failures none inSecond ∧
          d.renderAll none inFirst = d.renderAll none inSecond)) ∧
      ∀ call ∈ calls, call.message.aux = none → call.message.reportedError = none →
        (call.message.isTerminalOnly call.first = call.message.isTerminalOnly call.second ↔
          call.message.SidesAlike call.first call.second) := by
  intro fresh inFirst inSecond
  have hfresh : fresh.out.refused = [] := rfl
  refine ⟨?_, ?_, ?_, ?_⟩
  · rw [Display.trace_unrefused none hfresh, Display.trace_unrefused none hfresh]
    exact Grid.showings_none_congr {} calls
  · rw [Display.trace_unrefused none hfresh, Display.trace_unrefused none hfresh]
    exact Grid.showings_none_eq_iff {} calls
  · intro σ _ d
    have hmessages : inFirst.map Prod.snd = inSecond.map Prod.snd := by
      simp only [inFirst, inSecond, InTwoWindows.inFirst, InTwoWindows.inSecond, List.map_map,
        Function.comp_def]
    refine ⟨?_, ?_, d.shown_alike⟩
    · rw [Display.grid_renderAll, Display.grid_renderAll, hmessages]
    · rw [Display.handedOn_renderAll, Display.handedOn_renderAll, hmessages]
  · intro call _ haux herror
    exact Message.isTerminalOnly_eq_iff haux herror

/-- Ten more columns suppress a message whose counts are hidden. -/
theorem hidden_counts_show_width :
    let fresh : Display Recorder := { out := {} }
    let m : Message :=
      { status := Text.ofString "s"
        progressDetail := some { total := some 100, hideCounts := some true } }
    (fresh.trace none [({ width := some 110 }, m)]).map (·.written) = [["s\n"]] ∧
      (fresh.trace none [({ width := some 120 }, m)]).map (·.written) = [[]] := by
  decide +kernel

end LiveProgress
