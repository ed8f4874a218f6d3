import LiveProgress.Command.Moments
import LiveProgress.Proofs.Display.Ledger

/-!
# Displays without a terminal

Without the capabilities of a terminal, progress is not shown but for its text. Whether there is
any to show is still found out, from the width of the window alone: an estimate of the time left is
never empty, whatever the clock says. Behind no descriptor the width is a fixed one.
-/

namespace LiveProgress

variable {v v' : Viewport}

/-- Without a terminal the text of a message does not depend on the viewport. -/
theorem Message.content_congr (m : Message) (v v' : Viewport) (lineEnd : String) :
    m.content false v lineEnd = m.content false v' lineEnd := by
  have hhidden : m.progressDetail.filter (fun _ => false) = none :=
    Option.filter_eq_none_iff.mpr fun _ _ => Bool.false_ne_true
  unfold content
  rw [hhidden]
  cases nonEmpty m.progress with
  | some progress => rfl
  | none => cases nonEmpty m.stream <;> rfl

theorem Message.line_none_of_isTerminalOnly {m : Message}
    (h : m.isTerminalOnly v = m.isTerminalOnly v') : m.line none v = m.line none v' := by
  unfold line
  cases m.reportedError with
  | some e => rfl
  | none => simp only [h, m.content_congr v v']

namespace Display

variable {σ : Type} [Destination σ]

end Display
end LiveProgress
