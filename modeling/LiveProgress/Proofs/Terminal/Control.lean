import LiveProgress.Proofs.Number.Whole
import LiveProgress.Terminal.Control

/-!
# What the cursor is told

A row move is one look-up or none, so that a set which refuses it writes nothing there. Up to 53
bits a count of rows is the number that stands for it, digits and all.
-/

namespace LiveProgress

theorem LineCount.ofRows_eq_ofNumber {n : Nat} (h : n < significandBound) :
    ofRows n = ofNumber (.ofNat n) := by
  rw [ofRows, ofNumber, Number.text_ofNat h]

namespace CapabilitySet

variable (caps : CapabilitySet)

theorem cursorUp_ofRows (rows : Nat) : caps.cursorUp (.ofRows rows) =
    if rows = 0 then {} else caps.write "cuu" [.ofNat rows] (Ansi.up (toString rows)) := by
  simp only [cursorUp, LineCount.ofRows, Number.beq_zero, decide_eq_true_eq]

theorem cursorDown_ofRows (rows : Nat) : caps.cursorDown (.ofRows rows) =
    if rows = 0 then {} else caps.write "cud" [.ofNat rows] (Ansi.down (toString rows)) := by
  simp only [cursorDown, LineCount.ofRows, Number.beq_zero, decide_eq_true_eq]

/-! ### Sets that answer -/

variable {caps}

/-- Moves fail only where their look-up does. -/
theorem Answers.of_lookup (h : ∀ name parameters, ∃ text, caps.lookup name parameters = .ok text) :
    caps.Answers := by
  have hwrite (name : String) (parameters : List Number) (plain : String) :
      (caps.write name parameters plain).failure = none := by
    obtain ⟨text, htext⟩ := h name parameters
    rw [write, htext]
  refine ⟨?_, fun rows => ?_, fun rows => ?_⟩
  · rw [CapabilitySet.clearLine, Attempt.failure_andThen, hwrite, hwrite]
    rfl
  · rw [cursorUp_ofRows]
    split
    · rfl
    · exact hwrite ..
  · rw [cursorDown_ofRows]
    split
    · rfl
    · exact hwrite ..

theorem answers_empty : empty.Answers := .of_lookup fun _ _ => ⟨none, rfl⟩

theorem answers_labels : labels.Answers := .of_lookup fun _ _ => ⟨_, rfl⟩

end CapabilitySet
end LiveProgress
