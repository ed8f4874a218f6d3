import LiveProgress.Output.Destination

/-!
# What a failure goes back to

If the calls of a destination fail only with the error of a write, then a script fails either as
it says itself or with the error of a write, and it does not hide that it fails itself.
-/

namespace LiveProgress.Destination

variable {σ : Type} {Inv : σ → Prop} {Explains : σ → Failure → Prop} {own : Option Failure}
  {out : σ} {r : Option Failure × σ}

/-- What something comes to that has a failure of its own, or none. `Explains` tells the failures
that the writes so far account for. -/
structure Blames (Inv : σ → Prop) (Explains : σ → Failure → Prop) (own : Option Failure) (out : σ)
    (r : Option Failure × σ) : Prop where
  inv : Inv r.2
  stays : ∀ f, Explains out f → Explains r.2 f
  failed : ∀ f, r.1 = some f → own = some f ∨ Explains r.2 f
  passed : r.1 = none → own = none

theorem Blames.explains (h : Blames Inv Explains none out r) {f : Failure} (hf : r.1 = some f) :
    Explains r.2 f :=
  (h.failed f hf).resolve_left nofun

variable [Destination σ]

/-- The calls fail only with failures that the writes account for. -/
structure Honest (Inv : σ → Prop) (Explains : σ → Failure → Prop) : Prop where
  write : ∀ out, Inv out → ∀ text, Blames Inv Explains none out (write out text)
  ready : ∀ out, Inv out → Blames Inv Explains none out (ready out)

namespace Honest

theorem writeAll (h : Honest Inv Explains) (hout : Inv out) (texts : List String) :
    Blames Inv Explains none out (writeAll out texts) := by
  induction texts generalizing out with
  | nil =>
    constructor
    · exact hout
    · exact fun _ hf => hf
    · exact fun f hf => absurd hf.symm (Option.some_ne_none f)
    · exact fun _ => rfl
  | cons text texts ih =>
    have hwrite := h.write out hout text
    simp only [Destination.writeAll]
    generalize Destination.write out text = r at hwrite
    obtain ⟨failure, out'⟩ := r
    cases failure with
    | some f => exact hwrite
    | none =>
      have hrest := ih hwrite.inv
      constructor
      · exact hrest.inv
      · exact fun f hf => hrest.stays f (hwrite.stays f hf)
      · exact hrest.failed
      · exact hrest.passed

theorem attempt (h : Honest Inv Explains) (hout : Inv out) (a : Attempt) :
    Blames Inv Explains a.failure out (a.run out) := by
  have hwrites := h.writeAll hout a.texts
  simp only [Attempt.run]
  generalize Destination.writeAll out a.texts = r at hwrites
  obtain ⟨broken, out'⟩ := r
  constructor
  · exact hwrites.inv
  · exact hwrites.stays
  · intro f hf
    cases broken with
    | some f' => exact .inr (hwrites.explains hf)
    | none => exact .inl hf
  · exact fun hnone => (Option.or_eq_none_iff.mp hnone).2

theorem run (h : Honest Inv Explains) (hout : Inv out) (s : Script) :
    Blames Inv Explains s.calm.failure out (s.run out) := by
  have hopening := h.attempt hout s.opening
  rw [s.failure_calm]
  simp only [Script.run]
  generalize s.opening.run out = r at hopening
  obtain ⟨failure, out₁⟩ := r
  cases failure with
  | some f =>
    constructor
    · exact hopening.inv
    · exact hopening.stays
    · intro f' hf
      exact (hopening.failed f' hf).imp_left fun hown => by rw [hown, Option.some_or]
    · nofun
  | none =>
    have hline := h.attempt hopening.inv s.line
    dsimp only
    generalize s.line.run out₁ = r at hline
    obtain ⟨broken, out₂⟩ := r
    have hclosing := h.attempt hline.inv s.closing
    generalize s.closing.run out₂ = r at hclosing
    obtain ⟨stuck, out₃⟩ := r
    rw [hopening.passed rfl, Option.none_or]
    constructor
    · exact hclosing.inv
    · exact fun f hf => hclosing.stays f (hline.stays f (hopening.stays f hf))
    · intro f hf
      cases stuck with
      | some f' =>
        exact (hclosing.failed f hf).imp_left fun hown => by rw [hown, Option.some_or]
      | none =>
        rw [hclosing.passed rfl, Option.none_or]
        exact (hline.failed f hf).imp_right (hclosing.stays f)
    · intro hnone
      obtain ⟨hstuck, hbroken⟩ := Option.or_eq_none_iff.mp hnone
      rw [hclosing.passed hstuck, hline.passed hbroken, Option.none_or]

end Honest
end LiveProgress.Destination
