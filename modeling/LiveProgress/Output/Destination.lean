import LiveProgress.Failure

/-!
# Destinations

Somewhere rendered text is written to, one text at a time. A write may fail; what it
would have written is lost, and what was written before it stays.
-/

namespace LiveProgress

class Destination (σ : Type) where
  write : σ → String → Option Failure × σ
  /-- Waits until the destination takes more. -/
  ready : σ → Option Failure × σ

namespace Destination

variable {σ : Type} [Destination σ]

/-- Writes texts in order, up to the first write that fails. -/
def writeAll (out : σ) : List String → Option Failure × σ
  | [] => (none, out)
  | text :: rest =>
      match write out text with
      | (some f, out) => (some f, out)
      | (none, out) => writeAll out rest

end Destination

/-- Texts to write, and the failure that takes the place of those that are missing. -/
structure Attempt where
  texts : List String := []
  failure : Option Failure := none
deriving DecidableEq

namespace Attempt

/-- Goes on with another attempt, unless the first one fails. -/
def andThen (a b : Attempt) : Attempt :=
  match a.failure with
  | some _ => a
  | none => { b with texts := a.texts ++ b.texts }

theorem andThen_of_failure {a : Attempt} {f : Failure} (h : a.failure = some f) (b : Attempt) :
    a.andThen b = a := by
  simp only [andThen, h]

theorem andThen_of_healthy {a : Attempt} (h : a.failure = none) (b : Attempt) :
    a.andThen b = { b with texts := a.texts ++ b.texts } := by
  simp only [andThen, h]

theorem failure_andThen (a b : Attempt) : (a.andThen b).failure = a.failure.or b.failure := by
  unfold andThen
  cases h : a.failure with
  | some f => exact h
  | none => rfl

/-- Carries out an attempt, up to the first write that fails. -/
def run {σ : Type} [Destination σ] (a : Attempt) (out : σ) : Option Failure × σ :=
  let (broken, out) := Destination.writeAll out a.texts
  (broken.or a.failure, out)

end Attempt

/-- Attempts in three parts. Once the opening is through, the closing is made whatever
becomes of the line between them. -/
structure Script where
  opening : Attempt := {}
  line : Attempt := {}
  closing : Attempt := {}
deriving DecidableEq

namespace Script

/-- What a script comes to if no write fails. A failure of the closing hides that of the
line. -/
def calm (s : Script) : Attempt :=
  s.opening.andThen {
    texts := s.line.texts ++ s.closing.texts
    failure := s.closing.failure.or s.line.failure }

theorem failure_calm (s : Script) :
    s.calm.failure = s.opening.failure.or (s.closing.failure.or s.line.failure) :=
  Attempt.failure_andThen _ _

theorem calm_of_failure {s : Script} {f : Failure} (h : s.opening.failure = some f) :
    s.calm = s.opening :=
  Attempt.andThen_of_failure h _

theorem texts_calm_of_healthy {s : Script} (h : s.opening.failure = none) :
    s.calm.texts = s.opening.texts ++ s.line.texts ++ s.closing.texts := by
  rw [calm, Attempt.andThen_of_healthy h, List.append_assoc]

theorem texts_calm (s : Script) : s.calm.texts =
    s.opening.texts ++ if s.opening.failure.isSome then [] else s.line.texts ++ s.closing.texts := by
  unfold calm Attempt.andThen
  cases s.opening.failure with
  | some f => exact (List.append_nil _).symm
  | none => rfl

/-- A line without brackets comes to itself. -/
theorem calm_of_line (line : Attempt) : ({ line } : Script).calm = line := by
  simp [calm, Attempt.andThen]

/-- Carries out a script. -/
def run {σ : Type} [Destination σ] (s : Script) (out : σ) : Option Failure × σ :=
  match s.opening.run out with
  | (some f, out) => (some f, out)
  | (none, out) =>
      let (broken, out) := s.line.run out
      let (stuck, out) := s.closing.run out
      (stuck.or broken, out)

end Script
end LiveProgress
