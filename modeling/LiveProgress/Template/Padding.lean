import LiveProgress.Text.Units

/-!
# Padding markers

Capability strings may hold markers such as `$<5>`, `$<2*/>` or `$<1.5>` that ask for a
delay. A terminal emulator needs none, so they are taken out.
-/

namespace LiveProgress.Template

def isDelay (u : CodeUnit) : Bool := u.toChar.isDigit || u.toChar == '.'

def isDelayFlag (u : CodeUnit) : Bool := u.toChar == '*' || u.toChar == '/'

/-- What follows a marker at the front of the units: `$<`, digits or points, at most
two flags and `>`. -/
def afterMarker? : Text → Option Text
  | dollar :: less :: rest =>
      let flags := rest.dropWhile isDelay
      let count := (flags.takeWhile isDelayFlag).length
      match flags.drop count with
      | greater :: after =>
          if dollar.toChar = '$' ∧ less.toChar = '<' ∧ greater.toChar = '>' ∧
              flags.length < rest.length ∧ count ≤ 2 then some after
          else none
      | [] => none
  | _ => none

theorem afterMarker?_shorter {s after : Text} (h : afterMarker? s = some after) :
    after.length < s.length := by
  unfold afterMarker? at h
  split at h
  · rename_i dollar less rest
    dsimp only at h
    split at h
    · rename_i greater tail heq
      split at h
      · obtain rfl := Option.some.inj h
        have hd := congrArg List.length heq
        have hf : (rest.dropWhile isDelay).length ≤ rest.length :=
          (List.dropWhile_sublist _).length_le
        simp only [List.length_drop, List.length_cons] at hd ⊢
        omega
      · cases h
    · cases h
  · cases h

/-- The units without their padding markers. -/
def stripPadding (s : Text) : Text :=
  match h : afterMarker? s with
  | some after =>
      have := afterMarker?_shorter h
      stripPadding after
  | none =>
      match s with
      | [] => []
      | u :: rest => u :: stripPadding rest
termination_by s.length

end LiveProgress.Template
