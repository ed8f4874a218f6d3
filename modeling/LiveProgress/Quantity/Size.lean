import LiveProgress.Number.Text

/-!
# Human-readable sizes

A byte count in the greatest decimal unit that leaves at least one of it, with four
significant digits.
-/

namespace LiveProgress.Size

def units : List String := ["B", "kB", "MB", "GB", "TB", "PB", "EB", "ZB", "YB"]

/-- Divides by a thousand as long as that leaves at least one of the next unit. -/
def scale (size : Number) : List String → Number × String
  | [] => (size, "")
  | [unit] => (size, unit)
  | unit :: next :: greater =>
      if 1000 ≤ size then scale (size / 1000) (next :: greater) else (size, unit)

def text (size : Number) : String :=
  let (scaled, unit) := scale size units
  (scaled.roundSignificant 4).text ++ unit

end LiveProgress.Size
