import LiveProgress.Number.Text

/-!
# Compact durations

Hours, minutes and seconds of the whole part of a number of seconds. A greater unit
is shown once it is reached, and every smaller one after it.
-/

namespace LiveProgress.Duration

def text (seconds : Number) : String :=
  let whole := seconds.trunc
  let sign := if whole < 0 then "-" else ""
  let magnitude := whole.abs
  let hours := (magnitude / 3600).floor
  let minutes := (magnitude % 3600 / 60).floor
  let rest := (magnitude % 60).text ++ "s"
  if 0 < hours then sign ++ hours.text ++ "h" ++ minutes.text ++ "m" ++ rest
  else if 0 < minutes then sign ++ minutes.text ++ "m" ++ rest
  else sign ++ rest

end LiveProgress.Duration
