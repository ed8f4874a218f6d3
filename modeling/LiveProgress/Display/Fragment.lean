import LiveProgress.Message.Basic
import LiveProgress.Quantity.Duration
import LiveProgress.Quantity.Size
import LiveProgress.Terminal.Viewport
import LiveProgress.Text.Units

/-!
# Progress fragments

The part of a line that shows progress: a bar of fifty cells, the counts, and an
estimate of the time left. The bar needs a window wider than 110 columns, the estimate
one wider than 50 and a start time.
-/

namespace LiveProgress.Progress

/-- Cells of a full bar, one for two percent. -/
def barCells : Number := 50

def barWidth : Number := 110

def estimateWidth : Number := 50

/-- A count without its unit of measure: sizes are filled to eight columns. -/
def sizeColumn (size : Number) : String := Text.padLeft 8 ' ' (Size.text size)

/-- `n` times a character, and nothing for a number that is not finite. -/
def repeated (c : Char) (n : Number) : String :=
  String.ofList (List.replicate n.wholePart.toNat c)

/-- Filled cells before clamping from below: whole percents, halved. -/
def percentage (current total : Number) : Number :=
  barCells.min (((current / total * 100).trunc / 2).trunc)

def bar (percentage : Number) : String :=
  let filled := Number.max 0 percentage
  "[" ++ repeated '=' filled ++ ">" ++ repeated ' ' (barCells - filled) ++ "] "

/-- Current and total count. A total below the current count is left out. -/
def counts (current total : Number) (units : String) : String :=
  if units.isEmpty then
    if total < current then sizeColumn current
    else sizeColumn current ++ "/" ++ Size.text total
  else if total < current then current.text ++ " " ++ units
  else current.text ++ "/" ++ total.text ++ " " ++ units

/-- The seconds left at the speed so far, reckoned in nanoseconds for each unit. -/
def secondsLeft (current total start : Number) (now : Clock) : Number :=
  let elapsedNanos := (now.millis - start * 1000) * 1000000
  let nanosPerUnit := (elapsedNanos / current).trunc
  (total - current) * nanosPerUnit / 1000000000

/-- The fragment of a progress record; empty if it holds nothing to show. -/
def fragment (p : Progress) (v : Viewport) : String :=
  let current := p.current.getD 0
  let total := p.total.getD 0
  let start := p.start.getD 0
  let units := (p.units.getD []).string
  if current ≤ 0 ∧ total ≤ 0 then ""
  else if total ≤ 0 then
    if units.isEmpty then sizeColumn current else current.text ++ " " ++ units
  else
    let percentage := percentage current total
    let bar := if barWidth < v.columns then bar percentage else ""
    let counts := if p.hideCounts.getD false then "" else counts current total units
    let estimate :=
      if 0 < current ∧ 0 < start ∧ percentage < barCells ∧ estimateWidth < v.columns then
        " " ++ Duration.text (secondsLeft current total start v.now)
      else ""
    bar ++ counts ++ estimate

end LiveProgress.Progress
