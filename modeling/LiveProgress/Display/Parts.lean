import LiveProgress.Display.Window

/-!
# Parts of a fragment

A progress fragment cut into the bar, the numbers of its counts, the label of their units, and the
estimate of the time left. What can be read off its text: the cells of the bar. And how it is made
if a count of repetitions may be refused, as one is that is negative or beyond all numbers.
-/

namespace LiveProgress.Progress

/-- Records whose numbers are integers, as they are in every message that is accepted. -/
structure IsWhole (p : Progress) : Prop where
  current : ∀ x ∈ p.current, x.isInteger = true
  total : ∀ x ∈ p.total, x.isInteger = true
  start : ∀ x ∈ p.start, x.isInteger = true

/-! ### Bars -/

/-- A bar with a number of filled cells. -/
def barText (cells : Nat) : String :=
  "[" ++ String.ofList (List.replicate cells '=') ++ ">" ++
    String.ofList (List.replicate (50 - cells) ' ') ++ "] "

/-- The characters of every bar. -/
def barLength : Nat := 54

/-- The filled cells of the bar that a text begins with. -/
def shownCells (text : String) : Nat := (text.toList.take barLength).count '='

/-- `n` times a character. A count that is negative or beyond all numbers is refused. -/
def repeated? (c : Char) (n : Number) : Option String :=
  match n with
  | .finite .. => if n.wholePart < 0 then none else some (repeated c n)
  | .infinite _ => none
  | .undefined => some ""

/-- A bar, unless a count is refused on the way. -/
def bar? (percentage : Number) : Option String := do
  let filled := Number.max 0 percentage
  let cells ← repeated? '=' filled
  let blanks ← repeated? ' ' (barCells - filled)
  return "[" ++ cells ++ ">" ++ blanks ++ "] "

/-! ### Estimates -/

def elapsedNanos (start : Number) (now : Clock) : Number := (now.millis - start * 1000) * 1000000

def nanosPerUnit (current start : Number) (now : Clock) : Number :=
  (elapsedNanos start now / current).trunc

/-- The nanoseconds left at the speed so far. -/
def nanosLeft (current total start : Number) (now : Clock) : Number :=
  (total - current) * nanosPerUnit current start now

/-- The seconds left for a record when the clock shows a time. -/
def timeLeft (p : Progress) (now : Clock) : Number :=
  secondsLeft (p.current.getD 0) (p.total.getD 0) (p.start.getD 0) now

/-- Whether the clock shows a time that is not before the start, which is in seconds. -/
def HasBegun (p : Progress) (now : Clock) : Prop :=
  ∃ ms : Int, now = some ms ∧ ms.natAbs ≤ Clock.range ∧ (p.start.getD 0).wholePart * 1000 ≤ ms

/-! ### Fragments -/

/-- The counts up to the label of their units, which stands behind them. -/
def numbers (current total : Number) (units : String) : String :=
  if units.isEmpty then counts current total units
  else if total < current then current.text ++ " "
  else current.text ++ "/" ++ total.text ++ " "

structure Parts where
  bar : String := ""
  numbers : String := ""
  units : String := ""
  estimate : String := ""

def Parts.text (s : Parts) : String := s.bar ++ s.numbers ++ s.units ++ s.estimate

/-- The text without the label, which is the sender's own. -/
def Parts.textBesideUnits (s : Parts) : String := s.bar ++ s.numbers ++ s.estimate

/-- The parts of a fragment, those that are left out empty. -/
def parts (p : Progress) (v : Viewport) : Parts :=
  let current := p.current.getD 0
  let total := p.total.getD 0
  let start := p.start.getD 0
  let units := (p.units.getD []).string
  if current ≤ 0 ∧ total ≤ 0 then {}
  else if total ≤ 0 then
    { numbers := if units.isEmpty then sizeColumn current else current.text ++ " "
      units }
  else
    { bar := if barWidth < v.columns then bar (percentage current total) else ""
      numbers := if p.hideCounts.getD false then "" else numbers current total units
      units := if p.hideCounts.getD false then "" else units
      estimate :=
        if p.EstimateDue ∧ estimateWidth < v.columns then
          " " ++ Duration.text (secondsLeft current total start v.now)
        else "" }

/-- A fragment, unless a count of repetitions is refused. -/
def fragment? (p : Progress) (v : Viewport) : Option String :=
  let current := p.current.getD 0
  let total := p.total.getD 0
  if 0 < total ∧ barWidth < v.columns then
    (bar? (percentage current total)).map fun bar => { p.parts v with bar }.text
  else some (p.parts v).text

/-! ### Overflow -/

/-- Whether a text has one of the words in it that are written for what is no finite number. -/
def ShowsNoNumber (text : String) : Prop :=
  "NaN".toList <:+: text.toList ∨ "Infinity".toList <:+: text.toList

instance (text : String) : Decidable (ShowsNoNumber text) := inferInstanceAs (Decidable (_ ∨ _))

/-- Whether the time left is shown and its nanoseconds are beyond all numbers. -/
def EstimateOverflows (p : Progress) (v : Viewport) : Prop :=
  p.EstimateDue ∧ estimateWidth < v.columns ∧
    (nanosLeft (p.current.getD 0) (p.total.getD 0) (p.start.getD 0) v.now).isFinite = false

/-- The least size whose four digits are a finite number. -/
def leastSize : Number := .ofDecimal true 17975 304

/-- Whether the current count is shown as a size whose four digits are beyond all numbers. Only a
size below zero can be, since those are not scaled. -/
def SizeOverflows (p : Progress) : Prop :=
  p.hideCounts.getD false = false ∧ (p.units.getD []).string.isEmpty ∧ p.current.getD 0 < leastSize

/-- Records whose numbers are integers of 53 bits. -/
structure IsSafe (p : Progress) : Prop extends p.IsWhole where
  current_lt : (p.current.getD 0).wholePart.natAbs < significandBound
  total_lt : (p.total.getD 0).wholePart.natAbs < significandBound
  start_lt : (p.start.getD 0).wholePart.natAbs < significandBound

end LiveProgress.Progress
