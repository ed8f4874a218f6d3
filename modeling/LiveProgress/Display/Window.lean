import LiveProgress.Display.Trace

/-!
# Windows

Where the width of the window decides whether there is progress to show: only where the counts are
hidden. Then there is the bar, in a window that is wide enough for it, and the estimate of the time
left, if it is due, for which less will do.
-/

namespace LiveProgress

namespace Progress

/-- Whether an estimate of the time left is shown in a window that is wide enough for it. -/
def EstimateDue (p : Progress) : Prop :=
  0 < p.current.getD 0 ∧ 0 < p.start.getD 0 ∧
    percentage (p.current.getD 0) (p.total.getD 0) < barCells

instance (p : Progress) : Decidable p.EstimateDue := inferInstanceAs (Decidable (_ ∧ _ ∧ _))

/-- The width beyond which there is something to show, if that takes a width. -/
def decidingWidth? (p : Progress) : Option Number :=
  if p.total.getD 0 ≤ 0 ∨ p.hideCounts.getD false = false then none
  else if p.EstimateDue then some estimateWidth
  else some barWidth

end Progress

namespace Message

/-- The width up to which a message is shown without a terminal, and beyond which it is not. -/
def decidingWidth? (m : Message) : Option Number :=
  match m.aux, m.reportedError with
  | none, none => m.progressDetail.bind (·.decidingWidth?)
  | _, _ => none

/-- Two windows lie on one side of the width that decides about a message. -/
def SidesAlike (m : Message) (v v' : Viewport) : Prop :=
  ∀ width, m.decidingWidth? = some width → (width < v.columns ↔ width < v'.columns)

end Message

/-- A message, and two viewports in which it is shown. -/
structure InTwoWindows where
  message : Message
  first : Viewport
  second : Viewport

namespace InTwoWindows

def inFirst (calls : List InTwoWindows) : List (Viewport × Message) :=
  calls.map fun call => (call.first, call.message)

def inSecond (calls : List InTwoWindows) : List (Viewport × Message) :=
  calls.map fun call => (call.second, call.message)

/-- Whether no width decides about a message between its two windows. -/
def Alike (calls : List InTwoWindows) : Prop :=
  ∀ call ∈ calls, call.message.SidesAlike call.first call.second

end InTwoWindows

/-- How messages fail that are shown one after the other, whatever fails on the way. -/
def Display.failures {σ : Type} [Destination σ] (d : Display σ) (caps : Option CapabilitySet) :
    List (Viewport × Message) → List (Option Failure)
  | [] => []
  | (v, m) :: rest =>
      let (failure, next) := d.render caps v m
      failure :: next.failures caps rest

end LiveProgress
