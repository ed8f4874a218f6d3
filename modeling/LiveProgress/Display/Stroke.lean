import LiveProgress.Display.History
import LiveProgress.Terminal.Screen

/-!
# Strokes

What a message puts on a terminal, told without the sequences that the capabilities of the
terminal have for it: text, moves of the cursor over a number of rows, and clearing the line
of the cursor. Line feeds and moves add up to the number of rows that the cursor descends.
-/

namespace LiveProgress

inductive Stroke where
  | text (s : String)
  | up (rows : Nat)
  | down (rows : Nat)
  /-- Clears the line of the cursor. -/
  | clear
deriving DecidableEq, Repr

namespace Stroke

/-- The writes of a stroke on a terminal with the capabilities given. -/
def writes (caps : CapabilitySet) : Stroke → List String
  | .text s => [s]
  | .up rows => (caps.cursorUp (.ofRows rows)).texts
  | .down rows => (caps.cursorDown (.ofRows rows)).texts
  | .clear => caps.clearLine.texts

def allWrites (caps : CapabilitySet) (strokes : List Stroke) : List String :=
  strokes.flatMap (writes caps)

/-- Text that is put on a screen but for line feeds and returns. -/
def IsLegible : Stroke → Prop
  | .text s => ∀ c ∈ s.toList, isControl c = true → c = '\n' ∨ c = '\r'
  | _ => True

/-- The rows that the cursor goes down, up being counted off. -/
def descent : Stroke → Int
  | .text s => s.toList.count '\n'
  | .up rows => -rows
  | .down rows => rows
  | .clear => 0

def totalDescent : List Stroke → Int
  | [] => 0
  | s :: rest => s.descent + totalDescent rest

theorem allWrites_append (caps : CapabilitySet) (a b : List Stroke) :
    allWrites caps (a ++ b) = allWrites caps a ++ allWrites caps b :=
  List.flatMap_append

theorem allWrites_texts (caps : CapabilitySet) (texts : List String) :
    allWrites caps (texts.map .text) = texts := by
  induction texts with
  | nil => rfl
  | cons s texts ih => exact congrArg (s :: ·) ih

theorem totalDescent_append (a b : List Stroke) :
    totalDescent (a ++ b) = totalDescent a + totalDescent b := by
  induction a with
  | nil => exact (Int.zero_add _).symm
  | cons s a ih =>
    simp only [List.cons_append, totalDescent, ih]
    omega

/-- Text descends by its line feeds, however it is cut into writes. -/
theorem totalDescent_texts (texts : List String) :
    totalDescent (texts.map .text) = (texts.flatMap String.toList).count '\n' := by
  induction texts with
  | nil => rfl
  | cons s texts ih =>
    simp only [List.map_cons, totalDescent, descent, ih, List.flatMap_cons, List.count_append]
    omega

end Stroke

/-- The strokes of a message's line. -/
def Message.strokes (m : Message) (v : Viewport) : List Stroke :=
  match m.reportedError with
  | some _ => []
  | none =>
      if m.isInPlace then
        .clear :: .text "\r" :: (m.heading ++ [m.content true v "\r"]).map .text
      else (m.heading ++ [m.content true v "\n"]).map .text

namespace Grid

/-- The strokes that lead from below the grid to the row of an operation. -/
def approachStrokes (g : Grid) (id : Text) : List Stroke :=
  (if (g.rowOf? id).isSome then [] else [.text "\n"]) ++ [.up ((g.reserve id).distance id)]

/-- The strokes of a message. -/
def strokes (g : Grid) (m : Message) (v : Viewport) : List Stroke :=
  match m.aux, rowId? m with
  | some _, _ => []
  | none, some id =>
      g.approachStrokes id ++ m.strokes v ++ [.down ((g.reserve id).distance id)]
  | none, none => m.strokes v

/-- The strokes of a history that begins with a grid. -/
def historyStrokes (g : Grid) : List (Viewport × Message) → List Stroke
  | [] => []
  | (v, m) :: rest => g.strokes m v ++ (g.next m).historyStrokes rest

end Grid

/-- Messages in a row of the grid that are written like text below it: their line ends in a
line feed, because there is text to be shown as it is beside the progress. -/
def Message.overruns (m : Message) : Bool :=
  m.operation?.isSome && m.reportedError.isNone && (nonEmpty m.stream).isSome

end LiveProgress
