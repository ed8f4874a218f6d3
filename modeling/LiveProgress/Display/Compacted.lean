import LiveProgress.Display.Run
import LiveProgress.Terminal.Screen
import LiveProgress.Text.Quoted

/-!
# Compacted logs

What is left to see of a stream on a terminal. Messages with progress that follow one
another share a grid: a row for each operation, in the order in which the operations were
first seen, with the line of its last message. Any other message keeps its lines.
-/

namespace LiveProgress

/-- The rows that a text takes: its lines without their line ends. -/
def Text.rows (s : List Char) : List (List Char) := (lines s).map (·.filter (· ≠ '\n'))

namespace Message

/-- The time that stands in front of a message: nanoseconds, or else seconds, since the
epoch. Zero is no time. -/
def shownTime (m : Message) : List Char :=
  let time (nanos : Int) : List Char := (timestampText nanos).toList ++ [' ']
  if m.timeNano.getD 0 ≠ 0 then time (m.timeNano.getD 0).wholePart
  else if m.time.getD 0 ≠ 0 then time ((m.time.getD 0).wholePart * 1000000000)
  else []

/-- A text between two others, which are left out with it. -/
def shownField (before : String) (field : Option Text) (after : String) : List Char :=
  if field.getD [] = [] then []
  else before.toList ++ Text.chars (field.getD []) ++ after.toList

/-- What a message says of its own: its status and, behind a blank, its progress up to the
line end. Other text stands for all of that. -/
def shownContent (m : Message) (v : Viewport) (lineEnd : String) : List Char :=
  let status := Text.chars (m.status.getD [])
  match m.progressDetail with
  | some p => status ++ [' '] ++ (p.fragment v).toList ++ lineEnd.toList
  | none =>
      if m.progress.getD [] ≠ [] then status ++ shownField " " m.progress "" ++ lineEnd.toList
      else if m.stream.getD [] ≠ [] then shownField "" m.stream ""
      else status ++ lineEnd.toList

/-- All that a message shows on a terminal, with the line end given. -/
def shownText (m : Message) (v : Viewport) (lineEnd : String) : List Char :=
  m.shownTime ++ shownField "" m.id ": " ++ shownField "(from " m.origin ") " ++
    m.shownContent v lineEnd

/-- Whether a message has a row in a grid. -/
def hasRow (m : Message) : Bool := (Grid.rowId? m).isSome

/-- The texts in the line of a message. -/
def lineTexts (m : Message) : List Text :=
  [m.id, m.origin, m.status, m.progress, m.progressDetail.bind (·.units)].reduceOption

/-- Messages that are shown, character by character: there is no control character in their
texts but for the line ends of text that is shown as it is. -/
structure IsLegible (m : Message) : Prop where
  noPayload : m.aux = none
  noError : m.reportedError = none
  isPrintable : ∀ t ∈ m.lineTexts, IsPrintable t.string
  stream : ∀ t ∈ m.stream, ∀ c ∈ t.string.toList, isControl c = true → c = '\n'

instance (m : Message) : Decidable m.IsLegible :=
  decidable_of_iff (m.aux.isNone = true ∧ m.reportedError = none ∧
      (∀ t ∈ m.lineTexts, IsPrintable t.string) ∧
      ∀ t ∈ m.stream, ∀ c ∈ t.string.toList, isControl c = true → c = '\n')
    ⟨fun h => ⟨Option.isNone_iff_eq_none.mp h.1, h.2.1, h.2.2.1, h.2.2.2⟩,
      fun h => ⟨Option.isNone_iff_eq_none.mpr h.noPayload, h.noError, h.isPrintable, h.stream⟩⟩

/-- Legible messages that keep to whole lines: those with progress have a row and no other
text, and the text of the others ends in a line end. -/
structure IsLine (m : Message) : Prop extends m.IsLegible where
  row : m.hasProgress = true → (nonEmpty m.id).isSome = true ∧ nonEmpty m.stream = none
  lineEnd : m.hasProgress = false → ∀ t ∈ nonEmpty m.stream, t.string.toList.getLast? = some '\n'

instance (m : Message) : Decidable m.IsLine :=
  decidable_of_iff (m.IsLegible ∧
      (m.hasProgress = true → (nonEmpty m.id).isSome = true ∧ nonEmpty m.stream = none) ∧
      (m.hasProgress = false →
        ∀ t ∈ nonEmpty m.stream, t.string.toList.getLast? = some '\n'))
    ⟨fun h => ⟨h.1, h.2.1, h.2.2⟩, fun h => ⟨h.toIsLegible, h.row, h.lineEnd⟩⟩

end Message

namespace CompactedLog

/-- The line of an operation's last message. -/
def lastLine (v : Viewport) (run : List Message) (id : Text) : List Char :=
  ((run.filter (Grid.rowId? · = some id)).getLast?).elim [] (·.shownText v "")

/-- The rows of messages that share a grid. -/
def gridRows (v : Viewport) (run : List Message) : List (List Char) :=
  (run.filterMap Grid.rowId?).eraseDups.map (lastLine v run)

/-- The rows of a stream. -/
def rows (v : Viewport) : List Message → List (List Char)
  | [] => []
  | m :: rest =>
      if m.hasRow then
        gridRows v (m :: rest.takeWhile Message.hasRow) ++ rows v (rest.dropWhile Message.hasRow)
      else Text.rows (m.shownText v "\n") ++ rows v rest
termination_by messages => messages.length
decreasing_by
  · have := (List.dropWhile_suffix Message.hasRow (l := rest)).length_le
    simp only [List.length_cons]
    omega
  · simp only [List.length_cons]
    omega

end CompactedLog
end LiveProgress
