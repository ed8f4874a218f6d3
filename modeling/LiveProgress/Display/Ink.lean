import LiveProgress.Display.Compacted
import LiveProgress.Terminal.Ink
import Mathlib.Data.List.Chain

/-!
# Text on a screen

Where the text of a message is put on a screen, and whether it stays there. A cell is kept
if whatever is in it is still in it at the end, so text that is erased or written over is
not kept, even where the same characters come to stand by chance.
-/

namespace LiveProgress
namespace Message

/-- Text to be shown as it is that stops inside a line. -/
def LeavesLineOpen (m : Message) : Prop :=
  m.hasProgress = false ∧ ∃ t ∈ nonEmpty m.stream, t.string.toList.getLast? ≠ some '\n'

instance (m : Message) : Decidable m.LeavesLineOpen :=
  inferInstanceAs (Decidable (_ ∧ _))

/-- Messages that are written from the beginning of a line: those that have a row or are
shown in place. -/
def rewritesLine (m : Message) : Bool := m.hasRow || m.isInPlace

end Message

namespace Display

/-- The display with another character in a cell of its screen. -/
def fill (d : Display Screen) (row : Int) (column : Nat) (c : Char) : Display Screen :=
  { d with out := d.out.fill row column c }

/-- Messages keep a cell if they show what was in it before, whatever that is. -/
def Keeps (d : Display Screen) (v : Viewport) (messages : List Message) (row : Int)
    (column : Nat) : Prop :=
  ∀ c, ((d.fill row column c).run (some .empty) v messages).2.out.cell row column = c

/-- The display behind a message. -/
def next (d : Display Screen) (v : Viewport) (m : Message) : Display Screen :=
  (d.advance (some .empty) v m).2

/-- What messages without progress put on a screen. -/
def plainInk (d : Display Screen) (v : Viewport) : List Message → List Ink
  | [] => []
  | m :: rest =>
      (if m.hasProgress then [] else d.out.ink (m.shownText v "\n")) ++
        (d.next v m).plainInk v rest

/-- The text of each message without progress is kept by those behind it. -/
def KeepsPlain (d : Display Screen) (v : Viewport) : List Message → Prop
  | [] => True
  | m :: rest =>
      (m.hasProgress = false →
        ∀ i ∈ d.out.ink (m.shownText v "\n"), (d.next v m).Keeps v rest i.row i.column) ∧
      (d.next v m).KeepsPlain v rest

end Display

/-- The texts of messages without progress stand on the screen at the end: all of their
characters, in the order of reading, and none of them touched since it was put there. -/
structure PlainTextStands (v : Viewport) (messages : List Message) : Prop where
  shown : ∀ i ∈ ({ out := {} } : Display Screen).plainInk v messages,
    (({ out := {} } : Display Screen).run (some .empty) v messages).2.out.cell i.row i.column =
      i.char
  inOrder : (({ out := {} } : Display Screen).plainInk v messages).Pairwise Ink.Before
  kept : ({ out := {} } : Display Screen).KeepsPlain v messages

/-- No message that is written from the beginning of a line follows text that stops inside
one. -/
def LinesAreLeftAlone (messages : List Message) : Prop :=
  messages.IsChain fun a b => ¬ (a.LeavesLineOpen ∧ b.rewritesLine = true)

instance (messages : List Message) : Decidable (LinesAreLeftAlone messages) :=
  inferInstanceAs (Decidable (List.IsChain _ messages))

end LiveProgress
