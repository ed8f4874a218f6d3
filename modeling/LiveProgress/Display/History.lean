import LiveProgress.Display.Run
import Mathlib.Data.List.DropRight

/-!
# Histories of a display

Messages are shown one after the other, each at its own time and in a window of its own
width, and also behind one that has failed. Which rows there are then depends on the
messages alone: on those behind the last one that ended a grid.
-/

namespace LiveProgress
namespace Message

/-- The operation that a message reports on; one with a payload reports on none. -/
def operation? (m : Message) : Option Text :=
  match m.aux with
  | some _ => none
  | none => Grid.rowId? m

/-- Messages that are shown without a row: what is shown behind them has a grid of its own. -/
def endsGrid (m : Message) : Bool := m.aux.isNone && (Grid.rowId? m).isNone

end Message

/-- The messages behind the last one that ended a grid. -/
def History.current (messages : List Message) : List Message :=
  messages.rtakeWhile (! ·.endsGrid)

/-- The operations that messages report on, in the order in which they come first. -/
def History.operations (messages : List Message) : List Text :=
  (messages.filterMap Message.operation?).eraseDups

namespace Grid

/-- The grid behind a message, whatever becomes of its writes. -/
def next (g : Grid) (m : Message) : Grid :=
  match m.aux, rowId? m with
  | some _, _ => g
  | none, some id => g.reserve id
  | none, none => {}

/-- What a message has written. One that is handed on writes nothing. -/
def script (g : Grid) (m : Message) (caps : Option CapabilitySet) (v : Viewport) : Script :=
  match (g.react m caps v).2 with
  | .deliver _ => {}
  | .render script => script

/-- The grid behind messages. -/
def after (g : Grid) (messages : List Message) : Grid := messages.foldl next g

theorem after_append (g : Grid) (a b : List Message) : g.after (a ++ b) = (g.after a).after b :=
  List.foldl_append

end Grid

namespace Display

variable {σ : Type} [Destination σ]

/-- Shows messages one after the other, whatever fails on the way. -/
def renderAll (d : Display σ) (caps : Option CapabilitySet) :
    List (Viewport × Message) → Display σ
  | [] => d
  | (v, m) :: rest => (d.render caps v m).2.renderAll caps rest

end Display
end LiveProgress
