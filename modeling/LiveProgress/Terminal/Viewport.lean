import LiveProgress.Quantity.Clock

/-!
# Viewports

What a rendering knows about its surroundings: the width of the window and the time.
-/

namespace LiveProgress

/-- The columns of the process's own outputs, as far as these are terminals. -/
structure Terminals where
  stdout : Option Number := none
  stderr : Option Number := none
deriving DecidableEq

namespace Terminals

/-- The columns of the terminal behind a descriptor: 1 is the standard output and 2 the
standard error, others are not known. -/
def columns? (t : Terminals) (descriptor : Option Number) : Option Number :=
  let columns := match descriptor with
    | none => none
    | some fd => if fd.beq 1 then t.stdout else if fd.beq 2 then t.stderr else none
  columns.filter (0 < ·)

end Terminals

structure Viewport where
  /-- A fixed width; zero counts as none. -/
  width : Option Number := none
  descriptor : Option Number := none
  terminals : Terminals := {}
  now : Clock := some 0
deriving DecidableEq

namespace Viewport

/-- The width where nothing tells it. -/
def defaultWidth : Number := 200

/-- The fixed width, else that of the terminal. -/
def columns (v : Viewport) : Number :=
  match v.width.filter fun w => w != 0 && w != .undefined with
  | some w => w
  | none => (v.terminals.columns? v.descriptor).getD defaultWidth

end Viewport
end LiveProgress
