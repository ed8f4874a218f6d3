import LiveProgress.Display.Line

/-!
# The progress grid

Every operation that reports progress has a row of its own, in the order in which the
operations were first seen. The cursor rests on the row below the grid; a message moves
up to its row, rewrites it, and moves back. Any other message is written below the
grid, and the next operation begins a new one.
-/

namespace LiveProgress

/-- The operations of the grid, from its first row to its last. -/
structure Grid where
  rows : List Text := []
deriving DecidableEq, Repr

/-- What a message leads to: one with a payload is handed on, any other is written. -/
inductive Reaction where
  | deliver (m : Message)
  | render (script : Script)

namespace Grid

def size (g : Grid) : Nat := g.rows.length

def rowOf? (g : Grid) (id : Text) : Option Nat := g.rows.idxOf? id

/-- The operation whose row a message belongs to. -/
def rowId? (m : Message) : Option Text :=
  (Message.nonEmpty m.id).filter fun _ => m.hasProgress

/-- Gives an operation a row, unless it has one. -/
def reserve (g : Grid) (id : Text) : Grid :=
  if (g.rowOf? id).isSome then g else ⟨g.rows ++ [id]⟩

/-- How far the row of an operation lies above the row below the grid. -/
def distance (g : Grid) (id : Text) : Nat := g.size - (g.rowOf? id).getD 0

/-- The writes of a message that has a row: on a terminal a new row is begun first, and
the cursor moves to the row and back. -/
def rowScript (g : Grid) (id : Text) (m : Message) (caps : Option CapabilitySet)
    (v : Viewport) : Script :=
  match caps with
  | none => { line := m.line caps v }
  | some set =>
      let reserved := g.reserve id
      let distance := LineCount.ofRows (reserved.distance id)
      let begun : Attempt := { texts := if (g.rowOf? id).isSome then [] else ["\n"] }
      { opening := begun.andThen (set.cursorUp distance)
        line := m.line caps v
        closing := set.cursorDown distance }

def react (g : Grid) (m : Message) (caps : Option CapabilitySet) (v : Viewport) :
    Grid × Reaction :=
  match m.aux, rowId? m with
  | some _, _ => (g, .deliver m)
  | none, some id => (g.reserve id, .render (g.rowScript id m caps v))
  | none, none => ({}, .render { line := m.line caps v })

end Grid
end LiveProgress
