import LiveProgress.Display.History

/-!
# Courses

What showing messages comes to if every write is taken: the writes, the messages handed on and
the grid, up to the first message that fails by itself. A destination that refuses a write cuts a
course short, but it never changes it.
-/

namespace LiveProgress

structure Course where
  writes : List String := []
  failure : Option Failure := none
  handedOn : List Message := []
  grid : Grid

/-- Goes on from the grid that a course leaves, unless it has failed. -/
def Course.andThen (c : Course) (later : Grid → Course) : Course :=
  match c.failure with
  | some _ => c
  | none =>
      let next := later c.grid
      { next with writes := c.writes ++ next.writes, handedOn := c.handedOn ++ next.handedOn }

namespace Grid

/-- The course of one message. -/
def turn (g : Grid) (caps : Option CapabilitySet) (v : Viewport) (m : Message) : Course where
  writes := (g.script m caps v).calm.texts
  failure := (g.script m caps v).calm.failure
  handedOn := [m].filter (·.aux.isSome)
  grid := g.next m

/-- The course of messages. -/
def course (g : Grid) (caps : Option CapabilitySet) (v : Viewport) : List Message → Course
  | [] => { grid := g }
  | m :: rest => (g.turn caps v m).andThen fun g => g.course caps v rest

end Grid

/-- What ends a message if the write at a place of its script, counted from one, is the first
that fails, and if each write behind tells that failure. A failure of a look-up that comes between
is told instead. -/
def Script.told (s : Script) (place : Nat) (own : Failure) : Failure :=
  let lined := s.opening.texts.length + s.line.texts.length
  if place < s.opening.texts.length then own
  else
    match s.opening.failure with
    | some f => f
    | none =>
        if place ≤ lined ∧ s.closing.texts ≠ [] then own
        else (s.closing.failure.or (if lined ≤ place then s.line.failure else none)).getD own

/-- The course of the messages of an input. -/
def Shown.course (o : DisplayOptions) (read : FileReader) (chunks : List Chunk) : Course :=
  ({} : Grid).course (o.resolve read).1 o.viewport (Message.ofChunks chunks).1

end LiveProgress
