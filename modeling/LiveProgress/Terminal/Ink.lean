import LiveProgress.Terminal.Screen

/-!
# Ink

Where characters are put on a screen when text is written, and a screen of which one cell is
filled with something else.
-/

namespace LiveProgress

/-- A character and the cell it is put in. -/
structure Ink where
  row : Int
  column : Nat
  char : Char
deriving DecidableEq, Repr

/-- The order of reading. -/
def Ink.Before (a b : Ink) : Prop := a.row < b.row ∨ a.row = b.row ∧ a.column < b.column

namespace Screen

/-- What characters put on a screen. -/
def ink (s : Screen) : List Char → List Ink
  | [] => []
  | c :: rest =>
      let mark : List Ink :=
        if s.pending = .none ∧ c ∉ ['\n', '\r', '\x1b'] then [⟨s.row, s.column, c⟩] else []
      mark ++ (s.step c).ink rest

/-- The screen with another character in a cell. -/
def fill (s : Screen) (row : Int) (column : Nat) (c : Char) : Screen :=
  { s with cell := fun r k => if r = row ∧ k = column then c else s.cell r k }

end Screen
end LiveProgress
