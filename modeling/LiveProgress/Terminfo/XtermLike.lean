import LiveProgress.Terminal.Control

/-!
# Terminals like xterm

Their entries clear a line and move the cursor by the templates of the plain ANSI sequences, each
of which may have padding markers behind it. What else an entry holds does not matter.
-/

namespace LiveProgress

/-- A padding marker: a delay in digits and points, and up to two flags. -/
structure Template.Marker where
  delay : List Char
  flags : List Char := []
  delay_ne_nil : delay ≠ []
  delay_chars : ∀ c ∈ delay, c.isDigit = true ∨ c = '.'
  flag_chars : ∀ c ∈ flags, c = '*' ∨ c = '/'
  flags_le : flags.length ≤ 2

def Template.Marker.spelling (m : Template.Marker) : Text :=
  (['$', '<'] ++ m.delay ++ m.flags ++ ['>']).map CodeUnit.ofChar

namespace Terminfo.Entry

/-- The string at an index is a template with any number of markers behind it. -/
def HasTemplate (e : Entry) (index : Nat) (template : String) : Prop :=
  ∃ markers : List Template.Marker,
    e.strings[index]? =
      some (some (Text.ofString template ++ markers.flatMap Template.Marker.spelling))

/-- The four capabilities are those of xterm. -/
structure IsXtermLike (e : Entry) : Prop where
  el : e.HasTemplate 6 "\x1b[K"
  el1 : e.HasTemplate 269 "\x1b[1K"
  cuu : e.HasTemplate 114 "\x1b[%p1%dA"
  cud : e.HasTemplate 107 "\x1b[%p1%dB"

end Terminfo.Entry

/-- Answers with the plain sequences, in which a count of rows stands as the number it is given
as. -/
def CapabilitySet.plain : CapabilitySet where
  lookup name parameters :=
    match parameters with
    | [] =>
        if name = "el1" then .ok (some Ansi.clearToLineStart)
        else if name = "el" then .ok (some Ansi.clearToLineEnd)
        else .ok none
    | lines :: _ =>
        if name = "cuu" then .ok (some (Ansi.cursorUp lines))
        else if name = "cud" then .ok (some (Ansi.cursorDown lines))
        else .ok none

end LiveProgress
