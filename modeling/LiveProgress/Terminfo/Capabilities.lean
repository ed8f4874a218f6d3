import LiveProgress.Failure
import LiveProgress.Log
import LiveProgress.Template.Expansion
import LiveProgress.Template.Padding
import LiveProgress.Terminfo.Search

/-!
# Capability sets

A capability set answers with the control text of a named string capability for given
parameters, or not at all. One that is backed by an entry expands the entry's
templates; the empty set answers nothing and stands in where no entry is found. A
look-up fails if the text that is asked for is too long.
-/

namespace LiveProgress

structure CapabilitySet where
  lookup (name : String) (parameters : List Number) : Except Failure (Option String)

namespace CapabilitySet

/-- The set without capabilities. -/
def empty : CapabilitySet := ⟨fun _ _ => .ok none⟩

/-- Answers every look-up with its own name and parameters. -/
def labels : CapabilitySet :=
  ⟨fun name parameters =>
    .ok (some ("<" ++ name ++ ":" ++ ",".intercalate (parameters.map (·.text)) ++ ">"))⟩

/-- Positions of string capabilities in an entry. -/
def indexOf? (name : String) : Option Nat :=
  [("cr", 2), ("clear", 5), ("el", 6), ("ed", 7), ("cup", 10), ("cud1", 11), ("civis", 13),
    ("cnorm", 16), ("cuu1", 19), ("sgr0", 39), ("cud", 107), ("cub", 111), ("cuf", 112),
    ("cuu", 114), ("el1", 269)].lookup name

/-- The answer that an expansion gives, which is none if the template has an instruction
that is not known. -/
def ofExpansion : Except Template.Fault Text → Except Failure (Option String)
  | .ok text => .ok (some text.string)
  | .error .unknown => .ok none
  | .error .tooLong => .error .oversized

/-- The template of a capability. -/
def template? (e : Terminfo.Entry) (name : String) : Option Text :=
  (indexOf? name).bind fun index => e.strings[index]?.join

def ofEntry (e : Terminfo.Entry) : CapabilitySet :=
  ⟨fun name parameters =>
    match template? e name with
    | none => .ok none
    | some template => ofExpansion (Template.expand (Template.stripPadding template) parameters)⟩

end CapabilitySet

namespace Terminfo

/-- The terminal that is assumed if none is named. -/
def defaultTerm : String := "vt102"

/-- The name to look up: the one asked for, else that of the environment. -/
def termOf (env : Environment) (term : Option String) : String :=
  ((term.filter (! ·.isEmpty)).or (env.get? "TERM")).getD defaultTerm

/-- Looks up the terminal's entry. There is none if the look-up fails; either way one
line tells about it. -/
def resolve (read : FileReader) (env : Environment) (term : Option String)
    (dirs : Option (List String)) : Option Entry × LogLine :=
  let name := termOf env term
  match lookup read name (dirs.getD (searchDirs env)) with
  | .ok e => (some e, ⟨.debug, "Loaded terminfo entry for " ++ name⟩)
  | .error e => (none, ⟨.debug, e.message name ++ "; using ANSI escape sequences"⟩)

end Terminfo

/-- The capabilities of an entry, or none without one. -/
def CapabilitySet.ofLookup (e : Option Terminfo.Entry) : CapabilitySet :=
  (e.map ofEntry).getD empty

end LiveProgress
