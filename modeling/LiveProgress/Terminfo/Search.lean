import LiveProgress.Files.Tree
import LiveProgress.Number.Text
import LiveProgress.Terminfo.Entry

/-!
# Looking up terminal descriptions

A terminal's entry is searched by name in a list of directories. In each of them it
lies below its first letter or below the hexadecimal code of that letter. A candidate
that does not exist is passed over; one that cannot be read or is no entry ends the
search.
-/

namespace LiveProgress

/-- Environment variables; of two with one name the later one counts. -/
abbrev Environment := List (String × String)

namespace Environment

/-- A variable that is set and not empty. -/
def get? (env : Environment) (name : String) : Option String :=
  ((env.reverse.find? (·.1 == name)).map (·.2)).filter (! ·.isEmpty)

end Environment

namespace Terminfo

/-- Directories of the system, searched after those of the user. -/
def systemDirs : List String :=
  ["/etc/terminfo", "/lib/terminfo", "/usr/share/terminfo", "/usr/lib/terminfo"]

/-- The search path: `TERMINFO`, a directory below `HOME`, the list `TERMINFO_DIRS` with
`/usr/share/terminfo` for its empty items, and the directories of the system, each
directory once. -/
def searchDirs (env : Environment) : List String :=
  let listed := match env.get? "TERMINFO_DIRS" with
    | some dirs => (dirs.splitOn ":").map fun dir =>
        if dir.isEmpty then "/usr/share/terminfo" else dir
    | none => []
  ((env.get? "TERMINFO").toList ++
    ((env.get? "HOME").map fun home => Path.join [home, ".terminfo"]).toList ++
    listed ++ systemDirs).eraseDups

/-- Why there is no entry for a terminal. -/
inductive LookupError where
  | invalidName
  | unreadable (path : String)
  | badEntry (error : EntryError)
  | notFound
deriving DecidableEq, Repr

def LookupError.message (term : String) : LookupError → String
  | .invalidName => "invalid terminal name \"" ++ term ++ "\""
  | .unreadable path => "failed to read terminfo entry " ++ path
  | .badEntry error => error.message term
  | .notFound => "no terminfo entry found for " ++ term

/-- Names that could lead out of the directory are not looked up. -/
def isValidName (term : String) : Bool :=
  ! (term.isEmpty || term.contains '/' || term.startsWith ".")

/-- The places of an entry in a directory. -/
def entryPaths (term dir : String) : List String :=
  match Text.ofString term with
  | [] => []
  | first :: _ =>
      [Path.join [dir, Text.string [first], term],
        Path.join [dir, (Number.ofNat first.toNat).wholeText 16, term]]

/-- Whether a path that fails so counts as one where nothing is. -/
def isAbsent (e : ReadError) : Bool :=
  e == .missing || e == .notDirectory || e == .isDirectory || e == .accessDenied

/-- The entry at the first of the paths where something is. -/
def firstEntry (read : FileReader) : List String → Except LookupError Entry
  | [] => .error .notFound
  | path :: rest =>
      match read path with
      | .ok bytes => (Entry.ofBytes bytes).mapError .badEntry
      | .error e => if isAbsent e then firstEntry read rest else .error (.unreadable path)

/-- The entry of a terminal. -/
def lookup (read : FileReader) (term : String) (dirs : List String) : Except LookupError Entry :=
  if isValidName term then firstEntry read (dirs.flatMap (entryPaths term))
  else .error .invalidName

/-- How many files are waited for until one of the paths ends the search. A path that no file can
have is refused without a wait. -/
def waitsAt (read : FileReader) : List String → Nat
  | [] => 0
  | path :: rest =>
      match read path with
      | .ok _ => 1
      | .error .malformedPath => 0
      | .error e => if isAbsent e then waitsAt read rest + 1 else 1

/-- How many files the look-up of a terminal waits for. -/
def waits (read : FileReader) (term : String) (dirs : List String) : Nat :=
  if isValidName term then waitsAt read (dirs.flatMap (entryPaths term)) else 0

end Terminfo
end LiveProgress
