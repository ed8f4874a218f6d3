import LiveProgress.Terminfo.Search

/-!
# Candidates of a search

The paths at which an entry is searched for, and what is there: nothing, an entry, or something
else, be it a file that cannot be read or one that holds no entry.
-/

namespace LiveProgress.Terminfo

/-- The paths at which the entry of a terminal may be, in the order of the search. -/
def candidates (term : String) (dirs : List String) : List String := dirs.flatMap (entryPaths term)

/-- The entry at a path, if a file is there that can be read and holds one. -/
def entryAt? (read : FileReader) (path : String) : Option Entry :=
  match read path with
  | .ok bytes => (Entry.ofBytes bytes).toOption
  | .error _ => none

/-- Whether a path counts as one where nothing is. -/
def isVacant (read : FileReader) (path : String) : Bool :=
  match read path with
  | .ok _ => false
  | .error e => isAbsent e

/-- If there is an entry at any of the paths, nothing is at those in front of the first one. -/
def NothingHides (read : FileReader) (paths : List String) : Prop :=
  (∃ path ∈ paths, (entryAt? read path).isSome) →
    ∀ path ∈ paths.takeWhile fun path => (entryAt? read path).isNone, isVacant read path = true

end LiveProgress.Terminfo
