/-!
# Paths

Slash-separated paths. Joining paths also normalises them: empty and `.` segments are
dropped and `..` takes back the segment in front of it, as long as there is one.
-/

namespace LiveProgress.Path

/-- The segments of a path, empty ones included. -/
def segments (path : String) : List String := path.splitOn "/"

/-- Adds a segment to the normal segments in front of it, the last of them first. -/
def enter (absolute : Bool) (back : List String) (segment : String) : List String :=
  if segment = "" ∨ segment = "." then back
  else if segment = ".." then
    match back with
    | top :: rest => if top = ".." then segment :: back else rest
    | [] => if absolute then [] else [segment]
  else segment :: back

/-- The segments that are left of a path once it is normal. -/
def names (absolute : Bool) (path : String) : List String :=
  ((segments path).foldl (enter absolute) []).reverse

def normalize (path : String) : String :=
  if path = "" then "."
  else
    let absolute := path.startsWith "/"
    let closing := if path.endsWith "/" then "/" else ""
    match names absolute path with
    | [] => if absolute then "/" else "." ++ closing
    | names => (if absolute then "/" else "") ++ "/".intercalate names ++ closing

/-- Joins paths; empty ones do not count. -/
def join (paths : List String) : String :=
  normalize ("/".intercalate (paths.filter (! ·.isEmpty)))

end LiveProgress.Path
