import LiveProgress.Files.Path
import LiveProgress.Text.Quoted

/-!
# Files

Files are read by path. A file tree holds the files below one directory; directories
exist as far as a file or an empty directory is listed in them. Outside the tree there
is nothing but the directories above it. Whether a name is too long is found out when it
is looked up in a directory, be it one of the tree or above it.
-/

namespace LiveProgress

/-- Why a file cannot be read. -/
inductive ReadError where
  | missing
  | notDirectory
  | isDirectory
  | accessDenied
  | nameTooLong
  /-- The path holds a NUL character, which no path can. -/
  | malformedPath
deriving DecidableEq, Repr

namespace ReadError

def message (path : String) : ReadError → String
  | .missing => "ENOENT: no such file or directory, open '" ++ path ++ "'"
  | .notDirectory => "ENOTDIR: not a directory, open '" ++ path ++ "'"
  | .isDirectory => "EISDIR: illegal operation on a directory, read"
  | .accessDenied => "EACCES: permission denied, open '" ++ path ++ "'"
  | .nameTooLong => "ENAMETOOLONG: name too long, open '" ++ path ++ "'"
  | .malformedPath =>
      "The argument 'path' must be a string, Uint8Array, or URL without null bytes. Received " ++
        Text.shown path

end ReadError

/-- A file system as far as files are read from it. -/
abbrev FileReader := String → Except ReadError (List UInt8)

/-- Paths as segments, each with the contents of a file or nothing for an empty
directory. -/
structure FileTree where
  entries : List (List String × Option (List UInt8)) := []
deriving DecidableEq, Repr

namespace FileTree

inductive Node where
  | file (contents : List UInt8)
  | directory
deriving DecidableEq, Repr

def ofList (files : List (String × Option (List UInt8))) : FileTree :=
  ⟨files.map fun f => (Path.names false f.1, f.2)⟩

/-- What the tree holds at normal segments. -/
def node? (t : FileTree) (path : List String) : Option Node :=
  match t.entries.find? fun e => e.1 == path && e.2.isSome with
  | some (_, some contents) => some (.file contents)
  | _ =>
      if path.isEmpty || t.entries.any fun e => path.isPrefixOf e.1 then some .directory else none

/-- Whether a segment has more bytes than a name can have. -/
def isTooLong (segment : String) : Bool := 255 < segment.utf8ByteSize

/-- Follows segments from a directory above the tree, where no name leads anywhere. -/
def walkOutside : List String → Except ReadError Node
  | [] => .ok .directory
  | segment :: rest =>
      if segment = "" ∨ segment = "." ∨ segment = ".." then walkOutside rest
      else .error (if isTooLong segment then .nameTooLong else .missing)

/-- Follows segments from a place in the tree, given with its last segment first. Every
place passed on the way has to be a directory. -/
def walk (t : FileTree) (back : List String) : List String → Except ReadError Node
  | [] =>
      match t.node? back.reverse with
      | some node => .ok node
      | none => .error .missing
  | segment :: rest =>
      match t.node? back.reverse with
      | none => .error .missing
      | some (.file _) => .error .notDirectory
      | some .directory =>
          if segment = "" ∨ segment = "." then t.walk back rest
          else if segment = ".." then
            match back with
            | _ :: back => t.walk back rest
            | [] => walkOutside rest
          else if isTooLong segment then .error .nameTooLong
          else t.walk (segment :: back) rest

/-- The contents of the file at a path. -/
def read (t : FileTree) (path : String) : Except ReadError (List UInt8) :=
  if path.contains '\x00' then .error .malformedPath
  else if 4096 ≤ path.utf8ByteSize then .error .nameTooLong
  else if path = "" then .error .missing
  else
    let segments := Path.segments path
    match if path.startsWith "/" then walkOutside segments else t.walk [] segments with
    | .ok (.file contents) => .ok contents
    | .ok .directory => .error .isDirectory
    | .error e => .error e

end FileTree
end LiveProgress
