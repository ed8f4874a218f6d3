import LiveProgress.Command.Run
import LiveProgress.Output.Recorder
import Std.Time.DateTime.Timestamp

/-!
# The command line program

Reads the messages of a file or of the standard input and displays each as soon as it
is complete. This module only connects the display to the process.
-/

namespace LiveProgress.Main

def usage : String :=
  "Usage: liveprogress [options] [file]\n\n" ++
  "Render a stream of JSON progress messages as a log, or as live progress rows on a " ++
  "terminal.\n\n" ++
  "Options:\n" ++
  "  --plain            Never rewrite lines in place\n" ++
  "  --term <name>      Terminal type (default: $TERM)\n" ++
  "  --width <columns>  Fixed terminal width\n" ++
  "  --aux              Print out-of-band payloads to stderr\n" ++
  "  -v, --verbose      Enable verbose logging\n" ++
  "  -V, --version      Print the version\n" ++
  "  -h, --help         Print this help\n"

def readError (path : String) : IO.Error → ReadError
  | .permissionDenied .. => .accessDenied
  | .inappropriateType .. => .isDirectory
  | .invalidArgument .. => if path.contains '\x00' then .malformedPath else .nameTooLong
  | _ => .missing

def readFile (path : String) : IO (Except ReadError (List UInt8)) := do
  try
    return .ok (← IO.FS.readBinFile path).toList
  catch e =>
    return .error (readError path e)

def environment : IO Environment := do
  let mut env := []
  for name in ["TERM", "TERMINFO", "HOME", "TERMINFO_DIRS"] do
    if let some value ← IO.getEnv name then
      env := env ++ [(name, value)]
  return env

/-- The files that the look-up of the terminal's entry may read. -/
def terminfoFiles (o : DisplayOptions) : IO FileReader := do
  let term := Terminfo.termOf o.env o.term
  let paths := (o.searchDirs.getD (Terminfo.searchDirs o.env)).flatMap (Terminfo.entryPaths term)
  let files ← paths.mapM fun path => return (path, ← readFile path)
  return fun path => (files.lookup path).getD (.error .missing)

def clock : IO Clock := do
  return some (← Std.Time.Timestamp.now).toMillisecondsSinceUnixEpoch.val

structure Session where
  options : Options
  caps : Option CapabilitySet
  width : Option Number

def tell (style : LogStyle) (notice : Notice) : IO Unit := do
  let now ← clock
  match notice with
  | .aux text => IO.eprint text
  | .log line =>
      if let some text := line.render style now then
        IO.eprintln text

/-- Shows the message that one value holds. -/
def showValue (s : Session) (style : LogStyle) (grid : Grid) (raw : Json.RawValue) :
    IO (Option Failure × Grid) := do
  let now ← clock
  match raw.message with
  | .error f => return (some f, grid)
  | .ok m =>
      let v : Viewport := { width := s.width, now }
      let (failure, d) := ({ grid, out := {} } : Display Recorder).render s.caps v m
      for payload in d.handedOn.filterMap (·.aux) do
        tell style (s.options.payloadNotice payload)
      try
        let out ← IO.getStdout
        d.out.written.forM out.putStr
        out.flush
        return (failure, d.grid)
      catch e =>
        return (some (.transfer (toString e)), d.grid)

def showValues (s : Session) (style : LogStyle) (grid : Grid) (raws : List Json.RawValue) :
    IO (Option Failure × Grid) := do
  let mut grid := grid
  for raw in raws do
    let (failure, next) ← showValue s style grid raw
    grid := next
    if failure.isSome then
      return (failure, grid)
  return (none, grid)

/-- Shows what the input brings until it ends or something fails. -/
partial def showInput (s : Session) (style : LogStyle) (next : IO Chunk) (d : Decoder)
    (grid : Grid) : IO (Option Failure × Grid) := do
  match ← next with
  | .bytes [] =>
      let (raws, ending) := d.finish
      let (failure, grid) ← showValues s style grid raws
      return (failure.or ending, grid)
  | chunk =>
      match d.push chunk with
      | .error f => return (some f, grid)
      | .ok (raws, d) =>
          let (failure, grid) ← showValues s style grid raws
          if failure.isSome then
            return (failure, grid)
          showInput s style next d grid

/-- Chunks read from a stream; an empty one marks the end. -/
def chunks (path : String) (stream : IO.FS.Stream) : IO Chunk := do
  try
    return .bytes (← stream.read 65536).toList
  catch e =>
    return .broken ((readError path e).message path)

/-- The input as a source of chunks, and the failure if it cannot be opened. -/
def source (o : Options) : IO (IO Chunk × Option ReadError) := do
  match o.file.filter (! ·.isEmpty) with
  | none => return (chunks "-" (← IO.getStdin), none)
  | some path =>
      try
        return (chunks path (.ofHandle (← IO.FS.Handle.mk path .read)), none)
      catch e =>
        let failure := readError path e
        return (pure (.broken (failure.message path)), some failure)

def run (o : Options) : IO UInt32 := do
  let style : LogStyle := { verbose := o.verbose, coloured := ← (← IO.getStderr).isTty }
  let isTerminal ← (← IO.getStdout).isTty
  let s : Surroundings := { read := fun _ => .error .missing, env := ← environment, isTerminal }
  let display := o.display s
  tell style (.log (o.greeting isTerminal))
  let (next, unopened) ← source o
  let read ← terminfoFiles display
  if let some failure := unopened then
    -- Nobody listens to the input as long as files of the look-up are waited for.
    if failure != .malformedPath && 0 < o.waits { s with read } then
      IO.eprintln (failure.message (o.file.getD ""))
      return 1
  let (caps, lines) := display.resolve read
  for line in lines do
    tell style (.log line)
  let session : Session := { options := o, caps, width := o.width }
  let (failure, grid) ←
    try
      showInput session style next {} {}
    catch e =>
      pure (some (.transfer (toString e)), {})
  match failure with
  | some f =>
      for line in Options.failureLog f do
        tell style (.log line)
      return 1
  | none =>
      tell style (.log grid.summary)
      return 0

end LiveProgress.Main

def main (args : List String) : IO UInt32 := do
  match LiveProgress.Options.ofArguments args with
  | .ok options => LiveProgress.Main.run options
  | .error refusal =>
      if refusal = .helpRequested then
        IO.print LiveProgress.Main.usage
      if let some text := refusal.output? then
        IO.print text
      if let some text := refusal.message? then
        IO.eprintln text
      return UInt32.ofNat refusal.exitCode
