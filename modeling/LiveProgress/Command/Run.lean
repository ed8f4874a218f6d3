import LiveProgress.Command.Options
import LiveProgress.Display.Run

/-!
# The command

Displays the messages of a file or of the standard input, and tells on the side about
payloads and failures. The exit code is 1 if anything failed. There is none if the input
fails while nobody listens to it, which ends the process.
-/

namespace LiveProgress

/-- What is told beside the display. -/
inductive Notice where
  | log (line : LogLine)
  | aux (text : String)
deriving DecidableEq, Repr

/-- The surroundings of the command: what it reads and the device it writes to. -/
structure Surroundings where
  read : FileReader
  stdin : List Chunk := []
  env : Environment := []
  device : Device := {}
  isTerminal : Bool := false
  descriptor : Option Number := none
  terminals : Terminals := {}
  now : Clock := some 0
  /-- How many files can be waited for until it shows that the input cannot be opened. -/
  openingWaits : Nat := 0

/-- What becomes of the input. -/
inductive Source where
  | chunks (chunks : List Chunk)
  /-- A path that no file can have is refused at once. -/
  | refused (f : Failure)
  /-- The input fails before anybody listens to it. -/
  | unheard

namespace Options

/-- Whether lines are rewritten in place. -/
def onTerminal (o : Options) (isTerminal : Bool) : Bool := ! o.plain && isTerminal

/-- The display that the options ask for. -/
def display (o : Options) (s : Surroundings) : DisplayOptions :=
  let onTerminal := o.onTerminal s.isTerminal
  { onTerminal
    env := s.env
    term := o.term
    viewport := {
      width := o.width
      descriptor := if onTerminal then s.descriptor else none
      terminals := s.terminals
      now := s.now } }

/-- How many files are waited for, to describe the terminal, before the input is listened to. -/
def waits (o : Options) (s : Surroundings) : Nat :=
  if o.onTerminal s.isTerminal then
    Terminfo.waits s.read (Terminfo.termOf s.env o.term) (Terminfo.searchDirs s.env)
  else 0

/-- The input: a file that is named, else the standard input. A directory can be opened, and fails
when it is read. Any other file that cannot be read fails when it is opened, which is heard only
by one who listens by then. -/
def input (o : Options) (s : Surroundings) : Source :=
  match o.file.filter (! ·.isEmpty) with
  | none => .chunks s.stdin
  | some path =>
      match s.read path with
      | .ok bytes => .chunks [.bytes bytes]
      | .error .malformedPath => .refused (.transfer (ReadError.malformedPath.message path))
      | .error .isDirectory => .chunks [.broken (ReadError.isDirectory.message path)]
      | .error e =>
          if s.openingWaits < o.waits s then .unheard else .chunks [.broken (e.message path)]

def greeting (o : Options) (isTerminal : Bool) : LogLine :=
  ⟨.debug, "Reading messages from " ++ o.file.getD "stdin" ++
    if o.onTerminal isTerminal then " (terminal output)" else ""⟩

/-- What is told about a payload: its text if the options ask for it. -/
def payloadNotice (o : Options) (payload : Json) : Notice :=
  if o.aux then .aux (payload.text ++ "\n") else .log ⟨.debug, "Skipped out-of-band payload"⟩

/-- What is told about the failure that ended the run. -/
def failureLog (f : Failure) : List LogLine :=
  ⟨.error, f.message⟩ :: (f.report?.map fun r => ⟨.debug, r.detailed⟩).toList

end Options

/-- What a run of the command leaves behind. -/
structure RunResult where
  out : DeviceSink
  /-- What was told up to the end of the display. -/
  told : List Notice
  failure : Option Failure := none
  /-- Whether the process ended in the middle of the run. -/
  died : Bool := false

/-- A run that shows its input in the way given. -/
def Options.runWith (o : Options) (s : Surroundings)
    (display : DisplayOptions → List Chunk → Shown DeviceSink) : RunResult :=
  let greeting := o.greeting s.isTerminal
  let logged (lines : List LogLine) := lines.map Notice.log
  match o.input s with
  | .unheard => { out := { device := s.device }, told := logged [greeting], died := true }
  | .refused f =>
      { out := { device := s.device }, told := logged [greeting], failure := some f }
  | .chunks chunks =>
      let shown := display (o.display s) chunks
      { out := shown.out
        told :=
          logged (greeting :: shown.prelude) ++
            (shown.handedOn.filterMap (·.aux)).map o.payloadNotice ++ logged shown.postlude
        failure := shown.failure }

def Options.run (o : Options) (s : Surroundings) : RunResult :=
  o.runWith s fun display chunks => Shown.onDevice display s.read chunks s.device

namespace RunResult

/-- There is no exit code if the process ended before. -/
def exitCode (r : RunResult) : Option Nat :=
  if r.died then none else some (if r.failure.isSome then 1 else 0)

/-- All that was told; the failure comes last. -/
def notices (r : RunResult) : List Notice :=
  r.told ++ (r.failure.elim [] Options.failureLog).map Notice.log

def logLines (r : RunResult) : List LogLine :=
  r.notices.filterMap fun | .log line => some line | .aux _ => none

def auxTexts (r : RunResult) : List String :=
  r.notices.filterMap fun | .aux text => some text | .log _ => none

/-- The writes to the standard error: log lines as far as the style shows them, and
payloads. -/
def diagnostics (r : RunResult) (style : LogStyle) (now : Clock) : List String :=
  r.notices.filterMap fun
    | .log line => (line.render style now).map (· ++ "\n")
    | .aux text => some text

end RunResult
end LiveProgress
