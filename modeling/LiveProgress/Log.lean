import LiveProgress.Quantity.Clock

/-!
# Log lines

A log line has a level and a text. Written out it begins with the time of day, and a
line of each level may have a colour of its own. Lines of the debug level are written
only on demand.
-/

namespace LiveProgress

inductive LogLevel where
  | debug | info | warn | error
deriving DecidableEq, Repr

namespace LogLevel

def name : LogLevel → String
  | .debug => "debug"
  | .info => "info"
  | .warn => "warn"
  | .error => "error"

def ofName? (name : String) : Option LogLevel :=
  [debug, info, warn, error].find? (·.name == name)

/-- The code that sets the level's colour: grey, cyan, yellow and red. -/
def colour : LogLevel → String
  | .debug => "\x1b[90m"
  | .info => "\x1b[36m"
  | .warn => "\x1b[33m"
  | .error => "\x1b[31m"

end LogLevel

structure LogLine where
  level : LogLevel
  text : String
deriving DecidableEq, Repr

structure LogStyle where
  verbose : Bool := false
  coloured : Bool := false
deriving DecidableEq, Repr

namespace LogLine

/-- Resets the colour of the text. -/
def uncolour : String := "\x1b[39m"

/-- Paints a text. A reset inside it sets the colour again, and the colour does not
extend over line ends. -/
def paint (colour : String) (s : String) : String :=
  if s.isEmpty then s
  else
    let s := (uncolour ++ colour).intercalate (s.splitOn uncolour)
    let lines := (s.splitOn "\r\n").map fun line =>
      (uncolour ++ "\n" ++ colour).intercalate (line.splitOn "\n")
    colour ++ (uncolour ++ "\r\n" ++ colour).intercalate lines ++ uncolour

/-- The written line, or nothing if the style leaves the level out. -/
def render (style : LogStyle) (now : Clock) (line : LogLine) : Option String :=
  if line.level = .debug ∧ ¬ style.verbose then none
  else
    let s := "[" ++ now.text ++ "] " ++ line.text
    some (if style.coloured then paint line.level.colour s else s)

end LogLine
end LiveProgress
