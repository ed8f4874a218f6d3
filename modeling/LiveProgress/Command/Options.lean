import LiveProgress.Number.Reading

/-!
# Command line options

Options may stand anywhere; the first argument that is none names the file. Long options
take their value from the next argument or behind an equals sign, short ones can be
written together, and `--` ends the options.
-/

namespace LiveProgress

structure Options where
  /-- The file to read, and the standard input without one. -/
  file : Option String := none
  plain : Bool := false
  term : Option String := none
  width : Option Number := none
  aux : Bool := false
  verbose : Bool := false
deriving DecidableEq

/-- Why a command line is not carried out. -/
inductive Refusal where
  | unknownOption (name : String)
  | missingArgument (name : String)
  | invalidWidth (value : String)
  | helpRequested
  | versionRequested
deriving DecidableEq, Repr

def version : String := "0.1.0"

namespace Refusal

/-- Help and version are no errors. -/
def exitCode : Refusal → Nat
  | .helpRequested | .versionRequested => 0
  | _ => 1

def widthExpected : String := "Must be a positive integer."

/-- What is told about an error. -/
def message? : Refusal → Option String
  | .unknownOption name => some ("error: unknown option '" ++ name ++ "'")
  | .missingArgument name => some ("error: option '" ++ name ++ "' argument missing")
  | .invalidWidth value =>
      some ("error: option '--width <columns>' argument '" ++ value ++ "' is invalid. " ++
        widthExpected)
  | .helpRequested | .versionRequested => none

/-- What is written to the standard output. -/
def output? : Refusal → Option String
  | .versionRequested => some (version ++ "\n")
  | _ => none

end Refusal

namespace Options

/-- A width is a positive number in decimal digits. -/
def parseWidth? (value : String) : Option Number :=
  let digits := value.toList
  if digits.isEmpty ∨ ! digits.all Char.isDigit then none
  else
    let width := Number.ofDecimal false (Number.digitsValue digits) 0
    if 0 < width then some width else none

/-- What an option does. -/
inductive Kind where
  | flag (set : Options → Options)
  | valued (set : String → Options → Except Refusal Options)
  | version

def setWidth (value : String) (o : Options) : Except Refusal Options :=
  match parseWidth? value with
  | some width => .ok { o with width := some width }
  | none => .error (.invalidWidth value)

def kind? (name : List Char) : Option Kind :=
  match String.ofList name with
  | "--plain" => some (.flag ({ · with plain := true }))
  | "--aux" => some (.flag ({ · with aux := true }))
  | "-v" | "--verbose" => some (.flag ({ · with verbose := true }))
  | "-V" | "--version" => some .version
  | "--term" => some (.valued fun value o => .ok { o with term := some value })
  | "--width" => some (.valued setWidth)
  | _ => none

/-- A command line as far as it has been read. From the first unknown option on, other
arguments are kept with it. -/
structure Scan where
  options : Options := {}
  operands : List String := []
  unknown : List String := []

namespace Scan

def looksLikeOption : List Char → Bool
  | '-' :: _ :: _ => true
  | _ => false

/-- Keeps arguments that are no options. -/
def keep (s : Scan) (args : List (List Char)) : Scan :=
  let args := args.map String.ofList
  if s.unknown.isEmpty then { s with operands := s.operands ++ args }
  else { s with unknown := s.unknown ++ args }

def withOptions (s : Scan) (options : Options) : Scan := { s with options }

/-- Carries out a short option at the head of several, which are then read on without
it. -/
def cluster? : List Char → Option (Kind × List Char)
  | '-' :: c :: rest =>
      if c = '-' ∨ rest.isEmpty then none else (kind? ['-', c]).map (·, '-' :: rest)
  | _ => none

theorem cluster?_shorter {arg rest : List Char} {k : Kind} (h : cluster? arg = some (k, rest)) :
    rest.length < arg.length := by
  unfold cluster? at h
  split at h
  · split at h
    · cases h
    · simp only [Option.map_eq_some_iff, Prod.mk.injEq] at h
      obtain ⟨_, _, _, rfl⟩ := h
      simp
  · cases h

/-- An option with its value behind an equals sign. -/
def assigned? (arg : List Char) : Option ((String → Options → Except Refusal Options) × String) :=
  match arg.dropWhile (· != '=') with
  | _ :: value =>
      match kind? (arg.takeWhile (· != '=')) with
      | some (.valued set) => some (set, String.ofList value)
      | _ => none
  | [] => none

/-- How much there is to read: every character, and one more for each argument. -/
def extent : List (List Char) → Nat
  | [] => 0
  | arg :: rest => arg.length + 1 + extent rest

/-- Reads the arguments from left to right. -/
def read (s : Scan) : List (List Char) → Except Refusal Scan
  | [] => .ok s
  | arg :: rest =>
      if arg = ['-', '-'] then
        .ok (if s.unknown.isEmpty then s.keep rest else s.keep (arg :: rest))
      else
        match kind? arg with
        | some .version => .error .versionRequested
        | some (.flag set) => (s.withOptions (set s.options)).read rest
        | some (.valued set) =>
            match rest with
            | [] => .error (.missingArgument (String.ofList arg))
            | value :: rest => do (s.withOptions (← set (String.ofList value) s.options)).read rest
        | none =>
            match h : cluster? arg with
            | some (.version, _) => .error .versionRequested
            | some (.flag set, tail) =>
                have := cluster?_shorter h
                (s.withOptions (set s.options)).read (tail :: rest)
            | some (.valued set, tail) => do
                (s.withOptions (← set (String.ofList (tail.drop 1)) s.options)).read rest
            | none =>
                match assigned? arg with
                | some (set, value) => do (s.withOptions (← set value s.options)).read rest
                | none =>
                    if looksLikeOption arg then
                      { s with unknown := s.unknown ++ [String.ofList arg] }.read rest
                    else (s.keep [arg]).read rest
termination_by args => extent args
decreasing_by all_goals (simp only [extent]; omega)

end Scan

/-- The options that arguments set. Help is asked for wherever it stands among unknown
options. -/
def ofArguments (args : List String) : Except Refusal Options := do
  let s ← ({} : Scan).read (args.map String.toList)
  if s.unknown.any fun arg => arg == "-h" || arg == "--help" then .error .helpRequested
  else
    match s.unknown with
    | name :: _ => .error (.unknownOption name)
    | [] => .ok { s.options with file := s.operands.head? }

end Options
end LiveProgress
