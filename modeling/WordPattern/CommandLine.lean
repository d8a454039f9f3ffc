import WordPattern.Program.Parser
import WordPattern.Session.Run

/-!
# Command line

A program file is run over input files. Options may stand anywhere in front of `--`.
-/

namespace WordPattern

namespace CommandLine

/-- What a command line asks for. -/
structure Options where
  source : Option String := none
  /-- The input files, the last one first. -/
  inputs : List String := []
  steps : Option Nat := none
  depth : Option Nat := none

/-- What is done about a command line. -/
inductive Request where
  | run (source : String) (inputs : List String) (limits : Limits)
  | version
  | help
  | invalid (reason : String)

/-- How a program ends: its exit code and what it has written. -/
structure Ending where
  code : Nat := 0
  output : String := ""
  errors : String := ""

/-- The number that an option is given: digits, a plus sign in front of them being allowed. -/
def number? (text : String) : Option Nat :=
  let digits :=
    match text.toList with
    | '+' :: rest => rest
    | chars => chars
  let value := digits.foldl (fun value c => value * 10 + (c.toNat - '0'.toNat)) 0
  if !digits.isEmpty && digits.all Char.isDigit && value < countBound then some value else none

/-- An option with a number. -/
inductive NumberOption where
  | steps | depth
deriving DecidableEq

/-- An option as it is written. -/
def NumberOption.spelling : NumberOption → String
  | steps => "--step-budget"
  | depth => "--max-depth"

/-- Sets an option that has not been set. -/
def Options.set? (o : Options) (option : NumberOption) (text : String) : Except String Options :=
  match number? text with
  | none => .error ("invalid value '" ++ text ++ "' for '" ++ option.spelling ++ " <N>'")
  | some value =>
    match option, o.steps, o.depth with
    | .steps, none, _ => .ok { o with steps := some value }
    | .depth, _, none => .ok { o with depth := some value }
    | option, _, _ =>
      .error ("the argument '" ++ option.spelling ++ " <N>' cannot be used multiple times")

/-- Takes a file: the first one is the program, the others are inputs. -/
def Options.addFile (o : Options) (path : String) : Except String Options :=
  if path.isEmpty then .error "a value is required for a file"
  else
    match o.source with
    | none => .ok { o with source := some path }
    | some _ => .ok { o with inputs := path :: o.inputs }

/-- An argument that looks like an option. -/
def looksLikeOption (argument : String) : Bool :=
  match argument.toList with
  | '-' :: _ :: _ => true
  | _ => false

/-- What the letters behind a single dash ask for, if they are known. -/
def letters : List Char → Except Request Unit
  | [] => .ok ()
  | 'v' :: rest => letters rest
  | 'V' :: _ => .error .version
  | 'h' :: _ => .error .help
  | c :: _ => .error (.invalid ("unexpected argument '-" ++ c.toString ++ "' found"))

/-- The option of an argument, with the value behind an equals sign. -/
def numberOption? (argument : String) : Option (NumberOption × Option String) :=
  let name := String.ofList (argument.toList.takeWhile (· != '='))
  let value :=
    match argument.toList.dropWhile (· != '=') with
    | _ :: rest => some (String.ofList rest)
    | [] => none
  ([NumberOption.steps, .depth].find? (·.spelling == name)).map (·, value)

/-- The request that the arguments make, given the options read before them. -/
def request (o : Options) : List String → Request
  | [] => finish o
  | "--" :: rest => files o rest
  | "--version" :: _ => .version
  | "--help" :: _ => .help
  | "--verbose" :: rest => request o rest
  | argument :: rest =>
    match numberOption? argument with
    | some (option, some value) => next o option value rest
    | some (option, none) =>
      match rest with
      | [] => missing option
      | value :: rest => if looksLikeOption value then missing option else next o option value rest
    | none =>
      if !looksLikeOption argument then
        match o.addFile argument with
        | .ok o => request o rest
        | .error reason => .invalid reason
      else
        match argument.toList with
        | '-' :: '-' :: _ => .invalid ("unexpected argument '" ++ argument ++ "' found")
        | _ =>
          match letters (argument.toList.drop 1) with
          | .ok () => request o rest
          | .error answer => answer
where
  /-- Sets an option and reads on. -/
  next (o : Options) (option : NumberOption) (value : String) (rest : List String) : Request :=
    match o.set? option value with
    | .ok o => request o rest
    | .error reason => .invalid reason
  /-- An option lacks its number. -/
  missing (option : NumberOption) : Request :=
    .invalid ("a value is required for '" ++ option.spelling ++ " <N>'")
  /-- Takes all arguments as files. -/
  files (o : Options) : List String → Request
    | [] => finish o
    | path :: rest =>
      match o.addFile path with
      | .ok o => files o rest
      | .error reason => .invalid reason
  /-- A run needs a program. -/
  finish (o : Options) : Request :=
    match o.source with
    | none => .invalid "the following required arguments were not provided: <SOURCE>"
    | some source =>
      let standard : Limits := {}
      .run source o.inputs.reverse
        ⟨o.steps.getD standard.steps, o.depth.getD standard.depth⟩

/-! ## Answers -/

/-- The name and version of the program. -/
def versionText : String := "vore 0.1.0\n"

/-- How the program is called. -/
def usageText : String :=
  "Usage: vore [OPTIONS] <SOURCE> [INPUT]...\n\n" ++
    "Options:\n" ++
    "  -v, --verbose...       Log more (repeat for more detail)\n" ++
    "      --step-budget <N>  Matcher steps allowed per start position\n" ++
    "      --max-depth <N>    Maximum matcher nesting depth\n" ++
    "  -h, --help             Print help\n" ++
    "  -V, --version          Print version\n"

/-- An ending with a failure. -/
def Ending.failed (message : String) : Ending :=
  { code := 1, errors := message ++ "\n" }

/-- The message of a failed run; a fault of a file is named once more as its reason. -/
def failureText (e : RunError) : String :=
  match e with
  | .unreadable _ fault => e.message ++ ": " ++ fault.message
  | .unwritable _ fault => e.message ++ ": " ++ fault.message
  | .interrupted _ => e.message

/-- The program of a file's contents. -/
def programOf (source : String) (contents : ByteArray) : Except String Program :=
  match String.fromUTF8? contents with
  | none => .error ("Failed to read " ++ source ++ ": stream did not contain valid UTF-8")
  | some text =>
    match Program.ofSource text with
    | .ok program => .ok program
    | .error e => .error ("In " ++ source ++ ": " ++ e.display)

/-- What a run has to show: its reports, and the files written. -/
def successText (s : Session) (reports : List Report) : String :=
  String.join (reports.map fun r => r.display ++ "\n") ++
    String.join (s.written.map fun path => path ++ " written.\n")

variable {m : Type → Type} [Monad m] [FileStore m]

/-- Adds files as inputs, up to the first that cannot be read. -/
def addFiles (s : Session) : List String → m (Except RunError Session)
  | [] => return .ok s
  | path :: rest => do
    match ← s.addFile path with
    | (s, none) => addFiles s rest
    | (_, some e) => return .error e

/-- Runs a program over input files. -/
def runProgram (program : Program) (inputs : List String) (limits : Limits) : m Ending := do
  match ← addFiles { limits } inputs with
  | .error e => return .failed (failureText e)
  | .ok s =>
    match ← s.execute program with
    | (_, .error e) => return .failed (failureText e)
    | (s, .ok reports) => return { output := successText s reports }

/-- Runs the program of a file over input files. -/
def runFile (source : String) (inputs : List String) (limits : Limits) : m Ending := do
  match ← FileStore.read source with
  | .error fault => return .failed ("Failed to read " ++ source ++ ": " ++ fault.message)
  | .ok contents =>
    match programOf source contents with
    | .error message => return .failed message
    | .ok program => runProgram program inputs limits

/-- Carries out a command line. -/
def run (arguments : List String) : m Ending :=
  match request {} arguments with
  | .version => return { output := versionText }
  | .help => return { output := usageText }
  | .invalid reason => return .failed ("error: " ++ reason ++ "\n\n" ++ usageText)
  | .run source inputs limits => runFile source inputs limits

end CommandLine

end WordPattern
