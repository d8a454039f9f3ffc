import WordPattern.Buffer
import WordPattern.Expr.Value
import WordPattern.Files.Path
import WordPattern.Files.Store
import WordPattern.Pattern.Scan

/-!
# Sessions

A session holds the inputs and the variables that programs work on. Replaced contents of a file are
written beside it and never over it.
-/

namespace WordPattern

/-- One of the things that programs are run over. -/
structure Input where
  name : String
  /-- The file that the input has been read from. -/
  path : Option String
  buffer : Buffer
  /-- Its contents have been replaced since they were read or written. -/
  dirty : Bool := false

namespace Input

/-- An input that holds a text. -/
def ofText (name text : String) : Input := { name, path := none, buffer := .ofText text }

/-- An input that holds the contents of a file. -/
def ofFile (path : String) (contents : ByteArray) : Input :=
  { name := path, path := some path, buffer := .ofBytes contents }

/-- The contents, with all replacements made so far. -/
def contents (i : Input) : ByteArray := i.buffer.bytes

/-- Replaces the contents. -/
def replace (i : Input) (contents : ByteArray) : Input :=
  { i with buffer := i.buffer.withContents contents, dirty := true }

end Input

/-- Why a run has failed. -/
inductive RunError where
  | unreadable (path : String) (fault : Fault)
  | unwritable (path : String) (fault : Fault)
  | interrupted (i : Interruption)
deriving DecidableEq, Repr

/-- The wording of a failure. -/
def RunError.message : RunError → String
  | unreadable path fault => "could not open " ++ path ++ ": " ++ fault.message
  | unwritable path fault => "could not write " ++ path ++ ": " ++ fault.message
  | interrupted i => i.message

/-- Inputs, variables and limits that the programs of a run share. -/
structure Session where
  limits : Limits := {}
  inputs : List Input := []
  globals : Bindings Value := .empty
  /-- The files written so far. -/
  written : List String := []

namespace Session

/-- Adds an input that holds a text. -/
def addText (s : Session) (name text : String) : Session :=
  { s with inputs := s.inputs ++ [.ofText name text] }

/-- The contents of the first input with a name, read as text. -/
def text? (s : Session) (name : String) : Option String :=
  (s.inputs.find? (·.name == name)).map fun i => Text.decode i.contents

/-- The value of a variable. -/
def global? (s : Session) (name : String) : Option Value := s.globals.get? name

variable {m : Type → Type} [Monad m] [FileStore m]

/-- Reads a file as an input. -/
def openFile (path : String) : m (Except RunError Input) := do
  match ← FileStore.read path with
  | .ok contents => return .ok (.ofFile path contents)
  | .error fault => return .error (.unreadable path fault)

/-- Reads files as inputs, up to the first that cannot be read. -/
def openFiles : List String → m (Except RunError (List Input))
  | [] => return .ok []
  | path :: rest => do
    match ← openFile path with
    | .error e => return .error e
    | .ok first =>
      match ← openFiles rest with
      | .error e => return .error e
      | .ok others => return .ok (first :: others)

/-- Adds the contents of a file as an input. -/
def addFile (s : Session) (path : String) : m (Session × Option RunError) := do
  match ← openFile path with
  | .ok i => return ({ s with inputs := s.inputs ++ [i] }, none)
  | .error e => return (s, some e)

/-- Writes contents beside a file and says where. -/
def writeSibling (path : String) (contents : ByteArray) : m (Except RunError String) := do
  let target := siblingPath path
  match ← FileStore.write target contents with
  | .ok () => return .ok target
  | .error fault => return .error (.unwritable target fault)

/-- Writes the inputs that are dirty and have a file, up to the first that cannot be written; gives
the inputs, the files written and the failure. -/
def flushInputs : List Input → m (List Input × List String × Option RunError)
  | [] => return ([], [], none)
  | i :: rest => do
    match i.dirty, i.path with
    | true, some path =>
      match ← writeSibling path i.contents with
      | .error e => return (i :: rest, [], some e)
      | .ok target =>
        let (others, targets, failure) ← flushInputs rest
        return ({ i with dirty := false } :: others, target :: targets, failure)
    | _, _ =>
      let (others, targets, failure) ← flushInputs rest
      return (i :: others, targets, failure)

/-- Writes every dirty input that has a file. -/
def flush (s : Session) : m (Session × Option RunError) := do
  let (inputs, targets, failure) ← flushInputs s.inputs
  return ({ s with inputs, written := s.written ++ targets }, failure)

end Session

end WordPattern
