import WordPattern.CommandLine
import WordPattern.Files.Path

/-!
# Main program

The command line, over the files of the machine that it runs on.
-/

namespace WordPattern

/-- The fault with an error number; a number may be negated. -/
def Fault.ofNumber? (code : UInt32) : Option Fault :=
  match code.toInt32.toInt.natAbs with
  | 2 => some .notFound
  | 13 => some (.other "Permission denied (os error 13)")
  | 20 => some .notDirectory
  | 21 => some .isDirectory
  | 36 => some .nameTooLong
  | _ => none

/-- The fault that an error of the machine stands for. -/
def Fault.ofError (e : IO.Error) : Fault :=
  let known : Option Fault :=
    match e with
    | .noFileOrDirectory _ code _ | .inappropriateType _ code _ | .invalidArgument _ code _
    | .permissionDenied _ code _ => ofNumber? code
    | _ => none
  known.getD (.other (toString e))

/-- The outcome of an action, an error being a fault. -/
def catchFault {α : Type} (act : IO α) : IO (Except Fault α) := do
  try return .ok (← act) catch e => return .error (Fault.ofError e)

/-- A file name that is free with all but certainty. -/
def scratchName : IO (List Char) := do
  return ".tmp".toList ++ Nat.toDigits 16 (← IO.rand (Nat.pow 2 32) (Nat.pow 2 62))

/-- Writes a new file and moves it over another; without success the new file goes. -/
def writeOver (scratch path : String) (contents : ByteArray) : IO Unit := do
  let file ← IO.FS.Handle.mk scratch .writeNew
  try
    file.write contents
    file.flush
    IO.FS.rename scratch path
  catch e =>
    try IO.FS.removeFile scratch catch _ => pure ()
    throw e

instance : FileStore IO where
  read path :=
    if Path.hasNul path then return .error .invalidName else catchFault (IO.FS.readBinFile path)
  write path contents := do
    if Path.hasNul path then return .error .invalidName
    else
      let scratch := Path.child (Path.directory path) (← scratchName)
      catchFault (writeOver scratch path contents)

end WordPattern

/-- Carries out the command line and ends with its exit code. -/
def main (arguments : List String) : IO UInt32 := do
  let ending ← WordPattern.CommandLine.run arguments
  IO.print ending.output
  IO.eprint ending.errors
  return ending.code.toUInt32
