/-!
# File stores

What a program needs of a file system: to read a file, and to write one in a single stroke. A
dialogue is what a computation asks of a store, and how it goes on after each answer. It is ready
for every answer, so what holds of all its courses holds over any files, whichever of them cannot be
read or written.
-/

namespace WordPattern

/-- Why a file cannot be read or written. -/
inductive Fault where
  | notFound | isDirectory | notDirectory | invalidName | nameTooLong
  /-- Any other reason, with its wording. -/
  | other (message : String)
deriving DecidableEq, Repr

/-- The wording of a fault. -/
def Fault.message : Fault → String
  | notFound => "No such file or directory (os error 2)"
  | isDirectory => "Is a directory (os error 21)"
  | notDirectory => "Not a directory (os error 20)"
  | invalidName => "file name contained an unexpected NUL byte"
  | nameTooLong => "File name too long (os error 36)"
  | other message => message

/-- A place where files are read and written. -/
class FileStore (m : Type → Type) where
  /-- The contents of a file. -/
  read : String → m (Except Fault ByteArray)
  /-- Puts contents under a path, at once or not at all. -/
  write : String → ByteArray → m (Except Fault Unit)

/-! ## Dialogues -/

/-- A question to a file store, and its answer. -/
inductive Exchange where
  | read (path : String) (answer : Except Fault ByteArray)
  | write (path : String) (contents : ByteArray) (answer : Except Fault Unit)

namespace Exchange

/-- An exchange in which contents have been written. -/
def written (file : String × ByteArray) : Exchange := .write file.1 file.2 (.ok ())

/-- An exchange in which contents have been read. -/
def given (file : String × ByteArray) : Exchange := .read file.1 (.ok file.2)

/-- The file that has been read. -/
def given? : Exchange → Option (String × ByteArray)
  | read path (.ok contents) => some (path, contents)
  | _ => none

end Exchange

/-- A computation that may ask a file store. -/
inductive Dialogue (α : Type) where
  | done (value : α)
  | read (path : String) (next : Except Fault ByteArray → Dialogue α)
  | write (path : String) (contents : ByteArray) (next : Except Fault Unit → Dialogue α)

namespace Dialogue

variable {α β : Type}

/-- One dialogue after the other. -/
def bind : Dialogue α → (α → Dialogue β) → Dialogue β
  | done value, f => f value
  | read path next, f => read path fun answer => (next answer).bind f
  | write path contents next, f => write path contents fun answer => (next answer).bind f

instance : Monad Dialogue where
  pure := done
  bind := bind

instance : FileStore Dialogue where
  read path := read path done
  write path contents := write path contents done

/-- A dialogue that is made of some exchanges comes to a value. -/
inductive ComesTo : Dialogue α → List Exchange → α → Prop
  | done (value : α) : (done value).ComesTo [] value
  | read {path : String} {next : Except Fault ByteArray → Dialogue α}
    {answer : Except Fault ByteArray} {rest : List Exchange} {value : α}
    (h : (next answer).ComesTo rest value) :
    (Dialogue.read path next).ComesTo (.read path answer :: rest) value
  | write {path : String} {contents : ByteArray} {next : Except Fault Unit → Dialogue α}
    {answer : Except Fault Unit} {rest : List Exchange} {value : α}
    (h : (next answer).ComesTo rest value) :
    (Dialogue.write path contents next).ComesTo (.write path contents answer :: rest) value

/-- The value that a dialogue comes to with some exchanges, unless it asks something else. -/
def follow? : Dialogue α → List Exchange → Option α
  | done value, [] => some value
  | read path next, .read asked answer :: rest =>
    if asked = path then (next answer).follow? rest else none
  | write path contents next, .write asked given answer :: rest =>
    if asked = path ∧ given.data = contents.data then (next answer).follow? rest else none
  | _, _ => none

/-- A dialogue that gives its exchanges beside its value. -/
def overheard : Dialogue α → Dialogue (α × List Exchange)
  | done value => done (value, [])
  | read path next => read path fun answer => do
    let (value, rest) ← (next answer).overheard
    return (value, .read path answer :: rest)
  | write path contents next => write path contents fun answer => do
    let (value, rest) ← (next answer).overheard
    return (value, .write path contents answer :: rest)

/-- Has a dialogue with a file store at hand. -/
def perform {m : Type → Type} [Monad m] [FileStore m] : Dialogue α → m α
  | done value => return value
  | read path next => do perform (next (← FileStore.read path))
  | write path contents next => do perform (next (← FileStore.write path contents))

end Dialogue

end WordPattern
