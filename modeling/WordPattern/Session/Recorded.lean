import WordPattern.Session.Run

/-!
# Recorded runs

What is done with a session, beside a record of what becomes of its inputs. Each part is the run's
own part: it asks what the run asks and comes to what the run comes to, and what it changes is read
off from that. The record lists the last change first.
-/

namespace WordPattern

/-- A small change of a session. -/
inductive Change where
  | addText (name text : String)
  /-- A file is opened as a further input, at some place. -/
  | addFile (place : Nat) (file : String × ByteArray)
  /-- The contents of the input at a place are replaced. -/
  | rewrite (place : Nat) (contents : ByteArray)
  /-- The input at a place is written to a file. -/
  | save (place : Nat) (file : String × ByteArray)
  /-- Files are opened instead of the inputs. -/
  | take (files : List (String × ByteArray))
  | assign (globals : Bindings Value)
  /-- Something is asked of the files that changes nothing. -/
  | ask (x : Exchange)

/-- What an exchange for the input at a place changes. -/
def Change.of (place : Nat) : Exchange → Change
  | .read path (.ok contents) => addFile place (path, contents)
  | .write path contents (.ok ()) => save place (path, contents)
  | x => ask x

/-- What files that are opened change: nothing unless all of them have been read. -/
def Change.ofOpening : Except RunError (List Input) → List Exchange → List Change
  | .ok _, xs => [take (xs.filterMap Exchange.given?)]
  | .error _, xs => xs.map ask

/-- What a statement that replaces changes in inputs, the first of which is at a place. -/
def Run.rewrites (r : Run) (number : Nat) (amount : Amount) (pattern : Chain) (parts : List Expr) :
    Nat → List Input → List Change
  | _, [] => []
  | place, i :: rest =>
    match r.replaceIn number amount pattern parts i with
    | .error _ => []
    | .ok (i, report) =>
      let others := r.rewrites number amount pattern parts (place + 1) rest
      if report.found.isEmpty then others else .rewrite place i.contents :: others

/-- A dialogue that keeps a record. -/
abbrev Recorded := StateT (List Change) Dialogue

namespace Recorded

/-- Has a dialogue and records what it has changed. -/
def noting {α : Type} (d : Dialogue α) (changes : α → List Exchange → List Change) : Recorded α :=
  fun history => do
    let (value, xs) ← d.overheard
    return (value, (changes value xs).reverse ++ history)

/-- Adds the contents of a file as an input. -/
def addFile (s : Session) (path : String) : Recorded (Session × Option RunError) :=
  noting (s.addFile path) fun _ xs => xs.map (.of s.inputs.length)

/-- Writes the inputs that are dirty and have a file, one by one; the first is at a place. -/
def flushInputs (place : Nat) : List Input → Recorded (List Input × List String × Option RunError)
  | [] => return ([], [], none)
  | i :: rest => do
    match ← noting (Session.flushInputs [i]) fun _ xs => xs.map (.of place) with
    | (first, targets, some e) => return (first ++ rest, targets, some e)
    | (first, targets, none) =>
      let (others, more, failure) ← flushInputs (place + 1) rest
      return (first ++ others, targets ++ more, failure)

/-- Writes every dirty input that has a file. -/
def flush (s : Session) : Recorded (Session × Option RunError) := do
  let (inputs, targets, failure) ← flushInputs 0 s.inputs
  return ({ s with inputs, written := s.written ++ targets }, failure)

/-- Takes files as inputs, once what is dirty has been written. -/
def use (r : Run) (paths : List String) : Recorded (Run × Option RunError) := do
  let (session, failure) ← flush r.session
  match failure with
  | some e => return ({ r with session }, some e)
  | none =>
    match ← noting (Session.openFiles paths) Change.ofOpening with
    | .ok inputs => return ({ r with session := { session with inputs } }, none)
    | .error e => return ({ r with session }, some e)

/-- Runs one statement. -/
def statement (number : Nat) : Statement → Run → Recorded (Run × Option RunError)
  | .find amount pattern, r => return r.find number amount pattern
  | .replace amount pattern parts, r =>
    noting (return r.replace number amount pattern parts) fun _ _ =>
      r.rewrites number amount pattern parts 0 r.session.inputs
  | .use paths, r => use r paths
  | .«repeat» n body, r => Run.times (statement number body) n r
  | .setVariable name value, r =>
    noting (return (r.setVariable name value, none)) fun outcome _ =>
      [.assign outcome.1.session.globals]
  | .setSubroutine name pattern, r => return (r.setSubroutine name pattern, none)

/-- Runs statements in order, the first of which has a number. -/
def statements (number : Nat) : List Statement → Run → Recorded (Run × Option RunError)
  | [], r => return (r, none)
  | first :: rest, r => do
    match ← statement number first r with
    | (r, none) => statements (number + 1) rest r
    | (r, some e) => return (r, some e)

/-- Runs a program and writes what it has replaced. -/
def execute (s : Session) (program : Program) :
    Recorded (Session × Except RunError (List Report)) := do
  match ← statements 1 program.statements { session := s } with
  | (r, some e) => return (r.session, .error e)
  | (r, none) =>
    match ← flush r.session with
    | (session, some e) => return (session, .error e)
    | (session, none) => return (session, .ok r.reports.reverse)

end Recorded

/-! ## Operations -/

/-- Something that is done with a session from outside. -/
inductive Operation where
  | addText (name text : String)
  | addFile (path : String)
  | execute (program : Program)
  | flush

/-- The session after an operation, whether it has failed or not. -/
def Session.operate {m : Type → Type} [Monad m] [FileStore m] (s : Session) :
    Operation → m Session
  | .addText name text => return s.addText name text
  | .addFile path => do return (← s.addFile path).1
  | .execute program => do return (← s.execute program).1
  | .flush => do return (← s.flush).1

/-- The session after an operation, with a record of the changes. -/
def Recorded.operate (s : Session) : Operation → Recorded Session
  | .addText name text => noting (return s.addText name text) fun _ _ => [.addText name text]
  | .addFile path => do return (← addFile s path).1
  | .execute program => do return (← execute s program).1
  | .flush => do return (← flush s).1

/-- Operations lead from one session to another with some exchanges, and this is the record of their
changes. -/
def Session.Records (s : Session) (ops : List Operation) (history : List Change)
    (xs : List Exchange) (s' : Session) : Prop :=
  ((ops.foldlM Recorded.operate s).run []).ComesTo xs (s', history)

end WordPattern
