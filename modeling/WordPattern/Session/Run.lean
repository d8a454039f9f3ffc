import WordPattern.Expr.Eval
import WordPattern.Program.Basic
import WordPattern.Session.Basic

/-!
# Runs

A program runs its statements in order and stops at the first that fails. A statement that finds or
replaces goes over the inputs in order, and reports what it has found in each.
-/

namespace WordPattern

/-- The matches of one statement in one input. -/
structure Report where
  /-- The name of the input. -/
  input : String
  /-- The number of the statement in its program, counted from one. -/
  statement : Nat
  found : List Match
deriving DecidableEq, Repr

/-- A text whose lines are moved to the right, all but the first one. -/
def indentLines (text : String) : String :=
  String.ofList (text.toList.flatMap fun c => if c == '\n' then ['\n', ' ', ' '] else [c])

/-- A report as it is shown: a line that sums it up, and the matches below. -/
def Report.display (r : Report) : String :=
  r.input ++ ": statement " ++ toString r.statement ++ ": " ++ toString r.found.length ++
    (if r.found.length = 1 then " match" else " matches") ++
    String.join (r.found.map fun m => "\n  " ++ indentLines m.display)

/-! ## Statements -/

/-- The variables that a replacement sees beside the globals: the captures and the facts about its
match. -/
def Match.frame (m : Match) : Bindings Value :=
  m.captures.map Value.text
    |>.insert "match" (.text m.value)
    |>.insert "matchLength" (.number (Float.ofNat m.length))
    |>.insert "matchNumber" (.number (Float.ofNat m.number))
    |>.insert "fileOffset" (.number (Float.ofNat m.offset))
    |>.insert "lineNumber" (.number (Float.ofNat m.line))

/-- A match with its replacement. -/
def Match.withReplacement (globals : Bindings Value) (parts : List Expr) (m : Match) : Match :=
  { m with replacement := some (Expr.evalText ⟨globals, [m.frame]⟩ parts) }

/-- A program between two statements. -/
structure Run where
  session : Session
  /-- The patterns that the program has bound to names. -/
  subroutines : Bindings Chain := .empty
  /-- The reports so far, the last one first. -/
  reports : List Report := []

namespace Run

/-- The names that patterns see: the texts of the globals, and the bound patterns. -/
def environment (r : Run) : Environment :=
  ⟨r.session.globals.map Value.display, r.subroutines⟩

/-- What an input is searched in. -/
def setting (r : Run) (i : Input) : Setting :=
  { text := i.contents, environment := r.environment, limits := r.session.limits }

/-- Finds a pattern in an input. -/
def findIn (r : Run) (statement : Nat) (amount : Amount) (pattern : Chain) (i : Input) :
    Except RunError Report :=
  match (r.setting i).scan pattern amount with
  | .ok found => .ok ⟨i.name, statement, found⟩
  | .error e => .error (.interrupted e)

/-- Finds a pattern in inputs in order; gives the reports, the last one first in front of those
before, and the failure. -/
def findAll (r : Run) (statement : Nat) (amount : Amount) (pattern : Chain)
    (reports : List Report) : List Input → List Report × Option RunError
  | [] => (reports, none)
  | i :: rest =>
    match r.findIn statement amount pattern i with
    | .ok report => r.findAll statement amount pattern (report :: reports) rest
    | .error e => (reports, some e)

/-- Runs a statement that finds. -/
def find (r : Run) (statement : Nat) (amount : Amount) (pattern : Chain) : Run × Option RunError :=
  let (reports, failure) := r.findAll statement amount pattern r.reports r.session.inputs
  ({ r with reports }, failure)

/-- Replaces the matches of a pattern in an input; without a match the input stays as it is. -/
def replaceIn (r : Run) (statement : Nat) (amount : Amount) (pattern : Chain) (parts : List Expr)
    (i : Input) : Except RunError (Input × Report) :=
  match (r.setting i).scan pattern amount with
  | .ok found =>
    let replaced := found.map (·.withReplacement r.session.globals parts)
    .ok (if replaced.isEmpty then i else i.replace (splice i.contents replaced),
      ⟨i.name, statement, replaced⟩)
  | .error e => .error (.interrupted e)

/-- Replaces in inputs in order; gives the inputs, the reports and the failure. The input that fails
and those behind it stay as they are. -/
def replaceAll (r : Run) (statement : Nat) (amount : Amount) (pattern : Chain) (parts : List Expr)
    (reports : List Report) : List Input → List Input × List Report × Option RunError
  | [] => ([], reports, none)
  | i :: rest =>
    match r.replaceIn statement amount pattern parts i with
    | .error e => (i :: rest, reports, some e)
    | .ok (i, report) =>
      let (others, reports, failure) :=
        r.replaceAll statement amount pattern parts (report :: reports) rest
      (i :: others, reports, failure)

/-- Runs a statement that replaces. -/
def replace (r : Run) (statement : Nat) (amount : Amount) (pattern : Chain) (parts : List Expr) :
    Run × Option RunError :=
  let (inputs, reports, failure) :=
    r.replaceAll statement amount pattern parts r.reports r.session.inputs
  ({ r with session := { r.session with inputs }, reports }, failure)

/-- Sets a variable. -/
def setVariable (r : Run) (name : String) (value : Expr) : Run :=
  let result := value.eval ⟨r.session.globals, []⟩
  { r with session := { r.session with globals := r.session.globals.insert name result } }

/-- Binds a pattern to a name. -/
def setSubroutine (r : Run) (name : String) (pattern : Chain) : Run :=
  { r with subroutines := r.subroutines.insert name pattern }

variable {m : Type → Type} [Monad m] [FileStore m]

/-- Takes files as inputs, once what is dirty has been written. Unless all of them can be read, the
inputs stay. -/
def use (r : Run) (paths : List String) : m (Run × Option RunError) := do
  let (session, failure) ← r.session.flush
  match failure with
  | some e => return ({ r with session }, some e)
  | none =>
    match ← Session.openFiles paths with
    | .ok inputs => return ({ r with session := { session with inputs } }, none)
    | .error e => return ({ r with session }, some e)

/-- Does something a number of times, up to the first failure. -/
def times (act : Run → m (Run × Option RunError)) : Nat → Run → m (Run × Option RunError)
  | 0, r => return (r, none)
  | n + 1, r => do
    match ← act r with
    | (r, none) => times act n r
    | (r, some e) => return (r, some e)

/-- Runs one statement. -/
def statement (number : Nat) : Statement → Run → m (Run × Option RunError)
  | .find amount pattern, r => return r.find number amount pattern
  | .replace amount pattern parts, r => return r.replace number amount pattern parts
  | .use paths, r => r.use paths
  | .«repeat» n body, r => times (statement number body) n r
  | .setVariable name value, r => return (r.setVariable name value, none)
  | .setSubroutine name pattern, r => return (r.setSubroutine name pattern, none)

/-- Runs statements in order, the first of which has a number. -/
def statements (number : Nat) : List Statement → Run → m (Run × Option RunError)
  | [], r => return (r, none)
  | first :: rest, r => do
    match ← statement number first r with
    | (r, none) => statements (number + 1) rest r
    | (r, some e) => return (r, some e)

end Run

/-- Runs a program and writes what it has replaced. -/
def Session.execute {m : Type → Type} [Monad m] [FileStore m] (s : Session) (program : Program) :
    m (Session × Except RunError (List Report)) := do
  match ← Run.statements 1 program.statements { session := s } with
  | (r, some e) => return (r.session, .error e)
  | (r, none) =>
    match ← r.session.flush with
    | (session, some e) => return (session, .error e)
    | (session, none) => return (session, .ok r.reports.reverse)

end WordPattern
