import WordPattern.Expr.Basic
import WordPattern.Pattern.Basic
import WordPattern.Pattern.Match

/-!
# Programs

A program is a list of statements. What it runs are its statements with their repetitions written
out.
-/

namespace WordPattern

/-- A statement of a program. -/
inductive Statement where
  | find (amount : Amount) (pattern : Chain)
  | replace (amount : Amount) (pattern : Chain) (replacement : List Expr)
  /-- Reads files in place of the inputs at hand. -/
  | use (paths : List String)
  | «repeat» (times : Nat) (body : Statement)
  | setVariable (name : String) (value : Expr)
  | setSubroutine (name : String) (pattern : Chain)

/-- A statement that runs once on every input. -/
def Statement.isPerInput : Statement → Bool
  | find .. => true
  | replace .. => true
  | «repeat» _ body => body.isPerInput
  | _ => false

/-- The statements of a source text in order. -/
structure Program where
  statements : List Statement

/-! ## Repetitions written out -/

/-- What a statement runs, with every repetition written out. -/
def Statement.unrolled : Statement → List Statement
  | .«repeat» times body => (List.replicate times body.unrolled).flatten
  | s => [s]

/-- What statements run, each with the number of the statement that it is part of. -/
def Statement.numbered (number : Nat) : List Statement → List (Nat × Statement)
  | [] => []
  | first :: rest => first.unrolled.map (number, ·) ++ numbered (number + 1) rest

/-- What a program runs, each statement with the number of the one that it is part of. -/
def Program.unrolled (p : Program) : List (Nat × Statement) :=
  Statement.numbered 1 p.statements

/-- Nothing in a statement takes other files as inputs. -/
def Statement.keepsInputs : Statement → Bool
  | .use _ => false
  | .«repeat» _ body => body.keepsInputs
  | _ => true

/-- Nothing in a program takes other files as inputs. -/
def Program.keepsInputs (p : Program) : Bool := p.statements.all Statement.keepsInputs

/-- Nothing in a statement binds a pattern to a name. -/
def Statement.bindsNoPattern : Statement → Bool
  | .setSubroutine .. => false
  | .«repeat» _ body => body.bindsNoPattern
  | _ => true

/-- Nothing in a program binds a pattern to a name for the statements behind it. -/
def Program.bindsNoPattern (p : Program) : Bool := p.statements.all Statement.bindsNoPattern

/-- One program, and another one behind it. -/
def Program.append (p q : Program) : Program := ⟨p.statements ++ q.statements⟩

instance : Append Program := ⟨Program.append⟩

end WordPattern
