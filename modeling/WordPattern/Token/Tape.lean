import WordPattern.Fuel
import WordPattern.Token.Parsed

/-!
# Tapes of tokens

Tokens can be read one by one off a tape that ends with a mark, from a place that moves on. At the
mark it stays where it is. What looks at an empty tape has no result, and neither has a call that
does not end, with any fuel.
-/

namespace WordPattern

/-- A lexeme, or the mark at the end of the input, and its place. -/
structure Entry where
  lexeme : Option Lexeme
  position : Position
deriving DecidableEq, Repr

def Token.entry (t : Token) : Entry := ⟨some t.lexeme, t.position⟩

/-- What is read one by one. -/
abbrev Tape := List Entry

/-- The tokens of a text, and the mark behind them. -/
def Tokens.tape (tokens : Tokens) : Tape := tokens.list.map Token.entry ++ [⟨none, tokens.finish⟩]

/-- What is read from a place on, with the place behind it. -/
abbrev OnTape (α : Type) := StateT Nat (ExceptT SyntaxError Option) α

namespace OnTape

/-- A call without fuel. -/
def exhausted {α : Type} : OnTape α := fun _ => ExceptT.mk none

/-- The outcome of reading from a place on, if there is one. -/
def from? {α : Type} (m : OnTape α) (i : Nat) : Option (Except SyntaxError (α × Nat)) :=
  (m.run i).run

/-- The outcome of reading from a place on with enough fuel. -/
def Gives {α : Type} (m : Nat → OnTape α) (i : Nat) (outcome : Except SyntaxError (α × Nat)) :
    Prop :=
  EndsIn (fun fuel => (m fuel).from? i) outcome

end OnTape

namespace Tape

variable (tape : Tape)

/-- The last entry is a mark. -/
def Ends : Prop := ∃ position, tape.getLast? = some ⟨none, position⟩

/-! ## Single entries -/

/-- The entry at the place, and the last one behind the end. -/
def peek : OnTape Entry := do
  let i ← get
  let entry ← tape[min i (tape.length - 1)]?
  return entry

def peekLexeme : OnTape (Option Lexeme) := do
  return (← tape.peek).lexeme

/-- Goes on to the next entry, but not behind a mark. -/
def next : OnTape Unit := do
  if (← tape.peekLexeme).isSome then modify (· + 1)

/-- Takes a given lexeme, if it stands there. -/
def eat (l : Lexeme) : OnTape Bool := do
  if (← tape.peekLexeme) = some l then
    tape.next
    return true
  else return false

/-- The error of finding the wrong entry. -/
def unexpected {α : Type} (wanted : Expectation) : OnTape α := do
  let entry ← tape.peek
  throw ⟨.unexpected wanted entry.lexeme, entry.position⟩

def expectKeyword (k : Keyword) : OnTape Unit := do
  if ← tape.eat (.keyword k) then return ()
  else tape.unexpected (.keyword k)

def expectSymbol (s : Symbol) : OnTape Unit := do
  if ← tape.eat (.symbol s) then return ()
  else tape.unexpected (.symbol s)

def expectCount : OnTape Nat := do
  let entry ← tape.peek
  match entry.lexeme with
  | some (.number n) =>
    match n.count? with
    | some value =>
      tape.next
      return value
    | none => throw ⟨.notWhole n, entry.position⟩
  | _ => tape.unexpected .number

def expectLiteral : OnTape (List UInt8) := do
  match ← tape.peekLexeme with
  | some (.literal bytes) =>
    tape.next
    return bytes
  | _ => tape.unexpected .literal

/-! ## Progress -/

/-- Nothing but tokens stands from one place up to another one. -/
def Passed (i j : Nat) : Prop :=
  i ≤ j ∧ ∀ k, i ≤ k → k < j → ∃ t : Token, tape[k]? = some t.entry

/-- Reading from a place on has an outcome, and where it succeeds only tokens are passed. -/
def Returns {α : Type} (m : Nat → OnTape α) (i : Nat) : Prop :=
  ∃ outcome, OnTape.Gives m i outcome ∧ ∀ a j, outcome = .ok (a, j) → tape.Passed i j

/-- Reading from a place on has an outcome, and where it succeeds tokens are passed, at least one of
them. -/
def Advances {α : Type} (m : Nat → OnTape α) (i : Nat) : Prop :=
  ∃ outcome, OnTape.Gives m i outcome ∧ ∀ a j, outcome = .ok (a, j) → i < j ∧ tape.Passed i j

end Tape

end WordPattern
