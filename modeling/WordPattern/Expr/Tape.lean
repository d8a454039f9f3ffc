import WordPattern.Expr.Parser
import WordPattern.Token.Tape

/-!
# Expressions on a tape

The loops keep the operand, the callee, the arms, the arguments and the parameters that they have
read so far.
-/

namespace WordPattern

namespace Tape

open Expression

variable (tape : Tape)

/-- The parameters and the bracket behind them, behind the names read so far. -/
def someParameters (names : List String) : Nat → OnTape (List String)
  | 0 => .exhausted
  | fuel + 1 => do
    match ← tape.peekLexeme with
    | some (.variableName name) =>
      tape.next
      if ← tape.eat (.symbol .rightParen) then return names ++ [name]
      else
        tape.expectSymbol .comma
        someParameters (names ++ [name]) fuel
    | _ => tape.unexpected .parameter

/-- A list of parameters between brackets. -/
def parameters (fuel : Nat) : OnTape (List String) := do
  tape.expectSymbol .leftParen
  if ← tape.eat (.symbol .rightParen) then return []
  else tape.someParameters [] fuel

mutual
/-- An expression whose binary operators are of a level or bind tighter. -/
def level (l : Level) : Nat → OnTape Expr
  | 0 => .exhausted
  | fuel + 1 => do
    let left ← operand l fuel
    operations l left fuel

def operand (l : Level) : Nat → OnTape Expr
  | 0 => .exhausted
  | fuel + 1 =>
    match l with
    | .or => level .and fuel
    | .and => level .comparison fuel
    | .comparison => level .additive fuel
    | .additive => level .multiplicative fuel
    | .multiplicative => unary fuel

/-- The operations of a level that follow their left operand; a comparison takes one only. -/
def operations (l : Level) (left : Expr) : Nat → OnTape Expr
  | 0 => .exhausted
  | fuel + 1 => do
    match (← tape.peekLexeme).bind l.operator? with
    | none => return left
    | some op =>
      tape.next
      let right ← operand l fuel
      if l = .comparison then return .binary op left right
      else operations l (.binary op left right) fuel

/-- An operand with signs in front. -/
def unary : Nat → OnTape Expr
  | 0 => .exhausted
  | fuel + 1 => do
    if ← tape.eat (.keyword .not) then
      let value ← unary fuel
      return .unary .not value
    else if ← tape.eat (.symbol .minus) then
      let value ← unary fuel
      return .unary .negate value
    else application fuel

/-- An atom and the lists of arguments behind it. -/
def application : Nat → OnTape Expr
  | 0 => .exhausted
  | fuel + 1 => do
    let callee ← atom fuel
    calls callee fuel

/-- The lists of arguments that follow a callee. -/
def calls (callee : Expr) : Nat → OnTape Expr
  | 0 => .exhausted
  | fuel + 1 => do
    if ← tape.eat (.symbol .leftParen) then
      let values ← arguments fuel
      calls (.apply callee values) fuel
    else return callee

/-- Arguments, if there are any, and the bracket behind them. -/
def arguments : Nat → OnTape (List Expr)
  | 0 => .exhausted
  | fuel + 1 => do
    if ← tape.eat (.symbol .rightParen) then return []
    else someArguments [] fuel

/-- Arguments and the bracket behind them, behind the ones read so far. -/
def someArguments (values : List Expr) : Nat → OnTape (List Expr)
  | 0 => .exhausted
  | fuel + 1 => do
    let value ← level .or fuel
    if ← tape.eat (.symbol .rightParen) then return values ++ [value]
    else
      tape.expectSymbol .comma
      someArguments (values ++ [value]) fuel

/-- An expression without operators. -/
def atom : Nat → OnTape Expr
  | 0 => .exhausted
  | fuel + 1 => do
    let entry ← tape.peek
    match entry.lexeme with
    | some (.literal bytes) =>
      tape.next
      return .text (literalText bytes)
    | some (.number n) =>
      tape.next
      return ofNumeral n
    | some (.variableName name) =>
      tape.next
      return .variableValue name
    | some (.keyword .true) =>
      tape.next
      return .bool true
    | some (.keyword .false) =>
      tape.next
      return .bool false
    | some (.keyword .upper) =>
      tape.next
      return .builtin .upper
    | some (.keyword .lower) =>
      tape.next
      return .builtin .lower
    | some (.word name) =>
      match Builtin.ofWord? name with
      | some b =>
        tape.next
        return .builtin b
      | none => throw ⟨.unknownFunction name, entry.position⟩
    | some (.symbol .leftParen) =>
      tape.next
      let inner ← level .or fuel
      tape.expectSymbol .rightParen
      return inner
    | some (.keyword .case) =>
      tape.next
      selection fuel
    | some (.keyword .func) =>
      tape.next
      abstraction fuel
    | _ => tape.unexpected .expression

/-- What follows `case`. -/
def selection : Nat → OnTape Expr
  | 0 => .exhausted
  | fuel + 1 => do
    let arms ← arms [] fuel
    if arms.isEmpty then tape.unexpected (.keyword .when)
    else
      let otherwise ← alternative fuel
      tape.expectKeyword .«end»
      return .cases arms otherwise

/-- The arms of a selection, behind those read so far. -/
def arms (before : List (Expr × Expr)) : Nat → OnTape (List (Expr × Expr))
  | 0 => .exhausted
  | fuel + 1 => do
    if ← tape.eat (.keyword .when) then
      let first ← arm fuel
      arms (before ++ [first]) fuel
    else return before

/-- The guard and the value behind `when`. -/
def arm : Nat → OnTape (Expr × Expr)
  | 0 => .exhausted
  | fuel + 1 => do
    let guard ← level .or fuel
    tape.expectKeyword .«then»
    let value ← level .or fuel
    return (guard, value)

/-- The alternative behind `otherwise`, if there is one. -/
def alternative : Nat → OnTape (Option Expr)
  | 0 => .exhausted
  | fuel + 1 => do
    if ← tape.eat (.keyword .otherwise) then
      let value ← level .or fuel
      return some value
    else return none

/-- What follows `func`. -/
def abstraction : Nat → OnTape Expr
  | 0 => .exhausted
  | fuel + 1 => do
    let names ← tape.parameters fuel
    let body ← level .or fuel
    return .function names body
end

/-- An expression. -/
def expression : Nat → OnTape Expr := tape.level .or

/-- An expression can begin at the place. -/
def atExpression : OnTape Bool := do
  match ← tape.peekLexeme with
  | some (.literal _) => return true
  | some (.number _) => return true
  | some (.variableName _) => return true
  | some (.word _) => return true
  | some (.symbol s) => return s == .leftParen || s == .minus
  | some (.keyword k) =>
    return k == .true || k == .false || k == .upper || k == .lower || k == .case || k == .func ||
      k == .not
  | _ => return false

/-- The expressions that stand side by side, behind those read so far. -/
def moreExpressions (values : List Expr) : Nat → OnTape (List Expr)
  | 0 => .exhausted
  | fuel + 1 => do
    if ← tape.atExpression then
      let value ← tape.expression fuel
      moreExpressions (values ++ [value]) fuel
    else return values

/-- Expressions that stand side by side, at least one. -/
def expressions (fuel : Nat) : OnTape (List Expr) := do
  let first ← tape.expression fuel
  tape.moreExpressions [first] fuel

end Tape

end WordPattern
