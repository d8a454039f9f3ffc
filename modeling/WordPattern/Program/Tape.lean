import WordPattern.Expr.Tape
import WordPattern.Pattern.Tape
import WordPattern.Program.Parser

/-!
# Programs on a tape

A source text is cut into tokens, and the tape of these is read up to its mark.
-/

namespace WordPattern

namespace Tape

variable (tape : Tape)

/-- An amount: `all`, `top N`, `take N`, `skip N` or `skip N take M`. -/
def amount : OnTape Amount := do
  if ← tape.eat (.keyword .all) then return .all
  else if ← tape.eat (.keyword .top) then return .top (← tape.expectCount)
  else if ← tape.eat (.keyword .take) then return .top (← tape.expectCount)
  else if ← tape.eat (.keyword .skip) then
    let skip ← tape.expectCount
    if ← tape.eat (.keyword .take) then return ⟨skip, some (← tape.expectCount)⟩
    else return ⟨skip, none⟩
  else tape.unexpected .amount

/-- The file names behind commas, behind those read so far. -/
def morePaths (names : List String) : Nat → OnTape (List String)
  | 0 => .exhausted
  | fuel + 1 => do
    if ← tape.eat (.symbol .comma) then
      let bytes ← tape.expectLiteral
      morePaths (names ++ [literalText bytes]) fuel
    else return names

/-- File names with commas between them. -/
def paths (fuel : Nat) : OnTape (List String) := do
  let bytes ← tape.expectLiteral
  tape.morePaths [literalText bytes] fuel

/-- What follows `set`. -/
def setting (fuel : Nat) : OnTape Statement := do
  match ← tape.peekLexeme with
  | some (.variableName name) =>
    tape.next
    tape.expectKeyword .«to»
    return .setVariable name (← tape.expression fuel)
  | some (.subroutineName name) =>
    tape.next
    tape.expectKeyword .«to»
    tape.expectKeyword .pattern
    return .setSubroutine name (← tape.chain fuel)
  | _ => tape.unexpected .setTarget

def statement : Nat → OnTape Statement
  | 0 => .exhausted
  | fuel + 1 => do
    match ← tape.peekLexeme with
    | some (.keyword .find) =>
      tape.next
      let amount ← tape.amount
      return .find amount (← tape.chain fuel)
    | some (.keyword .replace) =>
      tape.next
      let amount ← tape.amount
      let pattern ← tape.chain fuel
      tape.expectKeyword .«with»
      return .replace amount pattern (← tape.expressions fuel)
    | some (.keyword .use) =>
      tape.next
      return .use (← tape.paths fuel)
    | some (.keyword .«repeat») =>
      tape.next
      let times ← tape.expectCount
      return .«repeat» times (← statement fuel)
    | some (.keyword .set) =>
      tape.next
      tape.setting fuel
    | _ => tape.unexpected .statement

/-- The statements up to the mark, behind those read so far. -/
def statements (list : List Statement) : Nat → OnTape (List Statement)
  | 0 => .exhausted
  | fuel + 1 => do
    if (← tape.peekLexeme).isSome then
      let s ← tape.statement fuel
      statements (list ++ [s]) fuel
    else return list

/-! ## Progress -/

/-- From a place on, what reads a part of a program goes on, and every loop comes to its end. -/
structure MakesProgress (i : Nat) : Prop where
  statement : tape.Advances tape.statement i
  setting : tape.Advances tape.setting i
  amount : tape.Advances (fun _ => tape.amount) i
  paths : tape.Advances tape.paths i
  chain : tape.Advances tape.chain i
  element : tape.Advances tape.element i
  bound : tape.Advances tape.bound i
  quantified : tape.Advances tape.quantified i
  single : tape.Advances tape.single i
  listItems : ∀ items, tape.Advances (tape.listItems items) i
  level : ∀ l, tape.Advances (tape.level l) i
  operand : ∀ l, tape.Advances (tape.operand l) i
  unary : tape.Advances tape.unary i
  application : tape.Advances tape.application i
  atom : tape.Advances tape.atom i
  arguments : tape.Advances tape.arguments i
  someArguments : ∀ values, tape.Advances (tape.someArguments values) i
  selection : tape.Advances tape.selection i
  abstraction : tape.Advances tape.abstraction i
  parameters : tape.Advances tape.parameters i
  someParameters : ∀ names, tape.Advances (tape.someParameters names) i
  expressions : tape.Advances tape.expressions i
  statements : ∀ list, tape.Returns (tape.statements list) i
  elements : ∀ nodes, tape.Returns (tape.elements nodes) i
  binders : ∀ node, tape.Returns (tape.binders node) i
  operations : ∀ l left, tape.Returns (tape.operations l left) i
  calls : ∀ callee, tape.Returns (tape.calls callee) i
  arms : ∀ before, tape.Returns (tape.arms before) i
  moreExpressions : ∀ values, tape.Returns (tape.moreExpressions values) i
  morePaths : ∀ names, tape.Returns (tape.morePaths names) i

end Tape

/-- The program of a source text, read off a tape. -/
def Program.compile? (source : String) (fuel : Nat) : Option (Except SyntaxError Program) :=
  match Tokens.ofSource source with
  | .error e => some (.error e)
  | .ok tokens =>
    ((tokens.tape.statements [] fuel).from? 0).map fun outcome => outcome.map fun r => ⟨r.1⟩

end WordPattern
