import WordPattern.Pattern.Parser
import WordPattern.Token.Tape

/-!
# Patterns on a tape

The loops keep the elements, the items and the node that they have read so far.
-/

namespace WordPattern

/-- Nodes that match one after the other, if there are any. -/
def Chain.ofList? : List Node → Option Chain
  | [] => none
  | [node] => some (.last node)
  | node :: rest => (ofList? rest).map (.cons node)

namespace Tape

variable (tape : Tape)

/-- A pattern ends at the place. -/
def atPatternEnd : OnTape Bool := do
  match ← tape.peekLexeme with
  | none => return true
  | some (.symbol .rightParen) => return true
  | some (.keyword k) =>
    return k == .find || k == .replace || k == .use || k == .«repeat» || k == .set || k == .«with»
  | _ => return false

/-- Takes the keyword of a class, if one stands there. -/
def eatClass : OnTape (Option ByteClass) := do
  match ← tape.peekLexeme with
  | some (.keyword k) =>
    match ByteClass.ofKeyword? k with
    | some c =>
      tape.next
      return some c
    | none => return none
  | _ => return none

/-! ## Quantifiers -/

/-- The bound behind `at`. -/
def atBound : OnTape Quantifier := do
  if ← tape.eat (.keyword .least) then return .atLeast (← tape.expectCount)
  else if ← tape.eat (.keyword .most) then return .atMost (← tape.expectCount)
  else tape.unexpected .leastOrMost

/-- The bounds behind `between`. -/
def between : OnTape Quantifier := do
  let entry ← tape.peek
  let least ← tape.expectCount
  tape.expectKeyword .and
  let most ← tape.expectCount
  if least ≤ most then return .between least most
  else throw ⟨.crossedBounds least most, entry.position⟩

/-- A quantifier, if one begins at the place. -/
def quantifier? : OnTape (Option Quantifier) := do
  match ← tape.peekLexeme with
  | some (.keyword .«at») =>
    tape.next
    return some (← tape.atBound)
  | some (.keyword .between) =>
    tape.next
    return some (← tape.between)
  | some (.keyword .exactly) =>
    tape.next
    return some (.exactly (← tape.expectCount))
  | some (.keyword .maybe) =>
    tape.next
    return some (.between 0 1)
  | some (.number _) => return some (.exactly (← tape.expectCount))
  | _ => return none

/-! ## Elements without a pattern inside -/

/-- A literal, or a range. -/
def item : OnTape Item := do
  let low ← tape.expectLiteral
  if ← tape.eat (.keyword .«to») then return .range low (← tape.expectLiteral)
  else return .literal low

def listItem : OnTape Item := do
  match ← tape.eatClass with
  | some c => return .byteClass c
  | none =>
    match ← tape.peekLexeme with
    | some (.literal _) => tape.item
    | _ => tape.unexpected .listItem

/-- The items of a list, behind those read so far. -/
def listItems (items : List Item) : Nat → OnTape (List Item)
  | 0 => .exhausted
  | fuel + 1 => do
    let i ← tape.listItem
    if ← tape.eat (.symbol .comma) then listItems (items ++ [i]) fuel
    else return items ++ [i]

/-- What follows `not`. -/
def negated (fuel : Nat) : OnTape Node := do
  match ← tape.eatClass with
  | some c => return .byteClass c true
  | none =>
    match ← tape.peekLexeme with
    | some (.literal _) => return Pattern.itemNode true (← tape.item)
    | some (.keyword .«in») =>
      tape.next
      return .noneOf (← tape.listItems [] fuel)
    | _ => tape.unexpected .negatable

def anchorSide (first last : Anchor) : OnTape Node := do
  if ← tape.eat (.keyword .start) then return .anchor first
  else if ← tape.eat (.keyword .«end») then return .anchor last
  else tape.unexpected .startOrEnd

/-- The names that a node is bound to. -/
def binders (node : Node) : Nat → OnTape Node
  | 0 => .exhausted
  | fuel + 1 => do
    if ← tape.eat (.symbol .assign) then
      match ← tape.peekLexeme with
      | some (.variableName name) =>
        tape.next
        binders (.capture name node) fuel
      | some (.subroutineName name) =>
        tape.next
        binders (.define name node) fuel
      | _ => tape.unexpected .binder
    else return node

/-! ## Elements and chains -/

mutual
/-- The elements of a chain, behind those read so far. -/
def elements (nodes : List Node) : Nat → OnTape Chain
  | 0 => .exhausted
  | fuel + 1 => do
    if ← tape.atPatternEnd then
      match Chain.ofList? nodes with
      | some c => return c
      | none => tape.unexpected .pattern
    else
      let node ← element fuel
      elements (nodes ++ [node]) fuel

/-- An element and the alternatives behind it. -/
def element : Nat → OnTape Node
  | 0 => .exhausted
  | fuel + 1 => do
    let left ← bound fuel
    if ← tape.eat (.keyword .or) then
      let right ← element fuel
      return .or left right
    else return left

/-- A quantified element and the names it is bound to. -/
def bound : Nat → OnTape Node
  | 0 => .exhausted
  | fuel + 1 => do
    let node ← quantified fuel
    tape.binders node fuel

/-- A single element with a quantifier in front, or without. -/
def quantified : Nat → OnTape Node
  | 0 => .exhausted
  | fuel + 1 => do
    match ← tape.quantifier? with
    | none => single fuel
    | some q =>
      let body ← single fuel
      let fewest ← tape.eat (.keyword .fewest)
      return .«repeat» q fewest body

def single : Nat → OnTape Node
  | 0 => .exhausted
  | fuel + 1 => do
    match ← tape.eatClass with
    | some c => return .byteClass c false
    | none => unclassed fuel

/-- A single element that is not a class. -/
def unclassed : Nat → OnTape Node
  | 0 => .exhausted
  | fuel + 1 => do
    match ← tape.peekLexeme with
    | some (.literal _) => return Pattern.itemNode false (← tape.item)
    | some (.keyword .not) =>
      tape.next
      tape.negated fuel
    | some (.keyword .«in») =>
      tape.next
      return .oneOf (← tape.listItems [] fuel)
    | some (.keyword .sol) =>
      tape.next
      return .anchor .lineStart
    | some (.keyword .eol) =>
      tape.next
      return .anchor .lineEnd
    | some (.keyword .sof) =>
      tape.next
      return .anchor .fileStart
    | some (.keyword .eof) =>
      tape.next
      return .anchor .fileEnd
    | some (.keyword .line) =>
      tape.next
      tape.anchorSide .lineStart .lineEnd
    | some (.keyword .file) =>
      tape.next
      tape.anchorSide .fileStart .fileEnd
    | some (.variableName name) =>
      tape.next
      return .variableText name
    | some (.subroutineName name) =>
      tape.next
      return .call name
    | some (.symbol .leftParen) =>
      tape.next
      let inner ← elements [] fuel
      tape.expectSymbol .rightParen
      return .group inner
    | _ => tape.unexpected .element
end

/-- A pattern. -/
def chain : Nat → OnTape Chain := tape.elements []

end Tape

end WordPattern
