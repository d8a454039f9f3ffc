import WordPattern.Pattern.Basic
import WordPattern.Token.Parsed

/-!
# Reading patterns

| Form                    | Meaning                                       |
|-------------------------|-----------------------------------------------|
| `A B C`                 | a chain of elements                           |
| `A or B`                | alternatives, grouped to the right            |
| `A = @x`, `A = $s`      | a capture, a definition                       |
| `at least 2 A fewest`   | a quantifier in front of its body             |
| `'a'`, `digit`, `( … )` | a single element                              |
-/

namespace WordPattern

/-- The class that a keyword names. -/
def ByteClass.ofKeyword? : Keyword → Option ByteClass
  | .digit => some .digit
  | .letter => some .letter
  | .upper => some .upper
  | .lower => some .lower
  | .whitespace => some .whitespace
  | .any => some .any
  | _ => none

namespace Pattern

/-- A pattern ends where the source or a group ends, at a replacement, and at the next statement. -/
def atEnd : List Token → Bool
  | [] => true
  | ⟨.symbol .rightParen, _⟩ :: _ => true
  | ⟨.keyword k, _⟩ :: _ =>
    k == .find || k == .replace || k == .use || k == .«repeat» || k == .set || k == .«with»
  | _ => false

variable (finish : Position)

/-! ## Quantifiers -/

/-- Reads the bounds behind `between`. -/
def between (ts : List Token) : Parse Quantifier ts := do
  let ⟨least, ts₁, h₁⟩ ← expectCount finish ts
  let ⟨_, ts₂, h₂⟩ ← expectKeyword finish .and ts₁
  let ⟨most, ts₃, h₃⟩ ← expectCount finish ts₂
  if least ≤ most then return .past h₁ (.past h₂ ⟨.between least most, ts₃, h₃⟩)
  else
    match ts with
    | [] => throw (unexpected finish .number ts)
    | t :: _ => throw ⟨.crossedBounds least most, t.position⟩

/-- Reads what follows `at`. -/
def atBound (ts : List Token) : Parse Quantifier ts :=
  match eat? (.keyword .least) ts, eat? (.keyword .most) ts with
  | some ⟨ts₁, h₁⟩, _ => do
    let ⟨n, ts₂, h₂⟩ ← expectCount finish ts₁
    return .past h₁ ⟨.atLeast n, ts₂, h₂⟩
  | none, some ⟨ts₁, h₁⟩ => do
    let ⟨n, ts₂, h₂⟩ ← expectCount finish ts₁
    return .past h₁ ⟨.atMost n, ts₂, h₂⟩
  | none, none => throw (unexpected finish .leastOrMost ts)

/-- A quantifier in front of `ts`, if the first token begins one. -/
def quantifier? : (ts : List Token) → Option (Parse Quantifier ts)
  | ⟨.keyword .«at», _⟩ :: ts => some do
    return (← atBound finish ts).behind
  | ⟨.keyword .between, _⟩ :: ts => some do
    return (← between finish ts).behind
  | ⟨.keyword .exactly, _⟩ :: ts => some do
    let ⟨n, rest, h⟩ ← expectCount finish ts
    return .behind ⟨.exactly n, rest, h⟩
  | ⟨.keyword .maybe, _⟩ :: ts => some (.ok (.single (.between 0 1) ts))
  | ⟨.number n, position⟩ :: ts => some do
    let ⟨n, rest, h⟩ ← expectCount finish (⟨.number n, position⟩ :: ts)
    return ⟨.exactly n, rest, h⟩
  | _ => none

/-! ## Elements without a pattern inside -/

/-- Reads a literal, or a range if `to` and another literal follow. -/
def item (ts : List Token) : Parse Item ts := do
  let ⟨low, ts₁, h₁⟩ ← expectLiteral finish ts
  match eat? (.keyword .«to») ts₁ with
  | none => return ⟨.literal low, ts₁, h₁⟩
  | some ⟨ts₂, h₂⟩ =>
    let ⟨high, ts₃, h₃⟩ ← expectLiteral finish ts₂
    return .past h₁ (.past h₂ ⟨.range low high, ts₃, h₃⟩)

/-- Reads a member of a list: a class, a literal or a range. -/
def listItem (ts : List Token) : Parse Item ts :=
  match ts with
  | ⟨.keyword k, position⟩ :: rest =>
    match ByteClass.ofKeyword? k with
    | some c => .ok (.single (.byteClass c) rest)
    | none => .error (unexpected finish .listItem (⟨.keyword k, position⟩ :: rest))
  | ⟨.literal bytes, position⟩ :: rest => item finish (⟨.literal bytes, position⟩ :: rest)
  | ts => .error (unexpected finish .listItem ts)

/-- Reads a list of items with commas between them. -/
def listItems (ts : List Token) : Parse (List Item) ts := do
  let ⟨first, ts₁, h₁⟩ ← listItem finish ts
  match eat? (.symbol .comma) ts₁ with
  | none => return ⟨[first], ts₁, h₁⟩
  | some ⟨ts₂, _⟩ =>
    let ⟨others, ts₃, _⟩ ← listItems ts₂
    return ⟨first :: others, ts₃, by omega⟩
termination_by ts.length

/-- The node that an item stands for in front of which `not` may stand. -/
def itemNode (negated : Bool) : Item → Node
  | .literal bytes => .literal bytes negated
  | .range low high => .range low high negated
  | .byteClass c => .byteClass c negated

/-- Reads what follows `not`. -/
def negatedElement (ts : List Token) : Parse Node ts :=
  match ts with
  | ⟨.keyword .«in», _⟩ :: rest => do
    let ⟨items, more, h⟩ ← listItems finish rest
    return .behind ⟨.noneOf items, more, h⟩
  | ⟨.keyword k, position⟩ :: rest =>
    match ByteClass.ofKeyword? k with
    | some c => .ok (.single (.byteClass c true) rest)
    | none => .error (unexpected finish .negatable (⟨.keyword k, position⟩ :: rest))
  | ⟨.literal bytes, position⟩ :: rest => do
    let ⟨i, more, h⟩ ← item finish (⟨.literal bytes, position⟩ :: rest)
    return ⟨itemNode true i, more, h⟩
  | ts => .error (unexpected finish .negatable ts)

/-- Reads `start` or `end` behind `line` or `file`. -/
def anchorSide (first last : Anchor) (ts : List Token) : Parse Node ts :=
  match eat? (.keyword .start) ts, eat? (.keyword .«end») ts with
  | some ⟨rest, h⟩, _ => .ok ⟨.anchor first, rest, h⟩
  | none, some ⟨rest, h⟩ => .ok ⟨.anchor last, rest, h⟩
  | none, none => .error (unexpected finish .startOrEnd ts)

/-- An element that begins with a keyword. -/
def keywordElement (k : Keyword) (position : Position) (rest : List Token) :
    Parse Node (⟨.keyword k, position⟩ :: rest) :=
  match k with
  | .not => do return (← negatedElement finish rest).behind
  | .«in» => do
    let ⟨items, more, h⟩ ← listItems finish rest
    return .behind ⟨.oneOf items, more, h⟩
  | .sol => .ok (.single (.anchor .lineStart) rest)
  | .eol => .ok (.single (.anchor .lineEnd) rest)
  | .sof => .ok (.single (.anchor .fileStart) rest)
  | .eof => .ok (.single (.anchor .fileEnd) rest)
  | .line => do return (← anchorSide finish .lineStart .lineEnd rest).behind
  | .file => do return (← anchorSide finish .fileStart .fileEnd rest).behind
  | k =>
    match ByteClass.ofKeyword? k with
    | some c => .ok (.single (.byteClass c false) rest)
    | none => .error (unexpected finish .element (⟨.keyword k, position⟩ :: rest))

/-- Reads the names that a node is bound to, each behind an equals sign, the nearest one first. -/
def binders (node : Node) (ts : List Token) :
    Except SyntaxError (Parsed Node (ts.length + 1)) :=
  match ts with
  | ⟨.symbol .assign, _⟩ :: ⟨.variableName name, _⟩ :: rest => do
    return (← binders (.capture name node) rest).behindTwo
  | ⟨.symbol .assign, _⟩ :: ⟨.subroutineName name, _⟩ :: rest => do
    return (← binders (.define name node) rest).behindTwo
  | ⟨.symbol .assign, _⟩ :: rest => .error (unexpected finish .binder rest)
  | ts => .ok ⟨node, ts, length_lt_succ ts⟩

/-! ## Elements and chains -/

mutual
/-- Reads a chain of elements up to where a pattern ends. -/
def chain (ts : List Token) : Parse Chain ts :=
  if atEnd ts then .error (unexpected finish .pattern ts)
  else do
    let ⟨first, ts₁, h₁⟩ ← element ts
    if atEnd ts₁ then return ⟨.last first, ts₁, h₁⟩
    else
      let ⟨others, ts₂, _⟩ ← chain ts₁
      return ⟨.cons first others, ts₂, by omega⟩
termination_by (ts.length, 4)

/-- Reads an element and the alternatives behind it. -/
def element (ts : List Token) : Parse Node ts := do
  let ⟨left, ts₁, h₁⟩ ← bound ts
  match eat? (.keyword .or) ts₁ with
  | none => return ⟨left, ts₁, h₁⟩
  | some ⟨ts₂, _⟩ =>
    let ⟨right, ts₃, _⟩ ← element ts₂
    return ⟨.or left right, ts₃, by omega⟩
termination_by (ts.length, 3)

/-- Reads a quantified element and the names it is bound to. -/
def bound (ts : List Token) : Parse Node ts := do
  let ⟨node, ts₁, h₁⟩ ← quantified ts
  return (← binders finish node ts₁).widen h₁
termination_by (ts.length, 2)

/-- Reads a single element with a quantifier in front, or without. -/
def quantified (ts : List Token) : Parse Node ts :=
  match quantifier? finish ts with
  | none => single ts
  | some outcome => do
    let ⟨q, ts₁, _⟩ ← outcome
    let ⟨body, ts₂, _⟩ ← single ts₁
    match eat? (.keyword .fewest) ts₂ with
    | none => return ⟨.«repeat» q false body, ts₂, by omega⟩
    | some ⟨ts₃, _⟩ => return ⟨.«repeat» q true body, ts₃, by omega⟩
termination_by (ts.length, 1)

/-- Reads a single element. -/
def single (ts : List Token) : Parse Node ts :=
  match ts with
  | ⟨.symbol .leftParen, _⟩ :: rest => do
    let ⟨inner, ts₁, _⟩ ← chain rest
    let ⟨_, ts₂, _⟩ ← expectSymbol finish .rightParen ts₁
    return ⟨.group inner, ts₂, by simp only [List.length_cons]; omega⟩
  | ⟨.keyword k, position⟩ :: rest => keywordElement finish k position rest
  | ⟨.literal bytes, position⟩ :: rest => do
    let ⟨i, more, h⟩ ← item finish (⟨.literal bytes, position⟩ :: rest)
    return ⟨itemNode false i, more, h⟩
  | ⟨.variableName name, _⟩ :: rest => .ok (.single (.variableText name) rest)
  | ⟨.subroutineName name, _⟩ :: rest => .ok (.single (.call name) rest)
  | ts => .error (unexpected finish .element ts)
termination_by (ts.length, 0)
end

end Pattern

/-- Reads a pattern. -/
def Chain.parse (finish : Position) (ts : List Token) : Parse Chain ts :=
  Pattern.chain finish ts

end WordPattern
