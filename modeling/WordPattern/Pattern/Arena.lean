import WordPattern.Pattern.Parser

/-!
# Arenas

A pattern can be laid out in a list of cells that refer to one another by their numbers. A cell
comes behind the cells that it refers to. The elements of a chain are linked; bodies, operands and
the items of a list are not.
-/

namespace WordPattern

/-- What stands in a cell of an arena. -/
inductive Cell.Kind where
  | literal (bytes : List UInt8) (negated : Bool)
  | byteClass (c : ByteClass) (negated : Bool)
  | anchor (a : Anchor)
  | range (low high : List UInt8) (negated : Bool)
  | list (items : List Nat) (negated : Bool)
  | variableText (name : String)
  | call (name : String)
  | group (head : Nat)
  | «repeat» (quantifier : Quantifier) (fewest : Bool) (body : Nat)
  | or (left right : Nat)
  | capture (name : String) (body : Nat)
  | define (name : String) (body : Nat)
deriving DecidableEq, Repr

/-- A cell, and the number of the one that follows it in its chain. -/
structure Cell where
  kind : Cell.Kind
  next : Option Nat
deriving DecidableEq, Repr

/-- The cells of one or more patterns. -/
abbrev Arena := List Cell

/-- Refers to cells whose numbers are larger by `d`. -/
def Cell.Kind.shift (d : Nat) : Cell.Kind → Cell.Kind
  | .list items negated => .list (items.map (· + d)) negated
  | .group head => .group (head + d)
  | .«repeat» q fewest body => .«repeat» q fewest (body + d)
  | .or left right => .or (left + d) (right + d)
  | .capture name body => .capture name (body + d)
  | .define name body => .define name (body + d)
  | k => k

/-- Refers to cells whose numbers are larger by `d`. -/
def Cell.shift (d : Nat) (cell : Cell) : Cell := ⟨cell.kind.shift d, cell.next.map (· + d)⟩

namespace Arena

/-- The cells behind those of another arena. -/
def behind (first second : Arena) : Arena := first ++ second.map (Cell.shift first.length)

/-- Adds a cell that is not linked, and tells its number. -/
def push (k : Cell.Kind) (a : Arena) : Nat × Arena := (a.length, a ++ [⟨k, none⟩])

/-- Lets a chain go on behind a cell. -/
def link (id next : Nat) (a : Arena) : Arena :=
  a.modify id fun cell => { cell with next := some next }

end Arena

/-! ## Laying out a pattern -/

/-- What stands for an item in a cell. -/
def Item.kind : Item → Cell.Kind
  | .literal bytes => .literal bytes false
  | .range low high => .range low high false
  | .byteClass c => .byteClass c false

/-- Lays out the items of a list, and tells their numbers. -/
def Item.storeAll : List Item → Arena → List Nat × Arena
  | [], a => ([], a)
  | i :: rest, a =>
    let (id, a) := a.push i.kind
    let (ids, a) := storeAll rest a
    (id :: ids, a)

mutual
/-- Lays out a node, and tells its number. -/
def Node.store : Node → Arena → Nat × Arena
  | .literal bytes negated, a => a.push (.literal bytes negated)
  | .byteClass c negated, a => a.push (.byteClass c negated)
  | .anchor anchor, a => a.push (.anchor anchor)
  | .range low high negated, a => a.push (.range low high negated)
  | .oneOf items, a =>
    let (ids, a) := Item.storeAll items a
    a.push (.list ids false)
  | .noneOf items, a =>
    let (ids, a) := Item.storeAll items a
    a.push (.list ids true)
  | .variableText name, a => a.push (.variableText name)
  | .call name, a => a.push (.call name)
  | .group chain, a =>
    let (head, a) := chain.store a
    a.push (.group head)
  | .«repeat» q fewest body, a =>
    let (id, a) := body.store a
    a.push (.«repeat» q fewest id)
  | .or left right, a =>
    let (id, a) := left.store a
    let (id', a) := right.store a
    a.push (.or id id')
  | .capture name body, a =>
    let (id, a) := body.store a
    a.push (.capture name id)
  | .define name body, a =>
    let (id, a) := body.store a
    a.push (.define name id)

/-- Lays out a chain, and tells the number of its first element. -/
def Chain.store : Chain → Arena → Nat × Arena
  | .last node, a => node.store a
  | .cons node rest, a =>
    let (id, a) := node.store a
    let (next, a) := rest.store a
    (id, a.link id next)
end

/-! ## What an arena holds -/

namespace Arena

/-- The items of a list stand in these cells, none of them linked. -/
inductive HoldsItems (a : Arena) : List Nat → List Item → Prop
  | nil : HoldsItems a [] []
  | cons {id : Nat} {ids : List Nat} {i : Item} {items : List Item}
    (item : a[id]? = some ⟨i.kind, none⟩) (others : HoldsItems a ids items) :
    HoldsItems a (id :: ids) (i :: items)

mutual
/-- The cells that a kind refers to hold the parts of a node. -/
inductive HoldsParts (a : Arena) : Cell.Kind → Node → Prop
  | literal {bytes : List UInt8} {negated : Bool} :
    HoldsParts a (.literal bytes negated) (.literal bytes negated)
  | byteClass {c : ByteClass} {negated : Bool} :
    HoldsParts a (.byteClass c negated) (.byteClass c negated)
  | anchor {anchor : Anchor} : HoldsParts a (.anchor anchor) (.anchor anchor)
  | range {low high : List UInt8} {negated : Bool} :
    HoldsParts a (.range low high negated) (.range low high negated)
  | oneOf {ids : List Nat} {items : List Item} (h : HoldsItems a ids items) :
    HoldsParts a (.list ids false) (.oneOf items)
  | noneOf {ids : List Nat} {items : List Item} (h : HoldsItems a ids items) :
    HoldsParts a (.list ids true) (.noneOf items)
  | variableText {name : String} : HoldsParts a (.variableText name) (.variableText name)
  | call {name : String} : HoldsParts a (.call name) (.call name)
  | group {head : Nat} {c : Chain} (h : Holds a head c) : HoldsParts a (.group head) (.group c)
  | «repeat» {q : Quantifier} {fewest : Bool} {id : Nat} {body : Node}
    (h : HoldsNode a id none body) :
    HoldsParts a (.«repeat» q fewest id) (.«repeat» q fewest body)
  | or {id id' : Nat} {left right : Node} (hleft : HoldsNode a id none left)
    (hright : HoldsNode a id' none right) : HoldsParts a (.or id id') (.or left right)
  | capture {name : String} {id : Nat} {body : Node} (h : HoldsNode a id none body) :
    HoldsParts a (.capture name id) (.capture name body)
  | define {name : String} {id : Nat} {body : Node} (h : HoldsNode a id none body) :
    HoldsParts a (.define name id) (.define name body)

/-- A node stands in a cell, and the cell is linked like this. -/
inductive HoldsNode (a : Arena) : Nat → Option Nat → Node → Prop
  | cell {id : Nat} {next : Option Nat} {k : Cell.Kind} {n : Node} (hcell : a[id]? = some ⟨k, next⟩)
    (parts : HoldsParts a k n) : HoldsNode a id next n

/-- A chain stands in an arena from a cell on. -/
inductive Holds (a : Arena) : Nat → Chain → Prop
  | last {id : Nat} {n : Node} (node : HoldsNode a id none n) : Holds a id (.last n)
  | cons {id next : Nat} {n : Node} {c : Chain} (node : HoldsNode a id (some next) n)
    (rest : Holds a next c) : Holds a id (.cons n c)
end

end Arena

/-! ## Reading a pattern into an arena -/

namespace Arena

variable (finish : Position)

/-- Reads a list of items with commas between them. -/
def listItems (a : Arena) (ts : List Token) : Parse (List Nat × Arena) ts := do
  let ⟨first, ts₁, h₁⟩ ← Pattern.listItem finish ts
  let (id, a) := a.push first.kind
  match eat? (.symbol .comma) ts₁ with
  | none => return ⟨([id], a), ts₁, h₁⟩
  | some ⟨ts₂, _⟩ =>
    let ⟨(ids, a), ts₃, _⟩ ← listItems a ts₂
    return ⟨(id :: ids, a), ts₃, by omega⟩
termination_by ts.length

/-- Reads the names that a cell is bound to, each behind an equals sign, the nearest one first. -/
def binders (id : Nat) (a : Arena) (ts : List Token) :
    Except SyntaxError (Parsed (Nat × Arena) (ts.length + 1)) :=
  match ts with
  | ⟨.symbol .assign, _⟩ :: ⟨.variableName name, _⟩ :: rest => do
    let (id, a) := a.push (.capture name id)
    return (← binders id a rest).behindTwo
  | ⟨.symbol .assign, _⟩ :: ⟨.subroutineName name, _⟩ :: rest => do
    let (id, a) := a.push (.define name id)
    return (← binders id a rest).behindTwo
  | ⟨.symbol .assign, _⟩ :: rest => .error (unexpected finish .binder rest)
  | ts => .ok ⟨(id, a), ts, length_lt_succ ts⟩

mutual
/-- Reads a chain of elements up to where a pattern ends. -/
def chain (a : Arena) (ts : List Token) : Parse (Nat × Arena) ts :=
  if Pattern.atEnd ts then .error (unexpected finish .pattern ts)
  else do
    let ⟨(first, a), ts₁, h₁⟩ ← element a ts
    if Pattern.atEnd ts₁ then return ⟨(first, a), ts₁, h₁⟩
    else
      let ⟨(next, a), ts₂, _⟩ ← chain a ts₁
      return ⟨(first, a.link first next), ts₂, by omega⟩
termination_by (ts.length, 4)

/-- Reads an element and the alternatives behind it. -/
def element (a : Arena) (ts : List Token) : Parse (Nat × Arena) ts := do
  let ⟨(left, a), ts₁, h₁⟩ ← bound a ts
  match eat? (.keyword .or) ts₁ with
  | none => return ⟨(left, a), ts₁, h₁⟩
  | some ⟨ts₂, _⟩ =>
    let ⟨(right, a), ts₃, _⟩ ← element a ts₂
    return ⟨a.push (.or left right), ts₃, by omega⟩
termination_by (ts.length, 3)

/-- Reads a quantified element and the names it is bound to. -/
def bound (a : Arena) (ts : List Token) : Parse (Nat × Arena) ts := do
  let ⟨(id, a), ts₁, h₁⟩ ← quantified a ts
  return (← binders finish id a ts₁).widen h₁
termination_by (ts.length, 2)

/-- Reads a single element with a quantifier in front, or without. -/
def quantified (a : Arena) (ts : List Token) : Parse (Nat × Arena) ts :=
  match Pattern.quantifier? finish ts with
  | none => single a ts
  | some outcome => do
    let ⟨q, ts₁, _⟩ ← outcome
    let ⟨(body, a), ts₂, _⟩ ← single a ts₁
    match eat? (.keyword .fewest) ts₂ with
    | none => return ⟨a.push (.«repeat» q false body), ts₂, by omega⟩
    | some ⟨ts₃, _⟩ => return ⟨a.push (.«repeat» q true body), ts₃, by omega⟩
termination_by (ts.length, 1)

/-- Reads a single element; one without a pattern or a list inside takes a single cell. -/
def single (a : Arena) (ts : List Token) : Parse (Nat × Arena) ts :=
  match ts with
  | ⟨.symbol .leftParen, _⟩ :: rest => do
    let ⟨(head, a), ts₁, _⟩ ← chain a rest
    let ⟨_, ts₂, _⟩ ← expectSymbol finish .rightParen ts₁
    return ⟨a.push (.group head), ts₂, by simp only [List.length_cons]; omega⟩
  | ⟨.keyword .«in», _⟩ :: rest => do
    let ⟨(ids, a), ts₁, h⟩ ← listItems finish a rest
    return .behind ⟨a.push (.list ids false), ts₁, h⟩
  | ⟨.keyword .not, _⟩ :: ⟨.keyword .«in», _⟩ :: rest => do
    let ⟨(ids, a), ts₁, h⟩ ← listItems finish a rest
    return .behind (.behind ⟨a.push (.list ids true), ts₁, h⟩)
  | ts => do
    let ⟨node, rest, h⟩ ← Pattern.single finish ts
    return ⟨node.store a, rest, h⟩
termination_by (ts.length, 0)
end

end Arena

end WordPattern
