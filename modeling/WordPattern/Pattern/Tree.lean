import WordPattern.Pattern.Search

/-!
# Trees of outcomes

What a pattern means: the ways in which it can match from a spot, as a tree in which the outcomes
stand in the order of preference. Names that are called and bodies that are repeated make trees
without end, so a tree is given to a level: deeper parts are cut off.
-/

namespace WordPattern

/-- A position in a text, and what has been bound on the way to it. -/
structure Spot where
  position : Nat
  trail : Trail

namespace Spot

/-- Another position in the same text. -/
def move (p : Spot) (position : Nat) : Spot := { p with position }

/-- The text between a position and the spot is captured. -/
def capture (text : ByteArray) (name : String) (start : Nat) (p : Spot) : Spot :=
  let value := Text.decode (text.extract start p.position)
  { p with trail := { p.trail with captures := p.trail.captures.insert name value } }

/-- A name is bound to a pattern. -/
def define (name : String) (chain : Chain) (p : Spot) : Spot :=
  { p with trail := { p.trail with subroutines := p.trail.subroutines.insert name chain } }

end Spot

/-- Outcomes in the order of preference. -/
inductive Tree (α : Type) where
  | fail
  | leaf (outcome : α)
  | fork (first second : Tree α)
  /-- What is here lies below the level. -/
  | cut

namespace Tree

variable {α β : Type}

/-- Every outcome is followed by what comes after it. -/
def bind : Tree α → (α → Tree β) → Tree β
  | fail, _ => fail
  | leaf a, f => f a
  | fork s t, f => fork (s.bind f) (t.bind f)
  | cut, _ => cut

/-- Trees one after the other. -/
def choice : List (Tree α) → Tree α
  | [] => fail
  | t :: ts => fork t (choice ts)

/-- The first outcome, if there is one, unless that is decided below the level. -/
def first : Tree α → Option (Option α)
  | fail => some none
  | leaf a => some (some a)
  | fork s t =>
    match s.first with
    | some none => t.first
    | r => r
  | cut => none

end Tree

/-! ## The trees of patterns -/

/-- The tree of an element that has no pattern inside. -/
def Node.plainTree (text : ByteArray) (texts : Bindings String) (node : Node) (p : Spot) :
    Tree Spot :=
  match node with
  | .anchor a => if a.holdsAt text p.position then .leaf p else .fail
  | .range low high negated =>
    .choice ((rangeEnds text low high negated p.position).map fun finish => .leaf (p.move finish))
  | .variableText name =>
    match (p.trail.captures.get? name).or (texts.get? name) with
    | some value =>
      let bytes := value.toUTF8.toList
      if standsAt text bytes p.position then .leaf (p.move (p.position + bytes.length)) else .fail
    | none => .fail
  | node =>
    match node.end? text p.position with
    | some finish => .leaf (p.move finish)
    | none => .fail

/-- The tree of a repetition after `count` repetitions, to a number of rounds. An empty repetition
is the last one, if there are enough. -/
def Quantifier.tree (quantifier : Quantifier) (fewest : Bool) (body : Spot → Tree Spot) :
    Nat → Nat → Spot → Tree Spot
  | 0, _, _ => .cut
  | rounds + 1, count, p =>
    let grow :=
      if quantifier.allowsAfter count then
        (body p).bind fun q =>
          if q.position = p.position && quantifier.metBy (count + 1) then .leaf q
          else quantifier.tree fewest body rounds (count + 1) q
      else .fail
    let stop := if quantifier.metBy count then .leaf p else .fail
    if fewest then .fork stop grow else .fork grow stop

section

variable (text : ByteArray) (environment : Environment)

mutual
/-- The tree of an element, by the trees of the patterns that are called. -/
def Node.treeWith (level : Nat) (called : Chain → Spot → Tree Spot) : Node → Spot → Tree Spot
  | .oneOf items, p => .choice (items.map fun i => i.node.plainTree text environment.texts p)
  | .call name, p =>
    match (p.trail.subroutines.get? name).or (environment.subroutines.get? name) with
    | some chain => called chain p
    | none => .fail
  | .group chain, p => chain.treeWith level called p
  | .«repeat» quantifier fewest body, p =>
    quantifier.tree fewest (body.treeWith level called) level 0 p
  | .or left right, p => .fork (left.treeWith level called p) (right.treeWith level called p)
  | .capture name body, p =>
    (body.treeWith level called p).bind fun q => .leaf (q.capture text name p.position)
  | .define name body, p => body.treeWith level called (p.define name (.last body))
  | node, p => node.plainTree text environment.texts p

/-- The tree of a chain, by the trees of the patterns that are called. -/
def Chain.treeWith (level : Nat) (called : Chain → Spot → Tree Spot) : Chain → Spot → Tree Spot
  | .last node, p => node.treeWith level called p
  | .cons node rest, p => (node.treeWith level called p).bind (rest.treeWith level called)
end

/-- The tree of a pattern that is called. -/
def Chain.calledTree : Nat → Chain → Spot → Tree Spot
  | 0, _, _ => .cut
  | level + 1, chain, p => chain.treeWith text environment level (calledTree level) p

/-- The tree of an element to a level. -/
def Node.tree (level : Nat) : Node → Spot → Tree Spot :=
  Node.treeWith text environment level (Chain.calledTree text environment level)

/-- The tree of a pattern to a level. -/
def Chain.tree (level : Nat) : Chain → Spot → Tree Spot :=
  Chain.treeWith text environment level (Chain.calledTree text environment level)

/-- The outcome of a pattern that comes first, or that there is none. -/
def Chain.Prefers (chain : Chain) (p : Spot) (outcome : Option Spot) : Prop :=
  ∃ level, (chain.tree text environment level p).first = some outcome

end

end WordPattern
