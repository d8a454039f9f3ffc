/-!
# Patterns

A pattern is a chain of nodes. Chains are not empty, lists of alternatives hold only plain items,
and a quantifier, a capture and a definition each have a single node as their body.
-/

namespace WordPattern

/-- A named set of bytes. -/
inductive ByteClass where
  | digit | letter | upper | lower | whitespace | any
deriving DecidableEq, Repr

/-- The bytes of a class; only ASCII letters and digits count. -/
def ByteClass.contains : ByteClass → UInt8 → Bool
  | digit, b => 0x30 ≤ b && b ≤ 0x39
  | letter, b => (0x41 ≤ b && b ≤ 0x5A) || (0x61 ≤ b && b ≤ 0x7A)
  | upper, b => 0x41 ≤ b && b ≤ 0x5A
  | lower, b => 0x61 ≤ b && b ≤ 0x7A
  | whitespace, b => b == 0x20 || (0x09 ≤ b && b ≤ 0x0D)
  | any, _ => true

/-- The byte is in the class, or outside of it if the class is negated. -/
def ByteClass.admits (c : ByteClass) (negated : Bool) (b : UInt8) : Bool :=
  c.contains b != negated

/-- Two byte strings compared as far as both of them go. -/
def compareShared : List UInt8 → List UInt8 → Ordering
  | a :: as, b :: bs => if a < b then .lt else if b < a then .gt else compareShared as bs
  | _, _ => .eq

/-- A byte string lies between two bounds, each compared as far as both go. -/
def inRange (low high candidate : List UInt8) : Bool :=
  compareShared candidate low != .lt && compareShared candidate high != .gt

/-- A byte may stand in the text that a negated literal matches. -/
def outsideLiteral (literal : List UInt8) (b : UInt8) : Bool :=
  !literal.contains b

/-- A test of the position that consumes nothing. -/
inductive Anchor where
  | lineStart | lineEnd | fileStart | fileEnd
deriving DecidableEq, Repr

/-- How often a body is repeated. -/
inductive Quantifier where
  | exactly (n : Nat)
  | atLeast (n : Nat)
  | atMost (n : Nat)
  | between (least most : Nat)
deriving DecidableEq, Repr

namespace Quantifier

/-- The least number of repetitions. -/
def least : Quantifier → Nat
  | exactly n => n
  | atLeast n => n
  | atMost _ => 0
  | between n _ => n

/-- The greatest number of repetitions, if there is one. -/
def most? : Quantifier → Option Nat
  | exactly n => some n
  | atLeast _ => none
  | atMost n => some n
  | between _ n => some n

/-- One more repetition is allowed after `count` of them. -/
def allowsAfter (q : Quantifier) (count : Nat) : Bool :=
  match q.most? with
  | none => true
  | some most => count < most

/-- `count` repetitions are enough. -/
def metBy (q : Quantifier) (count : Nat) : Bool := q.least ≤ count

/-- The quantifier as it stands in a source text. -/
def display : Quantifier → String
  | exactly n => "exactly " ++ toString n
  | atLeast n => "at least " ++ toString n
  | atMost n => "at most " ++ toString n
  | between least most => "between " ++ toString least ++ " and " ++ toString most

end Quantifier

/-- A member of a list of alternatives. -/
inductive Item where
  | literal (bytes : List UInt8)
  | range (low high : List UInt8)
  | byteClass (c : ByteClass)
deriving DecidableEq, Repr

mutual
/-- One element of a pattern. -/
inductive Node where
  /-- A literal; negated, a run of bytes that do not occur in it. -/
  | literal (bytes : List UInt8) (negated : Bool)
  | byteClass (c : ByteClass) (negated : Bool)
  | anchor (a : Anchor)
  /-- A byte string between two bounds, or outside of them. -/
  | range (low high : List UInt8) (negated : Bool)
  | oneOf (items : List Item)
  /-- One byte with which no item begins. -/
  | noneOf (items : List Item)
  /-- The text that a variable holds. -/
  | variableText (name : String)
  /-- A pattern that is bound to a name. -/
  | call (name : String)
  | group (chain : Chain)
  | «repeat» (quantifier : Quantifier) (fewest : Bool) (body : Node)
  | or (left right : Node)
  | capture (name : String) (body : Node)
  /-- The body, bound to a name for what follows and for itself. -/
  | define (name : String) (body : Node)

/-- Nodes that match one after the other. -/
inductive Chain where
  | last (node : Node)
  | cons (node : Node) (rest : Chain)
end

/-- The nodes of a chain in order. -/
def Chain.toList : Chain → List Node
  | .last node => [node]
  | .cons node rest => node :: rest.toList

theorem Chain.toList_ne_nil (c : Chain) : c.toList ≠ [] := by
  cases c <;> simp [Chain.toList]

/-- An item is a node of its own. -/
def Item.node : Item → Node
  | .literal bytes => .literal bytes false
  | .range low high => .range low high false
  | .byteClass c => .byteClass c false

/-- An item can match a text that begins with the byte. -/
def Item.mayBeginWith (b : UInt8) : Item → Bool
  | .literal bytes => bytes.head? == some b
  | .range low high => inRange low high [b]
  | .byteClass c => c.contains b

end WordPattern
