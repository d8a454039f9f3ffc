import WordPattern.Pattern.Basic

/-!
# Single elements at a position

Where the elements end that have no pattern inside: literals, classes, ranges and anchors. An
element that consumes a byte and can end in one place only is a step.
-/

namespace WordPattern

/-- The byte string stands at a position. -/
def standsAt (text : ByteArray) : List UInt8 → Nat → Bool
  | [], _ => true
  | b :: rest, start => text[start]? == some b && standsAt text rest (start + 1)

/-- The end of the run of bytes that do not occur in a literal, of a given length at most. -/
def outsideEnd (text : ByteArray) (literal : List UInt8) : Nat → Nat → Nat
  | 0, start => start
  | length + 1, start =>
    match text[start]? with
    | some b =>
      if outsideLiteral literal b then outsideEnd text literal length (start + 1) else start
    | none => start

/-- The bytes of a given number from a position on, if there are so many. -/
def bytesAt? (text : ByteArray) (start length : Nat) : Option (List UInt8) :=
  if start + length ≤ text.size then some (text.extract start (start + length)).toList else none

/-- The widths that a range tries, the greatest first. -/
def rangeWidths (low high : List UInt8) : List Nat :=
  let shortest := max 1 (min low.length high.length)
  let longest := max low.length high.length
  (List.range' shortest (longest + 1 - shortest)).reverse

/-- The ends of the byte strings at a position that lie between two bounds, or outside of them. -/
def rangeEnds (text : ByteArray) (low high : List UInt8) (negated : Bool) (start : Nat) :
    List Nat :=
  (rangeWidths low high).filterMap fun width =>
    match bytesAt? text start width with
    | some candidate => if inRange low high candidate != negated then some (start + width) else none
    | none => none

/-- The position passes the test. -/
def Anchor.holdsAt (a : Anchor) (text : ByteArray) (position : Nat) : Bool :=
  match a with
  | lineStart => position == 0 || text[position - 1]? == some 10
  | lineEnd => text.size ≤ position || text[position]? == some 10
  | fileStart => position == 0
  | fileEnd => text.size ≤ position

/-- The end of an element that can end in one place only. -/
def Node.end? (text : ByteArray) (start : Nat) : Node → Option Nat
  | .literal bytes false => if standsAt text bytes start then some (start + bytes.length) else none
  | .literal bytes true =>
    let finish := outsideEnd text bytes bytes.length start
    if start < finish then some finish else none
  | .byteClass c negated =>
    match text[start]? with
    | some b => if c.admits negated b then some (start + 1) else none
    | none => none
  | .noneOf items =>
    match text[start]? with
    | some b => if items.any (·.mayBeginWith b) then none else some (start + 1)
    | none => none
  | _ => none

/-! ## Steps -/

mutual
/-- The element consumes a byte and can end in one place only. -/
def Node.isStep : Node → Bool
  | .literal bytes _ => !bytes.isEmpty
  | .byteClass .. => true
  | .noneOf _ => true
  | .group chain => chain.isStep
  | _ => false

/-- Every element of the chain is a step. -/
def Chain.isStep : Chain → Bool
  | .last node => node.isStep
  | .cons node rest => node.isStep && rest.isStep
end

mutual
/-- The end of a step. -/
def Node.stepEnd? (text : ByteArray) : Node → Nat → Option Nat
  | .group chain, start => chain.stepEnd? text start
  | node, start => node.end? text start

/-- The end of steps one after the other. -/
def Chain.stepEnd? (text : ByteArray) : Chain → Nat → Option Nat
  | .last node, start => node.stepEnd? text start
  | .cons node rest, start =>
    match node.stepEnd? text start with
    | some next => rest.stepEnd? text next
    | none => none
end

mutual
/-- No capture is made in the element, no name defined and none called. -/
def Node.bindsNothing : Node → Bool
  | .capture .. => false
  | .define .. => false
  | .call _ => false
  | .group chain => chain.bindsNothing
  | .«repeat» _ _ body => body.bindsNothing
  | .or left right => left.bindsNothing && right.bindsNothing
  | _ => true

/-- No element of the chain binds anything. -/
def Chain.bindsNothing : Chain → Bool
  | .last node => node.bindsNothing
  | .cons node rest => node.bindsNothing && rest.bindsNothing
end

end WordPattern
