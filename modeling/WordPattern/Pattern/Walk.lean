import WordPattern.Buffer
import WordPattern.Pattern.Search

/-!
# Walks

The search made by moving the position of a buffer. An element is matched together with what follows
it; where that does not succeed, the position is put back and the next way is tried. A walk that has
run into a limit counts no further steps, but it still unwinds: it may try what is left behind an
element, and what it finds there is dropped at the end.

Every chain that is entered and every further repetition counts a step, so what is below it is made
with a smaller bound on the steps to come. A bound of two more than the limit is never used up.
-/

namespace WordPattern

/-- The steps that a walk has counted, and a flag for each limit that it has run into. -/
structure Walk.Count where
  steps : Nat := 0
  outOfSteps : Bool := false
  tooDeep : Bool := false

/-- A walk between two moves. -/
structure Walk.State extends Walk.Count where
  buffer : Buffer
  /-- The ends noted for every repetition that is being gathered, the innermost first. -/
  noted : List (List Nat) := []
  /-- Every demand so far was met. -/
  sound : Bool := true

/-- Something that moves the position and gives a value, if it ends. -/
abbrev Walk (α : Type) := StateT Walk.State Option α

namespace Walk

open Search (Continuation Loop noteEnd)

/-! ## Counts -/

namespace Count

/-- The limit that has stopped the walk. -/
def stopped (k : Count) : Option CutOff :=
  if k.outOfSteps then some .steps else if k.tooDeep then some .depth else none

/-- Counts a step at a depth, or finds that the walk has to stop. -/
def tick (limits : Limits) (depth : Nat) (k : Count) : Bool × Count :=
  if k.outOfSteps || k.tooDeep then (false, k)
  else
    let steps := k.steps + 1
    if limits.steps < steps then (false, { k with steps, outOfSteps := true })
    else if limits.depth < depth then (false, { k with steps, tooDeep := true })
    else (true, { k with steps })

end Count

/-! ## Moves -/

namespace State

/-- The position in the buffer. -/
def position (s : State) : Nat := s.buffer.position

/-- Takes note of whether a demand is met. -/
def demand (s : State) (holds : Bool) : State := { s with sound := s.sound && holds }

/-- Moves back by a number of bytes, which must not lead past the start. -/
def unread (s : State) (length : Nat) : State :=
  { s.demand (length ≤ s.position) with buffer := s.buffer.unread length }

/-- Moves back to an earlier place. -/
def rewindTo (s : State) (place : Nat) : State :=
  { s.demand (place ≤ s.position) with buffer := s.buffer.rewindTo place }

/-- Moves to a place, which must lie in the buffer. -/
def seek (s : State) (place : Nat) : State :=
  { s.demand (place ≤ s.buffer.size) with buffer := s.buffer.seek place }

/-- Reads a number of bytes, or those that are left. -/
def read (length : Nat) (s : State) : ByteArray × State :=
  let (bytes, buffer) := s.buffer.read length
  (bytes, { s with buffer })

/-- Reads one byte, if one is left. -/
def readByte (s : State) : Option UInt8 × State :=
  let (b, buffer) := s.buffer.readByte
  (b, { s with buffer })

/-- Counts a step at a depth, or finds that the walk has to stop. -/
def tick (limits : Limits) (depth : Nat) (s : State) : Bool × State :=
  let (counts, count) := s.toCount.tick limits depth
  (counts, { s with toCount := count })

end State

/-! ## Elements that match in one way -/

/-- Reads exactly some bytes. -/
def exactly (bytes : List UInt8) (s : State) : Option Nat × State :=
  let (got, t) := s.read bytes.length
  if got.toList = bytes then (some got.size, t) else (none, t.unread got.size)

/-- Reads one byte of a kind. -/
def byteThat (accepts : UInt8 → Bool) (s : State) : Option Nat × State :=
  match s.readByte with
  | (some b, t) => if accepts b then (some 1, t) else (none, t.unread 1)
  | (none, t) => (none, t)

/-- Reads bytes that do not occur in a literal, a given number of them at most. -/
def outside (literal : List UInt8) : Nat → State → Nat × State
  | 0, s => (0, s)
  | length + 1, s =>
    match s.readByte with
    | (some b, t) =>
      if outsideLiteral literal b then
        let (consumed, u) := outside literal length t
        (consumed + 1, u)
      else (0, t.unread 1)
    | (none, t) => (0, t)

/-- Reads an element that matches in one way, and gives the number of its bytes. -/
def single (texts : Bindings String) (trail : Trail) (node : Node) (s : State) :
    Option Nat × State :=
  match node with
  | .literal bytes false => exactly bytes s
  | .literal bytes true =>
    let (consumed, t) := outside bytes bytes.length s
    (if 0 < consumed then some consumed else none, t)
  | .byteClass c negated => byteThat (c.admits negated) s
  | .noneOf items => byteThat (fun b => !items.any (·.mayBeginWith b)) s
  | .variableText name =>
    match (trail.captures.get? name).or (texts.get? name) with
    | some value => exactly value.toUTF8.toList s
    | none => (none, s)
  | _ => (none, s)

mutual
/-- Reads a step. -/
def nodeStep (texts : Bindings String) (trail : Trail) : Node → State → Option Nat × State
  | .group chain, s =>
    match chainStep texts trail chain s with
    | (true, t) => (some (t.position - s.position), t)
    | (false, t) => (none, t.rewindTo s.position)
  | node, s => single texts trail node s

/-- Reads steps one after the other; the position stays where one of them fails. -/
def chainStep (texts : Bindings String) (trail : Trail) : Chain → State → Bool × State
  | .last node, s =>
    match nodeStep texts trail node s with
    | (some _, t) => (true, t)
    | (none, t) => (false, t)
  | .cons node rest, s =>
    match nodeStep texts trail node s with
    | (some _, t) => chainStep texts trail rest t
    | (none, t) => (false, t)
end

/-- Makes as many steps as possible and gives their ends, the last one first. -/
def climb (c : Setting) (l : Loop) : Nat → Nat → List Nat → Walk (List Nat)
  | 0, _, _ => fun _ => none
  | bound + 1, count, ends => do
    if l.quantifier.allowsAfter count then
      if ← modifyGet (State.tick c.limits l.depth) then
        match ← modifyGet (nodeStep c.environment.texts l.trail l.body) with
        | some _ => climb c l bound (count + 1) ((← get).position :: ends)
        | none => return ends
      else return ends
    else return ends

/-! ## Elements and what follows them -/

/-- A place that a repetition has come to, and what is left to be tried from there. -/
structure Visit where
  count : Nat
  position : Nat
  /-- The ends of the next repetition that are left, once they are known. -/
  ends : Option (List Nat) := none
  /-- What follows the repetition has been tried. -/
  stopTried : Bool := false

/-- How often a visit can be gone on from before further ends are looked for. -/
def Visit.weight (v : Visit) : Nat :=
  (if v.stopTried then 1 else 2) + 4 * (v.ends.getD []).length

/-- How often visits can be gone on from before further ends are looked for. -/
def weightOf (visits : List Visit) : Nat :=
  visits.foldr (fun v weight => v.weight + weight) 0

@[simp] theorem weightOf_cons (v : Visit) (visits : List Visit) :
    weightOf (v :: visits) = v.weight + weightOf visits := rfl

/-- A way to enter a chain: to match it and what follows it. -/
abbrev Entry := Chain → Trail → Continuation → Nat → Walk (Option Trail)

section

variable (c : Setting) (inner : Entry)

mutual
/-- Follows a continuation. -/
def resume (trail : Trail) (k : Continuation) (depth : Nat) : Walk (Option Trail) := do
  match k with
  | .done => return some trail
  | .note =>
    modify fun s => { s with noted := noteEnd s.position s.noted }
    return none
  | .chain next k => inner next trail k (depth + 1)
  | .bind name start k =>
    let s ← get
    let value := Text.decode (s.buffer.slice start s.position)
    resume { trail with captures := trail.captures.insert name value } k (depth + 1)
  | .again quantifier fewest body count start k =>
    if (← get).position = start && quantifier.metBy count then resume trail k (depth + 1)
    else iterate quantifier fewest body count trail k (depth + 1)
termination_by (sizeOf k, 0)

/-- Goes on after `count` repetitions of a body, each followed by the rest of the pattern. -/
def iterate (quantifier : Quantifier) (fewest : Bool) (body : Node) (count : Nat) (trail : Trail)
    (k : Continuation) (depth : Nat) : Walk (Option Trail) := do
  let again := .again quantifier fewest body (count + 1) (← get).position k
  let stop := if quantifier.metBy count then resume trail k depth else return none
  let grow :=
    if quantifier.allowsAfter count then inner (.last body) trail again (depth + 1)
    else return none
  if fewest then
    match ← stop with
    | some found => return some found
    | none => grow
  else
    match ← grow with
    | some found => return some found
    | none => stop
termination_by (sizeOf k, 1)
end

/-- Tries the items of a list in turn. -/
def choices (items : List Item) (trail : Trail) (k : Continuation) (depth : Nat) :
    Walk (Option Trail) := do
  match items with
  | [] => return none
  | item :: items =>
    match ← inner (.last item.node) trail k (depth + 1) with
    | some found => return some found
    | none => choices items trail k depth

/-- Tries the widths of a range in turn. -/
def widths (low high : List UInt8) (negated : Bool) (candidates : List Nat) (trail : Trail)
    (k : Continuation) (depth : Nat) : Walk (Option Trail) := do
  match candidates with
  | [] => return none
  | width :: candidates =>
    let got ← modifyGet (State.read width)
    if got.size = width && inRange low high got.toList != negated then
      match ← resume inner trail k depth with
      | some found => return some found
      | none =>
        modify (·.unread got.size)
        widths low high negated candidates trail k depth
    else
      modify (·.unread got.size)
      widths low high negated candidates trail k depth

/-- Tries what follows a repetition at each of its ends in turn, each before the last one tried. -/
def descend (l : Loop) (ends : List Nat) : Walk (Option Trail) := do
  match ends with
  | [] => return none
  | finish :: ends =>
    modify (·.rewindTo finish)
    match ← resume inner l.trail l.k l.depth with
    | some found => return some found
    | none => descend l ends

/-- Makes as many steps as possible, and goes back until what follows matches. -/
def most (l : Loop) (bound : Nat) : Walk (Option Trail) := do
  let ends ← climb c l bound 0 [(← get).position]
  descend inner l (ends.take (ends.length - l.quantifier.least))

/-- Goes on after `count` steps that are repeated as seldom as possible. -/
def more (l : Loop) : Nat → Nat → Walk (Option Trail)
  | 0, _ => fun _ => none
  | bound + 1, count => do
    let stop := if l.quantifier.metBy count then resume inner l.trail l.k l.depth else return none
    match ← stop with
    | some found => return some found
    | none =>
      if l.quantifier.allowsAfter count then
        if ← modifyGet (State.tick c.limits l.depth) then
          match ← modifyGet (nodeStep c.environment.texts l.trail l.body) with
          | some _ => more l bound (count + 1)
          | none => return none
        else return none
      else return none

/-- Repeats a step. -/
def stepwise (l : Loop) (bound : Nat) : Walk (Option Trail) := do
  let entry := (← get).position
  match ← if l.fewest then more c inner l bound 0 else most c inner l bound with
  | some found => return some found
  | none => modify (·.rewindTo entry); return none

/-- Follows a repetition from a place. -/
def stopAt (l : Loop) (place : Nat) : Walk (Option Trail) := do
  modify (·.seek place)
  resume inner l.trail l.k l.depth

/-- The places where one repetition can end. -/
def bodyEnds (l : Loop) : Walk (List Nat) := do
  modify fun s => { s with noted := [] :: s.noted }
  let _ ← inner (.last l.body) l.trail .note (l.depth + 1)
  modifyGet fun s => (s.noted.headD [], { s with noted := s.noted.tail })

mutual
/-- Goes on with the last of some visits. -/
def explore (l : Loop) (bound : Nat) (visits : List Visit) : Walk (Option Trail) := do
  match visits with
  | [] => return none
  | visit :: below =>
    if (← get).stopped.isSome then return none
    else if _h : l.fewest && !visit.stopTried then
      let stop :=
        if l.quantifier.metBy visit.count then stopAt inner l visit.position else return none
      match ← stop with
      | some found => return some found
      | none => explore l bound ({ visit with stopTried := true } :: below)
    else
      match _h : visit.ends with
      | some ends => advance l bound visit ends below
      | none =>
        if l.quantifier.allowsAfter visit.count then
          match bound with
          | 0 => fun _ => none
          | bound + 1 =>
            modify (·.seek visit.position)
            let ends ← bodyEnds inner l
            advance l bound visit ends below
        else advance l bound visit [] below
termination_by (bound, weightOf visits, 1)
decreasing_by
  · exact .right _ (.left _ _ (by simp_all [Visit.weight]))
  · rw [show ({ visit with ends := some ends } : Visit) = visit by rw [← _h]]
    exact .right _ (.right _ (by decide))
  · exact .left _ _ (by omega)
  · rw [weightOf_cons, weightOf_cons, Visit.weight, Visit.weight, _h]
    exact .right _ (.right _ (by decide))

/-- Goes on from a visit of which some ends are left. -/
def advance (l : Loop) (bound : Nat) (visit : Visit) (ends : List Nat) (below : List Visit) :
    Walk (Option Trail) := do
  match ends with
  | finish :: ends =>
    if finish = visit.position && l.quantifier.metBy (visit.count + 1) then
      match ← stopAt inner l visit.position with
      | some found => return some found
      | none => explore l bound ({ visit with ends := some ends } :: below)
    else
      explore l bound
        ({ count := visit.count + 1, position := finish } :: { visit with ends := some ends } ::
          below)
  | [] =>
    let stop :=
      if !l.fewest && l.quantifier.metBy visit.count then stopAt inner l visit.position
      else return none
    match ← stop with
    | some found => return some found
    | none => explore l bound below
termination_by (bound, weightOf ({ visit with ends := some ends } :: below), 0)
decreasing_by
  · exact .right _ (.left _ _ (by simp [Visit.weight]))
  · exact .right _ (.left _ _ (by simp [Visit.weight]; omega))
  · exact .right _ (.left _ _ (by simp only [weightOf_cons, Visit.weight]; split <;> omega))
end

/-- Repeats a body that binds nothing. -/
def gathered (l : Loop) (bound : Nat) : Walk (Option Trail) := do
  let entry := (← get).position
  match ← explore inner l bound [{ count := 0, position := entry }] with
  | some found => return some found
  | none => modify (·.seek entry); return none

/-- Matches an element and what follows it. -/
def element (bound : Nat) (node : Node) (trail : Trail) (k : Continuation) (depth : Nat) :
    Walk (Option Trail) := do
  let entry := (← get).position
  match node with
  | .anchor a =>
    if a.holdsAt (← get).buffer.bytes entry then resume inner trail k depth else return none
  | .range low high negated =>
    widths inner low high negated (rangeWidths low high) trail k depth
  | .oneOf items => choices inner items trail k depth
  | .call name =>
    match (trail.subroutines.get? name).or (c.environment.subroutines.get? name) with
    | some chain => inner chain trail k (depth + 1)
    | none => return none
  | .group chain => inner chain trail k (depth + 1)
  | .«repeat» quantifier fewest body =>
    match c.method body with
    | .stepwise => stepwise c inner { quantifier, fewest, body, trail, k, depth } bound
    | .gathered => gathered inner { quantifier, fewest, body, trail, k, depth } bound
    | .general => iterate inner quantifier fewest body 0 trail k depth
  | .or left right =>
    match ← inner (.last left) trail k (depth + 1) with
    | some found => return some found
    | none => inner (.last right) trail k (depth + 1)
  | .capture name body => inner (.last body) trail (.bind name entry k) (depth + 1)
  | .define name body =>
    inner (.last body)
      { trail with subroutines := trail.subroutines.insert name (.last body) } k (depth + 1)
  | node =>
    match ← modifyGet (single c.environment.texts trail node) with
    | some consumed =>
      match ← resume inner trail k depth with
      | some found => return some found
      | none => modify (·.unread consumed); return none
    | none => return none

end

/-- Matches a chain and what follows it. -/
def enter (c : Setting) : Nat → Entry
  | 0 => fun _ _ _ _ _ => none
  | bound + 1 => fun chain trail k depth => do
    if ← modifyGet (State.tick c.limits depth) then
      let entry := (← get).position
      let found ←
        match chain with
        | .last node => element c (enter c bound) bound node trail k depth
        | .cons node rest => element c (enter c bound) bound node trail (.chain rest k) depth
      modify fun s => s.demand (found.isSome || s.position == entry)
      return found
    else return none

/-- Tries a pattern at the position. -/
def attempt (c : Setting) (pattern : Chain) : Walk (Option Trail) := do
  let start := (← get).position
  let found ← enter c (c.limits.steps + 2) pattern {} .done 0
  if (← get).stopped.isSome then
    modify (·.seek start)
    return none
  else return found

end Walk

/-- Tries a pattern at the position of a buffer: what has been bound on the way, if it matches, and
the state at the end. -/
def Buffer.tryMatch (b : Buffer) (c : Setting) (pattern : Chain) :
    Option (Option Trail × Walk.State) :=
  Walk.attempt c pattern { buffer := b }

end WordPattern
