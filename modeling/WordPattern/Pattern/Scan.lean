import WordPattern.Pattern.Match
import WordPattern.Pattern.Search

/-!
# Scans

A pattern is tried at every position of a text from the first one on. A match is gone on from at its
end, or one byte behind it if it is empty, so matches never overlap.
-/

namespace WordPattern

/-- A scan that was given up because an attempt ran into a limit. -/
structure Interruption where
  cause : CutOff
  limits : Limits
  /-- The position of the attempt. -/
  offset : Nat
deriving DecidableEq, Repr

/-- The wording of an interruption. -/
def Interruption.message (i : Interruption) : String :=
  match i.cause with
  | .steps =>
    "step budget of " ++ toString i.limits.steps ++ " exhausted while matching at offset " ++
      toString i.offset
  | .depth =>
    "nesting depth limit of " ++ toString i.limits.depth ++ " reached while matching at offset " ++
      toString i.offset

namespace Scan

/-- The number of newlines between two positions. -/
def newlines (text : ByteArray) (start finish : Nat) : Nat :=
  (text.extract start finish).toList.count 10

/-- A scan between two attempts. -/
structure State where
  position : Nat := 0
  line : Nat := 1
  /-- The number of matches found. -/
  found : Nat := 0
  /-- The matches kept, the last one first. -/
  kept : List Match := []
  /-- The number of matches kept. -/
  count : Nat := 0

/-- The match that ends at a position. -/
def State.match (text : ByteArray) (s : State) (finish : Nat) (captures : Bindings String) :
    Match where
  offset := s.position
  length := finish - s.position
  value := Text.decode (text.extract s.position finish)
  captures
  line := s.line
  number := s.found + 1

/-- Takes note of a match, and keeps it if it is wanted. -/
def State.record (amount : Amount) (text : ByteArray) (s : State) (finish : Nat)
    (captures : Bindings String) : State :=
  if amount.retains (s.found + 1) then
    { s with
      found := s.found + 1
      kept := s.match text finish captures :: s.kept
      count := s.count + 1 }
  else { s with found := s.found + 1 }

/-- Goes on at a later position. -/
def State.move (text : ByteArray) (s : State) (next : Nat) : State :=
  { s with position := next, line := s.line + newlines text s.position next }

/-- Scans from the present position to the end. -/
def run (c : Setting) (pattern : Chain) (amount : Amount) (s : State) :
    Except Interruption (List Match) :=
  if amount.isFull s.count then .ok s.kept.reverse
  else
    match (c.attempt pattern s.position).outcome with
    | .cutOff cause => .error ⟨cause, c.limits, s.position⟩
    | .missed =>
      if s.position < c.text.size then run c pattern amount (s.move c.text (s.position + 1))
      else .ok s.kept.reverse
    | .found finish captures =>
      let noted := s.record amount c.text finish captures
      let next := if s.position < finish then finish else s.position + 1
      if _h : next ≤ c.text.size then run c pattern amount (noted.move c.text next)
      else .ok noted.kept.reverse
termination_by c.text.size + 1 - s.position
decreasing_by
  · simp only [State.move]
    omega
  · have : s.position < next := by simp only [next]; split <;> omega
    simp only [State.move]
    omega

end Scan

/-- The matches of a pattern in a text, as many of them as are wanted. -/
def Setting.scan (c : Setting) (pattern : Chain) (amount : Amount) :
    Except Interruption (List Match) :=
  Scan.run c pattern amount {}

end WordPattern
