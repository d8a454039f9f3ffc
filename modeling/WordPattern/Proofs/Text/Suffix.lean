import WordPattern.Proofs.Pattern.Elements
import WordPattern.Proofs.Text.Bytes

/-!
# The text ahead of a position

Single elements look at the bytes from the position on. So in the text that is left there they end
where they end in the whole text, counted from the position.
-/

namespace WordPattern

variable {text : ByteArray} {p : Nat}

/-- The text from a position on. -/
def ahead (text : ByteArray) (p : Nat) : ByteArray := text.extract p text.size

theorem size_ahead : (ahead text p).size = text.size - p := by
  rw [ahead, ByteArray.size_extract, Nat.min_self]

theorem getElem?_ahead (place : Nat) : (ahead text p)[place]? = text[place + p]? := by
  by_cases h : place + p < text.size
  · have hahead : place < (ahead text p).size := by
      rw [size_ahead]
      omega
    rw [getElem?_pos text (place + p) h, getElem?_pos (ahead text p) place hahead,
      Option.some.injEq]
    refine (ByteArray.getElem_extract hahead).trans ?_
    simp only [Nat.add_comm]
  · have hahead : ¬place < (ahead text p).size := by
      rw [size_ahead]
      omega
    rw [getElem?_neg text (place + p) h, getElem?_neg (ahead text p) place hahead]

theorem extract_ahead (start finish : Nat) :
    (ahead text p).extract start finish = text.extract (start + p) (finish + p) := by
  rw [ahead, ByteArray.extract_extract, extract_min, Nat.add_comm p, Nat.add_comm p]

theorem standsAt_ahead (bytes : List UInt8) (start : Nat) :
    standsAt (ahead text p) bytes start = standsAt text bytes (start + p) := by
  induction bytes generalizing start with
  | nil => rfl
  | cons b rest ih => rw [standsAt, standsAt, getElem?_ahead, ih, Nat.add_right_comm]

theorem outsideEnd_ahead (literal : List UInt8) (length start : Nat) :
    outsideEnd text literal length (start + p) =
      outsideEnd (ahead text p) literal length start + p := by
  induction length generalizing start with
  | zero => rfl
  | succ length ih =>
    rw [outsideEnd, outsideEnd, getElem?_ahead]
    cases text[start + p]? with
    | none => rfl
    | some b =>
      dsimp only
      split
      · rw [← ih, Nat.add_right_comm]
      · rfl

theorem bytesAt?_ahead (hp : p ≤ text.size) (start length : Nat) :
    bytesAt? (ahead text p) start length = bytesAt? text (start + p) length := by
  unfold bytesAt?
  rw [size_ahead, extract_ahead, Nat.add_right_comm]
  by_cases h : start + p + length ≤ text.size
  · rw [if_pos h, if_pos (by omega), Nat.add_right_comm]
  · rw [if_neg h, if_neg (by omega)]

theorem rangeEnds_ahead (hp : p ≤ text.size) (low high : List UInt8) (negated : Bool)
    (start : Nat) :
    rangeEnds text low high negated (start + p) =
      (rangeEnds (ahead text p) low high negated start).map (· + p) := by
  unfold rangeEnds
  rw [List.map_filterMap]
  refine congrArg (fun f => List.filterMap f _) (funext fun width => ?_)
  rw [bytesAt?_ahead hp]
  cases bytesAt? text (start + p) width with
  | none => rfl
  | some candidate =>
    dsimp only
    split
    · rw [Option.map_some, Nat.add_right_comm]
    · rfl

/-- A test that does not look back comes to the same. -/
theorem Anchor.holdsAt_ahead {a : Anchor} (h : (Node.anchor a).looksBack = false)
    (position : Nat) : a.holdsAt (ahead text p) position = a.holdsAt text (position + p) := by
  cases a with
  | lineStart => cases h
  | fileStart => cases h
  | lineEnd =>
    unfold holdsAt
    simp only [size_ahead, getElem?_ahead, Nat.sub_le_iff_le_add]
  | fileEnd =>
    unfold holdsAt
    simp only [size_ahead, Nat.sub_le_iff_le_add]

theorem Node.end?_ahead (node : Node) (start : Nat) :
    node.end? text (start + p) = (node.end? (ahead text p) start).map (· + p) := by
  cases node with
  | literal bytes negated =>
    cases negated with
    | false =>
      unfold end?
      dsimp only
      rw [standsAt_ahead]
      split
      · rw [Option.map_some, Nat.add_right_comm]
      · rfl
    | true =>
      unfold end?
      dsimp only
      simp only [outsideEnd_ahead, Nat.add_lt_add_iff_right]
      split <;> rfl
  | byteClass c negated =>
    unfold end?
    dsimp only
    rw [getElem?_ahead]
    cases text[start + p]? with
    | none => rfl
    | some b =>
      dsimp only
      split
      · rw [Option.map_some, Nat.add_right_comm]
      · rfl
  | noneOf items =>
    unfold end?
    dsimp only
    rw [getElem?_ahead]
    cases text[start + p]? with
    | none => rfl
    | some b =>
      dsimp only
      split
      · rfl
      · rw [Option.map_some, Nat.add_right_comm]
  | _ => rfl

mutual
theorem Node.stepEnd?_ahead :
    (node : Node) → (start : Nat) →
      node.stepEnd? text (start + p) = (node.stepEnd? (ahead text p) start).map (· + p)
  | .group chain, start => Chain.stepEnd?_ahead chain start
  | .literal bytes negated, start => Node.end?_ahead (.literal bytes negated) start
  | .byteClass c negated, start => Node.end?_ahead (.byteClass c negated) start
  | .noneOf items, start => Node.end?_ahead (.noneOf items) start
  | .anchor .., _ | .range .., _ | .oneOf .., _ | .variableText .., _ | .call .., _
  | .«repeat» .., _ | .or .., _ | .capture .., _ | .define .., _ => rfl

theorem Chain.stepEnd?_ahead :
    (chain : Chain) → (start : Nat) →
      chain.stepEnd? text (start + p) = (chain.stepEnd? (ahead text p) start).map (· + p)
  | .last node, start => Node.stepEnd?_ahead node start
  | .cons node rest, start => by
    unfold Chain.stepEnd?
    rw [Node.stepEnd?_ahead node start]
    cases node.stepEnd? (ahead text p) start with
    | none => rfl
    | some next => exact Chain.stepEnd?_ahead rest next
end

end WordPattern
