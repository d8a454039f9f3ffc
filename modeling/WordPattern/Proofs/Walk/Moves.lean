import WordPattern.Pattern.Walk
import WordPattern.Proofs.Text.Bytes

/-!
# Moves of a walk

Where the demands of a move are met, it leads to the same state at another position. An element that
matches in one way either ends where the search says it ends, or leaves the state as it was.
-/

namespace WordPattern.Walk

/-- The state at another position. -/
def State.moved (s : State) (place : Nat) : State :=
  { s with buffer := { s.buffer with position := place } }

namespace State

variable {s : State} {place length : Nat}

@[simp] theorem moved_position : (s.moved place).position = place := rfl

@[simp] theorem moved_bytes : (s.moved place).buffer.bytes = s.buffer.bytes := rfl

@[simp] theorem moved_storage : (s.moved place).buffer.storage = s.buffer.storage := rfl

@[simp] theorem moved_steps : (s.moved place).steps = s.steps := rfl

@[simp] theorem moved_stopped : (s.moved place).stopped = s.stopped := rfl

@[simp] theorem moved_noted : (s.moved place).noted = s.noted := rfl

@[simp] theorem moved_sound : (s.moved place).sound = s.sound := rfl

@[simp] theorem moved_self : s.moved s.position = s := rfl

@[simp] theorem moved_moved (next : Nat) : (s.moved place).moved next = s.moved next := rfl

@[simp] theorem moved_size : (s.moved place).buffer.size = s.buffer.size := rfl

theorem demand_eq {holds : Bool} (h : holds = true) : s.demand holds = s := by
  simp [demand, h]

theorem unread_eq (h : length ≤ s.position) : s.unread length = s.moved (s.position - length) := by
  rw [unread, demand_eq (by simpa using h)]
  rfl

theorem rewindTo_eq (h : place ≤ s.position) : s.rewindTo place = s.moved place := by
  have hp : s.buffer.position - (s.buffer.position - place) = place := Nat.sub_sub_self h
  rw [rewindTo, demand_eq (by simpa using h)]
  simp only [moved, Buffer.rewindTo, Buffer.unread, hp]

theorem seek_eq (h : place ≤ s.buffer.size) : s.seek place = s.moved place := by
  rw [seek, demand_eq (by simpa using h)]
  simp only [moved, Buffer.seek, Nat.min_eq_left h]

/-- A byte is read where there is one. -/
theorem readByte_eq (s : State) :
    s.readByte = match s.buffer.bytes[s.position]? with
      | some b => (some b, s.moved (s.position + 1))
      | none => (none, s) := by
  simp only [readByte, Buffer.readByte, Buffer.byteAt?, position]
  cases s.buffer.bytes[s.buffer.position]? <;> rfl

/-- As many bytes are read as are left, and no more than were asked for. -/
theorem read_eq (s : State) (length : Nat) :
    s.read length =
      (s.buffer.bytes.extract s.position (s.position + length),
        s.moved (min (s.position + length) s.buffer.size)) := by
  rw [← extract_min]
  rfl

end State

/-! ## Elements that match in one way -/

/-- The state after an element has been read that may end at a place, and the number of its bytes.
-/
def State.endAt (s : State) : Option Nat → Option Nat × State
  | some finish => (some (finish - s.position), s.moved finish)
  | none => (none, s)

variable {texts : Bindings String} {trail : Trail} {s : State}

theorem exactly_eq {bytes : List UInt8} (h : s.position ≤ s.buffer.size) :
    exactly bytes s =
      s.endAt (if standsAt s.buffer.bytes bytes s.position then some (s.position + bytes.length)
        else none) := by
  have hsize : (s.buffer.bytes.extract s.position (s.position + bytes.length)).size =
      min (s.position + bytes.length) s.buffer.size - s.position := ByteArray.size_extract
  simp only [exactly, State.read_eq, ← standsAt_iff, hsize]
  split
  · rename_i hb
    have hle : s.position + bytes.length ≤ s.buffer.size := standsAt_le hb h
    rw [Nat.min_eq_left hle]
    rfl
  · rw [State.unread_eq (by simp only [State.moved_position]; omega)]
    simp only [State.moved_position, State.moved_moved, State.endAt]
    rw [Nat.sub_sub_self (by omega), State.moved_self]

theorem byteThat_eq (accepts : UInt8 → Bool) (s : State) :
    byteThat accepts s =
      s.endAt (match s.buffer.bytes[s.position]? with
        | some b => if accepts b then some (s.position + 1) else none
        | none => none) := by
  simp only [byteThat, State.readByte_eq]
  cases s.buffer.bytes[s.position]? with
  | none => rfl
  | some b =>
    cases hb : accepts b with
    | true => simp [State.endAt, hb]
    | false =>
      simp only [hb, Bool.false_eq_true, ↓reduceIte, State.endAt]
      rw [State.unread_eq (by simp), State.moved_moved, State.moved_position, Nat.add_sub_cancel,
        State.moved_self]

theorem outside_eq (literal : List UInt8) (length : Nat) (s : State) :
    outside literal length s =
      (outsideEnd s.buffer.bytes literal length s.position - s.position,
        s.moved (outsideEnd s.buffer.bytes literal length s.position)) := by
  induction length generalizing s with
  | zero => simp [outside, outsideEnd]
  | succ length ih =>
    simp only [outside, outsideEnd, State.readByte_eq]
    cases hb : s.buffer.bytes[s.position]? with
    | none => simp
    | some b =>
      have hs : s.position + 1 ≤ s.buffer.bytes.size := lt_size_of_getElem? hb
      have hbounds := (outsideEnd_bounds literal length hs).1
      cases hl : outsideLiteral literal b with
      | true =>
        simp only [hl, ↓reduceIte, ih, State.moved_position, State.moved_bytes, State.moved_moved,
          Prod.mk.injEq, and_true]
        omega
      | false =>
        simp only [hl, Bool.false_eq_true, ↓reduceIte]
        rw [State.unread_eq (by simp), State.moved_moved, State.moved_position,
          Nat.add_sub_cancel, Nat.sub_self]

/-- The end of an element that matches in one way. -/
def singleEnd? (texts : Bindings String) (trail : Trail) (text : ByteArray) (start : Nat) :
    Node → Option Nat
  | .variableText name =>
    match (trail.captures.get? name).or (texts.get? name) with
    | some value =>
      let bytes := value.toUTF8.toList
      if standsAt text bytes start then some (start + bytes.length) else none
    | none => none
  | node => node.end? text start

/-- An element that matches in one way is read to its end, or the position stays where it was. -/
theorem single_eq (texts : Bindings String) (trail : Trail) (node : Node)
    (h : s.position ≤ s.buffer.size) :
    single texts trail node s =
      s.endAt (singleEnd? texts trail s.buffer.bytes s.position node) := by
  cases node with
  | literal bytes negated =>
    cases negated with
    | false => exact exactly_eq h
    | true =>
      have hle := (outsideEnd_bounds bytes bytes.length h).1
      simp only [single, outside_eq, singleEnd?, Node.end?]
      by_cases hlt : s.position < outsideEnd s.buffer.bytes bytes bytes.length s.position
      · rw [if_pos (by omega), if_pos hlt]
        rfl
      · have heq : outsideEnd s.buffer.bytes bytes bytes.length s.position = s.position := by omega
        rw [if_neg (by omega), if_neg hlt, heq]
        rfl
  | byteClass c negated => exact byteThat_eq _ s
  | noneOf items =>
    simp only [single, byteThat_eq, singleEnd?, Node.end?]
    cases s.buffer.bytes[s.position]? with
    | none => rfl
    | some b => cases hb : items.any (·.mayBeginWith b) <;> simp [hb]
  | variableText name =>
    simp only [single, singleEnd?]
    cases (trail.captures.get? name).or (texts.get? name) with
    | some value => exact exactly_eq h
    | none => rfl
  | _ => rfl

/-- An element that matches in one way ends in the text. -/
theorem singleEnd?_bounds {text : ByteArray} {start finish : Nat} {node : Node}
    (h : singleEnd? texts trail text start node = some finish) (hs : start ≤ text.size) :
    start ≤ finish ∧ finish ≤ text.size := by
  cases node with
  | literal bytes negated =>
    cases negated with
    | false =>
      simp only [singleEnd?, Node.end?, Option.ite_none_right_eq_some, Option.some.injEq] at h
      have := standsAt_le h.1 hs
      omega
    | true =>
      simp only [singleEnd?, Node.end?, Option.ite_none_right_eq_some, Option.some.injEq] at h
      have := outsideEnd_bounds bytes bytes.length hs
      omega
  | byteClass c negated =>
    simp only [singleEnd?, Node.end?] at h
    split at h
    · rename_i b hb
      have := lt_size_of_getElem? hb
      simp only [Option.ite_none_right_eq_some, Option.some.injEq] at h
      omega
    · cases h
  | noneOf items =>
    simp only [singleEnd?, Node.end?] at h
    split at h
    · rename_i b hb
      have := lt_size_of_getElem? hb
      simp only [Option.ite_none_left_eq_some, Option.some.injEq] at h
      omega
    · cases h
  | variableText name =>
    simp only [singleEnd?] at h
    split at h
    · simp only [Option.ite_none_right_eq_some, Option.some.injEq] at h
      have := standsAt_le h.1 hs
      omega
    · cases h
  | _ => cases h

/-- The end of a byte string of some width that a range admits. -/
def widthEnd? (text : ByteArray) (low high : List UInt8) (negated : Bool) (start width : Nat) :
    Option Nat :=
  match bytesAt? text start width with
  | some candidate => if inRange low high candidate != negated then some (start + width) else none
  | none => none

theorem rangeEnds_eq (text : ByteArray) (low high : List UInt8) (negated : Bool) (start : Nat) :
    rangeEnds text low high negated start =
      (rangeWidths low high).filterMap (widthEnd? text low high negated start) := rfl

theorem widthEnd?_bounds {text : ByteArray} {low high : List UInt8} {negated : Bool}
    {start width finish : Nat} (h : widthEnd? text low high negated start width = some finish) :
    start ≤ finish ∧ finish ≤ text.size := by
  simp only [widthEnd?, bytesAt?] at h
  split at h
  · rename_i hb
    simp only [Option.ite_none_right_eq_some, Option.some.injEq] at h hb
    omega
  · cases h

/-! ## Steps -/

theorem endAt_moved {finish : Option Nat} (h : s.position ≤ s.buffer.size)
    (hf : ∀ e, finish = some e → s.position ≤ e ∧ e ≤ s.buffer.size) :
    ∃ consumed place, s.endAt finish = (consumed, s.moved place) ∧
      s.position ≤ place ∧ place ≤ s.buffer.size ∧ (consumed = none → place = s.position) := by
  cases finish with
  | none => exact ⟨none, s.position, rfl, Nat.le_refl _, h, fun _ => rfl⟩
  | some e => exact ⟨_, e, rfl, (hf e rfl).1, (hf e rfl).2, by simp⟩

mutual
/-- A step moves on within the text, or not at all. -/
theorem nodeStep_moved (texts : Bindings String) (trail : Trail) :
    (node : Node) → {s : State} → s.position ≤ s.buffer.size →
      ∃ consumed place, nodeStep texts trail node s = (consumed, s.moved place) ∧
        s.position ≤ place ∧ place ≤ s.buffer.size ∧ (consumed = none → place = s.position)
  | .group chain, s, h => by
    obtain ⟨done, place, hc, hlo, hhi⟩ := chainStep_moved texts trail chain h
    cases done with
    | true => exact ⟨_, place, by rw [nodeStep, hc], hlo, hhi, by simp⟩
    | false =>
      refine ⟨none, s.position, ?_, Nat.le_refl _, h, fun _ => rfl⟩
      rw [nodeStep, hc]
      simp only [State.rewindTo_eq (s := s.moved place) hlo, State.moved_moved]
  | .literal .., _, h | .byteClass .., _, h | .anchor .., _, h | .range .., _, h | .oneOf .., _, h
  | .noneOf .., _, h | .variableText .., _, h | .call .., _, h | .«repeat» .., _, h | .or .., _, h
  | .capture .., _, h | .define .., _, h => by
    rw [nodeStep, single_eq _ _ _ h]
    · exact endAt_moved h fun _ he => singleEnd?_bounds he h
    all_goals simp

/-- Steps one after the other move on within the text. -/
theorem chainStep_moved (texts : Bindings String) (trail : Trail) :
    (chain : Chain) → {s : State} → s.position ≤ s.buffer.size →
      ∃ done place, chainStep texts trail chain s = (done, s.moved place) ∧
        s.position ≤ place ∧ place ≤ s.buffer.size
  | .last node, s, h => by
    obtain ⟨consumed, place, hn, hlo, hhi, _⟩ := nodeStep_moved texts trail node h
    cases consumed with
    | some n => exact ⟨true, place, by rw [chainStep, hn], hlo, hhi⟩
    | none => exact ⟨false, place, by rw [chainStep, hn], hlo, hhi⟩
  | .cons node rest, s, h => by
    obtain ⟨consumed, place, hn, hlo, hhi, _⟩ := nodeStep_moved texts trail node h
    cases consumed with
    | some n =>
      obtain ⟨done, next, hr, hlo', hhi'⟩ :=
        chainStep_moved texts trail rest (s := s.moved place) hhi
      exact ⟨done, next, by rw [chainStep, hn]; exact hr, Nat.le_trans hlo hlo', hhi'⟩
    | none => exact ⟨false, place, by rw [chainStep, hn], hlo, hhi⟩
end

/-- A step without steps inside consumes a byte and ends in the text. -/
theorem end?_bounds {text : ByteArray} {node : Node} {start finish : Nat}
    (hstep : node.isStep = true) (hs : start ≤ text.size)
    (h : node.end? text start = some finish) : start < finish ∧ finish ≤ text.size := by
  have single : ∀ node, singleEnd? .empty {} text start node = some finish →
      start ≤ finish ∧ finish ≤ text.size := fun _ h => singleEnd?_bounds h hs
  cases node with
  | literal bytes negated =>
    have hle := single (.literal bytes negated) h
    cases negated with
    | false =>
      simp only [Node.end?, Option.ite_none_right_eq_some, Option.some.injEq] at h
      have hne : bytes ≠ [] := by simpa [Node.isStep] using hstep
      have := List.length_pos_iff.mpr hne
      omega
    | true =>
      simp only [Node.end?, Option.ite_none_right_eq_some, Option.some.injEq] at h
      omega
  | byteClass c negated =>
    have hle := single (.byteClass c negated) h
    simp only [Node.end?] at h
    split at h
    · simp only [Option.ite_none_right_eq_some, Option.some.injEq] at h
      omega
    · cases h
  | noneOf items =>
    have hle := single (.noneOf items) h
    simp only [Node.end?] at h
    split at h
    · simp only [Option.ite_none_left_eq_some, Option.some.injEq] at h
      omega
    · cases h
  | _ => cases h

mutual
/-- A step consumes a byte and ends in the text. -/
theorem stepEnd?_bounds {text : ByteArray} :
    (node : Node) → node.isStep = true → {start finish : Nat} → start ≤ text.size →
      node.stepEnd? text start = some finish → start < finish ∧ finish ≤ text.size
  | .group chain, hstep, _, _, hs, h => chainStepEnd?_bounds chain hstep hs h
  | .literal .., hstep, _, _, hs, h => end?_bounds hstep hs h
  | .byteClass .., hstep, _, _, hs, h => end?_bounds hstep hs h
  | .noneOf .., hstep, _, _, hs, h => end?_bounds hstep hs h

/-- Steps one after the other consume a byte and end in the text. -/
theorem chainStepEnd?_bounds {text : ByteArray} :
    (chain : Chain) → chain.isStep = true → {start finish : Nat} → start ≤ text.size →
      chain.stepEnd? text start = some finish → start < finish ∧ finish ≤ text.size
  | .last node, hstep, _, _, hs, h => stepEnd?_bounds node hstep hs h
  | .cons node rest, hstep, _, _, hs, h => by
    simp only [Chain.isStep, Bool.and_eq_true] at hstep
    simp only [Chain.stepEnd?] at h
    split at h
    · rename_i next hn
      have hnext := stepEnd?_bounds node hstep.1 hs hn
      have hrest := chainStepEnd?_bounds rest hstep.2 hnext.2 h
      omega
    · cases h
end

mutual
/-- A step is read to its end, or the position stays where it was. -/
theorem nodeStep_eq (texts : Bindings String) (trail : Trail) :
    (node : Node) → node.isStep = true → {s : State} → s.position ≤ s.buffer.size →
      nodeStep texts trail node s = s.endAt (node.stepEnd? s.buffer.bytes s.position)
  | .group chain, hstep, s, hs => by
    have hc := chainStep_eq texts trail chain hstep hs
    rw [nodeStep, Node.stepEnd?]
    cases he : chain.stepEnd? s.buffer.bytes s.position with
    | some finish =>
      rw [he] at hc
      rw [hc]
      rfl
    | none =>
      rw [he] at hc
      obtain ⟨place, hlo, hc⟩ := hc
      rw [hc]
      simp only [State.rewindTo_eq (s := s.moved place) hlo, State.moved_moved]
      rfl
  | .literal .., _, _, hs | .byteClass .., _, _, hs | .noneOf .., _, _, hs => by
    rw [nodeStep]
    · exact single_eq _ _ _ hs
    · simp

/-- Steps one after the other are read to their end, or the position stays behind some of them. -/
theorem chainStep_eq (texts : Bindings String) (trail : Trail) :
    (chain : Chain) → chain.isStep = true → {s : State} → s.position ≤ s.buffer.size →
      match chain.stepEnd? s.buffer.bytes s.position with
      | some finish => chainStep texts trail chain s = (true, s.moved finish)
      | none => ∃ place, s.position ≤ place ∧ chainStep texts trail chain s = (false, s.moved place)
  | .last node, hstep, s, hs => by
    have hn := nodeStep_eq texts trail node hstep hs
    rw [Chain.stepEnd?]
    cases he : node.stepEnd? s.buffer.bytes s.position with
    | some finish =>
      rw [he] at hn
      simp only [chainStep, hn, State.endAt]
    | none =>
      rw [he] at hn
      exact ⟨s.position, Nat.le_refl _, by simp only [chainStep, hn, State.endAt]; rfl⟩
  | .cons node rest, hstep, s, hs => by
    simp only [Chain.isStep, Bool.and_eq_true] at hstep
    have hn := nodeStep_eq texts trail node hstep.1 hs
    rw [Chain.stepEnd?]
    cases he : node.stepEnd? s.buffer.bytes s.position with
    | none =>
      rw [he] at hn
      exact ⟨s.position, Nat.le_refl _, by simp only [chainStep, hn, State.endAt]; rfl⟩
    | some next =>
      rw [he] at hn
      have hb := stepEnd?_bounds node hstep.1 hs he
      have hr := chainStep_eq texts trail rest hstep.2 (s := s.moved next) hb.2
      simp only [State.moved_bytes, State.moved_position] at hr
      simp only [chainStep, hn, State.endAt]
      cases hf : rest.stepEnd? s.buffer.bytes next with
      | some finish =>
        rw [hf] at hr
        exact hr
      | none =>
        rw [hf] at hr
        obtain ⟨place, hlo, hr⟩ := hr
        exact ⟨place, by omega, hr⟩
end

end WordPattern.Walk
