import Mathlib.Logic.Relation
import WordPattern.Proofs.Search.Limits

/-!
# Scans turn by turn

A scan makes turns until it is over or an attempt is cut off. What holds of a scan is shown of one
turn first, and then of any number of them.
-/

namespace WordPattern.Scan

/-- Nothing is left to be tried: enough has been kept, or the end of the text lies behind. -/
def State.Over (c : Setting) (amount : Amount) (s : State) : Prop :=
  amount.isFull s.count = true ∨ c.text.size < s.position

/-- One attempt that is not cut off, and the move behind it. -/
inductive Turn (c : Setting) (pattern : Chain) (amount : Amount) : State → State → Prop
  | missed {s : State} (hopen : ¬s.Over c amount)
    (hmissed : (c.attempt pattern s.position).outcome = .missed) :
    Turn c pattern amount s (s.move c.text (s.position + 1))
  | found {s : State} {finish : Nat} {captures : Bindings String} (hopen : ¬s.Over c amount)
    (hfound : (c.attempt pattern s.position).outcome = .found finish captures) :
    Turn c pattern amount s
      ((s.record amount c.text finish captures).move c.text (s.behind finish))

/-- Any number of turns. -/
def Turns (c : Setting) (pattern : Chain) (amount : Amount) : State → State → Prop :=
  Relation.ReflTransGen (Turn c pattern amount)

/-- A scan goes on from a state, which may lie behind the end of the text. -/
def goOn (c : Setting) (pattern : Chain) (amount : Amount) (s : State) :
    Except Interruption (List Match) :=
  if s.position ≤ c.text.size then run c pattern amount s else .ok s.kept.reverse

variable {c : Setting} {pattern : Chain} {amount : Amount} {s t : State}

/-! ## States -/

theorem State.not_over_iff :
    ¬s.Over c amount ↔ amount.isFull s.count = false ∧ s.position ≤ c.text.size := by
  simp [State.Over]

theorem State.over_all_iff : s.Over c .all ↔ c.text.size < s.position := by
  simp [State.Over, Amount.isFull, Amount.all]

theorem State.lt_behind (s : State) (finish : Nat) : s.position < s.behind finish := by
  unfold State.behind
  split <;> omega

theorem State.le_behind (s : State) (finish : Nat) : finish ≤ s.behind finish := by
  unfold State.behind
  split <;> omega

section

variable (amount : Amount) (text : ByteArray) (s : State) (next finish : Nat)
  (captures : Bindings String)

@[simp] theorem State.move_position : (s.move text next).position = next := rfl

@[simp] theorem State.move_found : (s.move text next).found = s.found := rfl

@[simp] theorem State.move_kept : (s.move text next).kept = s.kept := rfl

@[simp] theorem State.record_position :
    (s.record amount text finish captures).position = s.position := by
  unfold State.record
  split <;> rfl

@[simp] theorem State.record_line :
    (s.record amount text finish captures).line = s.line := by
  unfold State.record
  split <;> rfl

@[simp] theorem State.record_found :
    (s.record amount text finish captures).found = s.found + 1 := by
  unfold State.record
  split <;> rfl

theorem State.record_kept :
    (s.record amount text finish captures).kept =
      if amount.retains (s.found + 1) then s.match text finish captures :: s.kept
      else s.kept := by
  unfold State.record
  split <;> rfl

theorem State.record_count :
    (s.record amount text finish captures).count =
      if amount.retains (s.found + 1) then s.count + 1 else s.count := by
  unfold State.record
  split <;> rfl

end

theorem Turn.not_over (h : Turn c pattern amount s t) : ¬s.Over c amount := by
  cases h <;> assumption

theorem Turn.advances (h : Turn c pattern amount s t) : s.position < t.position := by
  cases h with
  | missed => exact Nat.lt_succ_self _
  | found => exact s.lt_behind _

/-! ## What a scan comes to -/

theorem scan_eq_goOn (c : Setting) (pattern : Chain) (amount : Amount) :
    c.scan pattern amount = goOn c pattern amount {} :=
  (if_pos (Nat.zero_le _)).symm

theorem goOn_over (h : s.Over c amount) : goOn c pattern amount s = .ok s.kept.reverse := by
  unfold goOn
  split
  · rename_i hin
    exact run_full (h.resolve_right (Nat.not_lt_of_le hin))
  · rfl

theorem goOn_cutOff {cause : CutOff} (hopen : ¬s.Over c amount)
    (hcut : (c.attempt pattern s.position).outcome = .cutOff cause) :
    goOn c pattern amount s = .error ⟨cause, c.limits, s.position⟩ := by
  obtain ⟨hfull, hin⟩ := State.not_over_iff.mp hopen
  rw [goOn, if_pos hin, run_cutOff hfull hcut]

theorem goOn_turn (h : Turn c pattern amount s t) :
    goOn c pattern amount s = goOn c pattern amount t := by
  obtain ⟨hfull, hin⟩ := State.not_over_iff.mp h.not_over
  rw [goOn, if_pos hin]
  cases h with
  | missed hopen hmissed => exact run_missed hfull hmissed
  | found hopen hfound => exact run_found hfull hfound

theorem goOn_turns (h : Turns c pattern amount s t) :
    goOn c pattern amount s = goOn c pattern amount t := by
  induction h with
  | refl => rfl
  | tail _ hturn ih => exact ih.trans (goOn_turn hturn)

theorem turn_or_cutOff (pattern : Chain) (hopen : ¬s.Over c amount) :
    (∃ t, Turn c pattern amount s t) ∨
      ∃ cause, (c.attempt pattern s.position).outcome = .cutOff cause := by
  cases houtcome : (c.attempt pattern s.position).outcome with
  | found finish captures => exact .inl ⟨_, .found hopen houtcome⟩
  | missed => exact .inl ⟨_, .missed hopen houtcome⟩
  | cutOff cause => exact .inr ⟨cause, rfl⟩

theorem turns_end (c : Setting) (pattern : Chain) (amount : Amount) (s : State) :
    ∃ t, Turns c pattern amount s t ∧
      (t.Over c amount ∨ ¬t.Over c amount ∧
        ∃ cause, (c.attempt pattern t.position).outcome = .cutOff cause) := by
  -- Every turn leaves less of the text, and at its end one position is still to be tried.
  induction hn : c.text.size + 1 - s.position using Nat.strongRecOn generalizing s with
  | ind n ih =>
    by_cases hopen : s.Over c amount
    · exact ⟨s, .refl, .inl hopen⟩
    · obtain ⟨t, hturn⟩ | hcut := turn_or_cutOff pattern hopen
      · have hin := (State.not_over_iff.mp hopen).2
        have hlt := hturn.advances
        obtain ⟨u, hturns, hend⟩ := ih (c.text.size + 1 - t.position) (by omega) t rfl
        exact ⟨u, hturns.head hturn, hend⟩
      · exact ⟨s, .refl, .inr ⟨hopen, hcut⟩⟩

theorem scan_ok_iff {found : List Match} :
    c.scan pattern amount = .ok found ↔
      ∃ t, Turns c pattern amount {} t ∧ t.Over c amount ∧ found = t.kept.reverse := by
  rw [scan_eq_goOn]
  constructor
  · intro h
    obtain ⟨t, hturns, hover | ⟨hopen, cause, hcut⟩⟩ := turns_end c pattern amount {}
    · rw [goOn_turns hturns, goOn_over hover] at h
      cases h
      exact ⟨t, hturns, hover, rfl⟩
    · rw [goOn_turns hturns, goOn_cutOff hopen hcut] at h
      cases h
  · rintro ⟨t, hturns, hover, rfl⟩
    rw [goOn_turns hturns, goOn_over hover]

theorem scan_error_iff {i : Interruption} :
    c.scan pattern amount = .error i ↔
      ∃ t cause, Turns c pattern amount {} t ∧ ¬t.Over c amount ∧
        (c.attempt pattern t.position).outcome = .cutOff cause ∧
          i = ⟨cause, c.limits, t.position⟩ := by
  rw [scan_eq_goOn]
  constructor
  · intro h
    obtain ⟨t, hturns, hover | ⟨hopen, cause, hcut⟩⟩ := turns_end c pattern amount {}
    · rw [goOn_turns hturns, goOn_over hover] at h
      cases h
    · rw [goOn_turns hturns, goOn_cutOff hopen hcut] at h
      cases h
      exact ⟨t, cause, hturns, hopen, hcut, rfl⟩
  · rintro ⟨t, cause, hturns, hopen, hcut, rfl⟩
    rw [goOn_turns hturns, goOn_cutOff hopen hcut]

/-- What holds at the beginning and outlasts every turn holds wherever a scan comes to. -/
theorem Turns.keep {P : State → Prop} (h : Turns c pattern amount s t)
    (step : ∀ s t, Turn c pattern amount s t → P s → P t) (hs : P s) : P t := by
  induction h with
  | refl => exact hs
  | tail _ hturn ih => exact step _ _ hturn ih

end WordPattern.Scan
