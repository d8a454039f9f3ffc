import WordPattern.Pattern.Scan
import WordPattern.Proofs.Search.Tasks

/-!
# Larger limits

The machine looks at the limits only to stop. Where it does not stop, it goes the same way under
larger ones, and so does a scan that is not interrupted.
-/

namespace WordPattern

instance : LE Limits where
  le a b := a.steps ≤ b.steps ∧ a.depth ≤ b.depth

/-- The least limits that are no smaller than two others. -/
def Limits.join (a b : Limits) : Limits where
  steps := max a.steps b.steps
  depth := max a.depth b.depth

theorem Limits.le_join_left (a b : Limits) : a ≤ a.join b :=
  ⟨Nat.le_max_left .., Nat.le_max_left ..⟩

theorem Limits.le_join_right (a b : Limits) : b ≤ a.join b :=
  ⟨Nat.le_max_right .., Nat.le_max_right ..⟩

/-- The setting with other limits. -/
def Setting.within (c : Setting) (limits : Limits) : Setting := { c with limits }

namespace Search

/-- The attempt has run into a limit. -/
def Outcome.isCutOff : Outcome → Bool
  | .cutOff _ => true
  | _ => false

variable {c : Setting} {limits : Limits}

theorem exceeded?_of_larger {steps depth : Nat} (h : c.limits ≤ limits)
    (hx : exceeded? c.limits steps depth = none) : exceeded? limits steps depth = none := by
  obtain ⟨hsteps, hdepth⟩ := exceeded?_eq_none hx
  obtain ⟨hs, hd⟩ := h
  rw [exceeded?, if_neg (by omega), if_neg (by omega)]

/-- A step that runs into no limit is the same under larger ones. -/
theorem step_of_larger {s : State} (h : c.limits ≤ limits)
    (hcut : ∀ a, step c s = .error a → a.outcome.isCutOff = false) :
    step (c.within limits) s = step c s := by
  have larger : ∀ steps depth, exceeded? c.limits steps depth = none →
      exceeded? (c.within limits).limits steps depth = none :=
    fun _ _ hx => exceeded?_of_larger h hx
  obtain ⟨agenda, noted, steps⟩ := s
  cases agenda with
  | nil => rfl
  | cons task rest =>
    cases task with
    | enter chain start trail k depth =>
      cases hx : exceeded? c.limits steps depth with
      | some cause =>
        have := hcut ⟨.cutOff cause, steps + 1⟩ (by simp only [step, hx])
        cases this
      | none =>
        simp only [step, hx, larger _ _ hx]
        rfl
    | resume positions trail k depth =>
      cases positions with
      | nil => rfl
      | cons position positions => cases k <;> rfl
    | most l count ends =>
      cases hallows : l.quantifier.allowsAfter count with
      | false => simp only [step, hallows, Bool.false_eq_true, ↓reduceIte]
      | true =>
        cases hx : exceeded? c.limits steps l.depth with
        | some cause =>
          have := hcut ⟨.cutOff cause, steps + 1⟩ (by simp only [step, hallows, hx, ↓reduceIte])
          cases this
        | none =>
          simp only [step, hallows, hx, larger _ _ hx, ↓reduceIte]
          rfl
    | more l count position =>
      cases hallows : l.quantifier.allowsAfter count with
      | false => simp only [step, hallows, Bool.false_eq_true, ↓reduceIte]
      | true =>
        cases hx : exceeded? c.limits steps l.depth with
        | some cause =>
          have := hcut ⟨.cutOff cause, steps + 1⟩ (by simp only [step, hallows, hx, ↓reduceIte])
          cases this
        | none =>
          simp only [step, hallows, hx, larger _ _ hx, ↓reduceIte]
          rfl
    | gather l count position => rfl
    | spread l count position => rfl

theorem run_of_larger (h : c.limits ≤ limits) (s : State) :
    (run c s).outcome.isCutOff = false → run (c.within limits) s = run c s := by
  induction s using run.induct c with
  | case1 s next hstep ih =>
    intro hcut
    rw [run_of_ok hstep] at hcut ⊢
    have hsame := step_of_larger (s := s) h fun a ha => by cases hstep.symm.trans ha
    rw [run_of_ok (hsame.trans hstep)]
    exact ih hcut
  | case2 s a hstep =>
    intro hcut
    rw [run_of_error hstep] at hcut ⊢
    have hsame := step_of_larger (s := s) h fun b hb => by
      cases hstep.symm.trans hb
      exact hcut
    exact run_of_error (hsame.trans hstep)

end Search

theorem Setting.attempt_of_larger {c : Setting} {limits : Limits} (h : c.limits ≤ limits)
    {pattern : Chain} {start : Nat}
    (hcut : (c.attempt pattern start).outcome.isCutOff = false) :
    (c.within limits).attempt pattern start = c.attempt pattern start :=
  Search.run_of_larger h _ hcut

/-! ## Scans -/

namespace Scan

variable {c : Setting} {pattern : Chain} {amount : Amount}

/-- The position at which a scan goes on behind a match. -/
def State.behind (s : State) (finish : Nat) : Nat :=
  if s.position < finish then finish else s.position + 1

/-- A scan from one state comes to an attempt at another one. -/
inductive Tries (c : Setting) (pattern : Chain) (amount : Amount) : State → State → Prop
  | here {s : State} (hfull : amount.isFull s.count = false) : Tries c pattern amount s s
  | missed {s t : State} (hfull : amount.isFull s.count = false)
    (hmissed : (c.attempt pattern s.position).outcome = .missed)
    (hmore : s.position < c.text.size)
    (h : Tries c pattern amount (s.move c.text (s.position + 1)) t) : Tries c pattern amount s t
  | found {s t : State} {finish : Nat} {captures : Bindings String}
    (hfull : amount.isFull s.count = false)
    (hfound : (c.attempt pattern s.position).outcome = .found finish captures)
    (hmore : s.behind finish ≤ c.text.size)
    (h : Tries c pattern amount
      ((s.record amount c.text finish captures).move c.text (s.behind finish)) t) :
    Tries c pattern amount s t

/-! What a scan does at a state, for every outcome of the attempt made there. -/

section

variable {s : State}

theorem run_full (hfull : amount.isFull s.count = true) :
    run c pattern amount s = .ok s.kept.reverse := by
  rw [run, if_pos hfull]

theorem run_cutOff {cause : CutOff} (hfull : amount.isFull s.count = false)
    (h : (c.attempt pattern s.position).outcome = .cutOff cause) :
    run c pattern amount s = .error ⟨cause, c.limits, s.position⟩ := by
  rw [run, if_neg (by rw [hfull]; simp), h]

theorem run_missed (hfull : amount.isFull s.count = false)
    (h : (c.attempt pattern s.position).outcome = .missed) :
    run c pattern amount s =
      if s.position < c.text.size then run c pattern amount (s.move c.text (s.position + 1))
      else .ok s.kept.reverse := by
  rw [run, if_neg (by rw [hfull]; simp), h]

theorem run_found {finish : Nat} {captures : Bindings String}
    (hfull : amount.isFull s.count = false)
    (h : (c.attempt pattern s.position).outcome = .found finish captures) :
    run c pattern amount s =
      if s.behind finish ≤ c.text.size then
        run c pattern amount
          ((s.record amount c.text finish captures).move c.text (s.behind finish))
      else .ok (s.record amount c.text finish captures).kept.reverse := by
  rw [run, if_neg (by rw [hfull]; simp), h]
  rfl

end

theorem run_ok_of_larger {limits : Limits} (h : c.limits ≤ limits) (s : State) :
    ∀ kept, run c pattern amount s = .ok kept →
      run (c.within limits) pattern amount s = .ok kept := by
  have same : ∀ place outcome, (c.attempt pattern place).outcome = outcome →
      outcome.isCutOff = false → ((c.within limits).attempt pattern place).outcome = outcome :=
    fun place outcome ho hcut => by
      rw [Setting.attempt_of_larger h (ho ▸ hcut), ho]
  induction s using run.induct c pattern amount with
  | case1 s hfull =>
    intro kept hrun
    rw [run_full hfull] at hrun ⊢
    exact hrun
  | case2 s hfull cause ho =>
    intro kept hrun
    rw [run_cutOff (Bool.eq_false_iff.mpr hfull) ho] at hrun
    cases hrun
  | case3 s hfull ho hmore ih =>
    intro kept hrun
    have hfull := Bool.eq_false_iff.mpr hfull
    rw [run_missed hfull ho, if_pos hmore] at hrun
    rw [run_missed hfull (same _ _ ho rfl)]
    exact (if_pos hmore).trans (ih kept hrun)
  | case4 s hfull ho hmore =>
    intro kept hrun
    have hfull := Bool.eq_false_iff.mpr hfull
    rw [run_missed hfull ho, if_neg hmore] at hrun
    rw [run_missed hfull (same _ _ ho rfl)]
    exact (if_neg hmore).trans hrun
  | case5 s hfull finish captures ho noted next hmore ih =>
    intro kept hrun
    have hfull := Bool.eq_false_iff.mpr hfull
    have hmore : s.behind finish ≤ c.text.size := hmore
    rw [run_found hfull ho, if_pos hmore] at hrun
    rw [run_found hfull (same _ _ ho rfl)]
    exact (if_pos hmore).trans (ih kept hrun)
  | case6 s hfull finish captures ho next hmore =>
    intro kept hrun
    have hfull := Bool.eq_false_iff.mpr hfull
    have hmore : ¬s.behind finish ≤ c.text.size := hmore
    rw [run_found hfull ho, if_neg hmore] at hrun
    rw [run_found hfull (same _ _ ho rfl)]
    exact (if_neg hmore).trans hrun

/-- A scan that comes to an attempt that is cut off is interrupted there. -/
theorem Tries.interrupted {s t : State} {cause : CutOff} (h : Tries c pattern amount s t)
    (hcut : (c.attempt pattern t.position).outcome = .cutOff cause) :
    run c pattern amount s = .error ⟨cause, c.limits, t.position⟩ := by
  induction h with
  | here hfull => exact run_cutOff hfull hcut
  | missed hfull hmissed hmore _ ih =>
    rw [run_missed hfull hmissed, if_pos hmore]
    exact ih hcut
  | found hfull hfound hmore _ ih =>
    rw [run_found hfull hfound, if_pos hmore]
    exact ih hcut

/-- A scan is interrupted only at an attempt that is cut off. -/
theorem tries_of_interrupted (s : State) :
    ∀ i, run c pattern amount s = .error i →
      ∃ t cause, Tries c pattern amount s t ∧
        (c.attempt pattern t.position).outcome = .cutOff cause ∧
          i = ⟨cause, c.limits, t.position⟩ := by
  induction s using run.induct c pattern amount with
  | case1 s hfull =>
    intro i hrun
    rw [run_full hfull] at hrun
    cases hrun
  | case2 s hfull cause ho =>
    intro i hrun
    have hfull := Bool.eq_false_iff.mpr hfull
    rw [run_cutOff hfull ho] at hrun
    cases hrun
    exact ⟨s, cause, .here hfull, ho, rfl⟩
  | case3 s hfull ho hmore ih =>
    intro i hrun
    have hfull := Bool.eq_false_iff.mpr hfull
    rw [run_missed hfull ho, if_pos hmore] at hrun
    obtain ⟨t, cause, h, hcut, hi⟩ := ih i hrun
    exact ⟨t, cause, .missed hfull ho hmore h, hcut, hi⟩
  | case4 s hfull ho hmore =>
    intro i hrun
    rw [run_missed (Bool.eq_false_iff.mpr hfull) ho, if_neg hmore] at hrun
    cases hrun
  | case5 s hfull finish captures ho noted next hmore ih =>
    intro i hrun
    have hfull := Bool.eq_false_iff.mpr hfull
    have hmore : s.behind finish ≤ c.text.size := hmore
    rw [run_found hfull ho, if_pos hmore] at hrun
    obtain ⟨t, cause, h, hcut, hi⟩ := ih i hrun
    exact ⟨t, cause, .found hfull ho hmore h, hcut, hi⟩
  | case6 s hfull finish captures ho next hmore =>
    intro i hrun
    have hmore : ¬s.behind finish ≤ c.text.size := hmore
    rw [run_found (Bool.eq_false_iff.mpr hfull) ho, if_neg hmore] at hrun
    cases hrun

end Scan

/-- Two scans of which none is interrupted find the same matches, whatever their limits. -/
theorem Setting.scan_unique {c : Setting} {limits : Limits} {pattern : Chain} {amount : Amount}
    {found found' : List Match} (h : c.scan pattern amount = .ok found)
    (h' : (c.within limits).scan pattern amount = .ok found') : found = found' := by
  have hleft : (c.within (c.limits.join limits)).scan pattern amount = .ok found :=
    Scan.run_ok_of_larger (Limits.le_join_left _ _) _ found h
  have hright : ((c.within limits).within (c.limits.join limits)).scan pattern amount =
      .ok found' := Scan.run_ok_of_larger (Limits.le_join_right _ _) _ found' h'
  cases hright.symm.trans hleft
  rfl

end WordPattern
