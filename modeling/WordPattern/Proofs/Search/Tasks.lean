import WordPattern.Pattern.Search

/-!
# What the machine does with a task

One equation for every kind of task, whatever else is on the agenda.
-/

namespace WordPattern.Search

variable {c : Setting} {steps : Nat} {noted : List (List Nat)} {rest : List Task}

theorem run_of_ok {s t : State} (h : step c s = .ok t) : run c s = run c t := by
  rw [run]
  split
  · rename_i next hn
    cases h.symm.trans hn
    rfl
  · rename_i a ha
    cases h.symm.trans ha

theorem run_of_error {s : State} {a : Attempt} (h : step c s = .error a) : run c s = a := by
  rw [run]
  split
  · rename_i next hn
    cases h.symm.trans hn
  · rename_i b hb
    cases h.symm.trans hb
    rfl

theorem run_nil : run c ⟨[], noted, steps⟩ = ⟨.missed, steps⟩ := run_of_error rfl

/-! ## Entering a chain -/

section

variable {chain : Chain} {start depth : Nat} {trail : Trail} {k : Continuation}

theorem run_enter (h : exceeded? c.limits steps depth = none) :
    run c ⟨.enter chain start trail k depth :: rest, noted, steps⟩ =
      run c ⟨chainWays c chain start trail k depth ++ rest, noted, steps + 1⟩ :=
  run_of_ok (by simp only [step, h])

theorem run_enter_exceeded {cause : CutOff} (h : exceeded? c.limits steps depth = some cause) :
    run c ⟨.enter chain start trail k depth :: rest, noted, steps⟩ =
      ⟨.cutOff cause, steps + 1⟩ :=
  run_of_error (by simp only [step, h])

end

/-! ## Following a continuation -/

section

variable {position depth : Nat} {positions : List Nat} {trail : Trail} {k : Continuation}

theorem run_resume_nil :
    run c ⟨.resume [] trail k depth :: rest, noted, steps⟩ = run c ⟨rest, noted, steps⟩ :=
  run_of_ok rfl

theorem run_resumeThen :
    run c ⟨resumeThen positions trail k depth rest, noted, steps⟩ =
      run c ⟨.resume positions trail k depth :: rest, noted, steps⟩ := by
  cases positions with
  | nil => exact run_resume_nil.symm
  | cons position positions => rfl

theorem run_done :
    run c ⟨.resume (position :: positions) trail .done depth :: rest, noted, steps⟩ =
      ⟨.found position trail.captures, steps⟩ :=
  run_of_error rfl

theorem run_note :
    run c ⟨.resume (position :: positions) trail .note depth :: rest, noted, steps⟩ =
      run c ⟨.resume positions trail .note depth :: rest, noteEnd position noted, steps⟩ :=
  (run_of_ok rfl).trans run_resumeThen

theorem run_follow (hd : k ≠ .done) (hn : k ≠ .note) :
    run c ⟨resumeAt position trail k depth :: rest, noted, steps⟩ =
      run c ⟨follow c position trail depth k ++ rest, noted, steps⟩ := by
  cases k with
  | done => exact absurd rfl hd
  | note => exact absurd rfl hn
  | chain next k => exact run_of_ok rfl
  | bind name start k => exact run_of_ok rfl
  | again quantifier fewest body count start k => exact run_of_ok rfl

/-- Following a continuation from several positions is following it from the first one, and from the
others if that fails. -/
theorem run_resume_cons :
    run c ⟨.resume (position :: positions) trail k depth :: rest, noted, steps⟩ =
      run c ⟨resumeAt position trail k depth :: resumeThen positions trail k depth rest, noted,
        steps⟩ := by
  cases k with
  | done => rw [resumeAt, run_done, run_done]
  | note => rw [resumeAt, run_note, run_note, run_resume_nil, run_resumeThen]
  | chain next k => exact (run_of_ok rfl).trans (run_of_ok rfl).symm
  | bind name start k => exact (run_of_ok rfl).trans (run_of_ok rfl).symm
  | again quantifier fewest body count start k =>
    exact (run_of_ok rfl).trans (run_of_ok rfl).symm

end

/-! ## Repeating a body -/

section

variable {l : Loop} {count position : Nat} {ends : List Nat}

theorem run_most_full (h : l.quantifier.allowsAfter count = false) :
    run c ⟨.most l count ends :: rest, noted, steps⟩ =
      run c ⟨.resume (l.enough count ends) l.trail l.k l.depth :: rest, noted, steps⟩ :=
  run_of_ok (by simp only [step, h, Bool.false_eq_true, ↓reduceIte])

theorem run_most_exceeded {cause : CutOff} (h : l.quantifier.allowsAfter count = true)
    (hx : exceeded? c.limits steps l.depth = some cause) :
    run c ⟨.most l count ends :: rest, noted, steps⟩ = ⟨.cutOff cause, steps + 1⟩ :=
  run_of_error (by simp only [step, h, hx, ↓reduceIte])

theorem run_most (h : l.quantifier.allowsAfter count = true)
    (hx : exceeded? c.limits steps l.depth = none) :
    run c ⟨.most l count (position :: ends) :: rest, noted, steps⟩ =
      match l.body.stepEnd? c.text position with
      | some finish =>
        run c ⟨.most l (count + 1) (finish :: position :: ends) :: rest, noted, steps + 1⟩
      | none =>
        run c ⟨.resume (l.enough count (position :: ends)) l.trail l.k l.depth :: rest, noted,
          steps + 1⟩ := by
  cases he : l.body.stepEnd? c.text position with
  | some finish =>
    exact run_of_ok (by
      simp only [step, h, hx, List.head?_cons, Option.bind_some, he, ↓reduceIte])
  | none =>
    exact run_of_ok (by
      simp only [step, h, hx, List.head?_cons, Option.bind_some, he, ↓reduceIte])

theorem run_more_full (h : l.quantifier.allowsAfter count = false) :
    run c ⟨.more l count position :: rest, noted, steps⟩ = run c ⟨rest, noted, steps⟩ :=
  run_of_ok (by simp only [step, h, Bool.false_eq_true, ↓reduceIte])

theorem run_more_exceeded {cause : CutOff} (h : l.quantifier.allowsAfter count = true)
    (hx : exceeded? c.limits steps l.depth = some cause) :
    run c ⟨.more l count position :: rest, noted, steps⟩ = ⟨.cutOff cause, steps + 1⟩ :=
  run_of_error (by simp only [step, h, hx, ↓reduceIte])

theorem run_more (h : l.quantifier.allowsAfter count = true)
    (hx : exceeded? c.limits steps l.depth = none) :
    run c ⟨.more l count position :: rest, noted, steps⟩ =
      match l.body.stepEnd? c.text position with
      | some finish => run c ⟨l.visitStep (count + 1) finish ++ rest, noted, steps + 1⟩
      | none => run c ⟨rest, noted, steps + 1⟩ := by
  cases he : l.body.stepEnd? c.text position with
  | some finish => exact run_of_ok (by simp only [step, h, hx, he, ↓reduceIte])
  | none => exact run_of_ok (by simp only [step, h, hx, he, ↓reduceIte])

theorem run_gather_full (h : l.quantifier.allowsAfter count = false) :
    run c ⟨.gather l count position :: rest, noted, steps⟩ = run c ⟨rest, noted, steps⟩ :=
  run_of_ok (by simp only [step, h, Bool.false_eq_true, ↓reduceIte])

theorem run_gather (h : l.quantifier.allowsAfter count = true) :
    run c ⟨.gather l count position :: rest, noted, steps⟩ =
      run c ⟨.enter (.last l.body) position l.trail .note (l.depth + 1) ::
        .spread l count position :: rest, [] :: noted, steps⟩ :=
  run_of_ok (by simp only [step, h, ↓reduceIte])

theorem run_spread :
    run c ⟨.spread l count position :: rest, ends :: noted, steps⟩ =
      run c ⟨ends.flatMap (l.visitEnd count position) ++ rest, noted, steps⟩ :=
  run_of_ok rfl

end

end WordPattern.Search
