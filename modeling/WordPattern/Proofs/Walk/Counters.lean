import Mathlib
import WordPattern.Proofs.Walk.Outcomes

/-!
# The counters of an attempt

An attempt counts its steps in 64 bits and has a flag for each of its limits. The step above the
limit sets the flag of the steps, and no step is counted once a flag is set; so there is at most one
flag, and a walk shows the same counters as long as the limit leaves room for one step more.
-/

namespace WordPattern

namespace Walk

/-! ## Counts of a walk -/

/-- What holds of a count wherever a walk comes to. -/
structure Count.Within (limits : Limits) (k : Count) : Prop where
  steps_le : k.steps ≤ limits.steps + 1
  outOfSteps_iff : k.outOfSteps = true ↔ k.steps = limits.steps + 1
  exclusive : ¬(k.outOfSteps = true ∧ k.tooDeep = true)

namespace Count.Within

variable {limits : Limits} {k : Count}

theorem start (limits : Limits) : Count.Within limits {} where
  steps_le := Nat.zero_le _
  outOfSteps_iff := by simp
  exclusive := by simp

/-- A count that has not run into a limit leaves room for another step. -/
theorem steps_lt (h : k.Within limits) (hk : k.stopped = none) : k.steps < limits.steps + 1 := by
  refine Nat.lt_of_le_of_ne h.steps_le fun hsteps => ?_
  rw [← h.outOfSteps_iff, (Count.stopped_eq_none_iff.mp hk).1] at hsteps
  cases hsteps

theorem stopped_eq_depth_iff (h : k.Within limits) :
    k.stopped = some .depth ↔ k.tooDeep = true := by
  have := h.exclusive
  cases hout : k.outOfSteps <;> cases hdeep : k.tooDeep <;> simp_all [stopped]

theorem tick (h : k.Within limits) (depth : Nat) : (k.tick limits depth).2.Within limits := by
  rcases Count.tick_cases limits depth k with
    ⟨-, htick⟩ | ⟨cause, hk, hx, htick⟩ | ⟨hk, hx, htick⟩ <;> rw [htick]
  · exact h
  · have hlt := h.steps_lt hk
    obtain ⟨hout, hdeep⟩ := Count.stopped_eq_none_iff.mp hk
    rw [Search.exceeded?] at hx
    split at hx
    · cases hx
      refine ⟨hlt, ?_, ?_⟩ <;> simp only [Count.stop, hdeep, true_iff]
      · omega
      · simp
    · split at hx <;> cases hx
      refine ⟨hlt, ?_, ?_⟩ <;> simp only [Count.stop, hout, Bool.false_eq_true, false_iff]
      · omega
      · simp
  · obtain ⟨hout, hdeep⟩ := Count.stopped_eq_none_iff.mp hk
    have hlt := (Search.exceeded?_eq_none hx).1
    refine ⟨Nat.le_succ_of_le hlt, ?_, ?_⟩ <;> simp only [hout, Bool.false_eq_true, false_iff]
    · omega
    · simp

theorem ticks (h : k.Within limits) (depths : List Nat) : (k.ticks limits depths).Within limits :=
  Count.ticks_induction (fun _ depth hl => hl.tick depth) depths h

end Count.Within

/-- An attempt counts steps at some depths, and nothing else touches its count. -/
theorem attempt_ticks {c : Setting} {pattern : Chain} {s t : State} {found : Option Trail}
    (hs : s.position ≤ s.buffer.size) (h : attempt c pattern s = some (found, t)) :
    ∃ depths, t.toCount = s.toCount.ticks c.limits depths := by
  obtain ⟨found, u, hm, hmoves, -⟩ :=
    (enter_restores c _ pattern {} .done 0 s (State.left_le _ _) hs).1
  rw [attempt, get_bind, bind_of hm, get_bind] at h
  split at h <;> cases h <;> exact hmoves.ticked

/-! ## Counters of 64 bits -/

/-- The steps that have been counted, and the limits that have been run into. -/
structure Counters where
  steps : UInt64 := 0
  outOfSteps : Bool := false
  tooDeep : Bool := false

/-- Counts a step at a depth unless a flag is set; a count behind the last one is zero again. -/
def Counters.tick (limits : Limits) (depth : Nat) (k : Counters) : Bool × Counters :=
  if k.outOfSteps || k.tooDeep then (false, k)
  else
    let steps := k.steps + 1
    if limits.steps < steps.toNat then (false, { k with steps, outOfSteps := true })
    else if limits.depth < depth then (false, { k with steps, tooDeep := true })
    else (true, { k with steps })

/-- The counters after steps at some depths, as far as they are counted. -/
def Counters.ticks (limits : Limits) (depths : List Nat) (k : Counters) : Counters :=
  depths.foldl (fun k depth => (k.tick limits depth).2) k

namespace Count

/-- The counters that show a count. -/
def counters (k : Count) : Counters where
  steps := .ofNat k.steps
  outOfSteps := k.outOfSteps
  tooDeep := k.tooDeep

@[simp] theorem counters_outOfSteps (k : Count) : k.counters.outOfSteps = k.outOfSteps := rfl

@[simp] theorem counters_tooDeep (k : Count) : k.counters.tooDeep = k.tooDeep := rfl

variable {limits : Limits} {k : Count}

theorem Within.counters_steps (hlimits : limits.steps < 2 ^ 64 - 1) (h : k.Within limits) :
    k.counters.steps.toNat = k.steps := by
  have hle := h.steps_le
  simp only [counters, UInt64.toNat_ofNat']
  omega

/-- The counters tick as the count does. -/
theorem Within.counters_tick (hlimits : limits.steps < 2 ^ 64 - 1) (h : k.Within limits)
    (depth : Nat) :
    k.counters.tick limits depth = ((k.tick limits depth).1, (k.tick limits depth).2.counters) := by
  rw [Counters.tick, Count.tick, counters_outOfSteps, counters_tooDeep]
  by_cases hflag : (k.outOfSteps || k.tooDeep) = true
  · rw [if_pos hflag, if_pos hflag]
  · have hk : k.stopped = none := by
      simpa [stopped_eq_none_iff, not_or] using hflag
    have hnext : (k.counters.steps + 1).toNat = k.steps + 1 := by
      have hlt := h.steps_lt hk
      rw [UInt64.toNat_add, h.counters_steps hlimits]
      exact Nat.mod_eq_of_lt (by change k.steps + 1 < 2 ^ 64; omega)
    have hsteps : UInt64.ofNat (k.steps + 1) = k.counters.steps + 1 := by
      rw [← hnext, UInt64.ofNat_toNat]
    rw [if_neg hflag, if_neg hflag]
    simp only [hnext]
    split
    · simp [counters, hsteps]
    · split <;> simp [counters, hsteps]

/-- Over any number of steps, the counters are those of the count. -/
theorem Within.counters_ticks (hlimits : limits.steps < 2 ^ 64 - 1) (h : k.Within limits)
    (depths : List Nat) :
    k.counters.ticks limits depths = (k.ticks limits depths).counters := by
  induction depths generalizing k with
  | nil => rfl
  | cons depth depths ih =>
    calc k.counters.ticks limits (depth :: depths)
        = (k.counters.tick limits depth).2.ticks limits depths := rfl
      _ = (k.tick limits depth).2.counters.ticks limits depths := by
        rw [h.counters_tick hlimits]
      _ = (k.ticks limits (depth :: depths)).counters := ih (h.tick depth)

end Count

end Walk

variable {c : Setting} {pattern : Chain} {found : Option Trail} {t : Walk.State}

/-- A walk that has stopped has found nothing and is back at its start. -/
theorem Buffer.tryMatch_stops {b : Buffer} (hb : b.position ≤ b.size)
    (hmatch : b.tryMatch c pattern = some (found, t)) (hstop : t.stopped ≠ none) :
    found = none ∧ t.position = b.position := by
  have hnone : found = none := by
    rcases found with _ | trail
    · rfl
    · exact absurd (tryMatch_running hb hmatch) hstop
  subst hnone
  obtain ⟨_, _, hmatch', _, _, hleft⟩ :=
    Walk.attempt_keepsCursor c pattern (s := { buffer := b }) hb
  cases hmatch'.symm.trans hmatch
  exact ⟨rfl, hleft⟩

theorem Buffer.tryMatch_within {b : Buffer} (hb : b.position ≤ b.size)
    (hmatch : b.tryMatch c pattern = some (found, t)) : t.Within c.limits := by
  obtain ⟨depths, hticks⟩ := Walk.attempt_ticks (s := { buffer := b }) hb hmatch
  rw [hticks]
  exact (Walk.Count.Within.start c.limits).ticks depths

/-- Whatever a pattern calls and repeats, an attempt comes to an end, with the counters that steps
at some depths lead to. It has counted no more than one step above the limit, has set no more than
one flag, and with a flag it has found nothing and left the position where it was. -/
theorem limits_bound_every_attempt (b : Buffer) (environment : Environment) (limits : Limits)
    (pattern : Chain) (hb : b.position ≤ b.size) (hlimits : limits.steps < 2 ^ 64 - 1) :
    let c : Setting := { text := b.bytes, environment, limits }
    ∃ found t, b.tryMatch c pattern = some (found, t) ∧
      (∃ depths, t.counters = Walk.Counters.ticks limits depths {}) ∧
      t.counters.steps.toNat = t.steps ∧ t.steps ≤ limits.steps + 1 ∧
      (t.counters.outOfSteps = true ↔ t.steps = limits.steps + 1) ∧
      ¬(t.counters.outOfSteps = true ∧ t.counters.tooDeep = true) ∧
      (t.counters.outOfSteps = true ∨ t.counters.tooDeep = true →
        found = none ∧ t.position = b.position) := by
  intro c
  obtain ⟨found, t, hmatch, -⟩ := Walk.attempt_keepsCursor c pattern (s := { buffer := b }) hb
  obtain ⟨depths, hticks⟩ := Walk.attempt_ticks (s := { buffer := b }) hb hmatch
  have hcounters : t.counters = Walk.Counters.ticks limits depths {} := by
    rw [hticks]
    exact ((Walk.Count.Within.start limits).counters_ticks hlimits depths).symm
  have hwithin : t.Within limits := Buffer.tryMatch_within hb hmatch
  refine ⟨found, t, hmatch, ⟨depths, hcounters⟩, hwithin.counters_steps hlimits, hwithin.steps_le,
    hwithin.outOfSteps_iff, hwithin.exclusive, fun hset => ?_⟩
  apply Buffer.tryMatch_stops hb hmatch
  rw [Ne, Walk.Count.stopped_eq_none_iff]
  rintro ⟨hout, hdeep⟩
  rcases hset with hset | hset
  · exact absurd (hout.symm.trans hset) Bool.false_ne_true
  · exact absurd (hdeep.symm.trans hset) Bool.false_ne_true

/-- A pattern that calls itself before it has read anything. -/
theorem endless_call_is_bounded :
    let b := Buffer.ofBytes ⟨#[97]⟩
    let body := Chain.cons (.call "s") (.last (.literal [97] false))
    let pattern := Chain.last (.define "s" (.group body))
    let limits : Limits := ⟨100, 3⟩
    let c : Setting := { text := b.bytes, limits }
    b.position ≤ b.size ∧ limits.steps < 2 ^ 64 - 1 ∧
      ∃ found t, b.tryMatch c pattern = some (found, t) ∧ t.counters.tooDeep = true ∧
        t.steps ≤ limits.steps + 1 ∧ found = none ∧ t.position = b.position := by
  intro b body pattern limits c
  have hb : b.position ≤ b.size := Nat.zero_le _
  obtain ⟨found, t, hmatch, -, -, hle, -, -, hset⟩ :=
    limits_bound_every_attempt b {} limits pattern hb (by decide)
  have hrun : c.attempt pattern b.position = ⟨.cutOff .depth, 5⟩ := by
    iterate 4 refine (Search.run_of_ok rfl).trans ?_
    exact Search.run_of_error rfl
  have hdeep : t.counters.tooDeep = true := by
    apply (Buffer.tryMatch_within hb hmatch).stopped_eq_depth_iff.mp
    rw [(b.tryMatch_reports (Setting.fits_of rfl) rfl hb hmatch).1, hrun]
    rfl
  exact ⟨hb, by decide, found, t, hmatch, hdeep, hle, hset (.inr hdeep)⟩

end WordPattern
