import WordPattern.Proofs.Walk.Equations
import WordPattern.Proofs.Walk.Moves

/-!
# Walks that come back

`Count.ticks` counts steps at some depths, as far as the limits allow. `Moves` says what a walk may
change: its count by such steps alone. `Returns` says that a walk ends, has only moved, and leaves a
state of some kind where it does not match.
-/

namespace WordPattern.Walk

open Search (Loop noteEnd)

/-! ## Ends that are noted -/

/-- Notes ends one after the other. -/
def noteAll (ends : List Nat) (noted : List (List Nat)) : List (List Nat) :=
  ends.foldl (fun noted e => noteEnd e noted) noted

theorem noteAll_append (ends more : List Nat) (noted : List (List Nat)) :
    noteAll (ends ++ more) noted = noteAll more (noteAll ends noted) :=
  List.foldl_append ..

theorem noteAll_nil (ends : List Nat) : noteAll ends [] = [] := by
  induction ends with
  | nil => rfl
  | cons e ends ih => exact ih

/-- Ends that are new are noted behind the others. -/
theorem noteAll_cons (ends : List Nat) (first : List Nat) (outer : List (List Nat)) :
    ∃ fresh, noteAll ends (first :: outer) = (first ++ fresh) :: outer ∧
      ∀ e, e ∈ first ++ fresh ↔ e ∈ first ∨ e ∈ ends := by
  induction ends generalizing first with
  | nil => exact ⟨[], by rw [List.append_nil]; rfl, by simp⟩
  | cons e ends ih =>
    by_cases h : first.contains e
    · obtain ⟨fresh, hall, hmem⟩ := ih first
      refine ⟨fresh, ?_, fun x => (hmem x).trans ?_⟩
      · rw [noteAll, List.foldl_cons, noteEnd, if_pos h]
        exact hall
      · have he : e ∈ first := by simpa using h
        grind
    · obtain ⟨fresh, hall, hmem⟩ := ih (first ++ [e])
      refine ⟨e :: fresh, ?_, fun x => ?_⟩
      · rw [noteAll, List.foldl_cons, noteEnd, if_neg h]
        exact hall.trans (by rw [← List.append_cons])
      · rw [List.append_cons]
        exact (hmem x).trans (by grind)

/-- Ends that are noted already are not noted again. -/
theorem noteAll_of_mem {ends first : List Nat} (outer : List (List Nat))
    (h : ∀ e ∈ ends, e ∈ first) : noteAll ends (first :: outer) = first :: outer := by
  induction ends with
  | nil => rfl
  | cons e ends ih =>
    obtain ⟨he, hends⟩ := List.forall_mem_cons.mp h
    rw [noteAll, List.foldl_cons, noteEnd, if_pos (by simpa using he)]
    exact ih hends

theorem noteAll_absorb {ends more : List Nat} (h : ∀ e ∈ more, e ∈ ends)
    (noted : List (List Nat)) : noteAll (ends ++ more) noted = noteAll ends noted := by
  rw [noteAll_append]
  cases noted with
  | nil => rw [noteAll_nil, noteAll_nil]
  | cons first outer =>
    obtain ⟨fresh, hall, hmem⟩ := noteAll_cons ends first outer
    rw [hall]
    exact noteAll_of_mem outer fun e he => (hmem e).mpr (.inr (h e he))

/-! ## Counts -/

namespace Count

variable {limits : Limits} {depth : Nat} {k : Count} {cause : CutOff}

/-- The count with the flag of a limit. -/
def stop (k : Count) : CutOff → Count
  | .steps => { k with outOfSteps := true }
  | .depth => { k with tooDeep := true }

theorem stopped_eq_none_iff : k.stopped = none ↔ k.outOfSteps = false ∧ k.tooDeep = false := by
  obtain ⟨steps, outOfSteps, tooDeep⟩ := k
  cases outOfSteps <;> cases tooDeep <;> simp [stopped]

theorem stopped_stop {steps : Nat} (h : k.stopped = none) :
    ({ k with steps }.stop cause).stopped = some cause := by
  obtain ⟨hsteps, hdepth⟩ := stopped_eq_none_iff.mp h
  cases cause <;> simp [stop, stopped, hsteps]

@[simp] theorem stop_steps : (k.stop cause).steps = k.steps := by cases cause <;> rfl

/-- Once a flag is set, nothing is counted any more. -/
theorem tick_stopped (h : k.stopped ≠ none) : k.tick limits depth = (false, k) := by
  have hflag : (k.outOfSteps || k.tooDeep) = true := by
    rw [← Bool.not_eq_false, Bool.or_eq_false_iff, ← stopped_eq_none_iff]
    exact h
  rw [tick, if_pos hflag]

theorem tick_counted (hs : k.stopped = none)
    (hx : Search.exceeded? limits k.steps depth = none) :
    k.tick limits depth = (true, { k with steps := k.steps + 1 }) := by
  obtain ⟨hout, hdeep⟩ := stopped_eq_none_iff.mp hs
  obtain ⟨hsteps, hdepth⟩ := Search.exceeded?_eq_none hx
  simp [tick, hout, hdeep, Nat.not_lt.mpr (Nat.succ_le_of_lt hsteps), Nat.not_lt.mpr hdepth]

theorem tick_exceeded (hs : k.stopped = none)
    (hx : Search.exceeded? limits k.steps depth = some cause) :
    k.tick limits depth = (false, { k with steps := k.steps + 1 }.stop cause) := by
  obtain ⟨hout, hdeep⟩ := stopped_eq_none_iff.mp hs
  rw [Search.exceeded?] at hx
  split at hx
  · rename_i hsteps
    cases hx
    simp [tick, hout, hdeep, hsteps, stop]
  · rename_i hsteps
    split at hx
    · rename_i hdepth
      cases hx
      simp [tick, hout, hdeep, hsteps, hdepth, stop]
    · cases hx

/-- What happens when a step is counted: nothing, if the walk has stopped; else the count grows, and
a limit may be run into. -/
theorem tick_cases (limits : Limits) (depth : Nat) (k : Count) :
    (k.stopped ≠ none ∧ k.tick limits depth = (false, k)) ∨
    (∃ cause, k.stopped = none ∧ Search.exceeded? limits k.steps depth = some cause ∧
      k.tick limits depth = (false, { k with steps := k.steps + 1 }.stop cause)) ∨
    (k.stopped = none ∧ Search.exceeded? limits k.steps depth = none ∧
      k.tick limits depth = (true, { k with steps := k.steps + 1 })) := by
  by_cases hs : k.stopped = none
  · cases hx : Search.exceeded? limits k.steps depth with
    | some cause => exact .inr (.inl ⟨cause, hs, rfl, tick_exceeded hs hx⟩)
    | none => exact .inr (.inr ⟨hs, rfl, tick_counted hs hx⟩)
  · exact .inl ⟨hs, tick_stopped hs⟩

/-- The count after steps at some depths, as far as they are counted. -/
def ticks (limits : Limits) (depths : List Nat) (k : Count) : Count :=
  depths.foldl (fun k depth => (k.tick limits depth).2) k

theorem ticks_append (limits : Limits) (depths more : List Nat) (k : Count) :
    k.ticks limits (depths ++ more) = (k.ticks limits depths).ticks limits more :=
  List.foldl_append

/-- What a single step keeps of a count is kept by any number of them. -/
theorem ticks_induction {P : Count → Prop} (h : ∀ k depth, P k → P (k.tick limits depth).2)
    (depths : List Nat) (hk : P k) : P (k.ticks limits depths) := by
  induction depths generalizing k with
  | nil => exact hk
  | cons depth rest ih => exact ih (h k depth hk)

theorem steps_le_ticks (depths : List Nat) : k.steps ≤ (k.ticks limits depths).steps := by
  refine ticks_induction (P := fun l => k.steps ≤ l.steps) (fun l depth hl => ?_) depths
    (Nat.le_refl _)
  rcases tick_cases limits depth l with ⟨-, h⟩ | ⟨cause, -, -, h⟩ | ⟨-, -, h⟩ <;> rw [h]
  · exact hl
  · rw [stop_steps]
    exact Nat.le_succ_of_le hl
  · exact Nat.le_succ_of_le hl

theorem ticks_of_stopped (h : k.stopped ≠ none) (depths : List Nat) :
    k.ticks limits depths = k := by
  refine ticks_induction (P := fun l => l = k) (fun l depth hl => ?_) depths rfl
  rw [hl, tick_stopped h]

end Count

/-! ## What a walk may change -/

/-- A bound on the steps that can still be counted, and on the attempts to count one. -/
def State.left (limits : Limits) (s : State) : Nat :=
  if s.stopped.isSome then 1 else limits.steps - s.steps + 2

theorem State.left_pos (limits : Limits) (s : State) : 0 < s.left limits := by
  unfold State.left
  split
  · exact Nat.one_pos
  · exact Nat.succ_pos _

theorem State.left_le (limits : Limits) (s : State) : s.left limits ≤ limits.steps + 2 := by
  unfold State.left
  split <;> omega

/-- What a walk that stays behind a place may change. It counts steps at some depths, and nothing
else touches the count. -/
structure Moves (limits : Limits) (low : Nat) (s t : State) : Prop where
  storage : t.buffer.storage = s.buffer.storage
  sound : t.sound = s.sound
  above : low ≤ t.position
  below : t.position ≤ s.buffer.size
  ticked : ∃ depths, t.toCount = s.toCount.ticks limits depths
  noted : ∃ ends, t.noted = noteAll ends s.noted ∧ ∀ e ∈ ends, low ≤ e ∧ e ≤ s.buffer.size

namespace Moves

variable {limits : Limits} {low place : Nat} {s t u : State}

theorem bytes (h : Moves limits low s t) : t.buffer.bytes = s.buffer.bytes :=
  congrArg Storage.toBytes h.storage

theorem size (h : Moves limits low s t) : t.buffer.size = s.buffer.size :=
  congrArg ByteArray.size h.bytes

theorem inside (h : Moves limits low s t) : t.position ≤ t.buffer.size := h.size ▸ h.below

theorem steps (h : Moves limits low s t) : s.steps ≤ t.steps := by
  obtain ⟨depths, hticked⟩ := h.ticked
  rw [hticked]
  exact Count.steps_le_ticks depths

/-- A walk that has stopped counts nothing. -/
theorem latched (h : Moves limits low s t) (hs : s.stopped ≠ none) : t.toCount = s.toCount := by
  obtain ⟨depths, hticked⟩ := h.ticked
  rw [hticked, Count.ticks_of_stopped hs]

theorem refl (hlow : low ≤ s.position) (hs : s.position ≤ s.buffer.size) :
    Moves limits low s s where
  storage := rfl
  sound := rfl
  above := hlow
  below := hs
  ticked := ⟨[], rfl⟩
  noted := ⟨[], rfl, by simp⟩

theorem trans (h : Moves limits low s t) (h' : Moves limits low t u) : Moves limits low s u where
  storage := h'.storage.trans h.storage
  sound := h'.sound.trans h.sound
  above := h'.above
  below := h.size ▸ h'.below
  ticked := by
    obtain ⟨depths, ht⟩ := h.ticked
    obtain ⟨more, hu⟩ := h'.ticked
    exact ⟨depths ++ more, by rw [Count.ticks_append, ← ht, hu]⟩
  noted := by
    obtain ⟨ends, hn, he⟩ := h.noted
    obtain ⟨ends', hn', he'⟩ := h'.noted
    refine ⟨ends ++ ends', by rw [noteAll_append, ← hn, hn'], fun e hmem => ?_⟩
    rcases List.mem_append.mp hmem with hmem | hmem
    · exact he e hmem
    · exact h.size ▸ he' e hmem

theorem weaken {lower : Nat} (hl : lower ≤ low) (h : Moves limits low s t) :
    Moves limits lower s t where
  storage := h.storage
  sound := h.sound
  above := Nat.le_trans hl h.above
  below := h.below
  ticked := h.ticked
  noted := by
    obtain ⟨ends, hn, he⟩ := h.noted
    exact ⟨ends, hn, fun e hmem => ⟨Nat.le_trans hl (he e hmem).1, (he e hmem).2⟩⟩

/-- Where the position is at the start does not matter. -/
theorem of_moved (h : Moves limits low (s.moved place) t) : Moves limits low s t :=
  ⟨h.1, h.2, h.3, h.4, h.5, h.6⟩

theorem moved (h : Moves limits low s t) (hlow : low ≤ place) (hs : place ≤ s.buffer.size) :
    Moves limits low s (t.moved place) :=
  ⟨h.1, h.2, hlow, hs, h.5, h.6⟩

/-- A walk that has not stopped had not stopped before. -/
theorem running (h : Moves limits low s t) (ht : t.stopped = none) : s.stopped = none := by
  refine Decidable.byContradiction fun hs => ?_
  rw [h.latched hs] at ht
  exact hs ht

theorem left_le (h : Moves limits low s t) (limits' : Limits) :
    t.left limits' ≤ s.left limits' := by
  by_cases hs : s.stopped = none
  · have := h.steps
    simp only [State.left, hs, Option.isSome_none, Bool.false_eq_true, ↓reduceIte]
    split <;> omega
  · exact Nat.le_of_eq (by rw [State.left, State.left, h.latched hs])

theorem tick {depth : Nat} {counts : Bool} (hlow : low ≤ s.position)
    (hs : s.position ≤ s.buffer.size) (h : s.tick limits depth = (counts, t)) :
    Moves limits low s t := by
  cases h
  exact ⟨rfl, rfl, hlow, hs, ⟨[depth], rfl⟩, [], rfl, by simp⟩

end Moves

namespace State

variable {limits : Limits} {depth : Nat} {counts : Bool} {s t : State}

theorem tick_position (h : s.tick limits depth = (counts, t)) : t.position = s.position := by
  cases h
  rfl

theorem tick_noted (h : s.tick limits depth = (counts, t)) : t.noted = s.noted := by
  cases h
  rfl

theorem tick_counted (hs : s.stopped = none)
    (hx : Search.exceeded? limits s.steps depth = none) :
    s.tick limits depth = (true, { s with steps := s.steps + 1 }) := by
  rw [tick, Count.tick_counted hs hx]

theorem tick_exceeded {cause : CutOff} (hs : s.stopped = none)
    (hx : Search.exceeded? limits s.steps depth = some cause) :
    s.tick limits depth =
      (false, { s with toCount := { s.toCount with steps := s.steps + 1 }.stop cause }) := by
  rw [tick, Count.tick_exceeded hs hx]

/-- A step is counted only by a walk that has not stopped, and does not stop then. -/
theorem tick_true (h : s.tick limits depth = (true, t)) : s.stopped = none ∧ t.stopped = none := by
  rcases Count.tick_cases limits depth s.toCount with ⟨-, hk⟩ | ⟨cause, -, -, hk⟩ | ⟨hs, -, hk⟩ <;>
    rw [tick, hk] at h <;> cases h
  exact ⟨hs, hs⟩

theorem tick_false (h : s.tick limits depth = (false, t)) : t.stopped ≠ none := by
  rcases Count.tick_cases limits depth s.toCount with ⟨hs, hk⟩ | ⟨cause, hs, -, hk⟩ | ⟨-, -, hk⟩ <;>
    rw [tick, hk] at h <;> cases h
  · exact hs
  · rw [Count.stopped_stop hs]
    exact Option.some_ne_none cause

/-- A walk that has not stopped has less left once it has tried to count a step. -/
theorem tick_left (h : s.tick limits depth = (counts, t)) (hs : s.stopped = none) :
    t.left limits < s.left limits := by
  rcases Count.tick_cases limits depth s.toCount with
    ⟨hstop, -⟩ | ⟨cause, -, -, hk⟩ | ⟨-, hx, hk⟩
  · exact absurd hs hstop
  · rw [tick, hk] at h
    cases h
    simp [left, hs, Count.stopped_stop hs]
  · have := (Search.exceeded?_eq_none hx).1
    rw [tick, hk] at h
    cases h
    have hnext : Count.stopped { s.toCount with steps := s.steps + 1 } = none := hs
    simp only [left, hs, hnext, Option.isSome_none, Bool.false_eq_true, ↓reduceIte]
    omega

end State

/-! ## Walks that end -/

/-- The walk ends and has only moved; where it does not match, the state it leaves is of some kind.
-/
def Returns (limits : Limits) (m : Walk (Option Trail)) (s : State) (low : Nat)
    (left : State → Prop) : Prop :=
  ∃ found t, m s = some (found, t) ∧ Moves limits low s t ∧ (found = none → left t)

/-- The walk ends behind its start, and where it does not match, it is back there. -/
def Restores (limits : Limits) (m : Walk (Option Trail)) (s : State) : Prop :=
  Returns limits m s s.position fun t => t.position = s.position

/-- The walk ends somewhere behind a place. -/
def Roams (limits : Limits) (low : Nat) (m : Walk (Option Trail)) (s : State) : Prop :=
  Returns limits m s low fun _ => True

namespace Returns

variable {limits : Limits} {low : Nat} {m first second : Walk (Option Trail)} {s : State}
  {P Q : State → Prop}

theorem mono {lower : Nat} (h : Returns limits m s low P) (hl : lower ≤ low)
    (hP : ∀ t, Moves limits low s t → P t → Q t) : Returns limits m s lower Q := by
  obtain ⟨found, t, hm, hmoves, hleft⟩ := h
  exact ⟨found, t, hm, hmoves.weaken hl, fun hf => hP t hmoves (hleft hf)⟩

theorem orElse (h : Returns limits first s low P)
    (h' : ∀ t, Moves limits low s t → P t → Returns limits second t low Q) :
    Returns limits (orElse first second) s low Q := by
  obtain ⟨found, t, hm, hmoves, hleft⟩ := h
  cases found with
  | some found => exact ⟨some found, t, orElse_found hm, hmoves, by simp⟩
  | none =>
    obtain ⟨found, u, hm', hmoves', hleft'⟩ := h' t hmoves (hleft rfl)
    exact ⟨found, u, (orElse_missed hm).trans hm', hmoves.trans hmoves', hleft'⟩

theorem miss (hlow : low ≤ s.position) (hs : s.position ≤ s.buffer.size) (hP : P s) :
    Returns limits Walk.miss s low P :=
  ⟨none, s, rfl, .refl hlow hs, fun _ => hP⟩

/-- A move to a place in the text, and what follows it. -/
theorem after {move : State → State} {place : Nat} (hmove : move s = s.moved place)
    (h : Returns limits m (s.moved place) low P) : Returns limits (Walk.after move m) s low P := by
  obtain ⟨found, t, hm, hmoves, hleft⟩ := h
  exact ⟨found, t, by rw [after_apply, hmove, hm], hmoves.of_moved, hleft⟩

theorem counted {depth : Nat} (hlow : low ≤ s.position) (hs : s.position ≤ s.buffer.size)
    (hP : ∀ t, t.position = s.position → P t)
    (h : ∀ t, s.tick limits depth = (true, t) → Returns limits m t low P) :
    Returns limits (Walk.counted limits depth m) s low P := by
  rcases htick : s.tick limits depth with ⟨counts, t⟩
  have hmoves := Moves.tick hlow hs htick
  cases counts with
  | false =>
    refine ⟨none, t, ?_, hmoves, fun _ => hP t (State.tick_position htick)⟩
    rw [Walk.counted, modifyGet_bind, htick]
    rfl
  | true =>
    obtain ⟨found, u, hm, hmoves', hleft⟩ := h t htick
    exact ⟨found, u, (counted_true htick).trans hm, hmoves.trans hmoves', hleft⟩

end Returns

section

variable {limits : Limits} {low : Nat} {m first second : Walk (Option Trail)} {s : State}

theorem Restores.roams (h : Restores limits m s) (hlow : low ≤ s.position) : Roams limits low m s :=
  h.mono hlow fun _ _ _ => trivial

theorem Restores.miss (hs : s.position ≤ s.buffer.size) : Restores limits Walk.miss s :=
  Returns.miss (Nat.le_refl _) hs rfl

/-- A walk that is made only under a condition. -/
theorem Restores.when {b : Bool} (hs : s.position ≤ s.buffer.size)
    (h : b = true → Restores limits m s) : Restores limits (if b then m else Walk.miss) s := by
  cases b with
  | true => exact h rfl
  | false => exact .miss hs

theorem Roams.miss (hlow : low ≤ s.position) (hs : s.position ≤ s.buffer.size) :
    Roams limits low Walk.miss s :=
  Returns.miss hlow hs trivial

theorem Roams.when {b : Bool} (hlow : low ≤ s.position) (hs : s.position ≤ s.buffer.size)
    (h : b = true → Roams limits low m s) : Roams limits low (if b then m else Walk.miss) s := by
  cases b with
  | true => exact h rfl
  | false => exact .miss hlow hs

theorem Restores.orElse (h : Restores limits first s)
    (h' : ∀ t, Moves limits s.position s t → t.position = s.position → Restores limits second t) :
    Restores limits (Walk.orElse first second) s :=
  Returns.orElse h fun t hmoves ht => by
    have hr := h' t hmoves ht
    unfold Restores at hr
    rwa [ht] at hr

end

/-! ## Reading on -/

/-- Reads on to a place for a first way, and comes back for a second one. -/
def onward (finish : Option Nat) (first second : Walk (Option Trail)) : Walk (Option Trail) :=
  fun s =>
    match finish with
    | some place =>
      orElse first (after (·.unread (place - s.position)) second) (s.moved place)
    | none => second s

variable {c : Setting} {inner : Entry} {trail : Trail} {k : Search.Continuation} {depth : Nat}
  {s : State}

theorem consuming_eq (node : Node) (hs : s.position ≤ s.buffer.size) :
    consuming c inner trail k depth node s =
      onward (singleEnd? c.environment.texts trail s.buffer.bytes s.position node)
        (resume inner trail k depth) miss s := by
  rw [consuming, modifyGet_bind, single_eq _ _ _ hs]
  cases singleEnd? c.environment.texts trail s.buffer.bytes s.position node <;> rfl

theorem widths_cons_eq (low high : List UInt8) (negated : Bool) (width : Nat) (rest : List Nat)
    (hs : s.position ≤ s.buffer.size) :
    widths inner low high negated (width :: rest) trail k depth s =
      onward (widthEnd? s.buffer.bytes low high negated s.position width)
        (resume inner trail k depth) (widths inner low high negated rest trail k depth) s := by
  have hsize : (s.buffer.bytes.extract s.position (s.position + width)).size =
      min (s.position + width) s.buffer.size - s.position := ByteArray.size_extract
  have hback : ∀ place, s.position ≤ place →
      (s.moved place).unread (place - s.position) = s := fun place hle => by
    rw [State.unread_eq (by simp only [State.moved_position]; omega), State.moved_position,
      Nat.sub_sub_self hle, State.moved_moved, State.moved_self]
  rw [widths_cons, State.read_eq]
  simp only [hsize, widthEnd?, bytesAt?]
  by_cases hle : s.position + width ≤ s.buffer.bytes.size
  · have hmin : min (s.position + width) s.buffer.size = s.position + width := Nat.min_eq_left hle
    simp only [hle, hmin, ↓reduceIte, Nat.add_sub_cancel_left, decide_true, Bool.true_and]
    split
    · simp only [onward, Nat.add_sub_cancel_left]
    · have hwidth := hback (s.position + width) (by omega)
      rw [Nat.add_sub_cancel_left] at hwidth
      rw [after_apply, hwidth]
      rfl
  · have hmin : min (s.position + width) s.buffer.size = s.buffer.size :=
      Nat.min_eq_right (Nat.le_of_not_le hle)
    have hshort : ¬ s.buffer.size - s.position = width := by
      change ¬ s.position + width ≤ s.buffer.size at hle
      omega
    simp only [hle, hmin, hshort, ↓reduceIte, decide_false, Bool.false_and, Bool.false_eq_true]
    rw [after_apply, hback _ hs]
    rfl

theorem onward_restores {finish : Option Nat} {first second : Walk (Option Trail)}
    (hs : s.position ≤ s.buffer.size)
    (hbounds : ∀ place, finish = some place → s.position ≤ place ∧ place ≤ s.buffer.size)
    (h : ∀ t, Moves limits s.position s t → Restores limits first t)
    (h' : ∀ t, Moves limits s.position s t → t.position = s.position → Restores limits second t) :
    Restores limits (onward finish first second) s := by
  cases finish with
  | none => exact h' s (.refl (Nat.le_refl _) hs) rfl
  | some place =>
    obtain ⟨hlo, hhi⟩ := hbounds place rfl
    have hmoved : Moves limits s.position s (s.moved place) :=
      (Moves.refl (Nat.le_refl _) hs).moved hlo hhi
    have tail : Returns limits (orElse first (after (·.unread (place - s.position)) second))
        (s.moved place) s.position (fun t => t.position = s.position) := by
      refine Returns.orElse (P := fun t => t.position = place) ?_ fun t ht hp => ?_
      · exact (h _ hmoved).mono hlo fun _ _ hp => hp
      · have hback : t.unread (place - s.position) = t.moved s.position := by
          rw [State.unread_eq (by omega), hp, Nat.sub_sub_self hlo]
        have hthere := (hmoved.trans ht).moved (Nat.le_refl _) hs
        exact Returns.after hback (h' _ hthere rfl)
    obtain ⟨found, t, hm, hmoves, hleft⟩ := tail
    exact ⟨found, t, hm, hmoves.of_moved, hleft⟩

end WordPattern.Walk
