import WordPattern.Proofs.Search.Tasks
import WordPattern.Proofs.Walk.Cursor

/-!
# Walks and the machine

A walk that has come back has done what the machine does with the tasks that stand for it: it has
counted the same steps and noted the same ends, and it has either stopped, found a match, or left
the machine with the rest of its agenda.
-/

namespace WordPattern

/-- Every method is used for bodies that it is right for. -/
structure Setting.Fits (c : Setting) : Prop where
  stepwise : ∀ body, c.method body = .stepwise → body.isStep = true
  gathered : ∀ body, c.method body = .gathered → body.bindsNothing = true

theorem Setting.fits_of {c : Setting} (h : c.method = Method.of) : c.Fits := by
  constructor
  · intro body hb
    rw [h, Method.of] at hb
    split at hb
    · assumption
    · split at hb <;> cases hb
  · intro body hb
    rw [h, Method.of] at hb
    split at hb
    · cases hb
    · split at hb
      · assumption
      · cases hb

theorem Setting.fits_general {c : Setting} (h : c.method = fun _ => .general) : c.Fits := by
  constructor
  · intro body hb
    rw [h] at hb
    cases hb
  · intro body hb
    rw [h] at hb
    cases hb

/-- The end of the whole pattern is behind the continuation. -/
def Search.Continuation.isFinal : Search.Continuation → Bool
  | .done => true
  | .note => false
  | .chain _ k => k.isFinal
  | .bind _ _ k => k.isFinal
  | .again _ _ _ _ _ k => k.isFinal

namespace Walk

open Search (Continuation Loop Task Attempt run resumeAt resumeThen exceeded?)

/-! ## Runs of the machine that a walk stands for -/

/-- What the machine comes to when a walk has come back. -/
def proceed (c : Setting) (found : Option Trail) (t : State) (rest : List Task) : Attempt :=
  match t.stopped with
  | some cause => ⟨.cutOff cause, t.steps⟩
  | none =>
    match found with
    | some trail => ⟨.found t.position trail.captures, t.steps⟩
    | none => run c ⟨rest, t.noted, t.steps⟩

/-- From a state, a walk does what the machine does with some tasks. A match is found only if that
is possible. -/
def Agrees (c : Setting) (final : Bool) (tasks : List Task) (m : Walk (Option Trail)) (s : State) :
    Prop :=
  ∀ found t, m s = some (found, t) → (found.isSome → final = true) ∧
    (s.stopped = none → ∀ rest,
      run c ⟨tasks ++ rest, s.noted, s.steps⟩ = proceed c found t rest)

variable {c : Setting} {final : Bool} {s t : State}

theorem proceed_stopped {found : Option Trail} {cause : CutOff} (h : t.stopped = some cause)
    (rest : List Task) : proceed c found t rest = ⟨.cutOff cause, t.steps⟩ := by
  simp only [proceed, h]

theorem proceed_missed (h : t.stopped = none) (rest : List Task) :
    proceed c none t rest = run c ⟨rest, t.noted, t.steps⟩ := by
  simp only [proceed, h]

theorem proceed_moved {place : Nat} (rest : List Task) :
    proceed c none (t.moved place) rest = proceed c none t rest := by
  simp only [proceed, State.moved_stopped, State.moved_noted, State.moved_steps]

/-- What a walk does after it has stopped changes nothing for the machine. -/
theorem proceed_latched {low : Nat} {u : State} {found : Option Trail} {cause : CutOff}
    (h : t.stopped = some cause) (hmoves : Moves c.limits low t u) (rest : List Task) :
    proceed c found u rest = ⟨.cutOff cause, t.steps⟩ := by
  have hlatched : u.toCount = t.toCount := hmoves.latched (by rw [h]; exact Option.some_ne_none _)
  rw [proceed_stopped (by rw [hlatched, h]), hlatched]

namespace Agrees

variable {low : Nat} {first second m : Walk (Option Trail)} {tasks front back : List Task}
  {P : State → Prop}

/-- Other tasks that come to the same. -/
theorem congr (h : Agrees c final front m s)
    (hrun : ∀ rest, run c ⟨tasks ++ rest, s.noted, s.steps⟩ =
      run c ⟨front ++ rest, s.noted, s.steps⟩) : Agrees c final tasks m s := by
  intro found t hm
  obtain ⟨hfinal, h⟩ := h found t hm
  exact ⟨hfinal, fun hs rest => (hrun rest).trans (h hs rest)⟩

theorem of_eq (hm : m s = first s) (h : Agrees c final tasks first s) :
    Agrees c final tasks m s := fun found t ht => h found t (hm ▸ ht)

theorem miss : Agrees c final [] Walk.miss s := by
  intro found t hm
  cases hm
  exact ⟨by simp, fun hs rest => (proceed_missed hs rest).symm⟩

theorem stopped (h : s.stopped.isSome) : Agrees c final tasks Walk.miss s := by
  intro found t hm
  cases hm
  exact ⟨by simp, fun hs => by rw [hs] at h; cases h⟩

/-- Tasks that are split into those for a first way and those for a second one. -/
theorem split (back : List Task) (h : Agrees c final front first s)
    (hr : Returns c.limits first s low P)
    (h' : ∀ t, Moves c.limits low s t → P t →
      Roams c.limits low second t ∧ Agrees c final back second t)
    (hrun : ∀ rest, ∃ behind,
      run c ⟨tasks ++ rest, s.noted, s.steps⟩ = run c ⟨front ++ behind, s.noted, s.steps⟩ ∧
        ∀ noted steps, run c ⟨behind, noted, steps⟩ = run c ⟨back ++ rest, noted, steps⟩) :
    Agrees c final tasks (orElse first second) s := by
  intro found u hm
  obtain ⟨found', t, hfirst, hmoves, hleft⟩ := hr
  obtain ⟨hfinal, h⟩ := h found' t hfirst
  cases found' with
  | some trail =>
    rw [orElse_found hfirst] at hm
    cases hm
    refine ⟨fun _ => hfinal rfl, fun hs rest => ?_⟩
    obtain ⟨behind, hrun, _⟩ := hrun rest
    rw [hrun, h hs]
    rfl
  | none =>
    rw [orElse_missed hfirst] at hm
    obtain ⟨⟨found'', u', hsecond, hmoves', _⟩, h''⟩ := h' t hmoves (hleft rfl)
    obtain ⟨hfinal', h''⟩ := h'' found u hm
    refine ⟨hfinal', fun hs rest => ?_⟩
    obtain ⟨behind, hrun, hbehind⟩ := hrun rest
    rw [hrun, h hs]
    cases hstop : t.stopped with
    | none => rw [proceed_missed hstop, hbehind, h'' hstop]
    | some cause =>
      cases hsecond.symm.trans hm
      rw [proceed_stopped hstop, proceed_latched hstop hmoves']

theorem orElse (h : Agrees c final front first s) (hr : Returns c.limits first s low P)
    (h' : ∀ t, Moves c.limits low s t → P t →
      Roams c.limits low second t ∧ Agrees c final back second t) :
    Agrees c final (front ++ back) (Walk.orElse first second) s :=
  h.split back hr h' fun rest => ⟨back ++ rest, by rw [List.append_assoc], fun _ _ => rfl⟩

/-- A second way that cannot match. -/
theorem orMiss {move : State → State} (h : Agrees c final tasks first s)
    (hr : Returns c.limits first s low P)
    (h' : ∀ t, Moves c.limits low s t → P t → ∃ place, move t = t.moved place) :
    Agrees c final tasks (Walk.orElse first (Walk.after move Walk.miss)) s := by
  intro found u hm
  obtain ⟨found', t, hfirst, hmoves, hleft⟩ := hr
  obtain ⟨hfinal, h⟩ := h found' t hfirst
  cases found' with
  | some trail =>
    rw [orElse_found hfirst] at hm
    cases hm
    exact ⟨hfinal, h⟩
  | none =>
    obtain ⟨place, hplace⟩ := h' t hmoves (hleft rfl)
    rw [orElse_missed hfirst, after_apply, hplace] at hm
    cases hm
    exact ⟨by simp, fun hs rest => (h hs rest).trans (proceed_moved rest).symm⟩

theorem after {move : State → State} {place : Nat} (hmove : move s = s.moved place)
    (h : Agrees c final tasks m (s.moved place)) : Agrees c final tasks (Walk.after move m) s := by
  intro found t hm
  rw [after_apply, hmove] at hm
  exact h found t hm

/-- A step that is counted before a walk. -/
theorem counted (front : List Task) {depth : Nat} (h : ∀ t, s.tick c.limits depth = (true, t) →
      Agrees c final front m t)
    (hrun : ∀ rest, exceeded? c.limits s.steps depth = none →
      run c ⟨tasks ++ rest, s.noted, s.steps⟩ = run c ⟨front ++ rest, s.noted, s.steps + 1⟩)
    (hcut : ∀ rest cause, exceeded? c.limits s.steps depth = some cause →
      run c ⟨tasks ++ rest, s.noted, s.steps⟩ = ⟨.cutOff cause, s.steps + 1⟩) :
    Agrees c final tasks (Walk.counted c.limits depth m) s := by
  intro found u hm
  rcases htick : s.tick c.limits depth with ⟨counts, t⟩
  cases counts with
  | true =>
    rw [counted_true htick] at hm
    obtain ⟨hfinal, h⟩ := h t htick found u hm
    refine ⟨hfinal, fun hs rest => ?_⟩
    cases hx : exceeded? c.limits s.steps depth with
    | some cause =>
      rw [State.tick_exceeded hs hx] at htick
      cases htick
    | none =>
      rw [State.tick_counted hs hx] at htick
      cases htick
      rw [hrun rest hx]
      exact h hs rest
  | false =>
    rw [Walk.counted, modifyGet_bind, htick] at hm
    cases hm
    refine ⟨by simp, fun hs rest => ?_⟩
    cases hx : exceeded? c.limits s.steps depth with
    | some cause =>
      rw [State.tick_exceeded hs hx] at htick
      cases htick
      rw [hcut rest cause hx, proceed_stopped (Count.stopped_stop hs), Count.stop_steps]
    | none =>
      rw [State.tick_counted hs hx] at htick
      cases htick

/-- Tasks that there are only under a condition. -/
theorem when {b : Bool} (h : b = true → Agrees c final tasks m s) :
    Agrees c final (if b then tasks else []) (if b then m else Walk.miss) s := by
  cases b with
  | true => exact h rfl
  | false => exact miss

end Agrees

/-! ## States that a walk goes on from -/

/-- The state is in the text that is searched, and no more than `n` steps are left. -/
structure Ready (c : Setting) (n : Nat) (s : State) : Prop where
  text : s.buffer.bytes = c.text
  inside : s.position ≤ s.buffer.size
  left : s.left c.limits ≤ n

namespace Ready

variable {n low place : Nat}

theorem of_moves (h : Ready c n s) (hmoves : Moves c.limits low s t) : Ready c n t :=
  ⟨hmoves.bytes.trans h.text, hmoves.inside, Nat.le_trans (hmoves.left_le _) h.left⟩

theorem moved (h : Ready c n s) (hp : place ≤ s.buffer.size) : Ready c n (s.moved place) :=
  ⟨h.text, hp, h.left⟩

theorem weaken {m : Nat} (h : Ready c m s) (hle : m ≤ n) : Ready c n s :=
  ⟨h.text, h.inside, Nat.le_trans h.left hle⟩

theorem of_less (h : Ready c (n + 1) s) (hmoves : Moves c.limits low s t)
    (hlt : t.left c.limits < s.left c.limits) : Ready c n t :=
  ⟨hmoves.bytes.trans h.text, hmoves.inside, Nat.le_of_lt_succ (Nat.lt_of_lt_of_le hlt h.left)⟩

theorem tick {depth : Nat} (h : Ready c (n + 1) s) (ht : s.tick c.limits depth = (true, t)) :
    Ready c n t :=
  h.of_less (.tick (Nat.le_refl _) h.inside ht) (State.tick_left ht (State.tick_true ht).1)

end Ready

/-- While no more than `n` steps are left, entering a chain is what the machine does. -/
structure EnterAgrees (c : Setting) (n : Nat) (inner : Entry) : Prop where
  restores : Enters c n inner
  agrees : ∀ chain trail k depth s, Ready c n s →
    Agrees c k.isFinal [.enter chain s.position trail k depth] (inner chain trail k depth) s

variable {n m : Nat} {inner : Entry}

theorem EnterAgrees.weaken (hE : EnterAgrees c n inner) (h : m ≤ n) : EnterAgrees c m inner where
  restores := hE.restores.weaken h
  agrees chain trail k depth s hs := hE.agrees chain trail k depth s (hs.weaken h)

/-! ## Where a walk goes from such a state -/

theorem Ready.enter (hs : Ready c n s) (hE : Enters c n inner) (chain : Chain) (trail : Trail)
    (k : Continuation) (depth : Nat) : Restores c.limits (inner chain trail k depth) s :=
  (hE chain trail k depth s hs.left hs.inside).1

theorem Ready.resume (hs : Ready c n s) (hE : Enters c n inner) (trail : Trail) (k : Continuation)
    (depth : Nat) : Restores c.limits (resume inner trail k depth) s :=
  resume_restores hE k trail depth s hs.left hs.inside

theorem Ready.stopAt (hs : Ready c n s) (hE : Enters c n inner) (l : Loop) {place : Nat}
    (hp : place ≤ s.buffer.size) : Roams c.limits 0 (stopAt inner l place) s :=
  stopAt_roams hE l hs.left (Nat.zero_le _) hp

theorem Ready.explore (hs : Ready c n s) (hE : Enters c n inner) (l : Loop) {visits : List Visit}
    (hin : ∀ v ∈ visits, v.Within 0 s.buffer.size) :
    Roams c.limits 0 (explore inner l n visits) s :=
  explore_roams hE l 0 _ visits s hs.left hin (Nat.zero_le _) hs.inside rfl

theorem Ready.advance (hs : Ready c n s) (hE : Enters c n inner) (l : Loop) {visit : Visit}
    {ends : List Nat} {below : List Visit}
    (hvisit : Visit.Within 0 s.buffer.size { visit with ends := some ends })
    (hbelow : ∀ v ∈ below, v.Within 0 s.buffer.size) :
    Roams c.limits 0 (advance inner l n visit ends below) s :=
  advance_roams hE l (fun visits t _ => explore_roams hE l 0 _ visits t) ends hs.left
    (Nat.le_refl _) hvisit hbelow (Nat.zero_le _) hs.inside rfl

/-! ## What follows an element -/

theorem iterate_agrees (hE : EnterAgrees c n inner) {k : Continuation} {trail : Trail} {depth : Nat}
    (hR : ∀ s, Ready c n s →
      Agrees c k.isFinal [resumeAt s.position trail k depth] (resume inner trail k depth) s)
    (quantifier : Quantifier) (fewest : Bool) (node : Node) (count : Nat) (hs : Ready c n s) :
    Agrees c k.isFinal (Search.iterate quantifier fewest node count s.position trail k depth)
      (iterate inner quantifier fewest node count trail k depth) s := by
  have stop : ∀ t, Ready c n t → t.position = s.position →
      Agrees c k.isFinal
        (if quantifier.metBy count then [resumeAt s.position trail k depth] else [])
        (if quantifier.metBy count then resume inner trail k depth else miss) t :=
    fun t ht hp => .when fun _ => hp ▸ hR t ht
  have grow : ∀ t, Ready c n t → t.position = s.position →
      Agrees c k.isFinal
        (if quantifier.allowsAfter count then
          [.enter (.last node) s.position trail
            (.again quantifier fewest node (count + 1) s.position k) (depth + 1)]
        else [])
        (if quantifier.allowsAfter count then
          inner (.last node) trail (.again quantifier fewest node (count + 1) s.position k)
            (depth + 1)
        else miss) t :=
    fun t ht hp => .when fun _ => by
      rw [← hp]
      exact hE.agrees _ _ _ _ t ht
  refine .of_eq (iterate_eq inner trail k depth s quantifier fewest node count) ?_
  have hstop : ∀ t, Ready c n t →
      Restores c.limits (if quantifier.metBy count then resume inner trail k depth else miss) t :=
    fun t ht => .when ht.inside fun _ => ht.resume hE.restores trail k depth
  have hgrow : ∀ again t, Ready c n t →
      Restores c.limits (if quantifier.allowsAfter count then
        inner (.last node) trail again (depth + 1) else miss) t :=
    fun again t ht => .when ht.inside fun _ => ht.enter hE.restores _ trail again (depth + 1)
  cases fewest with
  | true =>
    refine Agrees.orElse (stop s hs rfl) (hstop s hs) fun t ht hp => ?_
    exact ⟨(hgrow _ t (hs.of_moves ht)).roams ht.above, grow t (hs.of_moves ht) hp⟩
  | false =>
    refine Agrees.orElse (grow s hs rfl) (hgrow _ s hs) fun t ht hp => ?_
    exact ⟨(hstop t (hs.of_moves ht)).roams ht.above, stop t (hs.of_moves ht) hp⟩

theorem resume_agrees (hE : EnterAgrees c n inner) (k : Continuation) :
    ∀ trail depth s, Ready c n s →
      Agrees c k.isFinal [resumeAt s.position trail k depth] (resume inner trail k depth) s := by
  induction k with
  | done =>
    intro trail depth s _ found t hm
    cases (resume_done inner trail depth s).symm.trans hm
    refine ⟨fun _ => rfl, fun hs rest => ?_⟩
    simp only [proceed, hs]
    exact Search.run_done
  | note =>
    intro trail depth s _ found t hm
    cases (resume_note inner trail depth s).symm.trans hm
    refine ⟨by simp, fun hs rest => ?_⟩
    simp only [proceed, hs]
    exact Search.run_note.trans Search.run_resume_nil
  | chain next k ih =>
    intro trail depth s hs
    rw [resume_chain]
    exact (hE.agrees _ _ _ _ s hs).congr fun rest => Search.run_follow (by simp) (by simp)
  | bind name start k ih =>
    intro trail depth s hs
    refine .of_eq (resume_bind ..) ((ih _ _ s hs).congr fun rest => ?_)
    refine (Search.run_follow (by simp) (by simp)).trans ?_
    rw [Search.follow, Buffer.slice, hs.text]
    rfl
  | again quantifier fewest node count start k ih =>
    intro trail depth s hs
    refine .of_eq (resume_again ..) ?_
    by_cases hempty : s.position = start && quantifier.metBy count
    · rw [if_pos hempty]
      refine (ih _ _ s hs).congr fun rest => (Search.run_follow (by simp) (by simp)).trans ?_
      rw [Search.follow, if_pos hempty]
      rfl
    · rw [if_neg hempty]
      refine (iterate_agrees hE (ih _ _) quantifier fewest node count hs).congr fun rest =>
        (Search.run_follow (by simp) (by simp)).trans ?_
      rw [Search.follow, if_neg hempty]
      rfl

/-! ## Choices -/

theorem choices_agrees (hE : EnterAgrees c n inner) (trail : Trail) (k : Continuation)
    (depth : Nat) : ∀ items s, Ready c n s →
      Agrees c k.isFinal
        (items.map fun i => .enter (.last i.node) s.position trail k (depth + 1))
        (choices inner items trail k depth) s := by
  intro items
  induction items with
  | nil =>
    intro s _
    rw [choices_nil]
    exact .miss
  | cons item items ih =>
    intro s hs
    rw [choices_cons]
    change Agrees c k.isFinal
      ([.enter (.last item.node) s.position trail k (depth + 1)] ++ items.map _) _ s
    refine Agrees.orElse (hE.agrees _ _ _ _ s hs) (hs.enter hE.restores ..) ?_
    intro t ht hp
    have hready := hs.of_moves ht
    refine ⟨(choices_restores hE.restores trail k depth items t hready.left hready.inside).roams
      ht.above, ?_⟩
    rw [← hp]
    exact ih t hready

/-- The machine follows a continuation from an end that is read, and then from the others. -/
theorem onward_agrees (hE : EnterAgrees c n inner) (trail : Trail) (k : Continuation) (depth : Nat)
    (finish : Option Nat) (ends : List Nat) (second : Walk (Option Trail)) (hs : Ready c n s)
    (hbounds : ∀ place, finish = some place → s.position ≤ place ∧ place ≤ s.buffer.size)
    (h' : ∀ t, Ready c n t → t.position = s.position →
      Restores c.limits second t ∧ Agrees c k.isFinal [.resume ends trail k depth] second t) :
    Agrees c k.isFinal [.resume (finish.toList ++ ends) trail k depth]
      (onward finish (resume inner trail k depth) second) s := by
  cases finish with
  | none => exact (h' s hs rfl).2
  | some place =>
    obtain ⟨hlo, hhi⟩ := hbounds place rfl
    have hmoved : Moves c.limits s.position s (s.moved place) :=
      (Moves.refl (Nat.le_refl _) hs.inside).moved hlo hhi
    have hfirst : Returns c.limits (resume inner trail k depth) (s.moved place) s.position
        (fun t => t.position = place) :=
      ((hs.moved hhi).resume hE.restores trail k depth).mono hlo fun _ _ hp => hp
    have tail : Agrees c k.isFinal [.resume (place :: ends) trail k depth]
        (orElse (resume inner trail k depth) (after (·.unread (place - s.position)) second))
        (s.moved place) := by
      refine (resume_agrees hE k trail depth _ (hs.moved hhi)).split
        [.resume ends trail k depth] hfirst ?_ ?_
      · intro t ht hp
        have hback : t.unread (place - s.position) = t.moved s.position := by
          rw [State.unread_eq (by omega), hp, Nat.sub_sub_self hlo]
        have hready := (hs.of_moves ht.of_moved).moved (ht.size ▸ hs.inside)
        obtain ⟨hr, ha⟩ := h' (t.moved s.position) hready rfl
        exact ⟨Returns.after hback (hr.roams (Nat.le_refl _)), .after hback ha⟩
      · intro rest
        exact ⟨resumeThen ends trail k depth rest, Search.run_resume_cons,
          fun _ _ => Search.run_resumeThen⟩
    exact tail

theorem widths_agrees (hE : EnterAgrees c n inner) (low high : List UInt8) (negated : Bool)
    (trail : Trail) (k : Continuation) (depth : Nat) :
    ∀ candidates s, Ready c n s →
      Agrees c k.isFinal
        [.resume (candidates.filterMap (widthEnd? c.text low high negated s.position)) trail k depth]
        (widths inner low high negated candidates trail k depth) s := by
  intro candidates
  induction candidates with
  | nil =>
    intro s _
    rw [widths_nil]
    exact Agrees.miss.congr fun rest => Search.run_resume_nil
  | cons width candidates ih =>
    intro s hs
    have hsplit : (width :: candidates).filterMap (widthEnd? c.text low high negated s.position) =
        (widthEnd? c.text low high negated s.position width).toList ++
          candidates.filterMap (widthEnd? c.text low high negated s.position) := by
      rw [List.filterMap_cons]
      cases widthEnd? c.text low high negated s.position width <;> rfl
    rw [hsplit, ← hs.text]
    refine .of_eq (widths_cons_eq low high negated width candidates hs.inside) ?_
    refine onward_agrees hE trail k depth _ _ _ hs
      (fun _ h => widthEnd?_bounds h) ?_
    intro t ht hp
    refine ⟨widths_restores hE.restores low high negated trail k depth _ t ht.left ht.inside, ?_⟩
    rw [hs.text, ← hp]
    exact ih t ht

/-- The tasks for an element that matches in one way. -/
def singleWays (c : Setting) (node : Node) (start : Nat) (trail : Trail) (k : Continuation)
    (depth : Nat) : List Task :=
  match singleEnd? c.environment.texts trail c.text start node with
  | some finish => [resumeAt finish trail k depth]
  | none => []

theorem ways_variableText (c : Setting) (name : String) (start : Nat) (trail : Trail)
    (k : Continuation) (depth : Nat) :
    Search.ways c (.variableText name) start trail k depth =
      singleWays c (.variableText name) start trail k depth := by
  simp only [Search.ways, singleWays, singleEnd?]
  generalize (trail.captures.get? name).or (c.environment.texts.get? name) = held
  cases held with
  | none => rfl
  | some value =>
    dsimp only
    split <;> rfl

theorem consuming_agrees (hE : EnterAgrees c n inner) (trail : Trail) (k : Continuation)
    (depth : Nat) (node : Node) (hs : Ready c n s) :
    Agrees c k.isFinal (singleWays c node s.position trail k depth)
      (consuming c inner trail k depth node) s := by
  refine .of_eq (consuming_eq node hs.inside) ?_
  have tail := onward_agrees hE trail k depth
    (singleEnd? c.environment.texts trail s.buffer.bytes s.position node) [] miss hs
    (fun _ h => singleEnd?_bounds h hs.inside) fun t ht _ =>
      ⟨.miss ht.inside, Agrees.miss.congr fun rest => Search.run_resume_nil⟩
  refine tail.congr fun rest => ?_
  rw [singleWays, hs.text]
  cases singleEnd? c.environment.texts trail c.text s.position node with
  | some finish => rfl
  | none => exact Search.run_resume_nil.symm

/-! ## Repeated steps -/

theorem climb_agrees (l : Loop) (hstep : l.body.isStep = true) (count : Nat) (older : List Nat)
    (s : State) (hs : Ready c m s) (hlength : older.length = count) :
    ∀ ends t, climb c l m count (s.position :: older) s = some (ends, t) → s.stopped = none →
      ∀ rest, run c ⟨.most l count (s.position :: older) :: rest, s.noted, s.steps⟩ =
        proceed c none t
          (.resume (ends.take (ends.length - l.quantifier.least)) l.trail l.k l.depth :: rest) := by
  induction m generalizing count older s with
  | zero => exact absurd_left hs.left
  | succ m ih =>
    intro ends t hclimb hstop rest
    have henough : l.enough count (s.position :: older) =
        (s.position :: older).take ((s.position :: older).length - l.quantifier.least) := by
      rw [Loop.enough, List.length_cons, hlength]
    rw [climb_eq] at hclimb
    cases hallows : l.quantifier.allowsAfter count with
    | false =>
      rw [hallows, if_neg (by simp)] at hclimb
      cases hclimb
      rw [Search.run_most_full hallows, henough, proceed_missed hstop]
    | true =>
      rw [hallows, if_pos rfl] at hclimb
      cases hx : exceeded? c.limits s.steps l.depth with
      | some cause =>
        rw [State.tick_exceeded hstop hx] at hclimb
        cases hclimb
        rw [Search.run_most_exceeded hallows hx, proceed_stopped (Count.stopped_stop hstop),
          Count.stop_steps]
      | none =>
        have htick := State.tick_counted hstop hx
        have hread : nodeStep c.environment.texts l.trail l.body { s with steps := s.steps + 1 } =
            State.endAt { s with steps := s.steps + 1 } (l.body.stepEnd? c.text s.position) :=
          hs.text ▸ nodeStep_eq _ _ _ hstep hs.inside
        rw [htick] at hclimb
        dsimp only at hclimb
        rw [hread] at hclimb
        rw [Search.run_most hallows hx]
        cases hend : l.body.stepEnd? c.text s.position with
        | none =>
          rw [hend] at hclimb
          cases hclimb
          rw [henough]
          exact (proceed_missed (t := { s with steps := s.steps + 1 }) hstop _).symm
        | some finish =>
          rw [hend] at hclimb
          have hb := stepEnd?_bounds l.body hstep (hs.text ▸ hs.inside) hend
          have hsize : finish ≤ s.buffer.bytes.size := by
            rw [hs.text]
            exact hb.2
          exact ih (count + 1) (s.position :: older) _ ((hs.tick htick).moved hsize)
            (by rw [List.length_cons, hlength]) ends t hclimb hstop rest

theorem descend_agrees (hE : EnterAgrees c n inner) (l : Loop) :
    ∀ ends s, Ready c n s → (∀ e ∈ ends, e ≤ s.position) → ends.Pairwise (· ≥ ·) →
      Agrees c l.k.isFinal [.resume ends l.trail l.k l.depth] (descend inner l ends) s := by
  intro ends
  induction ends with
  | nil =>
    intro s _ _ _
    rw [descend_nil]
    exact Agrees.miss.congr fun rest => Search.run_resume_nil
  | cons finish ends ih =>
    intro s hs hends hsorted
    have hle := hends finish (List.mem_cons_self ..)
    have hmoved := hs.moved (Nat.le_trans hle hs.inside)
    rw [descend_cons]
    refine .after (State.rewindTo_eq hle) ?_
    have hrest : ∀ t : State, t.position = finish → ∀ e ∈ ends, e ≤ t.position := fun t hp e he =>
      hp ▸ (List.pairwise_cons.mp hsorted).1 e he
    refine (resume_agrees hE l.k l.trail l.depth _ hmoved).split
      [.resume ends l.trail l.k l.depth] (P := fun t => t.position = finish)
      ((hmoved.resume hE.restores ..).mono (Nat.zero_le _) fun _ _ hp => hp) ?_ ?_
    · intro t ht hp
      have hready := hmoved.of_moves ht
      refine ⟨?_, ih t hready (hrest t hp) (List.pairwise_cons.mp hsorted).2⟩
      exact descend_roams hE.restores l 0 ends t hready.left (Nat.zero_le _) ht.inside
        (fun e he => ⟨Nat.zero_le _, hrest t hp e he⟩) (List.pairwise_cons.mp hsorted).2
    · intro rest
      exact ⟨resumeThen ends l.trail l.k l.depth rest, Search.run_resume_cons,
        fun _ _ => Search.run_resumeThen⟩

theorem most_agrees (hE : EnterAgrees c n inner) (l : Loop) (hstep : l.body.isStep = true)
    (hs : Ready c n s) : Agrees c l.k.isFinal [.most l 0 [s.position]] (most c inner l n) s := by
  intro found u hu
  obtain ⟨ends, t, hclimb, hmoves, hends, hsorted⟩ :=
    climb_ends c l s.position n 0 [s.position] s hs.left (Nat.le_refl _) hs.inside (by simp)
      (by simp)
  rw [most_of c inner l n s hclimb] at hu
  have hends' : ∀ e ∈ ends.take (ends.length - l.quantifier.least), e ≤ t.position :=
    fun e he => (hends e (List.mem_of_mem_take he)).2
  have hsorted' := hsorted.sublist (List.take_sublist (ends.length - l.quantifier.least) ends)
  obtain ⟨hfinal, hrun⟩ :=
    descend_agrees hE l _ t (hs.of_moves hmoves) hends' hsorted' found u hu
  refine ⟨hfinal, fun hstop rest => ?_⟩
  refine (climb_agrees l hstep 0 [] s hs rfl ends t hclimb hstop rest).trans ?_
  cases ht : t.stopped with
  | none => rw [proceed_missed ht, ← hrun ht rest, List.singleton_append]
  | some cause =>
    obtain ⟨found', u', hu', hmoves', _⟩ := descend_roams hE.restores l 0 _ t
      (hs.of_moves hmoves).left (Nat.zero_le _) hmoves.inside
      (fun e he => ⟨Nat.zero_le _, hends' e he⟩) hsorted'
    cases hu'.symm.trans hu
    rw [proceed_stopped ht, proceed_latched ht hmoves']

theorem more_agrees (hE : EnterAgrees c m inner) (l : Loop) (hstep : l.body.isStep = true)
    (count : Nat) (s : State) (hs : Ready c m s) :
    Agrees c l.k.isFinal (l.visitStep count s.position) (more c inner l m count) s := by
  induction m generalizing count s with
  | zero => exact absurd_left hs.left
  | succ m ih =>
    have hE' := hE.weaken (Nat.le_succ m)
    have hsteps := hs.left
    rw [more_eq, Loop.visitStep, Search.inOrder]
    refine Agrees.orElse (.when fun _ => resume_agrees hE l.k l.trail l.depth s hs)
      (stopping_restores hE.restores l count hs.left hs.inside) fun t ht hp => ?_
    have hready := hs.of_moves ht
    have hle := ht.left_le c.limits
    refine ⟨stepping_roams l _ count ht.above ht.inside fun u hlt hlow hu =>
      more_roams hE'.restores l _ _ u (by omega) hlow hu, ?_⟩
    unfold stepping
    cases hallows : l.quantifier.allowsAfter count with
    | false => exact Agrees.miss.congr fun rest => Search.run_more_full hallows
    | true =>
      refine Agrees.counted
        (match l.body.stepEnd? c.text s.position with
          | some finish => l.visitStep (count + 1) finish
          | none => [])
        (fun u hu => ?_) (fun rest hx => ?_) fun rest cause hx =>
          Search.run_more_exceeded hallows hx
      · have hp' := (State.tick_position hu).trans hp
        have hready' := hready.tick hu
        intro found v hv
        rw [modifyGet_bind, nodeStep_eq _ _ _ hstep hready'.inside, hready'.text, hp'] at hv
        cases hend : l.body.stepEnd? c.text s.position with
        | none =>
          rw [hend] at hv
          exact Agrees.miss found v hv
        | some finish =>
          rw [hend] at hv
          have hb := stepEnd?_bounds l.body hstep (hs.text ▸ hs.inside) hend
          have hthere := hready'.moved (hready'.text ▸ hb.2)
          exact ih hE' (count + 1) (u.moved finish) hthere found v hv
      · refine (Search.run_more hallows hx).trans ?_
        cases l.body.stepEnd? c.text s.position <;> rfl

theorem stepwise_agrees (hE : EnterAgrees c n inner) (l : Loop) (hstep : l.body.isStep = true)
    (hs : Ready c n s) :
    Agrees c l.k.isFinal (Search.repetitions .stepwise l s.position) (stepwise c inner l n) s := by
  have back : ∀ t, Moves c.limits s.position s t → True →
      ∃ place, t.rewindTo s.position = t.moved place :=
    fun t ht _ => ⟨s.position, State.rewindTo_eq ht.above⟩
  refine .of_eq (stepwise_eq c inner l n s) ?_
  unfold Search.repetitions
  cases hl : l.fewest with
  | true =>
    exact (more_agrees hE l hstep 0 s hs).orMiss
      (more_roams hE.restores l s.position 0 s hs.left (Nat.le_refl _) hs.inside) back
  | false =>
    exact (most_agrees hE l hstep hs).orMiss (most_roams hE.restores l hs.left hs.inside) back

/-! ## Repeated bodies that bind nothing -/

/-- The tasks for following a loop from a visit. -/
def Visit.stopTasks (l : Loop) (v : Visit) : List Task :=
  if l.quantifier.metBy v.count then [resumeAt v.position l.trail l.k l.depth] else []

/-- The tasks for one more repetition from a visit. -/
def Visit.growTasks (l : Loop) (v : Visit) : List Task :=
  match v.ends with
  | some ends => ends.flatMap (l.visitEnd v.count v.position)
  | none => [.gather l v.count v.position]

/-- The tasks that a visit stands for. -/
def Visit.tasks (l : Loop) (v : Visit) : List Task :=
  (if l.fewest && !v.stopTried then v.stopTasks l else []) ++
    (v.growTasks l ++ if l.fewest then [] else v.stopTasks l)

theorem tasks_fresh (l : Loop) (count position : Nat) :
    Visit.tasks l { count, position } = l.visit count position := by
  unfold Visit.tasks Loop.visit Search.inOrder Visit.stopTasks Visit.growTasks
  cases l.fewest <;> simp

theorem tasks_lazy {l : Loop} {v : Visit} (h : l.fewest && !v.stopTried) :
    v.tasks l = v.stopTasks l ++ Visit.tasks l { v with stopTried := true } := by
  have hl : l.fewest = true := (Bool.and_eq_true_iff.mp h).1
  unfold Visit.tasks
  rw [if_pos h, hl]
  rfl

theorem tasks_settled {l : Loop} {v : Visit} (h : ¬(l.fewest && !v.stopTried) = true) :
    v.tasks l = v.growTasks l ++ if l.fewest then [] else v.stopTasks l := by
  rw [Visit.tasks, if_neg h, List.nil_append]

theorem tasks_unknown {l : Loop} {v : Visit} (h : ¬(l.fewest && !v.stopTried) = true)
    (hends : v.ends = none) :
    v.tasks l = .gather l v.count v.position :: if l.fewest then [] else v.stopTasks l := by
  rw [tasks_settled h, Visit.growTasks, hends]
  rfl

theorem stopAt_agrees (hE : EnterAgrees c n inner) (l : Loop) {place : Nat} (hs : Ready c n s)
    (hp : place ≤ s.buffer.size) :
    Agrees c l.k.isFinal [resumeAt place l.trail l.k l.depth] (stopAt inner l place) s := by
  rw [stopAt_eq]
  exact .after (State.seek_eq hp) (resume_agrees hE l.k l.trail l.depth _ (hs.moved hp))

theorem bodyEnds_agrees (hE : EnterAgrees c n inner) (l : Loop) {count : Nat}
    (hallows : l.quantifier.allowsAfter count = true) (hs : Ready c n s) (hstop : s.stopped = none)
    {ends : List Nat} (hbody : bodyEnds inner l s = some (ends, t)) (rest : List Task) :
    run c ⟨.gather l count s.position :: rest, s.noted, s.steps⟩ =
      proceed c none t (ends.flatMap (l.visitEnd count s.position) ++ rest) := by
  have hs' : Ready c n { s with noted := [] :: s.noted } := ⟨hs.text, hs.inside, hs.left⟩
  obtain ⟨found, u, hu, hmoves, _⟩ :=
    hs'.enter hE.restores (.last l.body) l.trail .note (l.depth + 1)
  obtain ⟨hfinal, hrun⟩ := hE.agrees _ _ _ _ _ hs' found u hu
  obtain ⟨noted, hnoted, _⟩ := hmoves.noted
  obtain ⟨all, hall, _⟩ := noteAll_cons noted [] s.noted
  rw [bodyEnds_eq, hu] at hbody
  cases hbody
  rw [Search.run_gather hallows]
  refine (hrun hstop (.spread l count s.position :: rest)).trans ?_
  have hnone : found = none := by
    cases found with
    | none => rfl
    | some trail => exact absurd (hfinal rfl) (by simp [Continuation.isFinal])
  rw [hnone, proceed, proceed]
  cases u.stopped with
  | some cause => rfl
  | none =>
    dsimp only
    rw [hnoted, hall]
    exact Search.run_spread

theorem advance_agrees (hE : EnterAgrees c n inner) (l : Loop) {bound : Nat} {visit : Visit}
    {below : List Visit} (hv : ¬(l.fewest && !visit.stopTried) = true)
    (hX : ∀ visits t, weightOf visits < bound → Ready c n t →
      (∀ v ∈ visits, v.Within 0 t.buffer.size) →
      Agrees c l.k.isFinal (visits.flatMap (Visit.tasks l)) (explore inner l n visits) t)
    (ends : List Nat) {s : State} (hs : Ready c n s)
    (hbound : weightOf ({ visit with ends := some ends } :: below) ≤ bound)
    (hvisit : Visit.Within 0 s.buffer.size { visit with ends := some ends })
    (hbelow : ∀ v ∈ below, v.Within 0 s.buffer.size) :
    Agrees c l.k.isFinal
      (Visit.tasks l { visit with ends := some ends } ++ below.flatMap (Visit.tasks l))
      (advance inner l n visit ends below) s := by
  have stop := stopAt_agrees hE l hs hvisit.2.1
  have hstop := hs.stopAt hE.restores l hvisit.2.1
  have next : ∀ visits t, weightOf visits < bound → (∀ v ∈ visits, v.Within 0 s.buffer.size) →
      Moves c.limits 0 s t → Roams c.limits 0 (explore inner l n visits) t ∧
        Agrees c l.k.isFinal (visits.flatMap (Visit.tasks l)) (explore inner l n visits) t :=
    fun visits t hw hin ht =>
      have hin' : ∀ v ∈ visits, v.Within 0 t.buffer.size := ht.size.symm ▸ hin
      ⟨(hs.of_moves ht).explore hE.restores l hin', hX visits t hw (hs.of_moves ht) hin'⟩
  rw [weightOf_cons] at hbound
  rw [tasks_settled (v := { visit with ends := some ends }) hv]
  cases ends with
  | nil =>
    have hfront : (Visit.growTasks l { visit with ends := some [] } ++
        if l.fewest then [] else Visit.stopTasks l { visit with ends := some [] }) =
          if !l.fewest && l.quantifier.metBy visit.count then
            [resumeAt visit.position l.trail l.k l.depth] else [] := by
      unfold Visit.growTasks Visit.stopTasks
      cases l.fewest <;> simp
    rw [advance_nil, hfront]
    refine Agrees.orElse (.when fun _ => stop)
      (Roams.when (Nat.zero_le _) hs.inside fun _ => hstop) fun t ht _ => ?_
    have hweight := Visit.weight_pos { visit with ends := some [] }
    exact next below t (by omega) hbelow ht
  | cons finish ends =>
    have hrest := List.forall_mem_cons.mpr ⟨hvisit.rest, hbelow⟩
    have hfront : Visit.growTasks l { visit with ends := some (finish :: ends) } =
        l.visitEnd visit.count visit.position finish ++
          Visit.growTasks l { visit with ends := some ends } :=
      List.flatMap_cons
    have hback : ({ visit with ends := some ends } :: below).flatMap (Visit.tasks l) =
        (Visit.growTasks l { visit with ends := some ends } ++
          if l.fewest then [] else Visit.stopTasks l { visit with ends := some (finish :: ends) }) ++
            below.flatMap (Visit.tasks l) := by
      rw [List.flatMap_cons, tasks_settled (v := { visit with ends := some ends }) hv]
      rfl
    rw [hfront, List.append_assoc, List.append_assoc, ← List.append_assoc (Visit.growTasks _ _),
      ← hback, advance_cons]
    rw [Visit.weight_rest] at hbound
    unfold Loop.visitEnd
    by_cases hempty : finish = visit.position && l.quantifier.metBy (visit.count + 1)
    · rw [if_pos hempty, if_pos hempty]
      refine Agrees.orElse stop hstop fun t ht _ => ?_
      refine next _ t ?_ hrest ht
      rw [weightOf_cons]
      omega
    · rw [if_neg hempty, if_neg hempty, ← tasks_fresh, ← List.flatMap_cons]
      refine (next _ s ?_ (List.forall_mem_cons.mpr ⟨hvisit.next _, hrest⟩)
        (.refl (Nat.zero_le _) hs.inside)).2
      rw [weightOf_cons, weightOf_cons, Visit.weight_fresh]
      omega

/-- The machine spreads the ends that have been noted, and the walk goes on from them. -/
theorem gathering_agrees (hE : EnterAgrees c (m + 1) inner) (l : Loop) {visit : Visit}
    {below : List Visit} (hv : ¬(l.fewest && !visit.stopTried) = true) (hends : visit.ends = none)
    (hallows : l.quantifier.allowsAfter visit.count = true)
    (hX : ∀ visits t, Ready c m t → (∀ v ∈ visits, v.Within 0 t.buffer.size) →
      Agrees c l.k.isFinal (visits.flatMap (Visit.tasks l)) (explore inner l m visits) t)
    (hs : Ready c (m + 1) s) (hstop : s.stopped = none) (hvisit : visit.Within 0 s.buffer.size)
    (hbelow : ∀ v ∈ below, v.Within 0 s.buffer.size) :
    Agrees c l.k.isFinal (visit.tasks l ++ below.flatMap (Visit.tasks l))
      (gathering inner l visit below (m + 1)) s := by
  refine .after (State.seek_eq hvisit.2.1) fun found u hu => ?_
  obtain ⟨ends, t, ht, hmoves, he, hlt⟩ := bodyEnds_within hE.restores l
    (s := s.moved visit.position) hs.left (Nat.zero_le _) hvisit.2.1
  have hE' := hE.weaken (Nat.le_succ m)
  have hready : Ready c m t := hs.of_less hmoves.of_moved (hlt hstop)
  have hvisit' : Visit.Within 0 t.buffer.size { visit with ends := some ends } :=
    hmoves.size.symm ▸ hvisit.known he
  have hbelow' : ∀ v ∈ below, v.Within 0 t.buffer.size := hmoves.size.symm ▸ hbelow
  rw [bind_of ht] at hu
  obtain ⟨hfinal, hrun⟩ := advance_agrees hE' l hv (fun visits t' _ => hX visits t') ends hready
    (Nat.le_refl _) hvisit' hbelow' found u hu
  refine ⟨hfinal, fun hstop rest => ?_⟩
  rw [tasks_unknown hv hends]
  refine (bodyEnds_agrees hE l hallows (hs.moved hvisit.2.1) hstop ht _).trans ?_
  cases hcut : t.stopped with
  | none =>
    rw [proceed_missed hcut, ← hrun hcut rest,
      tasks_settled (v := { visit with ends := some ends }) hv]
    simp only [Visit.growTasks, Visit.stopTasks, State.moved_position, List.append_assoc,
      List.append_eq]
  | some cause =>
    obtain ⟨found', u', hu', hmoves', _⟩ := hready.advance hE'.restores l hvisit' hbelow'
    cases hu'.symm.trans hu
    rw [proceed_stopped hcut, proceed_latched hcut hmoves']

theorem explore_agrees (hE : EnterAgrees c m inner) (l : Loop) (visits : List Visit) (s : State)
    (hs : Ready c m s) (hin : ∀ v ∈ visits, v.Within 0 s.buffer.size) :
    Agrees c l.k.isFinal (visits.flatMap (Visit.tasks l)) (explore inner l m visits) s := by
  induction m, visits using explore_induction generalizing s with
  | step m visits ihm ihw =>
    cases visits with
    | nil =>
      rw [explore_nil]
      exact .miss
    | cons visit below =>
      obtain ⟨hvisit, hbelow⟩ := List.forall_mem_cons.mp hin
      refine .of_eq (explore_cons inner l m s visit below) ?_
      rw [List.flatMap_cons]
      by_cases hstop : s.stopped.isSome
      · rw [if_pos hstop]
        exact .stopped hstop
      rw [if_neg hstop]
      by_cases hlazy : l.fewest && !visit.stopTried
      · rw [if_pos hlazy, tasks_lazy hlazy, List.append_assoc, ← List.flatMap_cons]
        refine Agrees.orElse (.when fun _ => stopAt_agrees hE l hs hvisit.2.1)
          (Roams.when (Nat.zero_le _) hs.inside fun _ => hs.stopAt hE.restores l hvisit.2.1)
          fun t ht _ => ?_
        have hin' : ∀ v ∈ { visit with stopTried := true } :: below, v.Within 0 t.buffer.size :=
          ht.size.symm ▸ List.forall_mem_cons.mpr ⟨hvisit, hbelow⟩
        refine ⟨(hs.of_moves ht).explore hE.restores l hin', ?_⟩
        refine ihw _ ?_ hE t (hs.of_moves ht) hin'
        have hweight := Visit.weight_tried hlazy
        rw [weightOf_cons, weightOf_cons]
        omega
      rw [if_neg hlazy]
      have hX : ∀ visits' t, weightOf visits' < weightOf (visit :: below) → Ready c m t →
          (∀ v ∈ visits', v.Within 0 t.buffer.size) →
          Agrees c l.k.isFinal (visits'.flatMap (Visit.tasks l)) (explore inner l m visits') t :=
        fun visits' t hw => ihw visits' hw hE t
      cases hends : visit.ends with
      | some ends =>
        have hsame : { visit with ends := some ends } = visit := by rw [← hends]
        have hadvance := advance_agrees hE l hlazy hX ends hs
          (Nat.le_of_eq (by rw [hsame])) (by rw [hsame]; exact hvisit) hbelow
        rw [hsame] at hadvance
        exact hadvance
      | none =>
        cases hallows : l.quantifier.allowsAfter visit.count with
        | true =>
          cases m with
          | zero => exact absurd_left hs.left
          | succ m =>
            have hE' := hE.weaken (Nat.le_succ m)
            exact gathering_agrees hE l hlazy hends hallows
              (fun visits' => ihm m (Nat.lt_succ_self m) visits' hE') hs
              (Option.not_isSome_iff_eq_none.mp hstop) hvisit hbelow
        | false =>
          refine (advance_agrees hE l hlazy hX [] hs ?_
            (hvisit.known (by simp)) hbelow).congr fun rest => ?_
          · exact Nat.le_of_eq (by rw [weightOf_cons, weightOf_cons, Visit.weight_known hends])
          · rw [tasks_unknown hlazy hends, tasks_settled (v := { visit with ends := some [] }) hlazy]
            exact Search.run_gather_full hallows

theorem gathered_agrees (hE : EnterAgrees c n inner) (l : Loop) (hs : Ready c n s) :
    Agrees c l.k.isFinal (Search.repetitions .gathered l s.position) (gathered inner l n) s := by
  have hin : ∀ v ∈ [{ count := 0, position := s.position : Visit }], v.Within 0 s.buffer.size :=
    List.forall_mem_singleton.mpr ⟨Nat.zero_le _, hs.inside, by simp⟩
  refine .of_eq (gathered_eq inner l n s) ?_
  refine ((explore_agrees hE l _ s hs hin).congr fun rest => ?_).orMiss (P := fun _ => True)
    (hs.explore hE.restores l hin) fun t ht _ =>
      ⟨s.position, State.seek_eq (ht.size ▸ hs.inside)⟩
  rw [List.flatMap_singleton, tasks_fresh]
  rfl

/-! ## Every element -/

theorem element_agrees (hc : c.Fits) (hE : EnterAgrees c n inner) (node : Node) (trail : Trail)
    (k : Continuation) (depth : Nat) (hs : Ready c n s) :
    Agrees c k.isFinal (Search.ways c node s.position trail k depth)
      (element c inner n node trail k depth) s := by
  cases node with
  | literal bytes negated =>
    rw [element_literal]
    exact consuming_agrees hE trail k depth _ hs
  | byteClass b negated =>
    rw [element_byteClass]
    exact consuming_agrees hE trail k depth _ hs
  | noneOf items =>
    rw [element_noneOf]
    exact consuming_agrees hE trail k depth _ hs
  | variableText name =>
    rw [element_variableText]
    rw [ways_variableText]
    exact consuming_agrees hE trail k depth _ hs
  | anchor a =>
    refine .of_eq (element_anchor c inner n trail k depth s a) ?_
    rw [hs.text]
    exact .when fun _ => resume_agrees hE k trail depth s hs
  | range low high negated =>
    rw [element_range]
    exact widths_agrees hE low high negated trail k depth (rangeWidths low high) s hs
  | oneOf items =>
    rw [element_oneOf]
    exact choices_agrees hE trail k depth items s hs
  | call name =>
    rw [element_call, Search.ways]
    cases (trail.subroutines.get? name).or (c.environment.subroutines.get? name) with
    | some chain => exact hE.agrees _ _ _ _ s hs
    | none => exact .miss
  | group chain =>
    rw [element_group]
    exact hE.agrees _ _ _ _ s hs
  | «repeat» quantifier fewest body =>
    rw [element_repeat, Search.ways]
    cases hmethod : c.method body with
    | stepwise => exact stepwise_agrees hE _ (hc.stepwise body hmethod) hs
    | gathered => exact gathered_agrees hE _ hs
    | general => exact iterate_agrees hE (resume_agrees hE k trail depth) quantifier fewest body 0 hs
  | or left right =>
    rw [element_or]
    refine Agrees.orElse (hE.agrees (.last left) trail k (depth + 1) s hs)
      (hs.enter hE.restores ..) fun t ht hp => ?_
    have hready := hs.of_moves ht
    refine ⟨(hready.enter hE.restores ..).roams ht.above, ?_⟩
    rw [← hp]
    exact hE.agrees (.last right) trail k (depth + 1) t hready
  | capture name body =>
    refine .of_eq (element_capture c inner n trail k depth s name body) ?_
    exact hE.agrees _ _ _ _ s hs
  | define name body =>
    rw [element_define]
    exact hE.agrees _ _ _ _ s hs

theorem enter_agrees (hc : c.Fits) (n : Nat) : EnterAgrees c n (enter c n) := by
  induction n with
  | zero =>
    exact ⟨enter_restores c 0, fun chain trail k depth s hs => absurd_left hs.left⟩
  | succ n ih =>
    refine ⟨enter_restores c (n + 1), fun chain trail k depth s hs => ?_⟩
    rw [enter_eq]
    refine Agrees.counted (Search.chainWays c chain s.position trail k depth) (fun t ht => ?_)
      (fun rest hx => Search.run_enter hx) fun rest cause hx => Search.run_enter_exceeded hx
    have hready := hs.tick ht
    refine .of_eq (settled_eq
      (body_restores ih.restores chain trail k depth hready.left hready.inside)) ?_
    rw [← State.tick_position ht]
    cases chain with
    | last node => exact element_agrees hc ih node trail k depth hready
    | cons node rest => exact element_agrees hc ih node trail (.chain rest k) depth hready

/-! ## Attempts -/

/-- The attempt that a walk has made. -/
def ending (found : Option Trail) (t : State) : Attempt where
  outcome :=
    match t.stopped with
    | some cause => .cutOff cause
    | none =>
      match found with
      | some trail => .found t.position trail.captures
      | none => .missed
  steps := t.steps

theorem proceed_nil (found : Option Trail) (t : State) :
    proceed c found t [] = ending found t := by
  unfold proceed ending
  cases t.stopped with
  | some cause => rfl
  | none =>
    cases found with
    | some trail => rfl
    | none => exact Search.run_nil

end Walk

/-- Moving the position of a buffer and running the machine are the same attempt. -/
theorem Buffer.tryMatch_attempt (b : Buffer) {c : Setting} (hc : c.Fits) (htext : b.bytes = c.text)
    (hb : b.position ≤ b.size) (pattern : Chain) :
    ∃ found t, b.tryMatch c pattern = some (found, t) ∧
      c.attempt pattern b.position = Walk.ending found t := by
  have hready : Walk.Ready c _ { buffer := b } := ⟨htext, hb, Walk.State.left_le _ _⟩
  have hE := Walk.enter_agrees hc (c.limits.steps + 2)
  obtain ⟨found, t, hm, hmoves, _⟩ := hready.enter hE.restores pattern {} .done 0
  obtain ⟨_, hrun⟩ := hE.agrees pattern {} .done 0 _ hready found t hm
  have hattempt : c.attempt pattern b.position = Walk.ending found t :=
    (hrun rfl []).trans (Walk.proceed_nil found t)
  unfold Buffer.tryMatch
  rw [Walk.attempt, Walk.get_bind, Walk.bind_of hm, Walk.get_bind]
  cases hstop : t.stopped with
  | none =>
    rw [if_neg (by simp)]
    exact ⟨found, t, rfl, hattempt⟩
  | some cause =>
    rw [if_pos (by simp), Walk.modify_bind, Walk.State.seek_eq (hmoves.size ▸ hb)]
    refine ⟨none, _, rfl, hattempt.trans ?_⟩
    unfold Walk.ending
    rw [Walk.State.moved_stopped, hstop]
    rfl

end WordPattern
