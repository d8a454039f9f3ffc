import WordPattern.Proofs.Tree.Rounds
import WordPattern.Proofs.Walk.Machine

/-!
# Walks and trees

A walk that has come back, and has not stopped, has gone through the tree of what it was to match. A
level that is deep enough for that can be found, since every call and every round has counted a
step.
-/

namespace WordPattern

namespace Walk

open Search (Continuation Loop)

/-! ## Walks that go through a tree -/

/-- The spot at which a walk stands. -/
def State.spot (s : State) (trail : Trail) : Spot := ⟨s.position, trail⟩

theorem State.spot_eq {s t : State} {trail : Trail} (h : t.position = s.position) :
    t.spot trail = s.spot trail := by
  rw [State.spot, h]
  rfl

/-- A walk that does not stop finds and notes what its verdicts say from some level on. -/
def Means (verdict : Nat → Verdict) (m : Walk (Option Trail)) (s : State) : Prop :=
  ∀ found t, m s = some (found, t) → t.stopped = none →
    ∃ deep, ∀ level, deep ≤ level → ∃ ends,
      verdict level = .known (found.map t.spot) ends ∧ t.noted = noteAll ends s.noted

namespace Means

variable {c : Setting} {low : Nat} {first second m : Walk (Option Trail)} {s : State}
  {verdict verdict' : Nat → Verdict} {P : State → Prop}

theorem of_eq (hm : m s = first s) (h : Means verdict first s) : Means verdict m s :=
  fun found t ht => h found t (hm ▸ ht)

/-- Verdicts that are the same from some level on. -/
theorem mono (h : Means verdict m s) (deep : Nat)
    (hle : ∀ level, deep ≤ level → verdict level ≤ verdict' level) : Means verdict' m s := by
  intro found t hm hstop
  obtain ⟨deep', h⟩ := h found t hm hstop
  refine ⟨max deep deep', fun level hlevel => ?_⟩
  obtain ⟨ends, hv, hnoted⟩ := h level (Nat.le_trans (Nat.le_max_right ..) hlevel)
  obtain ⟨ends', hv', hsame⟩ :=
    hle level (Nat.le_trans (Nat.le_max_left ..) hlevel) _ ends hv
  exact ⟨ends', hv', hnoted.trans (hsame _).symm⟩

/-- Verdicts that are the same one level deeper. -/
theorem deepen (h : Means verdict m s) (hle : ∀ level, verdict level ≤ verdict' (level + 1)) :
    Means verdict' m s := by
  intro found t hm hstop
  obtain ⟨deep, h⟩ := h found t hm hstop
  refine ⟨deep + 1, fun level hlevel => ?_⟩
  obtain ⟨level, rfl⟩ : ∃ n, level = n + 1 := ⟨level - 1, by omega⟩
  obtain ⟨ends, hv, hnoted⟩ := h level (Nat.le_of_succ_le_succ hlevel)
  obtain ⟨ends', hv', hsame⟩ := hle level _ ends hv
  exact ⟨ends', hv', hnoted.trans (hsame _).symm⟩

theorem miss : Means (fun _ => .miss) Walk.miss s := by
  intro found t hm _
  cases hm
  exact ⟨0, fun _ _ => ⟨[], rfl, rfl⟩⟩

theorem stopped (h : s.stopped.isSome) : Means verdict Walk.miss s := by
  intro found t hm hstop
  cases hm
  rw [hstop] at h
  cases h

theorem orElse (h : Means verdict first s) (hr : Returns c.limits first s low P)
    (h' : ∀ t, Moves c.limits low s t → P t →
      Roams c.limits low second t ∧ Means verdict' second t) :
    Means (fun level => (verdict level).orElse (verdict' level)) (Walk.orElse first second) s := by
  intro found u hm hstop
  obtain ⟨found', t, hfirst, hmoves, hleft⟩ := hr
  cases found' with
  | some trail =>
    rw [orElse_found hfirst] at hm
    cases hm
    obtain ⟨deep, h⟩ := h (some trail) u hfirst hstop
    refine ⟨deep, fun level hlevel => ?_⟩
    obtain ⟨ends, hv, hnoted⟩ := h level hlevel
    refine ⟨ends, ?_, hnoted⟩
    dsimp only
    rw [hv]
    rfl
  | none =>
    rw [orElse_missed hfirst] at hm
    obtain ⟨⟨found'', u', hsecond, hmoves', _⟩, h''⟩ := h' t hmoves (hleft rfl)
    cases hsecond.symm.trans hm
    obtain ⟨deep, h⟩ := h none t hfirst (hmoves'.running hstop)
    obtain ⟨deep', h''⟩ := h'' found u hm hstop
    refine ⟨max deep deep', fun level hlevel => ?_⟩
    obtain ⟨ends, hv, hnoted⟩ := h level (Nat.le_trans (Nat.le_max_left ..) hlevel)
    obtain ⟨more, hv', hnoted'⟩ := h'' level (Nat.le_trans (Nat.le_max_right ..) hlevel)
    refine ⟨ends ++ more, ?_, ?_⟩
    · dsimp only
      rw [hv, hv']
      rfl
    · rw [noteAll_append, ← hnoted, hnoted']

/-- A second way that cannot match. -/
theorem orMiss {move : State → State} (h : Means verdict first s)
    (hr : Returns c.limits first s low P)
    (h' : ∀ t, Moves c.limits low s t → P t → ∃ place, move t = t.moved place) :
    Means verdict (Walk.orElse first (Walk.after move Walk.miss)) s := by
  intro found u hm hstop
  obtain ⟨found', t, hfirst, hmoves, hleft⟩ := hr
  cases found' with
  | some trail =>
    rw [orElse_found hfirst] at hm
    exact h found u (hfirst.trans hm) hstop
  | none =>
    obtain ⟨place, hplace⟩ := h' t hmoves (hleft rfl)
    rw [orElse_missed hfirst, after_apply, hplace] at hm
    cases hm
    exact h none t hfirst hstop

theorem after {move : State → State} {place : Nat} (hmove : move s = s.moved place)
    (h : Means verdict m (s.moved place)) : Means verdict (Walk.after move m) s := by
  intro found t hm
  rw [after_apply, hmove] at hm
  exact h found t hm

theorem counted {limits : Limits} {depth : Nat}
    (h : ∀ t, s.tick limits depth = (true, t) → Means verdict m t) :
    Means verdict (Walk.counted limits depth m) s := by
  intro found u hm hstop
  rcases htick : s.tick limits depth with ⟨counts, t⟩
  cases counts with
  | true =>
    rw [counted_true htick] at hm
    obtain ⟨deep, h⟩ := h t htick found u hm hstop
    exact ⟨deep, State.tick_noted htick ▸ h⟩
  | false =>
    rw [Walk.counted, modifyGet_bind, htick] at hm
    cases hm
    exact absurd hstop (State.tick_false htick)

theorem when {b : Bool} (h : b = true → Means verdict m s) :
    Means (fun level => .when b (verdict level)) (if b then m else Walk.miss) s := by
  cases b with
  | true => exact h rfl
  | false => exact miss

end Means

/-- What a continuation comes to. -/
def onto (c : Setting) (k : Continuation) (level : Nat) : Spot → Verdict :=
  k.verdict c.text c.environment level

/-- What a tree and a continuation behind it come to. -/
def through (c : Setting) (tree : Nat → Spot → Tree Spot) (k : Continuation) (p : Spot)
    (level : Nat) : Verdict :=
  (tree level p).explore (onto c k level)

/-- While no more than `n` steps are left, entering a chain goes through its tree. -/
structure EnterMeans (c : Setting) (n : Nat) (inner : Entry) : Prop where
  restores : Enters c n inner
  means : ∀ chain trail k depth s, Ready c n s →
    Means (through c (fun level => chain.tree c.text c.environment level) k (s.spot trail))
      (inner chain trail k depth) s

variable {c : Setting} {n m : Nat} {inner : Entry} {s : State}

theorem EnterMeans.weaken (hE : EnterMeans c n inner) (h : m ≤ n) : EnterMeans c m inner where
  restores := hE.restores.weaken h
  means chain trail k depth s hs := hE.means chain trail k depth s (hs.weaken h)

theorem onto_le {level level' : Nat} (h : level ≤ level') (k : Continuation) (p : Spot) :
    onto c k level p ≤ onto c k level' p :=
  k.verdict_le h p

/-! ## What follows an element -/

/-- The tree of a repetition after some repetitions. -/
def rounds (c : Setting) (quantifier : Quantifier) (fewest : Bool) (node : Node)
    (count level : Nat) : Spot → Tree Spot :=
  quantifier.tree fewest (node.tree c.text c.environment level) level count

/-- One round of a repetition that may be followed to a level is a repetition to the next level. -/
theorem round_le (quantifier : Quantifier) (fewest : Bool) (node : Node) (count level : Nat)
    (k : Continuation) (p : Spot) :
    Verdict.inOrder fewest (.when (quantifier.metBy count) (onto c k level p))
      (.when (quantifier.allowsAfter count) ((node.tree c.text c.environment level p).explore
        (quantifier.follow fewest (node.tree c.text c.environment level) level (count + 1) p.position
          (onto c k level)))) ≤
      through c (rounds c quantifier fewest node count) k p (level + 1) := by
  have hle := Nat.le_succ level
  rw [through, rounds, quantifier.explore_round]
  refine Verdict.inOrder_le (Verdict.when_le (onto_le hle k p)) (Verdict.when_le ?_)
  exact Tree.explore_le (node.tree_le hle p)
    (quantifier.follow_le fewest (node.tree_le hle) (Nat.le_refl _) (onto_le hle k))

theorem iterate_means (hE : EnterMeans c n inner) {k : Continuation} {trail : Trail} {depth : Nat}
    (hR : ∀ s, Ready c n s →
      Means (fun level => onto c k level (s.spot trail)) (resume inner trail k depth) s)
    (quantifier : Quantifier) (fewest : Bool) (node : Node) (count : Nat) (hs : Ready c n s) :
    Means (through c (rounds c quantifier fewest node count) k (s.spot trail))
      (iterate inner quantifier fewest node count trail k depth) s := by
  have hstop : ∀ t, Ready c n t →
      Restores c.limits (if quantifier.metBy count then resume inner trail k depth else miss) t :=
    fun t ht => .when ht.inside fun _ => ht.resume hE.restores trail k depth
  have hgrow : ∀ again t, Ready c n t →
      Restores c.limits (if quantifier.allowsAfter count then
        inner (.last node) trail again (depth + 1) else miss) t :=
    fun again t ht => .when ht.inside fun _ => ht.enter hE.restores _ trail again (depth + 1)
  have stop : ∀ t, Ready c n t → t.position = s.position →
      Means (fun level => .when (quantifier.metBy count) (onto c k level (s.spot trail)))
        (if quantifier.metBy count then resume inner trail k depth else miss) t := by
    intro t ht hp
    exact .when fun _ => State.spot_eq hp ▸ hR t ht
  have grow : ∀ t, Ready c n t → t.position = s.position →
      Means (fun level => .when (quantifier.allowsAfter count)
          ((node.tree c.text c.environment level (s.spot trail)).explore
            (quantifier.follow fewest (node.tree c.text c.environment level) level (count + 1)
              s.position (onto c k level))))
        (if quantifier.allowsAfter count then
          inner (.last node) trail (.again quantifier fewest node (count + 1) s.position k)
            (depth + 1)
        else miss) t := by
    intro t ht hp
    exact .when fun _ => State.spot_eq hp ▸ hE.means (.last node) trail _ (depth + 1) t ht
  refine .of_eq (iterate_eq inner trail k depth s quantifier fewest node count) ?_
  refine Means.deepen ?_ fun level =>
    round_le quantifier fewest node count level k (s.spot trail)
  cases fewest with
  | true =>
    exact (stop s hs rfl).orElse (hstop s hs) fun t ht hp =>
      ⟨(hgrow _ t (hs.of_moves ht)).roams ht.above, grow t (hs.of_moves ht) hp⟩
  | false =>
    exact (grow s hs rfl).orElse (hgrow _ s hs) fun t ht hp =>
      ⟨(hstop t (hs.of_moves ht)).roams ht.above, stop t (hs.of_moves ht) hp⟩

theorem resume_means (hE : EnterMeans c n inner) (k : Continuation) :
    ∀ trail depth s, Ready c n s →
      Means (fun level => onto c k level (s.spot trail)) (resume inner trail k depth) s := by
  induction k with
  | done =>
    intro trail depth s _ found t hm _
    cases (resume_done inner trail depth s).symm.trans hm
    exact ⟨0, fun _ _ => ⟨[], rfl, rfl⟩⟩
  | note =>
    intro trail depth s _ found t hm _
    cases (resume_note inner trail depth s).symm.trans hm
    exact ⟨0, fun _ _ => ⟨[s.position], rfl, rfl⟩⟩
  | chain next k ih =>
    intro trail depth s hs
    rw [resume_chain]
    exact hE.means _ _ _ _ s hs
  | bind name start k ih =>
    intro trail depth s hs
    refine .of_eq (resume_bind ..) ?_
    rw [Buffer.slice, hs.text]
    exact ih _ _ s hs
  | again quantifier fewest node count start k ih =>
    intro trail depth s hs
    refine .of_eq (resume_again ..) ?_
    by_cases hempty : s.position = start && quantifier.metBy count
    · rw [if_pos hempty]
      exact (ih trail (depth + 1) s hs).mono 0 fun level _ =>
        Verdict.le_of_eq (if_pos hempty).symm
    · rw [if_neg hempty]
      exact (iterate_means hE (ih _ _) quantifier fewest node count hs).mono 0 fun level _ =>
        Verdict.le_of_eq (if_neg hempty).symm

/-! ## Choices -/

theorem choices_means (hE : EnterMeans c n inner) (trail : Trail) (k : Continuation) (depth : Nat) :
    ∀ items s, Ready c n s →
      Means (fun level =>
          (Tree.choice (items.map fun i =>
            i.node.plainTree c.text c.environment.texts (s.spot trail))).explore (onto c k level))
        (choices inner items trail k depth) s := by
  intro items
  induction items with
  | nil =>
    intro s _
    rw [choices_nil]
    exact .miss
  | cons item items ih =>
    intro s hs
    have hitem : ∀ level p, (Chain.last item.node).tree c.text c.environment level p =
        item.node.plainTree c.text c.environment.texts p := by
      intro level p
      cases item <;> rfl
    have hfirst := hE.means (.last item.node) trail k (depth + 1) s hs
    unfold through at hfirst
    simp only [hitem] at hfirst
    rw [choices_cons]
    refine hfirst.orElse (hs.enter hE.restores ..) fun t ht hp => ?_
    have hready := hs.of_moves ht
    refine ⟨(choices_restores hE.restores trail k depth items t hready.left hready.inside).roams
      ht.above, ?_⟩
    rw [← State.spot_eq hp]
    exact ih t hready

/-- Reading on to an end that is followed by a continuation. -/
theorem onward_means (hE : EnterMeans c n inner) (trail : Trail) (k : Continuation) (depth : Nat)
    (finish : Option Nat) (second : Walk (Option Trail)) {verdict : Nat → Verdict}
    (hs : Ready c n s)
    (hbounds : ∀ place, finish = some place → s.position ≤ place ∧ place ≤ s.buffer.size)
    (h' : ∀ t, Ready c n t → t.position = s.position →
      Restores c.limits second t ∧ Means verdict second t) :
    Means (fun level =>
        (Verdict.atEnd (onto c k level) (s.spot trail) finish).orElse (verdict level))
      (onward finish (resume inner trail k depth) second) s := by
  cases finish with
  | none =>
    refine (h' s hs rfl).2.mono 0 fun level _ => ?_
    unfold Verdict.atEnd
    rw [Verdict.miss_orElse]
    exact Verdict.le_refl _
  | some place =>
    obtain ⟨hlo, hhi⟩ := hbounds place rfl
    have hmoved : Moves c.limits s.position s (s.moved place) :=
      (Moves.refl (Nat.le_refl _) hs.inside).moved hlo hhi
    have hfirst : Returns c.limits (resume inner trail k depth) (s.moved place) s.position
        (fun t => t.position = place) :=
      ((hs.moved hhi).resume hE.restores trail k depth).mono hlo fun _ _ hp => hp
    have tail : Means (fun level =>
        (onto c k level ((s.moved place).spot trail)).orElse (verdict level))
        (orElse (resume inner trail k depth) (after (·.unread (place - s.position)) second))
        (s.moved place) := by
      refine (resume_means hE k trail depth _ (hs.moved hhi)).orElse hfirst fun t ht hp => ?_
      have hback : t.unread (place - s.position) = t.moved s.position := by
        rw [State.unread_eq (by omega), hp, Nat.sub_sub_self hlo]
      have hready := (hs.of_moves ht.of_moved).moved (ht.size ▸ hs.inside)
      obtain ⟨hr, hm⟩ := h' (t.moved s.position) hready rfl
      exact ⟨Returns.after hback (hr.roams (Nat.le_refl _)), .after hback hm⟩
    exact tail

theorem widths_means (hE : EnterMeans c n inner) (low high : List UInt8) (negated : Bool)
    (trail : Trail) (k : Continuation) (depth : Nat) :
    ∀ candidates s, Ready c n s →
      Means (fun level =>
          Verdict.inTurn (fun e => onto c k level ((s.spot trail).move e))
            (candidates.filterMap (widthEnd? c.text low high negated s.position)))
        (widths inner low high negated candidates trail k depth) s := by
  intro candidates
  induction candidates with
  | nil =>
    intro s _
    rw [widths_nil]
    exact .miss
  | cons width candidates ih =>
    intro s hs
    have hsplit : ∀ level,
        Verdict.inTurn (fun e => onto c k level ((s.spot trail).move e))
          ((width :: candidates).filterMap (widthEnd? c.text low high negated s.position)) =
        (Verdict.atEnd (onto c k level) (s.spot trail)
          (widthEnd? c.text low high negated s.position width)).orElse
          (Verdict.inTurn (fun e => onto c k level ((s.spot trail).move e))
            (candidates.filterMap (widthEnd? c.text low high negated s.position))) := by
      intro level
      rw [List.filterMap_cons]
      cases widthEnd? c.text low high negated s.position width with
      | some e => rfl
      | none => exact Verdict.miss_orElse.symm
    refine .of_eq (widths_cons_eq low high negated width candidates hs.inside) ?_
    have hrest : ∀ t, Ready c n t → t.position = s.position →
        Restores c.limits (widths inner low high negated candidates trail k depth) t ∧
          Means (fun level => Verdict.inTurn (fun e => onto c k level ((s.spot trail).move e))
              (candidates.filterMap (widthEnd? c.text low high negated s.position)))
            (widths inner low high negated candidates trail k depth) t := by
      intro t ht hp
      rw [← State.spot_eq hp, ← hp]
      exact ⟨widths_restores hE.restores low high negated trail k depth _ t ht.left ht.inside,
        ih t ht⟩
    refine (onward_means hE trail k depth _ _ hs (fun _ h => widthEnd?_bounds h) hrest).mono 0
      fun level _ => ?_
    rw [hsplit, hs.text]
    exact Verdict.le_refl _

theorem consuming_means (hE : EnterMeans c n inner) (trail : Trail) (k : Continuation) (depth : Nat)
    (node : Node) (hs : Ready c n s) :
    Means (fun level => Verdict.atEnd (onto c k level) (s.spot trail)
        (singleEnd? c.environment.texts trail c.text s.position node))
      (consuming c inner trail k depth node) s := by
  refine .of_eq (consuming_eq node hs.inside) ?_
  refine (onward_means hE trail k depth _ miss hs
    (fun _ h => singleEnd?_bounds h hs.inside) fun t ht _ =>
      ⟨.miss ht.inside, Means.miss⟩).mono 0 fun level _ => ?_
  rw [hs.text, Verdict.orElse_miss]
  exact Verdict.le_refl _

end Walk

end WordPattern
