import WordPattern.Proofs.Walk.Means

/-!
# Loops and trees

The faster ways to repeat a body go through the same tree as the general one. The ends of steps are
tried in the order of the tree; and where the ends of a body are gathered first, an end that comes
up again is left out, since what has failed there once fails there again and notes nothing new.
-/

namespace WordPattern.Walk

open Search (Continuation Loop)

variable {c : Setting} {n m : Nat} {inner : Entry} {s : State}

/-- The tree of the body of a loop. -/
def bodyTree (c : Setting) (l : Loop) (level : Nat) : Spot → Tree Spot :=
  l.body.tree c.text c.environment level

/-- What a loop comes to after some repetitions. -/
def loop (c : Setting) (l : Loop) (count position : Nat) : Nat → Verdict :=
  through c (rounds c l.quantifier l.fewest l.body count) l.k ⟨position, l.trail⟩

/-! ## Repeated steps -/

theorem explore_bodyStep (l : Loop) (hstep : l.body.isStep = true) (level : Nat)
    (visit : Spot → Verdict) (p : Spot) :
    (bodyTree c l level p).explore visit =
      Verdict.atEnd visit p (l.body.stepEnd? c.text p.position) :=
  l.body.explore_step visit hstep p

/-- The end that has been come to last is tried where the repetitions are enough. -/
theorem take_last {quantifier : Quantifier} {count place : Nat} {older : List Nat}
    (visit : Nat → Verdict) (hlength : older.length = count) :
    Verdict.when (quantifier.metBy count) (visit place) =
      Verdict.inTurn visit
        ((place :: older).take ((place :: older).length - max quantifier.least count)) := by
  rw [List.length_cons, hlength]
  unfold Quantifier.metBy Verdict.when
  by_cases hmet : quantifier.least ≤ count
  · rw [if_pos (by simpa using hmet), Nat.max_eq_right hmet, Nat.add_sub_cancel_left]
    exact Verdict.orElse_miss.symm
  · rw [if_neg (by simpa using hmet), Nat.sub_eq_zero_of_le (by omega)]
    rfl

/-- One more end is tried where the repetitions so far are enough. -/
theorem take_round {quantifier : Quantifier} {count place finish : Nat} {ends newer older : List Nat}
    (visit : Nat → Verdict) (hends : ends = newer ++ finish :: place :: older)
    (hlength : older.length = count) :
    (Verdict.inTurn visit (ends.take (ends.length - max quantifier.least (count + 1)))).orElse
        (.when (quantifier.metBy count) (visit place)) =
      Verdict.inTurn visit (ends.take (ends.length - max quantifier.least count)) := by
  have hends : ends = (newer ++ [finish]) ++ ([place] ++ older) := by
    rw [hends, List.append_assoc]
    rfl
  have hsize : ends.length = (newer ++ [finish]).length + (count + 1) := by
    simp only [hends, List.length_append, List.length_singleton, hlength]
    omega
  unfold Quantifier.metBy Verdict.when
  by_cases hmet : quantifier.least ≤ count
  · have hless : ends.length - max quantifier.least (count + 1) = (newer ++ [finish]).length := by
      omega
    have hmore : ends.length - max quantifier.least count = (newer ++ [finish]).length + 1 := by
      omega
    have hlast : Verdict.inTurn visit ((newer ++ [finish]) ++ [place]) =
        (Verdict.inTurn visit (newer ++ [finish])).orElse (visit place) := by
      rw [Verdict.inTurn_append]
      exact congrArg _ Verdict.orElse_miss
    rw [if_pos (by simpa using hmet), hless, hmore, hends, List.take_left,
      List.take_length_add_append]
    exact hlast.symm
  · have hsame : max quantifier.least (count + 1) = max quantifier.least count := by omega
    rw [if_neg (by simpa using hmet), hsame, Verdict.orElse_miss]

/-- A round that prefers another repetition to what follows. -/
theorem explore_most (l : Loop) (hmost : l.fewest = false) (level rest count : Nat) (p : Spot)
    (visit : Spot → Verdict) :
    (l.quantifier.tree l.fewest (bodyTree c l level) (rest + 1) count p).explore visit =
      (Verdict.when (l.quantifier.allowsAfter count) ((bodyTree c l level p).explore
        (l.quantifier.follow l.fewest (bodyTree c l level) rest (count + 1) p.position
          visit))).orElse (.when (l.quantifier.metBy count) (visit p)) := by
  refine (l.quantifier.explore_round ..).trans ?_
  unfold Verdict.inOrder
  exact if_neg (by rw [hmost]; simp)

/-- Where no further repetition matches, only the last end is left to be tried. -/
theorem explore_last (l : Loop) (hmost : l.fewest = false) {level count place : Nat}
    {older : List Nat} (hlength : older.length = count)
    (hmiss : ∀ rest visit, Verdict.when (l.quantifier.allowsAfter count)
      ((bodyTree c l level ⟨place, l.trail⟩).explore
        (l.quantifier.follow l.fewest (bodyTree c l level) rest (count + 1) place visit)) = .miss)
    (rest : Nat) (hrest : 1 ≤ rest) (visit : Spot → Verdict) :
    (l.quantifier.tree l.fewest (bodyTree c l level) rest count ⟨place, l.trail⟩).explore visit =
      Verdict.inTurn (fun e => visit ⟨e, l.trail⟩)
        ((place :: older).take ((place :: older).length - max l.quantifier.least count)) := by
  obtain ⟨rest, rfl⟩ : ∃ n, rest = n + 1 := ⟨rest - 1, by omega⟩
  refine (explore_most l hmost level rest count ⟨place, l.trail⟩ visit).trans ?_
  refine (congrArg (Verdict.orElse · _) (hmiss rest visit)).trans ?_
  rw [Verdict.miss_orElse]
  exact take_last (fun e => visit ⟨e, l.trail⟩) hlength

/-- The steps that have been made are the rounds of a tree, and what follows is tried from the last
of them on. -/
theorem climb_means (l : Loop) (hstep : l.body.isStep = true) (hmost : l.fewest = false)
    (count : Nat) (older : List Nat) (s : State) (hs : Ready c m s)
    (hlength : older.length = count) :
    ∀ ends t, climb c l m count (s.position :: older) s = some (ends, t) → t.stopped = none →
      t.noted = s.noted ∧ (∃ newer, ends = newer ++ s.position :: older) ∧
      ∃ deep, ∀ level rest, deep ≤ rest → ∀ visit,
        (l.quantifier.tree l.fewest (bodyTree c l level) rest count
          (s.spot l.trail)).explore visit =
          Verdict.inTurn (fun e => visit ⟨e, l.trail⟩)
            (ends.take (ends.length - max l.quantifier.least count)) := by
  induction m generalizing count older s with
  | zero => exact absurd_left hs.left
  | succ m ih =>
    intro ends t hclimb hstop
    rw [climb_eq] at hclimb
    cases hallows : l.quantifier.allowsAfter count with
    | false =>
      rw [hallows, if_neg (by simp)] at hclimb
      cases hclimb
      refine ⟨rfl, ⟨[], rfl⟩, 1, fun level => explore_last l hmost hlength fun rest visit => ?_⟩
      rw [hallows]
      rfl
    | true =>
      rw [hallows, if_pos rfl] at hclimb
      rcases htick : s.tick c.limits l.depth with ⟨counts, u⟩
      rw [htick] at hclimb
      cases counts with
      | false =>
        cases hclimb
        exact absurd hstop (State.tick_false htick)
      | true =>
        have hready := hs.tick htick
        have hp := State.tick_position htick
        have hnoted := State.tick_noted htick
        have hread : nodeStep c.environment.texts l.trail l.body u =
            u.endAt (l.body.stepEnd? c.text s.position) := by
          rw [nodeStep_eq _ _ _ hstep hready.inside, hready.text, hp]
        have hgrow : ∀ level visit, (bodyTree c l level (s.spot l.trail)).explore visit =
            Verdict.atEnd visit (s.spot l.trail) (l.body.stepEnd? c.text s.position) :=
          fun level visit => explore_bodyStep l hstep level visit _
        dsimp only at hclimb
        rw [hread] at hclimb
        cases hend : l.body.stepEnd? c.text s.position with
        | none =>
          rw [hend] at hclimb
          cases hclimb
          refine ⟨hnoted, ⟨[], rfl⟩, 1, fun level =>
            explore_last l hmost hlength fun rest visit => ?_⟩
          refine (congrArg _ (hgrow level _)).trans ?_
          rw [hend, hallows]
          rfl
        | some finish =>
          rw [hend] at hclimb
          have hb := stepEnd?_bounds l.body hstep (hs.text ▸ hs.inside) hend
          have hready' := hready.moved (hready.text ▸ hb.2)
          obtain ⟨hnoted', ⟨newer, hends⟩, deep, hdeep⟩ := ih (count + 1)
            (s.position :: older) (u.moved finish) hready'
            (by rw [List.length_cons, hlength]) ends t hclimb hstop
          refine ⟨hnoted'.trans hnoted, ⟨newer ++ [finish], ?_⟩, deep + 1,
            fun level rest hrest visit => ?_⟩
          · rw [hends, List.append_assoc]
            rfl
          obtain ⟨rest, rfl⟩ : ∃ n, rest = n + 1 := ⟨rest - 1, by omega⟩
          have hnext : Verdict.when (l.quantifier.allowsAfter count)
              ((bodyTree c l level (s.spot l.trail)).explore (l.quantifier.follow l.fewest
                (bodyTree c l level) rest (count + 1) s.position visit)) =
              Verdict.inTurn (fun e => visit ⟨e, l.trail⟩)
                (ends.take (ends.length - max l.quantifier.least (count + 1))) := by
            rw [hallows, hgrow, hend, ← hdeep level rest (by omega) visit]
            have hne : ¬(finish = s.position && l.quantifier.metBy (count + 1)) = true := by
              have : ¬finish = s.position := by omega
              simp [this]
            exact if_neg hne
          refine (explore_most l hmost level rest count (s.spot l.trail) visit).trans ?_
          refine (congrArg (Verdict.orElse · _) hnext).trans ?_
          exact take_round (fun e => visit ⟨e, l.trail⟩) hends hlength

theorem descend_means (hE : EnterMeans c n inner) (l : Loop) :
    ∀ ends s, Ready c n s → (∀ e ∈ ends, e ≤ s.position) → ends.Pairwise (· ≥ ·) →
      Means (fun level => Verdict.inTurn (fun e => onto c l.k level ⟨e, l.trail⟩) ends)
        (descend inner l ends) s := by
  intro ends
  induction ends with
  | nil =>
    intro s _ _ _
    rw [descend_nil]
    exact .miss
  | cons finish ends ih =>
    intro s hs hends hsorted
    have hle := hends finish (List.mem_cons_self ..)
    have hmoved := hs.moved (Nat.le_trans hle hs.inside)
    have hrest : ∀ t : State, t.position = finish → ∀ e ∈ ends, e ≤ t.position := fun t hp e he =>
      hp ▸ (List.pairwise_cons.mp hsorted).1 e he
    rw [descend_cons]
    refine .after (State.rewindTo_eq hle) ?_
    refine (resume_means hE l.k l.trail l.depth _ hmoved).orElse (P := fun t => t.position = finish)
      ((hmoved.resume hE.restores ..).mono (Nat.zero_le _) fun _ _ hp => hp) fun t ht hp => ?_
    have hready := hmoved.of_moves ht
    refine ⟨?_, ih t hready (hrest t hp) (List.pairwise_cons.mp hsorted).2⟩
    exact descend_roams hE.restores l 0 ends t hready.left (Nat.zero_le _) ht.inside
      (fun e he => ⟨Nat.zero_le _, hrest t hp e he⟩) (List.pairwise_cons.mp hsorted).2

theorem most_means (hE : EnterMeans c n inner) (l : Loop) (hstep : l.body.isStep = true)
    (hmost : l.fewest = false) (hs : Ready c n s) :
    Means (loop c l 0 s.position) (most c inner l n) s := by
  intro found u hu hstop
  obtain ⟨ends, t, hclimb, hmoves, hends, hsorted⟩ :=
    climb_ends c l s.position n 0 [s.position] s hs.left (Nat.le_refl _) hs.inside (by simp)
      (by simp)
  have hends' : ∀ e ∈ ends.take (ends.length - l.quantifier.least), e ≤ t.position :=
    fun e he => (hends e (List.mem_of_mem_take he)).2
  have hsorted' := hsorted.sublist (List.take_sublist (ends.length - l.quantifier.least) ends)
  have hready := hs.of_moves hmoves
  rw [most_of c inner l n s hclimb] at hu
  obtain ⟨found', u', hu', hmoves', _⟩ := descend_roams hE.restores l 0 _ t
    hready.left (Nat.zero_le _) hready.inside (fun e he => ⟨Nat.zero_le _, hends' e he⟩) hsorted'
  cases hu'.symm.trans hu
  obtain ⟨hnoted, _, deep, hdeep⟩ :=
    climb_means l hstep hmost 0 [] s hs rfl ends t hclimb (hmoves'.running hstop)
  obtain ⟨deep', hdescend⟩ :=
    descend_means hE l _ t hready hends' hsorted' found u hu hstop
  refine ⟨max deep deep', fun level hlevel => ?_⟩
  obtain ⟨all, hall, hnoted'⟩ := hdescend level (Nat.le_trans (Nat.le_max_right ..) hlevel)
  refine ⟨all, ?_, hnoted ▸ hnoted'⟩
  have htree := hdeep level level (Nat.le_trans (Nat.le_max_left ..) hlevel) (onto c l.k level)
  rw [Nat.max_eq_left (Nat.zero_le _)] at htree
  exact htree.trans hall

theorem more_means (hE : EnterMeans c m inner) (l : Loop) (hstep : l.body.isStep = true)
    (hfewest : l.fewest = true) (count : Nat) (s : State) (hs : Ready c m s) :
    Means (loop c l count s.position) (more c inner l m count) s := by
  induction m generalizing count s with
  | zero => exact absurd_left hs.left
  | succ m ih =>
    have hE' := hE.weaken (Nat.le_succ m)
    have hsteps := hs.left
    have stop : Means (fun level => .when (l.quantifier.metBy count)
        (onto c l.k level (s.spot l.trail))) (stopping inner l count) s :=
      .when fun _ => resume_means hE l.k l.trail l.depth s hs
    have grow : ∀ t, Moves c.limits s.position s t → t.position = s.position →
        Means (fun level => .when (l.quantifier.allowsAfter count)
          ((bodyTree c l level (s.spot l.trail)).explore
            (l.quantifier.follow l.fewest (bodyTree c l level) level (count + 1) s.position
              (onto c l.k level)))) (stepping c inner l m count) t := by
      intro t ht hp
      have hready := hs.of_moves ht
      refine .when fun _ => .counted fun u hu => ?_
      have hp' := (State.tick_position hu).trans hp
      have hready' := hready.tick hu
      intro found v hv hstop
      rw [modifyGet_bind, nodeStep_eq _ _ _ hstep hready'.inside, hready'.text, hp'] at hv
      have hbody : ∀ level visit, (bodyTree c l level (s.spot l.trail)).explore visit =
          Verdict.atEnd visit (s.spot l.trail) (l.body.stepEnd? c.text s.position) :=
        fun level visit => explore_bodyStep l hstep level visit _
      simp only [hbody]
      cases hend : l.body.stepEnd? c.text s.position with
      | none =>
        rw [hend] at hv
        cases hv
        exact ⟨0, fun _ _ => ⟨[], rfl, rfl⟩⟩
      | some finish =>
        rw [hend] at hv
        have hb := stepEnd?_bounds l.body hstep (hs.text ▸ hs.inside) hend
        have hthere := hready'.moved (hready'.text ▸ hb.2)
        have hne : ¬(finish = s.position && l.quantifier.metBy (count + 1)) = true := by
          have : ¬finish = s.position := by omega
          simp [this]
        obtain ⟨deep, hdeep⟩ :=
          ih hE' (count + 1) (u.moved finish) hthere found v hv hstop
        refine ⟨deep, fun level hlevel => ?_⟩
        obtain ⟨all, hall, hnoted⟩ := hdeep level hlevel
        exact ⟨all, (if_neg hne).trans hall, hnoted⟩
    rw [more_eq]
    refine Means.deepen ?_ fun level =>
      round_le l.quantifier l.fewest l.body count level l.k (s.spot l.trail)
    rw [hfewest] at grow ⊢
    refine stop.orElse (stopping_restores hE.restores l count hs.left hs.inside) fun t ht hp => ?_
    have hle := ht.left_le c.limits
    exact ⟨stepping_roams l _ count ht.above ht.inside fun u hlt hlow hu =>
      more_roams hE'.restores l _ _ u (by omega) hlow hu, grow t ht hp⟩

theorem stepwise_means (hE : EnterMeans c n inner) (l : Loop) (hstep : l.body.isStep = true)
    (hs : Ready c n s) : Means (loop c l 0 s.position) (stepwise c inner l n) s := by
  have back : ∀ t, Moves c.limits s.position s t → True →
      ∃ place, t.rewindTo s.position = t.moved place :=
    fun t ht _ => ⟨s.position, State.rewindTo_eq ht.above⟩
  refine .of_eq (stepwise_eq c inner l n s) ?_
  cases hl : l.fewest with
  | true =>
    exact (more_means hE l hstep hl 0 s hs).orMiss
      (more_roams hE.restores l s.position 0 s hs.left (Nat.le_refl _) hs.inside) back
  | false =>
    exact (most_means hE l hstep hl hs).orMiss (most_roams hE.restores l hs.left hs.inside) back

/-! ## Repeated bodies that bind nothing -/

/-- What follows a loop from a visit. -/
def Visit.stopVerdict (c : Setting) (l : Loop) (v : Visit) (level : Nat) : Verdict :=
  .when (l.quantifier.metBy v.count) (onto c l.k level ⟨v.position, l.trail⟩)

/-- What one more repetition from a visit comes to at its end. -/
def Visit.endVerdict (c : Setting) (l : Loop) (v : Visit) (level : Nat) : Spot → Verdict :=
  l.quantifier.follow l.fewest (bodyTree c l level) level (v.count + 1) v.position
    (onto c l.k level)

/-- What one more repetition from a visit comes to. -/
def Visit.growVerdict (c : Setting) (l : Loop) (v : Visit) (level : Nat) : Verdict :=
  match v.ends with
  | some ends => .inTurn (fun e => v.endVerdict c l level ⟨e, l.trail⟩) ends
  | none =>
    .when (l.quantifier.allowsAfter v.count)
      ((bodyTree c l level ⟨v.position, l.trail⟩).explore (v.endVerdict c l level))

/-- What a visit comes to. -/
def Visit.verdict (c : Setting) (l : Loop) (v : Visit) (level : Nat) : Verdict :=
  (Verdict.when (l.fewest && !v.stopTried) (v.stopVerdict c l level)).orElse
    ((v.growVerdict c l level).orElse (.when (!l.fewest) (v.stopVerdict c l level)))

/-- What visits come to in turn. -/
def visitsVerdict (c : Setting) (l : Loop) (visits : List Visit) (level : Nat) : Verdict :=
  visits.foldr (fun v rest => (v.verdict c l level).orElse rest) .miss

theorem endVerdict_le (l : Loop) (v : Visit) {level level' : Nat} (h : level ≤ level') (p : Spot) :
    v.endVerdict c l level p ≤ v.endVerdict c l level' p :=
  l.quantifier.follow_le l.fewest (l.body.tree_le h) h (onto_le h l.k) p

theorem visitVerdict_le (l : Loop) (v : Visit) {level level' : Nat} (h : level ≤ level') :
    v.verdict c l level ≤ v.verdict c l level' := by
  have stop : v.stopVerdict c l level ≤ v.stopVerdict c l level' :=
    Verdict.when_le (onto_le h l.k _)
  have grow : v.growVerdict c l level ≤ v.growVerdict c l level' := by
    unfold Visit.growVerdict
    cases v.ends with
    | some ends => exact Verdict.inTurn_le (fun e => endVerdict_le l v h _) ends
    | none =>
      exact Verdict.when_le (Tree.explore_le (l.body.tree_le h _) (endVerdict_le l v h))
  exact Verdict.orElse_le (Verdict.when_le stop) (Verdict.orElse_le grow (Verdict.when_le stop))

theorem visitsVerdict_le (l : Loop) (visits : List Visit) {level level' : Nat}
    (h : level ≤ level') : visitsVerdict c l visits level ≤ visitsVerdict c l visits level' := by
  induction visits with
  | nil => exact Verdict.le_refl _
  | cons v visits ih => exact Verdict.orElse_le (visitVerdict_le l v h) ih

/-- A fresh visit is one round of the loop. -/
theorem fresh_le (l : Loop) (count position level : Nat) :
    Visit.verdict c l { count, position } level ≤ loop c l count position (level + 1) := by
  refine Verdict.le_trans (Verdict.le_of_eq ?_)
    (round_le l.quantifier l.fewest l.body count level l.k ⟨position, l.trail⟩)
  rw [Verdict.inOrder_eq, Visit.verdict, Bool.not_false, Bool.and_true]
  rfl

theorem verdict_settled {l : Loop} {v : Visit} (h : ¬(l.fewest && !v.stopTried) = true)
    (level : Nat) : v.verdict c l level =
      (v.growVerdict c l level).orElse (.when (!l.fewest) (v.stopVerdict c l level)) := by
  refine Eq.trans ?_ Verdict.miss_orElse
  exact congrArg (Verdict.orElse · _) (if_neg h)

theorem visitsVerdict_lazy {l : Loop} {v : Visit} (h : l.fewest && !v.stopTried)
    (below : List Visit) (level : Nat) :
    visitsVerdict c l (v :: below) level =
      (v.stopVerdict c l level).orElse
        (visitsVerdict c l ({ v with stopTried := true } :: below) level) := by
  refine Eq.trans ?_ (Verdict.orElse_assoc ..)
  refine congrArg (Verdict.orElse · _) ?_
  rw [verdict_settled (v := { v with stopTried := true }) (by simp)]
  exact congrArg (Verdict.orElse · _) (if_pos h)

/-- Ends that come to no more than the body does may stand for it. -/
theorem visitsVerdict_known {l : Loop} {v : Visit} (h : ¬(l.fewest && !v.stopTried) = true)
    (below : List Visit) {ends : List Nat} (level : Nat)
    (hle : Verdict.inTurn (fun e => v.endVerdict c l level ⟨e, l.trail⟩) ends ≤
      v.growVerdict c l level) :
    visitsVerdict c l ({ v with ends := some ends } :: below) level ≤
      visitsVerdict c l (v :: below) level := by
  refine Verdict.orElse_le ?_ (Verdict.le_refl _)
  rw [verdict_settled h, verdict_settled (v := { v with ends := some ends }) h]
  exact Verdict.orElse_le hle (Verdict.le_refl _)

theorem stopAt_means (hE : EnterMeans c n inner) (l : Loop) {place : Nat} (hs : Ready c n s)
    (hp : place ≤ s.buffer.size) :
    Means (fun level => onto c l.k level ⟨place, l.trail⟩) (stopAt inner l place) s := by
  rw [stopAt_eq]
  exact .after (State.seek_eq hp) (resume_means hE l.k l.trail l.depth _ (hs.moved hp))

/-- The ends that are gathered are the outcomes of the body, each of them once. -/
theorem bodyEnds_means (hE : EnterMeans c n inner) (l : Loop) (hbinds : l.body.bindsNothing = true)
    (hs : Ready c n s) {ends : List Nat} {t : State} (hbody : bodyEnds inner l s = some (ends, t))
    (hstop : t.stopped = none) :
    t.noted = s.noted ∧ ∃ deep, ∀ level, deep ≤ level → ∀ visit : Spot → Verdict,
      Verdict.inTurn (fun e => visit ⟨e, l.trail⟩) ends ≤
        (bodyTree c l level (s.spot l.trail)).explore visit := by
  have hs' : Ready c n { s with noted := [] :: s.noted } := ⟨hs.text, hs.inside, hs.left⟩
  obtain ⟨found, u, hu, hmoves, _⟩ :=
    hs'.enter hE.restores (.last l.body) l.trail .note (l.depth + 1)
  obtain ⟨noted, hnoted, _⟩ := hmoves.noted
  obtain ⟨all, hall, _⟩ := noteAll_cons noted [] s.noted
  have hlast : u.noted = all :: s.noted := hnoted.trans hall
  rw [bodyEnds_eq, hu] at hbody
  cases hbody
  obtain ⟨deep, hdeep⟩ := hE.means _ _ _ _ _ hs' found u hu hstop
  refine ⟨by rw [hlast]; rfl, deep, fun level hlevel visit => ?_⟩
  obtain ⟨outcomes, houtcomes, hsame⟩ := hdeep level hlevel
  obtain ⟨_, hexplore⟩ :=
    Tree.explore_ends (l.body.treeWith_keeps hbinds (s.spot l.trail)) houtcomes visit
  refine Verdict.le_trans ?_ (Verdict.le_of_eq hexplore.symm)
  rw [hlast]
  exact Verdict.inTurn_noted _ (hsame.symm.trans hlast)

theorem advance_means (hE : EnterMeans c n inner) (l : Loop) {bound : Nat} {visit : Visit}
    {below : List Visit} (hv : ¬(l.fewest && !visit.stopTried) = true)
    (hX : ∀ visits t, weightOf visits < bound → Ready c n t →
      (∀ v ∈ visits, v.Within 0 t.buffer.size) →
      Means (visitsVerdict c l visits) (explore inner l n visits) t)
    (ends : List Nat) {s : State} (hs : Ready c n s)
    (hbound : weightOf ({ visit with ends := some ends } :: below) ≤ bound)
    (hvisit : Visit.Within 0 s.buffer.size { visit with ends := some ends })
    (hbelow : ∀ v ∈ below, v.Within 0 s.buffer.size) :
    Means (visitsVerdict c l ({ visit with ends := some ends } :: below))
      (advance inner l n visit ends below) s := by
  have stop := stopAt_means hE l hs hvisit.2.1
  have hstop := hs.stopAt hE.restores l hvisit.2.1
  have next : ∀ visits t, weightOf visits < bound → (∀ v ∈ visits, v.Within 0 s.buffer.size) →
      Moves c.limits 0 s t → Roams c.limits 0 (explore inner l n visits) t ∧
        Means (visitsVerdict c l visits) (explore inner l n visits) t :=
    fun visits t hw hin ht =>
      have hin' : ∀ v ∈ visits, v.Within 0 t.buffer.size := ht.size.symm ▸ hin
      ⟨(hs.of_moves ht).explore hE.restores l hin', hX visits t hw (hs.of_moves ht) hin'⟩
  rw [weightOf_cons] at hbound
  cases ends with
  | nil =>
    have hfirst := Roams.when (b := !l.fewest && l.quantifier.metBy visit.count) (Nat.zero_le _)
      hs.inside fun _ => hstop
    have hweight := Visit.weight_pos { visit with ends := some [] }
    rw [advance_nil]
    refine Means.mono (Means.orElse (.when fun _ => stop) hfirst fun t ht _ =>
      next below t (by omega) hbelow ht) 0 fun level _ => ?_
    refine Verdict.le_of_eq (congrArg (Verdict.orElse · _) ?_)
    rw [verdict_settled (v := { visit with ends := some [] }) hv]
    refine Eq.trans ?_ Verdict.miss_orElse.symm
    unfold Visit.stopVerdict Verdict.when
    cases l.fewest <;> rfl
  | cons finish ends =>
    have hrest := List.forall_mem_cons.mpr ⟨hvisit.rest, hbelow⟩
    -- The end is tried first, and then what is left of the visit.
    have hsplit : ∀ level,
        visitsVerdict c l ({ visit with ends := some (finish :: ends) } :: below) level =
          (visit.endVerdict c l level ⟨finish, l.trail⟩).orElse
            (visitsVerdict c l ({ visit with ends := some ends } :: below) level) := by
      intro level
      refine Eq.trans ?_ (Verdict.orElse_assoc ..)
      refine congrArg (Verdict.orElse · _) ?_
      rw [verdict_settled (v := { visit with ends := some (finish :: ends) }) hv,
        verdict_settled (v := { visit with ends := some ends }) hv, ← Verdict.orElse_assoc]
      rfl
    rw [Visit.weight_rest] at hbound
    rw [advance_cons]
    by_cases hempty : finish = visit.position && l.quantifier.metBy (visit.count + 1)
    · rw [if_pos hempty]
      have hplace := of_decide_eq_true (Bool.and_eq_true_iff.mp hempty).1
      have tried : Means (fun level => (onto c l.k level ⟨visit.position, l.trail⟩).orElse
            (visitsVerdict c l ({ visit with ends := some ends } :: below) level))
          (orElse (stopAt inner l visit.position)
            (explore inner l n ({ visit with ends := some ends } :: below))) s := by
        refine stop.orElse hstop fun t ht _ => next _ t ?_ hrest ht
        rw [weightOf_cons]
        omega
      refine tried.mono 0 fun level _ => ?_
      rw [hsplit, ← hplace]
      exact Verdict.le_of_eq (congrArg (Verdict.orElse · _) (if_pos hempty).symm)
    · rw [if_neg hempty]
      refine Means.deepen (next _ s ?_ (List.forall_mem_cons.mpr ⟨hvisit.next _, hrest⟩)
        (.refl (Nat.zero_le _) hs.inside)).2 fun level => ?_
      · rw [weightOf_cons, weightOf_cons, Visit.weight_fresh]
        omega
      · rw [hsplit]
        refine Verdict.orElse_le (Verdict.le_trans (fresh_le l _ finish level) ?_)
          (visitsVerdict_le l _ (Nat.le_succ level))
        exact Verdict.le_of_eq (if_neg hempty).symm

theorem gathering_means (hE : EnterMeans c (m + 1) inner) (l : Loop)
    (hbinds : l.body.bindsNothing = true) {visit : Visit} {below : List Visit}
    (hv : ¬(l.fewest && !visit.stopTried) = true) (hends : visit.ends = none)
    (hallows : l.quantifier.allowsAfter visit.count = true)
    (hX : ∀ visits t, Ready c m t → (∀ v ∈ visits, v.Within 0 t.buffer.size) →
      Means (visitsVerdict c l visits) (explore inner l m visits) t)
    (hs : Ready c (m + 1) s) (hstop : s.stopped = none) (hvisit : visit.Within 0 s.buffer.size)
    (hbelow : ∀ v ∈ below, v.Within 0 s.buffer.size) :
    Means (visitsVerdict c l (visit :: below)) (gathering inner l visit below (m + 1)) s := by
  refine .after (State.seek_eq hvisit.2.1) fun found u hu hstop' => ?_
  obtain ⟨ends, t, ht, hmoves, he, hlt⟩ := bodyEnds_within hE.restores l
    (s := s.moved visit.position) hs.left (Nat.zero_le _) hvisit.2.1
  have hE' := hE.weaken (Nat.le_succ m)
  have hready : Ready c m t := hs.of_less hmoves.of_moved (hlt hstop)
  have hvisit' : Visit.Within 0 t.buffer.size { visit with ends := some ends } :=
    hmoves.size.symm ▸ hvisit.known he
  have hbelow' : ∀ v ∈ below, v.Within 0 t.buffer.size := hmoves.size.symm ▸ hbelow
  rw [bind_of ht] at hu
  obtain ⟨found', u', hu', hmoves', _⟩ := hready.advance hE'.restores l hvisit' hbelow'
  cases hu'.symm.trans hu
  obtain ⟨hnoted, deep, hbody⟩ := bodyEnds_means hE l hbinds (hs.moved hvisit.2.1) ht
    (hmoves'.running hstop')
  have hadvance : Means (visitsVerdict c l (visit :: below)) (advance inner l m visit ends below)
      t := by
    refine (advance_means hE' l hv (fun visits t' _ => hX visits t') ends hready (Nat.le_refl _)
      hvisit' hbelow').mono deep fun level hlevel => visitsVerdict_known hv below level ?_
    rw [Visit.growVerdict, hends, hallows]
    exact hbody level hlevel (visit.endVerdict c l level)
  rw [← hnoted]
  exact hadvance found u hu hstop'

theorem explore_means (hE : EnterMeans c m inner) (l : Loop) (hbinds : l.body.bindsNothing = true)
    (visits : List Visit) (s : State) (hs : Ready c m s)
    (hin : ∀ v ∈ visits, v.Within 0 s.buffer.size) :
    Means (visitsVerdict c l visits) (explore inner l m visits) s := by
  induction m, visits using explore_induction generalizing s with
  | step m visits ihm ihw =>
    cases visits with
    | nil =>
      rw [explore_nil]
      exact .miss
    | cons visit below =>
      obtain ⟨hvisit, hbelow⟩ := List.forall_mem_cons.mp hin
      refine .of_eq (explore_cons inner l m s visit below) ?_
      by_cases hstop : s.stopped.isSome
      · rw [if_pos hstop]
        exact .stopped hstop
      rw [if_neg hstop]
      by_cases hlazy : l.fewest && !visit.stopTried
      · rw [if_pos hlazy]
        refine Means.mono (Means.orElse (.when fun _ => stopAt_means hE l hs hvisit.2.1)
          (Roams.when (Nat.zero_le _) hs.inside fun _ => hs.stopAt hE.restores l hvisit.2.1)
          fun t ht _ => ?_) 0 fun level _ =>
            Verdict.le_of_eq (visitsVerdict_lazy hlazy below level).symm
        have hin' : ∀ v ∈ { visit with stopTried := true } :: below, v.Within 0 t.buffer.size :=
          ht.size.symm ▸ List.forall_mem_cons.mpr ⟨hvisit, hbelow⟩
        refine ⟨(hs.of_moves ht).explore hE.restores l hin', ?_⟩
        refine ihw _ ?_ hE t (hs.of_moves ht) hin'
        have hweight := Visit.weight_tried hlazy
        rw [weightOf_cons, weightOf_cons]
        omega
      rw [if_neg hlazy]
      have hX : ∀ visits' t, weightOf visits' < weightOf (visit :: below) → Ready c m t →
          (∀ v ∈ visits', v.Within 0 t.buffer.size) →
          Means (visitsVerdict c l visits') (explore inner l m visits') t :=
        fun visits' t hw => ihw visits' hw hE t
      cases hends : visit.ends with
      | some ends =>
        have hsame : { visit with ends := some ends } = visit := by rw [← hends]
        have hadvance := advance_means hE l hlazy hX ends hs
          (Nat.le_of_eq (by rw [hsame])) (by rw [hsame]; exact hvisit) hbelow
        rw [hsame] at hadvance
        exact hadvance
      | none =>
        cases hallows : l.quantifier.allowsAfter visit.count with
        | true =>
          cases m with
          | zero => exact absurd_left hs.left
          | succ m =>
            have hE' := hE.weaken (Nat.le_succ m)
            exact gathering_means hE l hbinds hlazy hends hallows
              (fun visits' => ihm m (Nat.lt_succ_self m) visits' hE') hs
              (Option.not_isSome_iff_eq_none.mp hstop) hvisit hbelow
        | false =>
          refine (advance_means hE l hlazy hX [] hs ?_ (hvisit.known (by simp)) hbelow).mono 0
            fun level _ => visitsVerdict_known hlazy below level ?_
          · exact Nat.le_of_eq (by rw [weightOf_cons, weightOf_cons, Visit.weight_known hends])
          · rw [Visit.growVerdict, hends, hallows]
            exact Verdict.le_refl _

theorem gathered_means (hE : EnterMeans c n inner) (l : Loop) (hbinds : l.body.bindsNothing = true)
    (hs : Ready c n s) : Means (loop c l 0 s.position) (gathered inner l n) s := by
  have hin : ∀ v ∈ [{ count := 0, position := s.position : Visit }], v.Within 0 s.buffer.size :=
    List.forall_mem_singleton.mpr ⟨Nat.zero_le _, hs.inside, by simp⟩
  refine .of_eq (gathered_eq inner l n s) (Means.deepen ?_ (fresh_le l 0 s.position))
  have hone : visitsVerdict c l [{ count := 0, position := s.position : Visit }] =
      Visit.verdict c l { count := 0, position := s.position } :=
    funext fun level => Verdict.orElse_miss
  rw [← hone]
  exact (explore_means hE l hbinds _ s hs hin).orMiss (P := fun _ => True)
    (hs.explore hE.restores l hin) fun t ht _ =>
      ⟨s.position, State.seek_eq (ht.size ▸ hs.inside)⟩

end WordPattern.Walk
