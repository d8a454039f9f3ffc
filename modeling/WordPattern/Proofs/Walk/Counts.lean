import WordPattern.Proofs.Tree.Order
import WordPattern.Proofs.Walk.Outcomes

/-!
# How often a step is repeated

A step ends at one place at most, so its repetitions end at places that follow one another. As often
as possible, it is repeated to the last of them behind which what follows matches, and as seldom as
possible to the first one.
-/

namespace WordPattern

/-! ## Steps in a row -/

/-- The number of repetitions is within the bounds. -/
def Quantifier.Permits (q : Quantifier) (count : Nat) : Prop :=
  q.least ≤ count ∧ ∀ most, q.most? = some most → count ≤ most

theorem Quantifier.allowsAfter_iff {q : Quantifier} {count : Nat} :
    q.allowsAfter count = true ↔ ∀ most, q.most? = some most → count < most := by
  unfold allowsAfter
  cases q.most? <;> simp

section

variable {text : ByteArray} {environment : Environment} {trail : Trail} {node : Node}
  {count origin place : Nat}

/-- The body leads from the origin to a place if it matches some number of times in a row. -/
def Node.RepeatsTo (text : ByteArray) (environment : Environment) (trail : Trail) (body : Node)
    (origin : Nat) : Nat → Nat → Prop
  | 0, place => place = origin
  | count + 1, place => ∃ before, body.RepeatsTo text environment trail origin count before ∧
      (Chain.last body).Prefers text environment ⟨before, trail⟩ (some ⟨place, trail⟩)

theorem Node.first_step (hstep : node.isStep = true) (level : Nat) (p : Spot) :
    (node.tree text environment level p).first =
      some ((node.stepEnd? text p.position).map p.move) := by
  have hvisit := Tree.explore_first (node.tree text environment level p)
  rw [Node.tree, node.explore_step _ hstep p] at hvisit
  rw [Node.tree]
  cases hfirst : (node.treeWith text environment level (Chain.calledTree text environment level)
    p).first with
  | none =>
    rw [hfirst] at hvisit
    cases hend : node.stepEnd? text p.position <;>
      simp [hend, Verdict.atEnd, Verdict.miss] at hvisit
  | some outcome =>
    rw [hfirst] at hvisit
    cases hend : node.stepEnd? text p.position <;> simp_all [Verdict.atEnd, Verdict.miss]

theorem Node.prefers_step (hstep : node.isStep = true) {p : Spot} {outcome : Option Spot} :
    (Chain.last node).Prefers text environment p outcome ↔
      outcome = (node.stepEnd? text p.position).map p.move := by
  constructor
  · rintro ⟨level, hlevel⟩
    exact Option.some.inj (hlevel.symm.trans (node.first_step hstep level p))
  · rintro rfl
    exact ⟨0, node.first_step hstep 0 p⟩

theorem Node.RepeatsTo.next {finish : Nat} (hstep : node.isStep = true)
    (h : node.RepeatsTo text environment trail origin count place)
    (hend : node.stepEnd? text place = some finish) :
    node.RepeatsTo text environment trail origin (count + 1) finish := by
  refine ⟨place, h, ?_⟩
  rw [Node.prefers_step hstep, hend]
  rfl

theorem Node.RepeatsTo.unique {place' : Nat}
    (h : node.RepeatsTo text environment trail origin count place)
    (h' : node.RepeatsTo text environment trail origin count place') : place = place' := by
  induction count generalizing place place' with
  | zero => exact Eq.trans h (Eq.symm h')
  | succ count ih =>
    obtain ⟨before, hbefore, hstep⟩ := h
    obtain ⟨before', hbefore', hstep'⟩ := h'
    obtain rfl := ih hbefore hbefore'
    cases hstep.unique hstep'
    rfl

theorem Node.RepeatsTo.earlier {count' : Nat}
    (h : node.RepeatsTo text environment trail origin count' place) (hle : count ≤ count') :
    ∃ place', node.RepeatsTo text environment trail origin count place' := by
  induction count' generalizing place with
  | zero =>
    obtain rfl := Nat.le_zero.mp hle
    exact ⟨place, h⟩
  | succ count' ih =>
    rcases Nat.lt_or_eq_of_le hle with hlt | rfl
    · obtain ⟨before, hbefore, -⟩ := h
      exact ih hbefore (Nat.le_of_lt_succ hlt)
    · exact ⟨place, h⟩

end

namespace Walk

open Search (Continuation Loop)

/-! ## What follows the repetitions -/

/-- A walk that follows a continuation from a place, and is not cut off, comes to this. -/
def Follows (c : Setting) (trail : Trail) (k : Continuation) (depth place : Nat)
    (found : Option Trail) (t : State) : Prop :=
  ∃ n s, Ready c n s ∧ s.position = place ∧
    resume (enter c n) trail k depth s = some (found, t) ∧ t.stopped = none

/-- What follows a loop comes to this if it is tried after `count` repetitions. -/
def Comes (c : Setting) (l : Loop) (origin count : Nat) (found : Option Trail) (t : State) : Prop :=
  ∃ place, l.body.RepeatsTo c.text c.environment l.trail origin count place ∧
    Follows c l.trail l.k l.depth place found t

/-- What follows a loop matches after `count` repetitions, if the limits are large enough. -/
def Succeeds (c : Setting) (l : Loop) (origin count : Nat) : Prop :=
  l.quantifier.Permits count ∧
    ∃ limits trail t, Comes (c.within limits) l origin count (some trail) t

/-- What follows a loop does not match after `count` repetitions, where there are so many. -/
def Fails (c : Setting) (l : Loop) (origin count : Nat) : Prop :=
  ∀ place, l.body.RepeatsTo c.text c.environment l.trail origin count place →
    ∃ t, Follows c l.trail l.k l.depth place none t

/-- What a loop comes to that tries some numbers of repetitions before others. -/
def Settles (c : Setting) (l : Loop) (origin : Nat) (before : Nat → Nat → Prop)
    (found : Option Trail) (t : State) : Prop :=
  match found with
  | some trail => ∃ count, l.quantifier.Permits count ∧ Comes c l origin count (some trail) t ∧
      ∀ earlier, before earlier count → l.quantifier.Permits earlier → Fails c l origin earlier
  | none => ∀ count, l.quantifier.Permits count → Fails c l origin count

variable {c : Setting} {l : Loop} {n m origin count : Nat} {s t : State} {found : Option Trail}

/-- What follows from a place does not depend on the limits, unless it is cut off. -/
theorem Follows.unique (hc : c.Fits) {limits : Limits} {trail : Trail} {k : Continuation}
    {depth place : Nat} {found' : Option Trail} {t' : State}
    (h : Follows c trail k depth place found t)
    (h' : Follows (c.within limits) trail k depth place found' t') :
    found.map t.spot = found'.map t'.spot := by
  obtain ⟨n, s, hs, rfl, hresume, hstop⟩ := h
  obtain ⟨n', s', hs', hp, hresume', hstop'⟩ := h'
  have hc' : (c.within limits).Fits := ⟨hc.stepwise, hc.gathered⟩
  obtain ⟨deep, hdeep⟩ := resume_means (enter_means hc n) k trail depth s hs found t hresume hstop
  obtain ⟨deep', hdeep'⟩ :=
    resume_means (enter_means hc' n') k trail depth s' hs' found' t' hresume' hstop'
  obtain ⟨_, hverdict, _⟩ := hdeep (max deep deep') (Nat.le_max_left ..)
  obtain ⟨_, hverdict', _⟩ := hdeep' (max deep deep') (Nat.le_max_right ..)
  rw [State.spot_eq hp] at hverdict'
  exact (Verdict.known.inj (hverdict.symm.trans hverdict')).1

theorem Fails.not_succeeds (hc : c.Fits) (h : Fails c l origin count) :
    ¬Succeeds c l origin count := by
  rintro ⟨-, limits, trail, t, place, hrow, hfollows⟩
  obtain ⟨u, hfails⟩ := h place hrow
  cases hfails.unique hc hfollows

theorem Fails.of_resume (hs : Ready c n s)
    (hrow : l.body.RepeatsTo c.text c.environment l.trail origin count s.position)
    (h : resume (enter c n) l.trail l.k l.depth s = some (none, t)) (hstop : t.stopped = none) :
    Fails c l origin count := by
  intro place hplace
  obtain rfl := hplace.unique hrow
  exact ⟨t, n, s, hs, rfl, h, hstop⟩

/-- If there is no further repetition, nothing is left to be tried. -/
theorem fails_beyond {place : Nat} (hstep : l.body.isStep = true)
    (hrow : l.body.RepeatsTo c.text c.environment l.trail origin count place)
    (hend : l.quantifier.allowsAfter count = true → l.body.stepEnd? c.text place = none)
    (later : Nat) (hlater : count < later) (hpermits : l.quantifier.Permits later) :
    Fails c l origin later := by
  intro finish hfinish
  obtain ⟨_, place', hrow', hprefers⟩ := hfinish.earlier hlater
  obtain rfl := hrow'.unique hrow
  have hallows : l.quantifier.allowsAfter count = true := by
    apply Quantifier.allowsAfter_iff.mpr
    exact fun most hmost => Nat.lt_of_lt_of_le hlater (hpermits.2 most hmost)
  rw [Node.prefers_step hstep, hend hallows] at hprefers
  cases hprefers

theorem counted_running {limits : Limits} {depth : Nat} {walk : Walk (Option Trail)}
    (h : counted limits depth walk s = some (found, t)) (hstop : t.stopped = none) :
    ∃ u, s.tick limits depth = (true, u) ∧ walk u = some (found, t) := by
  rcases htick : s.tick limits depth with ⟨counts, u⟩
  cases counts with
  | true => exact ⟨u, rfl, (counted_true htick).symm.trans h⟩
  | false =>
    rw [counted, modifyGet_bind, htick] at h
    cases h
    exact absurd hstop (State.tick_false htick)

theorem Ready.stepped {body : Node} {place finish : Nat} (hs : Ready c n s)
    (hstep : body.isStep = true) (hp : s.position = place)
    (hend : body.stepEnd? c.text place = some finish) : Ready c n (s.moved finish) := by
  rw [← hs.text, ← hp] at hend
  exact hs.moved (stepEnd?_bounds body hstep hs.inside hend).2

/-! ## As seldom as possible -/

theorem stopping_settles (hs : Ready c n s)
    (hrow : l.body.RepeatsTo c.text c.environment l.trail origin count s.position)
    (hmost : ∀ most, l.quantifier.most? = some most → count ≤ most)
    (h : stopping (enter c n) l count s = some (found, t)) (hstop : t.stopped = none) :
    match found with
    | some trail => l.quantifier.Permits count ∧ Comes c l origin count (some trail) t
    | none => l.quantifier.Permits count → Fails c l origin count := by
  unfold stopping at h
  split at h
  · rename_i hmet
    cases found with
    | some trail =>
      exact ⟨⟨of_decide_eq_true hmet, hmost⟩, s.position, hrow, n, s, hs, rfl, h, hstop⟩
    | none => exact fun _ => .of_resume hs hrow h hstop
  · rename_i hmet
    cases h
    exact fun hpermits => absurd (decide_eq_true hpermits.1) hmet

/-- One more step is made, and the loop settles from there; or there is none, and all numbers of
repetitions have been tried. -/
theorem stepping_settles (hstep : l.body.isStep = true) (hs : Ready c (m + 1) s)
    (hrow : l.body.RepeatsTo c.text c.environment l.trail origin count s.position)
    (hfails : ∀ earlier < count + 1, l.quantifier.Permits earlier → Fails c l origin earlier)
    (hnext : ∀ u, Ready c m u →
      l.body.RepeatsTo c.text c.environment l.trail origin (count + 1) u.position →
      (∀ most, l.quantifier.most? = some most → count + 1 ≤ most) →
      more c (enter c n) l m (count + 1) u = some (found, t) →
      Settles c l origin (· < ·) found t)
    (h : stepping c (enter c n) l m count s = some (found, t)) (hstop : t.stopped = none) :
    Settles c l origin (· < ·) found t := by
  have hlast (hend : l.quantifier.allowsAfter count = true →
      l.body.stepEnd? c.text s.position = none) : Settles c l origin (· < ·) none t := by
    intro later hpermits
    rcases Nat.lt_or_ge count later with hlater | hearlier
    · exact fails_beyond hstep hrow hend later hlater hpermits
    · exact hfails later (Nat.lt_succ_of_le hearlier) hpermits
  unfold stepping at h
  cases hallows : l.quantifier.allowsAfter count with
  | false =>
    rw [hallows] at h
    cases h
    apply hlast
    simp [hallows]
  | true =>
    rw [hallows, if_pos rfl] at h
    obtain ⟨u, htick, h⟩ := counted_running h hstop
    have hu := hs.tick htick
    have hp := State.tick_position htick
    rw [modifyGet_bind, nodeStep_eq _ _ _ hstep hu.inside, hu.text, hp] at h
    cases hend : l.body.stepEnd? c.text s.position with
    | none =>
      rw [hend] at h
      cases h
      exact hlast fun _ => hend
    | some finish =>
      rw [hend] at h
      exact hnext (u.moved finish) (hu.stepped hstep hp hend) (hrow.next hstep hend)
        (fun most h => Quantifier.allowsAfter_iff.mp hallows most h) h

theorem more_settles (hstep : l.body.isStep = true) (hle : m ≤ n) (s : State) (hs : Ready c m s)
    (hrow : l.body.RepeatsTo c.text c.environment l.trail origin count s.position)
    (hmost : ∀ most, l.quantifier.most? = some most → count ≤ most)
    (hfails : ∀ earlier < count, l.quantifier.Permits earlier → Fails c l origin earlier)
    (h : more c (enter c n) l m count s = some (found, t)) (hstop : t.stopped = none) :
    Settles c l origin (· < ·) found t := by
  induction m generalizing count s with
  | zero => exact absurd_left hs.left
  | succ m ih =>
    have hE := enter_restores c n
    have hready := hs.weaken hle
    rw [more_eq] at h
    obtain ⟨found', u, hfirst, hmoves, hleft⟩ := stopping_restores hE l count hready.left hs.inside
    cases found' with
    | some trail =>
      rw [orElse_found hfirst] at h
      cases h
      obtain ⟨hpermits, hcomes⟩ := stopping_settles hready hrow hmost hfirst hstop
      exact ⟨count, hpermits, hcomes, hfails⟩
    | none =>
      have hp : u.position = s.position := hleft rfl
      have hu := hs.of_moves hmoves
      rw [orElse_missed hfirst] at h
      obtain ⟨_, _, hsecond, hmoves', _⟩ := stepping_roams l 0 count (Nat.zero_le _) hu.inside
        fun v hlt hlow hv => more_roams (hE.weaken (Nat.le_of_succ_le hle)) l 0 (count + 1) v
          (Nat.le_of_lt_succ (Nat.lt_of_lt_of_le hlt hu.left)) hlow hv
      cases hsecond.symm.trans h
      have hhere := stopping_settles hready hrow hmost hfirst (hmoves'.running hstop)
      have hfails' : ∀ earlier < count + 1, l.quantifier.Permits earlier →
          Fails c l origin earlier := by
        intro earlier hlt
        rcases Nat.lt_or_eq_of_le (Nat.le_of_lt_succ hlt) with hlt | rfl
        · exact hfails earlier hlt
        · exact hhere
      refine stepping_settles hstep hu (hp ▸ hrow) hfails' (fun v hv hrow' hmost' h => ?_) h hstop
      exact ih (Nat.le_of_succ_le hle) v hv hrow' hmost' hfails' h

/-! ## As often as possible -/

/-- The ends are those of repetitions in a row, the last one first. -/
def Rungs (c : Setting) (l : Loop) (origin : Nat) : List Nat → Prop
  | [] => True
  | finish :: older =>
    l.body.RepeatsTo c.text c.environment l.trail origin older.length finish ∧
      Rungs c l origin older

/-- Steps are made until the quantifier allows no further one, or no further one matches. -/
theorem climb_rungs (hstep : l.body.isStep = true) (older : List Nat) (s : State)
    (hs : Ready c m s) (hrungs : Rungs c l origin (s.position :: older))
    (hmost : ∀ most, l.quantifier.most? = some most → older.length ≤ most) {ends : List Nat}
    (h : climb c l m older.length (s.position :: older) s = some (ends, t))
    (hstop : t.stopped = none) :
    ∃ top older, ends = top :: older ∧ Rungs c l origin (top :: older) ∧
      (∀ most, l.quantifier.most? = some most → older.length ≤ most) ∧
      (l.quantifier.allowsAfter older.length = true → l.body.stepEnd? c.text top = none) := by
  induction m generalizing older s with
  | zero => exact absurd_left hs.left
  | succ m ih =>
    rw [climb_eq] at h
    cases hallows : l.quantifier.allowsAfter older.length with
    | false =>
      rw [hallows, if_neg (by simp)] at h
      cases h
      exact ⟨_, older, rfl, hrungs, hmost, fun htrue => absurd htrue (by simp [hallows])⟩
    | true =>
      rw [hallows, if_pos rfl] at h
      rcases htick : s.tick c.limits l.depth with ⟨counts, u⟩
      rw [htick] at h
      cases counts with
      | false =>
        cases h
        exact absurd hstop (State.tick_false htick)
      | true =>
        have hu := hs.tick htick
        dsimp only at h
        rw [nodeStep_eq _ _ _ hstep hu.inside, hu.text, State.tick_position htick] at h
        cases hend : l.body.stepEnd? c.text s.position with
        | none =>
          rw [hend] at h
          cases h
          exact ⟨_, older, rfl, hrungs, hmost, fun _ => hend⟩
        | some finish =>
          rw [hend] at h
          exact ih (s.position :: older) (u.moved finish)
            (hu.stepped hstep (State.tick_position htick) hend)
            ⟨hrungs.1.next hstep hend, hrungs⟩
            (fun most h => Quantifier.allowsAfter_iff.mp hallows most h) h

theorem descend_settles (ends : List Nat) (s : State) (hs : Ready c n s)
    (hends : ∀ e ∈ ends, e ≤ s.position) (hsorted : ends.Pairwise (· ≥ ·))
    (hrungs : Rungs c l origin ends)
    (hmost : ∀ most, l.quantifier.most? = some most → ends.length ≤ most + 1)
    (hfails : ∀ later, ends.length ≤ later → l.quantifier.Permits later → Fails c l origin later)
    (h : descend (enter c n) l (ends.take (ends.length - l.quantifier.least)) s = some (found, t))
    (hstop : t.stopped = none) : Settles c l origin (· > ·) found t := by
  induction ends generalizing s with
  | nil =>
    rw [List.take_nil, descend_nil] at h
    cases h
    exact fun count => hfails count (Nat.zero_le _)
  | cons finish older ih =>
    rw [List.length_cons] at hmost hfails h
    by_cases hleast : l.quantifier.least ≤ older.length
    · rw [Nat.succ_sub hleast, List.take_succ_cons, descend_cons, after_apply,
        State.rewindTo_eq (hends finish List.mem_cons_self)] at h
      have hle := hends finish List.mem_cons_self
      have hmoved := hs.moved (Nat.le_trans hle hs.inside)
      have hE := enter_restores c n
      have hsorted' := List.pairwise_cons.mp hsorted
      obtain ⟨found', u, hfirst, hmoves, hleft⟩ := hmoved.resume hE l.trail l.k l.depth
      cases found' with
      | some trail =>
        rw [orElse_found hfirst] at h
        cases h
        refine ⟨older.length, ⟨hleast, fun most h => Nat.le_of_succ_le_succ (hmost most h)⟩,
          ⟨finish, hrungs.1, n, _, hmoved, rfl, hfirst, hstop⟩, fun later hlater => ?_⟩
        exact hfails later hlater
      | none =>
        have hp : u.position = finish := hleft rfl
        have hu := hmoved.of_moves hmoves
        have hends' : ∀ e ∈ older, e ≤ u.position := fun e he => hp ▸ hsorted'.1 e he
        rw [orElse_missed hfirst] at h
        obtain ⟨_, _, hrest, hmoves', _⟩ := descend_roams hE l 0
          (older.take (older.length - l.quantifier.least)) u hu.left (Nat.zero_le _) hu.inside
          (fun e he => ⟨Nat.zero_le _, hends' e (List.mem_of_mem_take he)⟩)
          (hsorted'.2.sublist (List.take_sublist ..))
        cases hrest.symm.trans h
        have hhere : Fails c l origin older.length :=
          .of_resume hmoved hrungs.1 hfirst (hmoves'.running hstop)
        refine ih u hu hends' hsorted'.2 hrungs.2
          (fun most h => Nat.le_of_succ_le (hmost most h)) (fun later hlater => ?_) h
        rcases Nat.lt_or_eq_of_le hlater with hlater | rfl
        · exact hfails later hlater
        · exact fun _ => hhere
    · rw [Nat.sub_eq_zero_of_le (by omega), List.take_zero, descend_nil] at h
      cases h
      intro count hpermits
      have := hpermits.1
      exact hfails count (by omega) hpermits

theorem most_settles (hstep : l.body.isStep = true) (hs : Ready c n s)
    (h : most c (enter c n) l n s = some (found, t)) (hstop : t.stopped = none) :
    Settles c l s.position (· > ·) found t := by
  obtain ⟨ends, u, hclimb, hmoves, hends, hsorted⟩ :=
    climb_ends c l s.position n 0 [s.position] s hs.left (Nat.le_refl _) hs.inside (by simp)
      (by simp)
  have hu := hs.of_moves hmoves
  have hends' : ∀ e ∈ ends, e ≤ u.position := fun e he => (hends e he).2
  rw [most_of c (enter c n) l n s hclimb] at h
  obtain ⟨_, _, hdescend, hmoves', _⟩ := descend_roams (enter_restores c n) l 0
    (ends.take (ends.length - l.quantifier.least)) u hu.left (Nat.zero_le _) hu.inside
    (fun e he => ⟨Nat.zero_le _, hends' e (List.mem_of_mem_take he)⟩)
    (hsorted.sublist (List.take_sublist ..))
  cases hdescend.symm.trans h
  obtain ⟨top, older, rfl, hrungs, hmost, hend⟩ := climb_rungs hstep [] s hs ⟨rfl, trivial⟩
    (fun _ _ => Nat.zero_le _) hclimb (hmoves'.running hstop)
  exact descend_settles _ u hu hends' hsorted hrungs
    (fun most h => Nat.succ_le_succ (hmost most h)) (fails_beyond hstep hrungs.1 hend) h hstop

/-- Of two numbers of repetitions, the first one is tried before the second one. -/
def Before (fewest : Bool) (count count' : Nat) : Prop :=
  if fewest then count < count' else count' < count

theorem stepwise_settles (hstep : l.body.isStep = true) (hs : Ready c n s)
    (h : stepwise c (enter c n) l n s = some (found, t)) (hstop : t.stopped = none) :
    Settles c l s.position (Before l.fewest) found t := by
  have hloop : ∀ found u,
      (if l.fewest then more c (enter c n) l n 0 else most c (enter c n) l n) s = some (found, u) →
      u.stopped = none → Settles c l s.position (Before l.fewest) found u := by
    unfold Before
    cases l.fewest with
    | true =>
      intro found u h
      have horigin : l.body.RepeatsTo c.text c.environment l.trail s.position 0 s.position := rfl
      exact more_settles hstep (Nat.le_refl n) s hs horigin (fun _ _ => Nat.zero_le _)
        (fun _ hlt => absurd hlt (Nat.not_lt_zero _)) h
    | false => exact fun found u h => most_settles hstep hs h
  obtain ⟨found', u, hfirst, hmoves, _⟩ : Roams c.limits s.position
      (if l.fewest then more c (enter c n) l n 0 else most c (enter c n) l n) s := by
    split
    · exact more_roams (enter_restores c n) l _ 0 s hs.left (Nat.le_refl _) hs.inside
    · exact most_roams (enter_restores c n) l hs.left hs.inside
  rw [stepwise_eq] at h
  cases found' with
  | some trail =>
    rw [orElse_found hfirst] at h
    cases h
    exact hloop _ _ hfirst hstop
  | none =>
    rw [orElse_missed hfirst, after_apply, State.rewindTo_eq hmoves.above] at h
    cases h
    exact hloop none u hfirst hstop

/-! ## Repetitions in a chain -/

/-- The first element of a chain. -/
def head : Chain → Node
  | .last node => node
  | .cons node _ => node

/-- What follows the first element of a chain. -/
def behind (k : Continuation) : Chain → Continuation
  | .last _ => k
  | .cons _ rest => .chain rest k

theorem body_eq (c : Setting) (inner : Entry) (n : Nat) (trail : Trail) (k : Continuation)
    (depth : Nat) (chain : Chain) :
    body c inner n trail k depth chain =
      element c inner n (head chain) trail (behind k chain) depth := by
  cases chain <;> rfl

theorem enter_settles (hmethod : c.method l.body = .stepwise) (hstep : l.body.isStep = true)
    {chain : Chain} {k : Continuation}
    (hhead : head chain = .«repeat» l.quantifier l.fewest l.body) (hk : behind k chain = l.k)
    (hs : Ready c n s) (h : enter c n chain l.trail k l.depth s = some (found, t))
    (hstop : t.stopped = none) : Settles c l s.position (Before l.fewest) found t := by
  cases n with
  | zero => exact absurd_left hs.left
  | succ n =>
    rw [enter_eq] at h
    obtain ⟨u, htick, h⟩ := counted_running h hstop
    have hu := hs.tick htick
    rw [settled_eq (body_restores (enter_restores c n) chain l.trail k l.depth hu.left hu.inside),
      body_eq, hhead, hk, element_repeat, hmethod] at h
    rw [← State.tick_position htick]
    exact stepwise_settles hstep hu h hstop

/-- A walk through a repeated step and what follows it always ends. If it is not cut off, it matches
if and only if what follows matches after some number of repetitions that the quantifier permits,
and it comes to what this comes to after the greatest such number, or after the least one. -/
theorem repeated_step_settles_count (environment : Environment) (limits : Limits) (s : State)
    {n : Nat} (hs : s.position ≤ s.buffer.size) (hn : s.left limits ≤ n) {chain : Chain}
    {quantifier : Quantifier} {fewest : Bool} {body : Node}
    (hhead : head chain = .«repeat» quantifier fewest body) (hstep : body.isStep = true)
    (trail : Trail) (k : Continuation) (depth : Nat) :
    let c : Setting := { text := s.buffer.bytes, environment, limits }
    let l : Loop := { quantifier, fewest, body, trail, k := behind k chain, depth }
    ∃ found t, enter c n chain trail k depth s = some (found, t) ∧
      (t.stopped = none →
        (found.isSome ↔ ∃ count, Succeeds c l s.position count) ∧
        ∀ trail', found = some trail' →
          ∃ count, quantifier.Permits count ∧ Comes c l s.position count (some trail') t ∧
            ∀ other, Succeeds c l s.position other →
              if fewest then count ≤ other else other ≤ count) := by
  intro c l
  have hc : c.Fits := Setting.fits_of rfl
  have hmethod : c.method l.body = .stepwise := if_pos hstep
  obtain ⟨⟨found, t, henter, _⟩, _⟩ := enter_restores c n chain trail k depth s hn hs
  refine ⟨found, t, henter, fun hstop => ?_⟩
  have hsettles := enter_settles hmethod hstep hhead rfl ⟨rfl, hs, hn⟩ henter hstop
  cases found with
  | none =>
    constructor
    · have hnone : ∀ count, ¬Succeeds c l s.position count := fun count hsucceeds =>
        (hsettles count hsucceeds.1).not_succeeds hc hsucceeds
      simp [hnone]
    · intro trail' h
      cases h
  | some trail' =>
    obtain ⟨count, hpermits, hcomes, hbefore⟩ := hsettles
    constructor
    · simp only [Option.isSome_some, true_iff]
      exact ⟨count, hpermits, limits, trail', t, hcomes⟩
    · intro _ h
      cases h
      refine ⟨count, hpermits, hcomes, fun other hother => ?_⟩
      have hnot : ¬Before fewest other count := fun h =>
        (hbefore other h hother.1).not_succeeds hc hother
      cases fewest <;> simpa [Before] using hnot

/-- One letter is left for what follows. -/
theorem letter_is_left_over :
    let s : State := { buffer := Buffer.ofBytes ⟨#[97, 97]⟩ }
    let c : Setting := { text := s.buffer.bytes, limits := ⟨10, 10⟩ }
    let letter := Node.literal [97] false
    let chain := Chain.cons (.«repeat» (.atLeast 1) false letter) (.last letter)
    let l : Loop := ⟨.atLeast 1, false, letter, {}, .chain (.last letter) .done, 0⟩
    s.position ≤ s.buffer.size ∧ s.left c.limits ≤ 12 ∧ letter.isStep = true ∧
      ∃ trail t count, enter c 12 chain {} .done 0 s = some (some trail, t) ∧ t.stopped = none ∧
        Comes c l s.position count (some trail) t ∧
        ∀ other, Succeeds c l s.position other → other ≤ count := by
  intro s c letter chain l
  have hs : s.position ≤ s.buffer.size := Nat.zero_le _
  have hc : c.Fits := Setting.fits_of rfl
  have hrun : c.attempt chain s.buffer.position = ⟨.found 2 .empty, 6⟩ := by
    iterate 8 refine (Search.run_of_ok rfl).trans ?_
    exact Search.run_of_error rfl
  obtain ⟨found, t, hmatch, _⟩ := s.buffer.tryMatch_attempt hc rfl hs chain
  obtain ⟨hstopped, -, hcaptures, -⟩ := s.buffer.tryMatch_reports hc rfl hs hmatch
  have hstop : t.stopped = none := by
    rw [hstopped, hrun]
    rfl
  rw [hrun] at hcaptures
  obtain ⟨trail, rfl, -⟩ := Option.map_eq_some_iff.mp hcaptures
  have henter := attempt_running hs hmatch hstop
  have hleft : s.left c.limits ≤ 12 := State.left_le _ _
  have hhead : head chain = .«repeat» (.atLeast 1) false letter := rfl
  obtain ⟨_, _, henter', hcounts⟩ :=
    repeated_step_settles_count {} ⟨10, 10⟩ s hs hleft hhead rfl {} .done 0
  cases henter'.symm.trans henter
  obtain ⟨count, -, hcomes, hgreatest⟩ := (hcounts hstop).2 trail rfl
  exact ⟨hs, hleft, rfl, trail, t, count, henter, hstop, hcomes, hgreatest⟩

end Walk

end WordPattern
