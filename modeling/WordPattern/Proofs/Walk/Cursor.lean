import WordPattern.Proofs.Walk.Returns

/-!
# The cursor of a walk

Every part of a walk ends, meets its demands, and comes back to its start where it does not match.
The induction is on the bound of the steps that are left: entering a chain counts one, so its parts
have fewer.
-/

namespace WordPattern.Walk

open Search (Continuation Loop)

/-- While no more than `n` steps are left, every chain that is entered restores the position, and
less is left behind it. -/
def Enters (c : Setting) (n : Nat) (inner : Entry) : Prop :=
  ∀ chain trail k depth s, s.left c.limits ≤ n → s.position ≤ s.buffer.size →
    Restores c.limits (inner chain trail k depth) s ∧
      ∀ found t, inner chain trail k depth s = some (found, t) → s.stopped = none →
        t.left c.limits < s.left c.limits

variable {c : Setting} {n m : Nat} {inner : Entry}

theorem Enters.weaken (hE : Enters c n inner) (h : m ≤ n) : Enters c m inner :=
  fun chain trail k depth s hm hs => hE chain trail k depth s (Nat.le_trans hm h) hs

/-- Something is left always, if only the attempt to count another step. -/
theorem absurd_left {P : Prop} {s : State} (h : s.left c.limits ≤ 0) : P :=
  absurd h (Nat.not_le_of_gt (State.left_pos _ _))

/-! ## What follows an element -/

theorem iterate_restores (hE : Enters c n inner) {k : Continuation} {trail : Trail} {depth : Nat}
    (hR : ∀ s, s.left c.limits ≤ n → s.position ≤ s.buffer.size →
      Restores c.limits (resume inner trail k depth) s)
    (quantifier : Quantifier) (fewest : Bool) (node : Node) (count : Nat) {s : State}
    (hn : s.left c.limits ≤ n) (hs : s.position ≤ s.buffer.size) :
    Restores c.limits (iterate inner quantifier fewest node count trail k depth) s := by
  have stop : ∀ t, t.left c.limits ≤ n → t.position ≤ t.buffer.size →
      Restores c.limits
        (if quantifier.metBy count then resume inner trail k depth else miss) t := by
    intro t ht hp
    exact .when hp fun _ => hR t ht hp
  have grow : ∀ again t, t.left c.limits ≤ n → t.position ≤ t.buffer.size →
      Restores c.limits (if quantifier.allowsAfter count then
        inner (.last node) trail again (depth + 1) else miss) t := by
    intro again t ht hp
    exact .when hp fun _ => (hE _ _ _ _ t ht hp).1
  unfold Restores Returns
  rw [iterate_eq]
  cases fewest with
  | true =>
    exact Restores.orElse (stop s hn hs) fun t ht _ =>
      grow _ t (Nat.le_trans (ht.left_le _) hn) ht.inside
  | false =>
    exact Restores.orElse (grow _ s hn hs) fun t ht _ =>
      stop t (Nat.le_trans (ht.left_le _) hn) ht.inside

theorem resume_restores (hE : Enters c n inner) (k : Continuation) :
    ∀ trail depth s, s.left c.limits ≤ n → s.position ≤ s.buffer.size →
      Restores c.limits (resume inner trail k depth) s := by
  induction k with
  | done =>
    intro trail depth s _ hs
    exact ⟨some trail, s, resume_done .., .refl (Nat.le_refl _) hs, by simp⟩
  | note =>
    intro trail depth s _ hs
    refine ⟨none, _, resume_note .., ?_, fun _ => rfl⟩
    exact ⟨rfl, rfl, Nat.le_refl _, hs, ⟨[], rfl⟩, [s.position], rfl, by simpa using! hs⟩
  | chain next k ih =>
    intro trail depth s hn hs
    rw [resume_chain]
    exact (hE _ _ _ _ s hn hs).1
  | bind name start k ih =>
    intro trail depth s hn hs
    unfold Restores Returns
    rw [resume_bind]
    exact ih _ _ s hn hs
  | again quantifier fewest node count start k ih =>
    intro trail depth s hn hs
    unfold Restores Returns
    rw [resume_again]
    split
    · exact ih _ _ s hn hs
    · exact iterate_restores hE (ih _ _) quantifier fewest node count hn hs

/-! ## Choices -/

theorem choices_restores (hE : Enters c n inner) (trail : Trail) (k : Continuation) (depth : Nat) :
    ∀ items s, s.left c.limits ≤ n → s.position ≤ s.buffer.size →
      Restores c.limits (choices inner items trail k depth) s := by
  intro items
  induction items with
  | nil =>
    intro s _ hs
    rw [choices_nil]
    exact .miss hs
  | cons item items ih =>
    intro s hn hs
    rw [choices_cons]
    exact Restores.orElse (hE _ _ _ _ s hn hs).1 fun t ht _ =>
      ih t (Nat.le_trans (ht.left_le _) hn) ht.inside

theorem widths_restores (hE : Enters c n inner) (low high : List UInt8) (negated : Bool)
    (trail : Trail) (k : Continuation) (depth : Nat) :
    ∀ candidates s, s.left c.limits ≤ n → s.position ≤ s.buffer.size →
      Restores c.limits (widths inner low high negated candidates trail k depth) s := by
  intro candidates
  induction candidates with
  | nil =>
    intro s _ hs
    rw [widths_nil]
    exact .miss hs
  | cons width rest ih =>
    intro s hn hs
    unfold Restores Returns
    rw [widths_cons_eq low high negated width rest hs]
    refine onward_restores hs (fun _ h => widthEnd?_bounds h) (fun t ht => ?_) fun t ht _ => ?_
    · exact resume_restores hE k trail depth t (Nat.le_trans (ht.left_le _) hn) ht.inside
    · exact ih t (Nat.le_trans (ht.left_le _) hn) ht.inside

theorem consuming_restores (hE : Enters c n inner) (trail : Trail) (k : Continuation) (depth : Nat)
    (node : Node) {s : State} (hn : s.left c.limits ≤ n) (hs : s.position ≤ s.buffer.size) :
    Restores c.limits (consuming c inner trail k depth node) s := by
  unfold Restores Returns
  rw [consuming_eq node hs]
  refine onward_restores hs (fun _ h => singleEnd?_bounds h hs) (fun t ht => ?_) fun t ht _ => ?_
  · exact resume_restores hE k trail depth t (Nat.le_trans (ht.left_le _) hn) ht.inside
  · exact .miss ht.inside

/-! ## Repeated steps -/

theorem climb_ends (c : Setting) (l : Loop) (low m count : Nat) (ends : List Nat) (s : State)
    (hm : s.left c.limits ≤ m) (hlow : low ≤ s.position) (hs : s.position ≤ s.buffer.size)
    (hends : ∀ e ∈ ends, low ≤ e ∧ e ≤ s.position) (hsorted : ends.Pairwise (· ≥ ·)) :
    ∃ all t, climb c l m count ends s = some (all, t) ∧ Moves c.limits low s t ∧
      (∀ e ∈ all, low ≤ e ∧ e ≤ t.position) ∧ all.Pairwise (· ≥ ·) := by
  induction m generalizing count ends s with
  | zero => exact absurd_left hm
  | succ m ih =>
    rw [climb_eq]
    split
    · rcases htick : s.tick c.limits l.depth with ⟨counts, t⟩
      have hmoves := Moves.tick hlow hs htick
      have hp := State.tick_position htick
      cases counts with
      | false => exact ⟨ends, t, rfl, hmoves, by simpa only [hp] using hends, hsorted⟩
      | true =>
        have hlt := State.tick_left htick (State.tick_true htick).1
        obtain ⟨consumed, place, hstep, hlo, hhi, hnone⟩ :=
          nodeStep_moved c.environment.texts l.trail l.body hmoves.inside
        have hmoved := hmoves.moved (Nat.le_trans hmoves.above hlo) (hmoves.size ▸ hhi)
        have hends' : ∀ e ∈ ends, low ≤ e ∧ e ≤ place := fun e he =>
          ⟨(hends e he).1, Nat.le_trans (hends e he).2 (hp ▸ hlo)⟩
        simp only [hstep]
        cases consumed with
        | none => exact ⟨ends, _, rfl, hmoved, hends', hsorted⟩
        | some consumed =>
          obtain ⟨all, u, hc, hmoves', hall, hsorted'⟩ := ih (count + 1) (place :: ends)
            (t.moved place) (Nat.le_of_lt_succ (Nat.lt_of_lt_of_le hlt hm)) hmoved.above
            hmoved.inside (List.forall_mem_cons.mpr ⟨⟨hmoved.above, Nat.le_refl _⟩, hends'⟩)
            (List.pairwise_cons.mpr ⟨fun e he => (hends' e he).2, hsorted⟩)
          exact ⟨all, u, hc, hmoved.trans hmoves', hall, hsorted'⟩
    · exact ⟨ends, s, rfl, .refl hlow hs, hends, hsorted⟩

theorem descend_roams (hE : Enters c n inner) (l : Loop) (low : Nat) :
    ∀ ends s, s.left c.limits ≤ n → low ≤ s.position → s.position ≤ s.buffer.size →
      (∀ e ∈ ends, low ≤ e ∧ e ≤ s.position) → ends.Pairwise (· ≥ ·) →
      Roams c.limits low (descend inner l ends) s := by
  intro ends
  induction ends with
  | nil =>
    intro s _ hlow hs _ _
    rw [descend_nil]
    exact .miss hlow hs
  | cons finish ends ih =>
    intro s hn hlow hs hends hsorted
    obtain ⟨hlo, hhi⟩ := hends finish (List.mem_cons_self ..)
    rw [descend_cons]
    refine Returns.after (State.rewindTo_eq hhi) ?_
    refine Returns.orElse (P := fun t => t.position = finish) ?_ fun t ht hp => ?_
    · exact (resume_restores hE l.k l.trail l.depth (s.moved finish) hn
        (Nat.le_trans hhi hs)).mono hlo fun _ _ hp => hp
    · refine ih t (Nat.le_trans (ht.left_le _) hn) ht.above ht.inside (fun e he => ?_)
        (List.pairwise_cons.mp hsorted).2
      exact ⟨(hends e (List.mem_cons_of_mem _ he)).1, hp ▸ (List.pairwise_cons.mp hsorted).1 e he⟩

theorem stopping_restores (hE : Enters c n inner) (l : Loop) (count : Nat) {s : State}
    (hn : s.left c.limits ≤ n) (hs : s.position ≤ s.buffer.size) :
    Restores c.limits (stopping inner l count) s :=
  .when hs fun _ => resume_restores hE _ _ _ s hn hs

theorem stepping_roams (l : Loop) (low count : Nat) {s : State} (hlow : low ≤ s.position)
    (hs : s.position ≤ s.buffer.size)
    (hmore : ∀ t, t.left c.limits < s.left c.limits → low ≤ t.position →
      t.position ≤ t.buffer.size → Roams c.limits low (more c inner l m (count + 1)) t) :
    Roams c.limits low (stepping c inner l m count) s := by
  unfold stepping
  split
  · refine Returns.counted hlow hs (fun _ _ => trivial) fun t ht => ?_
    have hlt := State.tick_left ht (State.tick_true ht).1
    have hmoves := Moves.tick hlow hs ht
    obtain ⟨consumed, place, hstep, hlo, hhi, _⟩ :=
      nodeStep_moved c.environment.texts l.trail l.body hmoves.inside
    have hmoved : Moves c.limits low t (t.moved place) :=
      (Moves.refl hmoves.above hmoves.inside).moved (Nat.le_trans hmoves.above hlo) hhi
    unfold Returns
    rw [modifyGet_bind, hstep]
    cases consumed with
    | none => exact ⟨none, _, rfl, hmoved, fun _ => trivial⟩
    | some consumed =>
      obtain ⟨found, u, hu, hmoves', _⟩ := hmore (t.moved place) hlt hmoved.above hmoved.inside
      exact ⟨found, u, hu, hmoves'.of_moved, fun _ => trivial⟩
  · exact Roams.miss hlow hs

theorem more_roams (hE : Enters c m inner) (l : Loop) (low count : Nat) (s : State)
    (hm : s.left c.limits ≤ m) (hlow : low ≤ s.position) (hs : s.position ≤ s.buffer.size) :
    Roams c.limits low (more c inner l m count) s := by
  induction m generalizing count s with
  | zero => exact absurd_left hm
  | succ m ih =>
    rw [more_eq]
    refine Returns.orElse ((stopping_restores hE l count hm hs).roams hlow) fun t ht _ => ?_
    have hle := ht.left_le c.limits
    exact stepping_roams l low count ht.above ht.inside fun u hu hlow' hu' =>
      ih (hE.weaken (Nat.le_succ m)) (count + 1) u (by omega) hlow' hu'

theorem most_roams (hE : Enters c n inner) (l : Loop) {s : State} (hn : s.left c.limits ≤ n)
    (hs : s.position ≤ s.buffer.size) : Roams c.limits s.position (most c inner l n) s := by
  obtain ⟨ends, t, hclimb, hmoves, hends, hsorted⟩ :=
    climb_ends c l s.position n 0 [s.position] s hn (Nat.le_refl _) hs (by simp) (by simp)
  obtain ⟨found, u, hu, hmoves', _⟩ := descend_roams hE l s.position
    (ends.take (ends.length - l.quantifier.least)) t (Nat.le_trans (hmoves.left_le _) hn)
    hmoves.above hmoves.inside (fun e he => hends e (List.mem_of_mem_take he))
    (hsorted.sublist (List.take_sublist _ _))
  exact ⟨found, u, (most_of c inner l n s hclimb).trans hu, hmoves.trans hmoves', fun _ => trivial⟩

theorem stepwise_restores (hE : Enters c n inner) (l : Loop) {s : State} (hn : s.left c.limits ≤ n)
    (hs : s.position ≤ s.buffer.size) : Restores c.limits (stepwise c inner l n) s := by
  have loop : Roams c.limits s.position
      (if l.fewest then more c inner l n 0 else most c inner l n) s := by
    split
    · exact more_roams hE l s.position 0 s hn (Nat.le_refl _) hs
    · exact most_roams hE l hn hs
  unfold Restores Returns
  rw [stepwise_eq]
  refine Returns.orElse loop fun t ht _ => ?_
  refine Returns.after (State.rewindTo_eq ht.above) ?_
  exact Returns.miss (Nat.le_refl _) (by simpa using ht.size ▸ hs) rfl

/-! ## Repeated bodies that bind nothing -/

/-- The visit and the ends left there lie between two places. -/
def Visit.Within (low high : Nat) (v : Visit) : Prop :=
  low ≤ v.position ∧ v.position ≤ high ∧ ∀ ends, v.ends = some ends → ∀ e ∈ ends, low ≤ e ∧ e ≤ high

namespace Visit

variable {low high finish : Nat} {ends : List Nat} {v : Visit}

theorem Within.known (h : v.Within low high) (he : ∀ e ∈ ends, low ≤ e ∧ e ≤ high) :
    Within low high { v with ends := some ends } :=
  ⟨h.1, h.2.1, fun all hall => by cases hall; exact he⟩

theorem Within.rest (h : Within low high { v with ends := some (finish :: ends) }) :
    Within low high { v with ends := some ends } :=
  ⟨h.1, h.2.1, fun all hall e he => by
    cases hall
    exact h.2.2 _ rfl e (List.mem_cons_of_mem _ he)⟩

theorem Within.next (h : Within low high { v with ends := some (finish :: ends) }) (count : Nat) :
    Within low high { count, position := finish } := by
  obtain ⟨hlo, hhi⟩ := h.2.2 _ rfl finish (List.mem_cons_self ..)
  exact ⟨hlo, hhi, by simp⟩

theorem weight_pos (v : Visit) : 0 < v.weight := by
  unfold weight
  split
  · omega
  · omega

theorem weight_fresh (count position : Nat) : weight { count, position } = 2 := rfl

theorem weight_rest (v : Visit) (finish : Nat) (ends : List Nat) :
    weight { v with ends := some (finish :: ends) } = weight { v with ends := some ends } + 4 := by
  simp only [weight, Option.getD_some, List.length_cons]
  omega

theorem weight_known (h : v.ends = none) : weight { v with ends := some [] } = v.weight := by
  simp only [weight, h, Option.getD_some, Option.getD_none]

theorem weight_tried {l : Loop} (h : l.fewest && !v.stopTried) :
    weight { v with stopTried := true } < v.weight := by
  simp only [Bool.and_eq_true, Bool.not_eq_true'] at h
  simp only [weight, h.2, Bool.false_eq_true, ↓reduceIte]
  omega

end Visit

/-- Looking for ends counts steps; between two times of that, the visits weigh less and less. -/
theorem explore_induction {motive : Nat → List Visit → Prop}
    (step : ∀ m visits, (∀ m', m' < m → ∀ visits', motive m' visits') →
      (∀ visits', weightOf visits' < weightOf visits → motive m visits') → motive m visits)
    (m : Nat) (visits : List Visit) : motive m visits := by
  induction m using Nat.strongRecOn generalizing visits with
  | ind m ihm =>
    induction hw : weightOf visits using Nat.strongRecOn generalizing visits with
    | ind w ihw =>
      exact step m visits ihm fun visits' hlt => ihw _ (hw ▸ hlt) visits' rfl

theorem stopAt_roams (hE : Enters c n inner) (l : Loop) {low place : Nat} {s : State}
    (hn : s.left c.limits ≤ n) (hlow : low ≤ place) (hp : place ≤ s.buffer.size) :
    Roams c.limits low (stopAt inner l place) s := by
  rw [stopAt_eq]
  refine Returns.after (State.seek_eq hp) ?_
  exact (resume_restores hE l.k l.trail l.depth (s.moved place) hn hp).roams hlow

theorem bodyEnds_within (hE : Enters c n inner) (l : Loop) {low : Nat} {s : State}
    (hn : s.left c.limits ≤ n) (hlow : low ≤ s.position) (hs : s.position ≤ s.buffer.size) :
    ∃ ends t, bodyEnds inner l s = some (ends, t) ∧ Moves c.limits low s t ∧
      (∀ e ∈ ends, low ≤ e ∧ e ≤ s.buffer.size) ∧
      (s.stopped = none → t.left c.limits < s.left c.limits) := by
  obtain ⟨⟨found, t, ht, hmoves, _⟩, hlt⟩ :=
    hE (.last l.body) l.trail .note (l.depth + 1) { s with noted := [] :: s.noted } hn hs
  obtain ⟨ends, hnoted, hends⟩ := hmoves.noted
  obtain ⟨all, hall, hmem⟩ := noteAll_cons ends [] s.noted
  rw [hall] at hnoted
  refine ⟨[] ++ all, { t with noted := s.noted }, ?_, ?_, fun e he => ?_,
    fun hstop => hlt found t ht hstop⟩
  · rw [bodyEnds_eq, ht]
    simp only [Option.map_some, hnoted, List.headD_cons, List.tail_cons]
  · exact ⟨hmoves.1, hmoves.2, Nat.le_trans hlow hmoves.3, hmoves.4, hmoves.5, [], rfl, by simp⟩
  · have hin := hends e (((hmem e).mp he).resolve_left (by simp))
    exact ⟨Nat.le_trans hlow hin.1, hin.2⟩

/-- From a visit whose ends are known, the walk comes to visits that weigh less. -/
theorem advance_roams (hE : Enters c m inner) (l : Loop) {low high bound : Nat} {visit : Visit}
    {below : List Visit}
    (hX : ∀ visits t, weightOf visits < bound → t.left c.limits ≤ m →
      (∀ v ∈ visits, v.Within low high) → low ≤ t.position → t.position ≤ t.buffer.size →
      t.buffer.size = high → Roams c.limits low (explore inner l m visits) t)
    (ends : List Nat) {s : State} (hn : s.left c.limits ≤ m)
    (hbound : weightOf ({ visit with ends := some ends } :: below) ≤ bound)
    (hv : Visit.Within low high { visit with ends := some ends })
    (hbelow : ∀ v ∈ below, v.Within low high) (hlow : low ≤ s.position)
    (hs : s.position ≤ s.buffer.size) (hsize : s.buffer.size = high) :
    Roams c.limits low (advance inner l m visit ends below) s := by
  have stop : Roams c.limits low (stopAt inner l visit.position) s :=
    stopAt_roams hE l hn hv.1 (hsize ▸ hv.2.1)
  have next : ∀ visits t, weightOf visits < bound → (∀ v ∈ visits, v.Within low high) →
      Moves c.limits low s t → Roams c.limits low (explore inner l m visits) t :=
    fun visits t hw hin ht => hX visits t hw (Nat.le_trans (ht.left_le _) hn) hin ht.above
      ht.inside (ht.size.trans hsize)
  rw [weightOf_cons] at hbound
  cases ends with
  | nil =>
    have hweight := Visit.weight_pos { visit with ends := some [] }
    rw [advance_nil]
    refine Returns.orElse (P := fun _ => True) ?_ fun t ht _ => ?_
    · exact Roams.when hlow hs fun _ => stop
    · exact next below t (by omega) hbelow ht
  | cons finish ends =>
    have hrest := List.forall_mem_cons.mpr ⟨hv.rest, hbelow⟩
    rw [Visit.weight_rest] at hbound
    rw [advance_cons]
    split
    · refine Returns.orElse stop fun t ht _ => ?_
      refine next _ t ?_ hrest ht
      rw [weightOf_cons]
      omega
    · refine next _ s ?_ (List.forall_mem_cons.mpr ⟨hv.next _, hrest⟩) (.refl hlow hs)
      rw [weightOf_cons, weightOf_cons, Visit.weight_fresh]
      omega

/-- The ends of one more repetition are known behind at least one step that has been counted. -/
theorem gathering_roams (hE : Enters c (m + 1) inner) (l : Loop) {low high : Nat} {visit : Visit}
    {below : List Visit}
    (hX : ∀ visits t, t.left c.limits ≤ m → (∀ v ∈ visits, v.Within low high) →
      low ≤ t.position → t.position ≤ t.buffer.size → t.buffer.size = high →
      Roams c.limits low (explore inner l m visits) t)
    {s : State} (hn : s.left c.limits ≤ m + 1) (hstop : s.stopped = none)
    (hvisit : visit.Within low high) (hbelow : ∀ v ∈ below, v.Within low high)
    (hsize : s.buffer.size = high) :
    Roams c.limits low (gathering inner l visit below (m + 1)) s := by
  refine Returns.after (State.seek_eq (hsize ▸ hvisit.2.1)) ?_
  obtain ⟨ends, t, ht, hmoves, he, hlt⟩ := bodyEnds_within hE l
    (s := s.moved visit.position) hn hvisit.1 (hsize ▸ hvisit.2.1)
  have hlt : t.left c.limits < s.left c.limits := hlt hstop
  obtain ⟨found, u, hu, hmoves', _⟩ := advance_roams (hE.weaken (Nat.le_succ m)) l
    (fun visits u _ => hX visits u) ends (by omega) (Nat.le_refl _)
    (hvisit.known (by simpa [hsize] using he)) hbelow hmoves.above hmoves.inside
    (hmoves.size.trans hsize)
  exact ⟨found, u, (bind_of ht _).trans hu, hmoves.trans hmoves', fun _ => trivial⟩

theorem explore_roams (hE : Enters c m inner) (l : Loop) (low high : Nat) (visits : List Visit)
    (s : State) (hn : s.left c.limits ≤ m) (hin : ∀ v ∈ visits, v.Within low high)
    (hlow : low ≤ s.position) (hs : s.position ≤ s.buffer.size) (hsize : s.buffer.size = high) :
    Roams c.limits low (explore inner l m visits) s := by
  induction m, visits using explore_induction generalizing s with
  | step m visits ihm ihw =>
    have hX : ∀ visits' t, weightOf visits' < weightOf visits → t.left c.limits ≤ m →
        (∀ v ∈ visits', v.Within low high) → low ≤ t.position → t.position ≤ t.buffer.size →
        t.buffer.size = high → Roams c.limits low (explore inner l m visits') t :=
      fun visits' t hw ht hin' hlow' ht' hsize' => ihw visits' hw hE t ht hin' hlow' ht' hsize'
    cases visits with
    | nil =>
      rw [explore_nil]
      exact Roams.miss hlow hs
    | cons visit below =>
      obtain ⟨hvisit, hbelow⟩ := List.forall_mem_cons.mp hin
      unfold Roams Returns
      rw [explore_cons]
      by_cases hstop : s.stopped.isSome
      · rw [if_pos hstop]
        exact Roams.miss hlow hs
      rw [if_neg hstop]
      by_cases hlazy : l.fewest && !visit.stopTried
      · rw [if_pos hlazy]
        refine Returns.orElse (P := fun _ => True) ?_ fun t ht _ => ?_
        · exact Roams.when hlow hs fun _ => stopAt_roams hE l hn hvisit.1 (hsize ▸ hvisit.2.1)
        · refine hX _ t ?_ (Nat.le_trans (ht.left_le _) hn)
            (List.forall_mem_cons.mpr ⟨hvisit, hbelow⟩) ht.above ht.inside (ht.size.trans hsize)
          have hweight := Visit.weight_tried hlazy
          rw [weightOf_cons, weightOf_cons]
          omega
      rw [if_neg hlazy]
      cases hends : visit.ends with
      | some ends =>
        have hsame : { visit with ends := some ends } = visit := by rw [← hends]
        refine advance_roams hE l hX ends hn ?_ ?_ hbelow hlow hs hsize
        · exact Nat.le_of_eq (by rw [hsame])
        · rw [hsame]
          exact hvisit
      | none =>
        by_cases hmore : l.quantifier.allowsAfter visit.count
        · simp only [hmore, ↓reduceIte]
          cases m with
          | zero => exact absurd_left hn
          | succ m =>
            have hE' := hE.weaken (Nat.le_succ m)
            exact gathering_roams hE l (fun visits' => ihm m (Nat.lt_succ_self m) visits' hE') hn
              (Option.not_isSome_iff_eq_none.mp hstop) hvisit hbelow hsize
        · simp only [hmore, Bool.false_eq_true, ↓reduceIte]
          refine advance_roams hE l hX [] hn ?_ (hvisit.known (by simp)) hbelow hlow hs hsize
          exact Nat.le_of_eq (by rw [weightOf_cons, weightOf_cons, Visit.weight_known hends])

theorem gathered_restores (hE : Enters c n inner) (l : Loop) {s : State} (hn : s.left c.limits ≤ n)
    (hs : s.position ≤ s.buffer.size) : Restores c.limits (gathered inner l n) s := by
  unfold Restores Returns
  rw [gathered_eq]
  refine Returns.orElse (P := fun _ => True) ?_ fun t ht _ => ?_
  · refine explore_roams hE l s.position s.buffer.size _ s hn ?_ (Nat.le_refl _) hs rfl
    exact List.forall_mem_singleton.mpr ⟨Nat.le_refl _, hs, by simp⟩
  · refine Returns.after (State.seek_eq (ht.size ▸ hs)) ?_
    exact Returns.miss (Nat.le_refl _) (by simpa using ht.size ▸ hs) rfl

/-! ## Every element -/

theorem element_restores (hE : Enters c n inner) (node : Node) (trail : Trail) (k : Continuation)
    (depth : Nat) {s : State} (hn : s.left c.limits ≤ n) (hs : s.position ≤ s.buffer.size) :
    Restores c.limits (element c inner n node trail k depth) s := by
  cases node with
  | literal bytes negated =>
    rw [element_literal]
    exact consuming_restores hE trail k depth _ hn hs
  | byteClass b negated =>
    rw [element_byteClass]
    exact consuming_restores hE trail k depth _ hn hs
  | noneOf items =>
    rw [element_noneOf]
    exact consuming_restores hE trail k depth _ hn hs
  | variableText name =>
    rw [element_variableText]
    exact consuming_restores hE trail k depth _ hn hs
  | anchor a =>
    unfold Restores Returns
    rw [element_anchor]
    exact Restores.when hs fun _ => resume_restores hE k trail depth s hn hs
  | range low high negated =>
    rw [element_range]
    exact widths_restores hE low high negated trail k depth _ s hn hs
  | oneOf items =>
    rw [element_oneOf]
    exact choices_restores hE trail k depth items s hn hs
  | call name =>
    rw [element_call]
    split
    · exact (hE _ _ _ _ s hn hs).1
    · exact .miss hs
  | group chain =>
    rw [element_group]
    exact (hE _ _ _ _ s hn hs).1
  | «repeat» quantifier fewest body =>
    rw [element_repeat]
    split
    · exact stepwise_restores hE _ hn hs
    · exact gathered_restores hE _ hn hs
    · exact iterate_restores hE (resume_restores hE k trail depth) quantifier fewest body 0 hn hs
  | or left right =>
    rw [element_or]
    exact Restores.orElse (hE _ _ _ _ s hn hs).1 fun t ht _ =>
      (hE _ _ _ _ t (Nat.le_trans (ht.left_le _) hn) ht.inside).1
  | capture name body =>
    unfold Restores Returns
    rw [element_capture]
    exact (hE _ _ _ _ s hn hs).1
  | define name body =>
    rw [element_define]
    exact (hE _ _ _ _ s hn hs).1

theorem settled_eq {m : Walk (Option Trail)} {s : State} (h : Restores c.limits m s) :
    settled m s = m s := by
  obtain ⟨found, t, hm, hmoves, hleft⟩ := h
  have hd : t.demand (found.isSome || t.position == s.position) = t := by
    refine State.demand_eq ?_
    cases found with
    | some _ => rfl
    | none => simpa using hleft rfl
  rw [settled, get_bind, bind_of hm, modify_bind, hd, hm]
  rfl

theorem body_restores (hE : Enters c n inner) (chain : Chain) (trail : Trail) (k : Continuation)
    (depth : Nat) {s : State} (hn : s.left c.limits ≤ n) (hs : s.position ≤ s.buffer.size) :
    Restores c.limits (body c inner n trail k depth chain) s := by
  cases chain with
  | last node => exact element_restores hE node trail k depth hn hs
  | cons node rest => exact element_restores hE node trail (.chain rest k) depth hn hs

/-- Entering a chain counts a step, so less is left for its first element. -/
theorem enter_restores (c : Setting) (n : Nat) : Enters c n (enter c n) := by
  induction n with
  | zero => exact fun chain trail k depth s hn => absurd_left hn
  | succ n ih =>
    intro chain trail k depth s hn hs
    rcases htick : s.tick c.limits depth with ⟨counts, t⟩
    have hmoves := Moves.tick (Nat.le_refl _) hs htick
    have hp := State.tick_position htick
    cases counts with
    | false =>
      have hm : enter c (n + 1) chain trail k depth s = some (none, t) := by
        rw [enter_eq, counted, modifyGet_bind, htick]
        rfl
      refine ⟨⟨none, t, hm, hmoves, fun _ => hp⟩, fun found u hu hstop => ?_⟩
      rw [hm] at hu
      cases hu
      exact State.tick_left htick hstop
    | true =>
      have hlt := State.tick_left htick (State.tick_true htick).1
      have hbody := body_restores ih chain trail k depth (by omega) hmoves.inside
      have hsettled := settled_eq hbody
      obtain ⟨found, u, hu, hmoves', hleft⟩ := hbody
      have hm : enter c (n + 1) chain trail k depth s = some (found, u) := by
        rw [enter_eq, counted_true htick, hsettled, hu]
      refine ⟨⟨found, u, hm, hmoves.trans (hmoves'.weaken (Nat.le_of_eq hp.symm)), fun hf =>
        (hleft hf).trans hp⟩, fun found' u' hu' _ => ?_⟩
      rw [hm] at hu'
      cases hu'
      exact Nat.lt_of_le_of_lt (hmoves'.left_le _) hlt

/-! ## Every part of a walk -/

/-- The walk ends and has met its demands. Where it does not match, the position is where it was,
and where it matches, the position lies between there and the end of the buffer. -/
def KeepsCursor (m : Walk (Option Trail)) (s : State) : Prop :=
  ∃ found t, m s = some (found, t) ∧ t.sound = s.sound ∧ t.buffer.storage = s.buffer.storage ∧
    match found with
    | none => t.position = s.position
    | some _ => s.position ≤ t.position ∧ t.position ≤ s.buffer.size

theorem Restores.keepsCursor {m : Walk (Option Trail)} {s : State} (h : Restores c.limits m s) :
    KeepsCursor m s := by
  obtain ⟨found, t, hm, hmoves, hleft⟩ := h
  refine ⟨found, t, hm, hmoves.sound, hmoves.storage, ?_⟩
  cases found with
  | none => exact hleft rfl
  | some _ => exact ⟨hmoves.above, hmoves.below⟩

theorem attempt_keepsCursor (c : Setting) (pattern : Chain) {s : State}
    (hs : s.position ≤ s.buffer.size) : KeepsCursor (attempt c pattern) s := by
  obtain ⟨found, t, hm, hmoves, hleft⟩ :=
    (enter_restores c _ pattern {} .done 0 s (State.left_le _ _) hs).1
  unfold KeepsCursor
  rw [attempt, get_bind, bind_of hm, get_bind]
  by_cases hstop : t.stopped.isSome
  · rw [if_pos hstop, modify_bind, State.seek_eq (hmoves.size ▸ hs)]
    exact ⟨none, _, rfl, hmoves.sound, hmoves.storage, rfl⟩
  · rw [if_neg hstop]
    refine ⟨found, t, rfl, hmoves.sound, hmoves.storage, ?_⟩
    cases found with
    | none => exact hleft rfl
    | some _ => exact ⟨hmoves.above, hmoves.below⟩

/-- Whatever has been counted, noted or run into before, every part of a walk keeps the cursor. -/
theorem every_part_keeps_cursor (c : Setting) (n : Nat) (trail : Trail) (k : Continuation)
    (depth : Nat) (s : State) (hn : s.left c.limits ≤ n) (hs : s.position ≤ s.buffer.size) :
    (∀ chain, KeepsCursor (enter c n chain trail k depth) s) ∧
    (∀ node, KeepsCursor (element c (enter c n) n node trail k depth) s) ∧
    KeepsCursor (resume (enter c n) trail k depth) s ∧
    (∀ quantifier fewest body count,
      KeepsCursor (iterate (enter c n) quantifier fewest body count trail k depth) s) ∧
    (∀ quantifier fewest body,
      KeepsCursor (stepwise c (enter c n) { quantifier, fewest, body, trail, k, depth } n) s ∧
      KeepsCursor (gathered (enter c n) { quantifier, fewest, body, trail, k, depth } n) s) ∧
    (∀ low high negated,
      KeepsCursor (widths (enter c n) low high negated (rangeWidths low high) trail k depth) s) ∧
    ∀ pattern, KeepsCursor (attempt c pattern) s := by
  have hE := enter_restores c n
  have hR := resume_restores hE k trail depth
  exact ⟨fun chain => (hE chain trail k depth s hn hs).1.keepsCursor,
    fun node => (element_restores hE node trail k depth hn hs).keepsCursor,
    (hR s hn hs).keepsCursor,
    fun quantifier fewest body count =>
      (iterate_restores hE hR quantifier fewest body count hn hs).keepsCursor,
    fun _ _ _ =>
      ⟨(stepwise_restores hE _ hn hs).keepsCursor, (gathered_restores hE _ hn hs).keepsCursor⟩,
    fun low high negated =>
      (widths_restores hE low high negated trail k depth _ s hn hs).keepsCursor,
    fun pattern => attempt_keepsCursor c pattern hs⟩

theorem letter_keeps_cursor :
    let c : Setting := { text := ⟨#[97, 98]⟩, limits := ⟨3, 3⟩ }
    let s : State := { buffer := { storage := .bytes ⟨#[97, 98]⟩, position := 1 } }
    s.left c.limits ≤ 5 ∧ s.position ≤ s.buffer.size ∧
      KeepsCursor (enter c 5 (.last (.literal [98] false)) {} .done 0) s :=
  ⟨by decide, by decide, (every_part_keeps_cursor _ 5 {} .done 0 _ (by decide) (by decide)).1 _⟩

end WordPattern.Walk
