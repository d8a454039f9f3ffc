import WordPattern.Proofs.Search.Limits
import WordPattern.Proofs.Walk.Loops

/-!
# What an attempt comes to

An attempt that is not cut off ends with the outcome that its pattern prefers. This holds for every
choice of methods that fit their bodies, so the faster methods find what the general one finds.
-/

namespace WordPattern

namespace Walk

open Search (Continuation)

variable {c : Setting} {n : Nat} {inner : Entry} {s : State}

/-! ## Every element -/

theorem explore_variableText (text : ByteArray) (texts : Bindings String) (name : String)
    (visit : Spot → Verdict) (p : Spot) :
    ((Node.variableText name).plainTree text texts p).explore visit =
      Verdict.atEnd visit p (singleEnd? texts p.trail text p.position (.variableText name)) := by
  unfold Node.plainTree singleEnd?
  dsimp only
  cases (p.trail.captures.get? name).or (texts.get? name) with
  | none => rfl
  | some value =>
    dsimp only
    split <;> rfl

/-- The tree of a pattern that is called is cut off one level earlier. -/
theorem through_call (c : Setting) (name : String) (trail : Trail) (k : Continuation) (s : State)
    (level : Nat) :
    through c (fun level => (Node.call name).tree c.text c.environment level) k (s.spot trail)
        level =
      ((trail.subroutines.get? name).or (c.environment.subroutines.get? name)).elim .miss
        fun chain =>
          (chain.calledTree c.text c.environment level (s.spot trail)).explore (onto c k level) := by
  rw [through, Node.tree, Node.treeWith]
  dsimp only [State.spot]
  cases (trail.subroutines.get? name).or (c.environment.subroutines.get? name) with
  | some chain => rfl
  | none => rfl

/-- An element goes through its tree, and what follows it through the outcomes. -/
theorem element_means (hc : c.Fits) (hE : EnterMeans c n inner) (node : Node) (trail : Trail)
    (k : Continuation) (depth : Nat) (hs : Ready c n s) :
    Means (through c (fun level => node.tree c.text c.environment level) k (s.spot trail))
      (element c inner n node trail k depth) s := by
  cases node with
  | literal bytes negated =>
    rw [element_literal]
    exact (consuming_means hE trail k depth _ hs).mono 0 fun level _ =>
      Verdict.le_of_eq (explore_end _ _ _).symm
  | byteClass b negated =>
    rw [element_byteClass]
    exact (consuming_means hE trail k depth _ hs).mono 0 fun level _ =>
      Verdict.le_of_eq (explore_end _ _ _).symm
  | noneOf items =>
    rw [element_noneOf]
    exact (consuming_means hE trail k depth _ hs).mono 0 fun level _ =>
      Verdict.le_of_eq (explore_end _ _ _).symm
  | variableText name =>
    rw [element_variableText]
    exact (consuming_means hE trail k depth _ hs).mono 0 fun level _ =>
      Verdict.le_of_eq (explore_variableText _ _ name _ _).symm
  | anchor a =>
    refine .of_eq (element_anchor c inner n trail k depth s a) ?_
    rw [hs.text]
    refine (Means.when fun _ => resume_means hE k trail depth s hs).mono 0 fun level _ =>
      Verdict.le_of_eq ?_
    change _ = Tree.explore _ (if a.holdsAt c.text s.position then .leaf (s.spot trail) else .fail)
    cases a.holdsAt c.text s.position <;> rfl
  | range low high negated =>
    rw [element_range]
    refine (widths_means hE low high negated trail k depth (rangeWidths low high) s hs).mono 0
      fun level _ => Verdict.le_of_eq ?_
    rw [← rangeEnds_eq]
    exact (Tree.explore_choice _ _ _).symm
  | oneOf items =>
    rw [element_oneOf]
    exact choices_means hE trail k depth items s hs
  | call name =>
    rw [element_call]
    cases hchain : (trail.subroutines.get? name).or (c.environment.subroutines.get? name) with
    | some chain =>
      refine (hE.means chain trail k (depth + 1) s hs).deepen fun level => ?_
      rw [through_call, hchain]
      exact Tree.explore_le (Tree.le_refl _) (onto_le (Nat.le_succ level) k)
    | none =>
      refine Means.miss.mono 0 fun level _ => ?_
      rw [through_call, hchain]
      exact Verdict.le_refl _
  | group chain =>
    rw [element_group]
    exact hE.means chain trail k (depth + 1) s hs
  | «repeat» quantifier fewest body =>
    rw [element_repeat]
    cases hmethod : c.method body with
    | stepwise =>
      exact stepwise_means hE { quantifier, fewest, body, trail, k, depth }
        (hc.stepwise body hmethod) hs
    | gathered =>
      exact gathered_means hE { quantifier, fewest, body, trail, k, depth }
        (hc.gathered body hmethod) hs
    | general => exact iterate_means hE (resume_means hE k trail depth) quantifier fewest body 0 hs
  | or left right =>
    rw [element_or]
    refine Means.orElse (hE.means (.last left) trail k (depth + 1) s hs)
      (hs.enter hE.restores ..) fun t ht hp => ?_
    have hready := hs.of_moves ht
    refine ⟨(hready.enter hE.restores ..).roams ht.above, ?_⟩
    rw [← State.spot_eq hp]
    exact hE.means (.last right) trail k (depth + 1) t hready
  | capture name body =>
    refine .of_eq (element_capture c inner n trail k depth s name body) ?_
    refine (hE.means (.last body) trail (.bind name s.position k) (depth + 1) s hs).mono 0
      fun level _ => Verdict.le_of_eq ?_
    exact (Tree.explore_bind (onto c k level) (body.tree c.text c.environment level (s.spot trail))
      fun q => .leaf (q.capture c.text name s.position)).symm
  | define name body =>
    rw [element_define]
    exact hE.means (.last body) _ k (depth + 1) s hs

/-- Entering a chain goes through its tree. -/
theorem enter_means (hc : c.Fits) (n : Nat) : EnterMeans c n (enter c n) := by
  induction n with
  | zero =>
    exact ⟨enter_restores c 0, fun chain trail k depth s hs => absurd_left hs.left⟩
  | succ n ih =>
    refine ⟨enter_restores c (n + 1), fun chain trail k depth s hs => ?_⟩
    rw [enter_eq]
    refine Means.counted fun t ht => ?_
    have hready := hs.tick ht
    refine .of_eq (settled_eq
      (body_restores ih.restores chain trail k depth hready.left hready.inside)) ?_
    rw [← State.spot_eq (State.tick_position ht)]
    cases chain with
    | last node => exact element_means hc ih node trail k depth hready
    | cons node rest =>
      refine (element_means hc ih node trail (.chain rest k) depth hready).mono 0
        fun level _ => Verdict.le_of_eq ?_
      exact (Tree.explore_bind _ _ _).symm

/-! ## Attempts -/

theorem ending_isCutOff (found : Option Trail) (t : State) :
    (ending found t).outcome.isCutOff = t.stopped.isSome := by
  unfold ending
  cases t.stopped with
  | some cause => rfl
  | none => cases found <;> rfl

theorem attempt_running {pattern : Chain} {found : Option Trail} {t : State}
    (hs : s.position ≤ s.buffer.size) (h : attempt c pattern s = some (found, t))
    (hstop : t.stopped = none) :
    enter c (c.limits.steps + 2) pattern {} .done 0 s = some (found, t) := by
  obtain ⟨found', t', hm, _⟩ :=
    (enter_restores c _ pattern {} .done 0 s (State.left_le _ _) hs).1
  rw [attempt, get_bind, bind_of hm, get_bind] at h
  by_cases hcut : t'.stopped.isSome
  · rw [if_pos hcut] at h
    cases h
    rw [show t'.stopped = none from hstop] at hcut
    cases hcut
  · rw [if_neg hcut] at h
    cases h
    exact hm

end Walk

/-- How an attempt ends that comes to an outcome of a tree, or to none. -/
def Search.Outcome.of : Option Spot → Search.Outcome
  | some p => .found p.position p.trail.captures
  | none => .missed

namespace Search.Outcome

/-- The limit that the attempt has run into. -/
def cause? : Search.Outcome → Option CutOff
  | .cutOff cause => some cause
  | _ => none

/-- What the match has captured. -/
def captures? : Search.Outcome → Option (Bindings String)
  | .found _ captures => some captures
  | _ => none

/-- Where an attempt at a position leaves it. -/
def place (start : Nat) : Search.Outcome → Nat
  | .found finish _ => finish
  | _ => start

end Search.Outcome

theorem Walk.ending_of {found : Option Trail} {t : Walk.State} (h : t.stopped = none) :
    (Walk.ending found t).outcome = .of (found.map t.spot) := by
  unfold Walk.ending
  rw [h]
  cases found <;> rfl

namespace Buffer

variable {c c' : Setting} {pattern : Chain} {found found' : Option Trail} {t t' : Walk.State}

/-- A walk has stopped where the attempt of the machine is cut off. -/
theorem tryMatch_stopped (b : Buffer) (hc : c.Fits) (htext : b.bytes = c.text)
    (hb : b.position ≤ b.size) (hmatch : b.tryMatch c pattern = some (found, t)) :
    t.stopped.isSome = (c.attempt pattern b.position).outcome.isCutOff := by
  obtain ⟨found', t', hmatch', hattempt⟩ := b.tryMatch_attempt hc htext hb pattern
  cases hmatch'.symm.trans hmatch
  rw [hattempt, Walk.ending_isCutOff]

/-- A walk that has matched has not stopped. -/
theorem tryMatch_running {b : Buffer} {trail : Trail} (hb : b.position ≤ b.size)
    (h : b.tryMatch c pattern = some (some trail, t)) : t.stopped = none := by
  obtain ⟨found, u, hm, _⟩ :=
    (Walk.enter_restores c _ pattern {} .done 0 { buffer := b } (Walk.State.left_le _ _) hb).1
  rw [Buffer.tryMatch, Walk.attempt, Walk.get_bind, Walk.bind_of hm, Walk.get_bind] at h
  by_cases hstop : u.stopped.isSome
  · rw [if_pos hstop] at h
    cases h
  · rw [if_neg hstop] at h
    cases h
    exact Option.not_isSome_iff_eq_none.mp hstop

/-- What a walk leaves behind is what the attempt of the machine has come to. -/
theorem tryMatch_reports (b : Buffer) (hc : c.Fits) (htext : b.bytes = c.text)
    (hb : b.position ≤ b.size) (hmatch : b.tryMatch c pattern = some (found, t)) :
    let a := c.attempt pattern b.position
    t.stopped = a.outcome.cause? ∧ t.steps = a.steps ∧
      found.map Trail.captures = a.outcome.captures? ∧ t.position = a.outcome.place b.position := by
  obtain ⟨found', t', hmatch', hattempt⟩ := b.tryMatch_attempt hc htext hb pattern
  cases hmatch'.symm.trans hmatch
  rw [hattempt]
  unfold Walk.ending
  cases found with
  | some trail =>
    rw [tryMatch_running hb hmatch]
    exact ⟨rfl, rfl, rfl, rfl⟩
  | none =>
    obtain ⟨found', t', hmatch', _, _, hleft⟩ :=
      Walk.attempt_keepsCursor c pattern (s := { buffer := b }) hb
    cases hmatch'.symm.trans hmatch
    cases t.stopped with
    | some cause => exact ⟨rfl, rfl, rfl, hleft⟩
    | none => exact ⟨rfl, rfl, rfl, hleft⟩

/-- A walk that has not stopped has come to the outcome that the pattern prefers. -/
theorem tryMatch_prefers (b : Buffer) (hc : c.Fits) (htext : b.bytes = c.text)
    (hb : b.position ≤ b.size) (hmatch : b.tryMatch c pattern = some (found, t))
    (hstop : t.stopped = none) :
    ∃ outcome, pattern.Prefers c.text c.environment ⟨b.position, {}⟩ outcome ∧
      (c.attempt pattern b.position).outcome = .of outcome ∧ found = outcome.map Spot.trail ∧
      t.position = outcome.elim b.position Spot.position := by
  obtain ⟨found', t', hmatch', hattempt⟩ := b.tryMatch_attempt hc htext hb pattern
  cases hmatch'.symm.trans hmatch
  have henter := Walk.attempt_running (s := { buffer := b }) hb hmatch hstop
  have hready : Walk.Ready c _ { buffer := b } := ⟨htext, hb, Walk.State.left_le _ _⟩
  obtain ⟨deep, hdeep⟩ :=
    (Walk.enter_means hc _).means pattern {} .done 0 _ hready found t henter hstop
  obtain ⟨ends, hverdict, _⟩ := hdeep deep (Nat.le_refl _)
  have hfirst := (Tree.explore_first _).symm.trans hverdict
  refine ⟨found.map t.spot, ⟨deep, ?_⟩, ?_, ?_, ?_⟩
  · split at hfirst
    · rename_i outcome houtcome
      cases hfirst
      exact houtcome
    · cases hfirst
  · rw [hattempt, Walk.ending_of hstop]
  · cases found <;> rfl
  · obtain ⟨found', t', hmatch', _, _, hleft⟩ :=
      Walk.attempt_keepsCursor c pattern (s := { buffer := b }) hb
    cases hmatch'.symm.trans hmatch
    cases found with
    | some trail => rfl
    | none => exact hleft

/-- Walks that have not stopped come to the same, whatever their methods and their limits are. -/
theorem tryMatch_unique (b : Buffer) (hc : c.Fits) (hc' : c'.Fits) (htext : b.bytes = c.text)
    (htext' : b.bytes = c'.text) (henvironment : c.environment = c'.environment)
    (hb : b.position ≤ b.size) (hmatch : b.tryMatch c pattern = some (found, t))
    (hmatch' : b.tryMatch c' pattern = some (found', t')) (hstop : t.stopped = none)
    (hstop' : t'.stopped = none) :
    found = found' ∧ t.position = t'.position ∧
      (c.attempt pattern b.position).outcome = (c'.attempt pattern b.position).outcome := by
  obtain ⟨outcome, hprefers, hends, rfl, hposition⟩ :=
    b.tryMatch_prefers hc htext hb hmatch hstop
  obtain ⟨outcome', hprefers', hends', rfl, hposition'⟩ :=
    b.tryMatch_prefers hc' htext' hb hmatch' hstop'
  rw [← htext', htext, ← henvironment] at hprefers'
  obtain rfl := hprefers.unique hprefers'
  exact ⟨rfl, hposition.trans hposition'.symm, hends.trans hends'.symm⟩

/-- A walk that has not stopped goes on to the same under larger limits. -/
theorem tryMatch_of_larger (b : Buffer) {limits : Limits} (hc : c.Fits) (htext : b.bytes = c.text)
    (hb : b.position ≤ b.size) (hle : c.limits ≤ limits)
    (hmatch : b.tryMatch c pattern = some (found, t)) (hstop : t.stopped = none) :
    ∃ t', b.tryMatch (c.within limits) pattern = some (found, t') ∧ t'.stopped = none ∧
      t'.position = t.position := by
  have hc' : (c.within limits).Fits := ⟨hc.stepwise, hc.gathered⟩
  obtain ⟨found', t', hmatch', _⟩ := b.tryMatch_attempt hc' htext hb pattern
  have hcut : (c.attempt pattern b.position).outcome.isCutOff = false := by
    rw [← b.tryMatch_stopped hc htext hb hmatch, hstop]
    rfl
  have hstop' : t'.stopped = none := by
    rw [← Setting.attempt_of_larger hle hcut, ← b.tryMatch_stopped hc' htext hb hmatch'] at hcut
    simpa using hcut
  obtain ⟨rfl, hposition, _⟩ :=
    b.tryMatch_unique hc hc' htext htext rfl hb hmatch hmatch' hstop hstop'
  exact ⟨t', hmatch', hstop', hposition.symm⟩

end Buffer

/-- An attempt always ends. Whatever its limits are, if it is not cut off, it has come to the one
outcome that the pattern prefers: the machine gives it, and so does moving the position of a buffer.
-/
theorem attempt_comes_to_preferred (b : Buffer) (environment : Environment) (limits : Limits)
    (pattern : Chain) (hb : b.position ≤ b.size) :
    let c : Setting := { text := b.bytes, environment, limits }
    ∃ found t, b.tryMatch c pattern = some (found, t) ∧
      t.stopped.isSome = (c.attempt pattern b.position).outcome.isCutOff ∧
      (t.stopped = none → ∃ outcome,
        (∀ o, pattern.Prefers b.bytes environment ⟨b.position, {}⟩ o ↔ o = outcome) ∧
        (c.attempt pattern b.position).outcome = .of outcome ∧ found = outcome.map Spot.trail ∧
        t.position = outcome.elim b.position Spot.position) := by
  intro c
  have hc : c.Fits := Setting.fits_of rfl
  obtain ⟨found, t, hmatch, _⟩ := b.tryMatch_attempt hc rfl hb pattern
  refine ⟨found, t, hmatch, b.tryMatch_stopped hc rfl hb hmatch, fun hstop => ?_⟩
  obtain ⟨outcome, hprefers, hends⟩ := b.tryMatch_prefers hc rfl hb hmatch hstop
  refine ⟨outcome, fun o => ⟨fun h => h.unique hprefers, fun h => ?_⟩, hends⟩
  rw [h]
  exact hprefers

theorem letters_come_to_preferred :
    let b := Buffer.ofBytes ⟨#[97, 98]⟩
    let pattern := Chain.last (.«repeat» (.atLeast 1) false (.literal [97] false))
    let c : Setting := { text := b.bytes }
    b.position ≤ b.size ∧ (c.attempt pattern b.position).outcome.isCutOff = false ∧
      ∃ found t outcome, b.tryMatch c pattern = some (found, t) ∧
        (∀ o, pattern.Prefers b.bytes {} ⟨b.position, {}⟩ o ↔ o = outcome) ∧
        (c.attempt pattern b.position).outcome = .of outcome ∧ found = outcome.map Spot.trail ∧
        t.position = outcome.elim b.position Spot.position := by
  intro b pattern c
  have hrun : c.attempt pattern b.position = ⟨.found 1 .empty, 3⟩ :=
    (Search.run_enter rfl).trans <| (Search.run_most rfl rfl).trans <|
      (Search.run_most rfl rfl).trans Search.run_done
  have hcut : (c.attempt pattern b.position).outcome.isCutOff = false := by
    rw [hrun]
    rfl
  obtain ⟨found, t, hmatch, hstop, h⟩ :=
    attempt_comes_to_preferred b {} {} pattern (Nat.zero_le _)
  obtain ⟨outcome, h⟩ := h (by simpa using hstop.trans hcut)
  exact ⟨Nat.zero_le _, hcut, found, t, outcome, hmatch, h⟩

/-- The faster methods of repeating a body find what the general one finds. -/
theorem faster_methods_find_the_same (b : Buffer) (environment : Environment)
    (limits limits' : Limits) (pattern : Chain) (hb : b.position ≤ b.size) :
    let fast : Setting := { text := b.bytes, environment, limits }
    let general : Setting :=
      { text := b.bytes, environment, limits := limits', method := fun _ => .general }
    ∃ found t found' t', b.tryMatch fast pattern = some (found, t) ∧
      b.tryMatch general pattern = some (found', t') ∧
      (t.stopped = none → t'.stopped = none →
        found = found' ∧ t.position = t'.position ∧
        (fast.attempt pattern b.position).outcome =
          (general.attempt pattern b.position).outcome) := by
  intro fast general
  have hfast : fast.Fits := Setting.fits_of rfl
  have hgeneral : general.Fits := Setting.fits_general rfl
  obtain ⟨found, t, hmatch, _⟩ := b.tryMatch_attempt hfast rfl hb pattern
  obtain ⟨found', t', hmatch', _⟩ := b.tryMatch_attempt hgeneral rfl hb pattern
  exact ⟨found, t, found', t', hmatch, hmatch',
    b.tryMatch_unique hfast hgeneral rfl rfl rfl hb hmatch hmatch'⟩

theorem letters_are_found_the_same :
    let b := Buffer.ofBytes ⟨#[97, 98]⟩
    let pattern := Chain.last (.«repeat» (.atLeast 1) false (.literal [97] false))
    let fast : Setting := { text := b.bytes }
    let general : Setting := { text := b.bytes, method := fun _ => .general }
    b.position ≤ b.size ∧ ∃ found t found' t', b.tryMatch fast pattern = some (found, t) ∧
      b.tryMatch general pattern = some (found', t') ∧ t.stopped = none ∧ t'.stopped = none ∧
      found = found' ∧ t.position = t'.position ∧
      (fast.attempt pattern b.position).outcome =
        (general.attempt pattern b.position).outcome := by
  intro b pattern fast general
  have hrun : fast.attempt pattern b.position = ⟨.found 1 .empty, 3⟩ :=
    (Search.run_enter rfl).trans <| (Search.run_most rfl rfl).trans <|
      (Search.run_most rfl rfl).trans Search.run_done
  have hrun' : general.attempt pattern b.position = ⟨.found 1 .empty, 3⟩ :=
    (Search.run_enter rfl).trans <| (Search.run_enter rfl).trans <|
      (Search.run_follow (by simp) (by simp)).trans <| (Search.run_enter rfl).trans Search.run_done
  obtain ⟨found, t, found', t', hmatch, hmatch', h⟩ :=
    faster_methods_find_the_same b {} {} {} pattern (Nat.zero_le _)
  have hstop := b.tryMatch_stopped (Setting.fits_of rfl) rfl (Nat.zero_le _) hmatch
  have hstop' := b.tryMatch_stopped (Setting.fits_general rfl) rfl (Nat.zero_le _) hmatch'
  rw [hrun] at hstop
  rw [hrun'] at hstop'
  have hstop : t.stopped = none := by simpa [Search.Outcome.isCutOff] using hstop
  have hstop' : t'.stopped = none := by simpa [Search.Outcome.isCutOff] using hstop'
  exact ⟨Nat.zero_le _, found, t, found', t', hmatch, hmatch', hstop, hstop', h hstop hstop'⟩

/-! ## Limits -/

/-- Limits decide whether an attempt and a scan come to an end, and never what they come to. -/
theorem limits_never_change_results (text : ByteArray) (environment : Environment)
    (limits limits' : Limits) (pattern : Chain) :
    let c : Setting := { text, environment, limits }
    let c' := c.within limits'
    (∀ b : Buffer, b.bytes = text → b.position ≤ b.size → limits ≤ limits' →
      ∀ found t, b.tryMatch c pattern = some (found, t) → t.stopped = none →
        ∃ t', b.tryMatch c' pattern = some (found, t') ∧ t'.stopped = none ∧
          t'.position = t.position) ∧
    (∀ b : Buffer, b.bytes = text → b.position ≤ b.size →
      ∀ found t found' t', b.tryMatch c pattern = some (found, t) → t.stopped = none →
        b.tryMatch c' pattern = some (found', t') → t'.stopped = none →
          found = found' ∧ t.position = t'.position) ∧
    (∀ amount found, limits ≤ limits' → c.scan pattern amount = .ok found →
      c'.scan pattern amount = .ok found) ∧
    (∀ amount found found', c.scan pattern amount = .ok found →
      c'.scan pattern amount = .ok found' → found = found') ∧
    ∀ amount i, c.scan pattern amount = .error i ↔
      ∃ s cause, Scan.Tries c pattern amount {} s ∧
        (c.attempt pattern s.position).outcome = .cutOff cause ∧
          i = ⟨cause, limits, s.position⟩ := by
  intro c c'
  have hc : c.Fits := Setting.fits_of rfl
  have hc' : c'.Fits := Setting.fits_of rfl
  refine ⟨fun b htext hb hle found t hmatch hstop =>
      b.tryMatch_of_larger hc htext hb hle hmatch hstop,
    fun b htext hb found t found' t' hmatch hstop hmatch' hstop' => ?_,
    fun amount found hle h => Scan.run_ok_of_larger hle _ found h,
    fun amount found found' h h' => Setting.scan_unique h h', fun amount i => ?_⟩
  · obtain ⟨hfound, hposition, _⟩ :=
      b.tryMatch_unique hc hc' htext htext rfl hb hmatch hmatch' hstop hstop'
    exact ⟨hfound, hposition⟩
  · constructor
    · exact Scan.tries_of_interrupted _ i
    · rintro ⟨s, cause, h, hcut, rfl⟩
      exact h.interrupted hcut

theorem larger_limits_keep_letter :
    let b := Buffer.ofBytes ⟨#[97]⟩
    let c : Setting := { text := b.bytes, limits := ⟨1, 0⟩ }
    let pattern := Chain.last (.literal [97] false)
    b.position ≤ b.size ∧ (⟨1, 0⟩ : Limits) ≤ ⟨2, 1⟩ ∧
      ∃ found t t', b.tryMatch c pattern = some (found, t) ∧ t.stopped = none ∧
        b.tryMatch (c.within ⟨2, 1⟩) pattern = some (found, t') ∧ t'.stopped = none ∧
        t'.position = t.position := by
  intro b c pattern
  have hle : (⟨1, 0⟩ : Limits) ≤ ⟨2, 1⟩ := ⟨by decide, by decide⟩
  have hc : c.Fits := Setting.fits_of rfl
  obtain ⟨found, t, hmatch, _⟩ := b.tryMatch_attempt hc rfl (Nat.zero_le _) pattern
  have hrun : c.attempt pattern b.position = ⟨.found 1 .empty, 1⟩ :=
    (Search.run_enter rfl).trans Search.run_done
  have hstop := b.tryMatch_stopped hc rfl (Nat.zero_le _) hmatch
  rw [hrun] at hstop
  have hstop : t.stopped = none := by simpa [Search.Outcome.isCutOff] using hstop
  obtain ⟨t', h⟩ := (limits_never_change_results b.bytes {} ⟨1, 0⟩ ⟨2, 1⟩ pattern).1 b rfl
    (Nat.zero_le _) hle found t hmatch hstop
  exact ⟨Nat.zero_le _, hle, found, t, t', hmatch, hstop, h⟩

end WordPattern
