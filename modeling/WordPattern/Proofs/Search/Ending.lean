import WordPattern.Proofs.Pattern.Elements
import WordPattern.Proofs.Walk.Outcomes

/-!
# Searches that end by themselves

A pattern that calls no name is searched in finitely many steps. Every repetition either moves on or
brings the count nearer to the least number, since an empty one is the last as soon as there are
enough; so no limit is needed for the search to end.
-/

namespace WordPattern

namespace Search

open Walk (noteAll noteAll_append noteAll_cons)

variable {c : Setting} {low : Nat} {tasks front back : List Task}

/-! ## Limits that are large enough -/

/-- Under some limits the machine comes to an end that is no cut-off. -/
def Ends (c : Setting) (s : State) : Prop :=
  ∃ limits, (run (c.within limits) s).outcome.isCutOff = false

/-- A state from which the machine comes to another one under all limits that are large enough. -/
theorem Ends.of_run {s t : State} (limits : Limits) (h : Ends c t)
    (hrun : ∀ larger, limits ≤ larger → run (c.within larger) s = run (c.within larger) t) :
    Ends c s := by
  obtain ⟨limits', ht⟩ := h
  have hsame : run (c.within (limits.join limits')) t = run (c.within limits') t :=
    run_of_larger (c := c.within limits') (Limits.le_join_right limits limits') t ht
  refine ⟨limits.join limits', ?_⟩
  rw [hrun _ (Limits.le_join_left limits limits'), hsame]
  exact ht

theorem Ends.of_eq {s t : State} (h : Ends c t)
    (hrun : ∀ limits, run (c.within limits) s = run (c.within limits) t) : Ends c s :=
  h.of_run ⟨0, 0⟩ fun larger _ => hrun larger

theorem exceeded?_enough {steps depth : Nat} {limits : Limits}
    (h : (⟨steps + 1, depth⟩ : Limits) ≤ limits) : exceeded? limits steps depth = none := by
  obtain ⟨hsteps, hdepth⟩ := h
  rw [exceeded?, if_neg (Nat.not_lt.mpr hsteps), if_neg (Nat.not_lt.mpr hdepth)]

/-! ## Tasks that lead on -/

/-- If the machine ends from whatever is behind some tasks, it ends from the tasks. Ends that are
noted on the way lie behind a place. -/
def Leads (c : Setting) (low : Nat) (tasks : List Task) : Prop :=
  ∀ rest noted steps,
    (∀ ends steps', (∀ e ∈ ends, low ≤ e ∧ e ≤ c.text.size) →
      Ends c ⟨rest, noteAll ends noted, steps'⟩) →
    Ends c ⟨tasks ++ rest, noted, steps⟩

namespace Leads

theorem nil : Leads c low [] := by
  intro rest noted steps hrest
  exact hrest [] steps (by simp)

/-- Tasks that are split into some that come first and others behind them. -/
theorem split (h : Leads c low front) (h' : Leads c low back)
    (hrun : ∀ rest, ∃ behind, ∀ limits noted steps,
      run (c.within limits) ⟨tasks ++ rest, noted, steps⟩ =
          run (c.within limits) ⟨front ++ behind, noted, steps⟩ ∧
        run (c.within limits) ⟨behind, noted, steps⟩ =
          run (c.within limits) ⟨back ++ rest, noted, steps⟩) : Leads c low tasks := by
  intro rest noted steps hrest
  obtain ⟨behind, hrun⟩ := hrun rest
  have hbehind : ∀ ends steps', (∀ e ∈ ends, low ≤ e ∧ e ≤ c.text.size) →
      Ends c ⟨behind, noteAll ends noted, steps'⟩ := by
    intro ends steps' hends
    have hback := h' rest (noteAll ends noted) steps' fun more steps'' hmore => by
      rw [← noteAll_append]
      refine hrest (ends ++ more) steps'' fun e he => ?_
      rcases List.mem_append.mp he with he | he
      · exact hends e he
      · exact hmore e he
    exact hback.of_eq fun limits => (hrun limits _ _).2
  exact (h behind noted steps hbehind).of_eq fun limits => (hrun limits _ _).1

theorem append (h : Leads c low front) (h' : Leads c low back) : Leads c low (front ++ back) :=
  h.split h' fun rest => ⟨back ++ rest, fun _ _ _ => ⟨by rw [List.append_assoc], rfl⟩⟩

theorem flatMap {α : Type} {tasks : α → List Task} {places : List α}
    (h : ∀ a ∈ places, Leads c low (tasks a)) : Leads c low (places.flatMap tasks) := by
  induction places with
  | nil => exact nil
  | cons a places ih =>
    obtain ⟨ha, hplaces⟩ := List.forall_mem_cons.mp h
    rw [List.flatMap_cons]
    exact ha.append (ih hplaces)

/-- Tasks that come to the same as others without a step. -/
theorem of_eq (h : Leads c low back)
    (hrun : ∀ limits rest noted steps, run (c.within limits) ⟨front ++ rest, noted, steps⟩ =
      run (c.within limits) ⟨back ++ rest, noted, steps⟩) : Leads c low front := by
  intro rest noted steps hrest
  exact (h rest noted steps hrest).of_eq fun limits => hrun limits rest noted steps

/-- Tasks that come to the same as others once a step has been counted. -/
theorem of_step (depth : Nat) (h : Leads c low back)
    (hrun : ∀ limits rest noted steps, exceeded? limits steps depth = none →
      run (c.within limits) ⟨front ++ rest, noted, steps⟩ =
        run (c.within limits) ⟨back ++ rest, noted, steps + 1⟩) : Leads c low front := by
  intro rest noted steps hrest
  exact (h rest noted (steps + 1) hrest).of_run ⟨steps + 1, depth⟩ fun limits hle =>
    hrun limits rest noted steps (exceeded?_enough hle)

theorem enter {chain : Chain} {start depth : Nat} {trail : Trail} {k : Continuation}
    (h : Leads c low (chainWays c chain start trail k depth)) :
    Leads c low [.enter chain start trail k depth] :=
  h.of_step depth fun _ _ _ _ hx => run_enter hx

theorem resume {trail : Trail} {k : Continuation} {depth : Nat} {positions : List Nat}
    (h : ∀ q ∈ positions, Leads c low [resumeAt q trail k depth]) :
    Leads c low [.resume positions trail k depth] := by
  induction positions with
  | nil => exact nil.of_eq fun _ _ _ _ => run_resume_nil
  | cons q positions ih =>
    obtain ⟨hq, hpositions⟩ := List.forall_mem_cons.mp h
    exact hq.split (ih hpositions) fun rest =>
      ⟨resumeThen positions trail k depth rest, fun _ _ _ => ⟨run_resume_cons, run_resumeThen⟩⟩

theorem inOrder {quantifier : Quantifier} {fewest : Bool} {count : Nat} {stop : Task}
    (hstop : Leads c low [stop]) (hgrow : Leads c low front) :
    Leads c low (Search.inOrder quantifier fewest count stop front) := by
  have hstops : Leads c low (if quantifier.metBy count then [stop] else []) := by
    split
    · exact hstop
    · exact nil
  unfold Search.inOrder
  cases fewest with
  | true => exact hstops.append hgrow
  | false => exact hgrow.append hstops

/-- An element that ends in one place, or not at all. -/
theorem atEnd {trail : Trail} {k : Continuation} {depth : Nat} (finish : Option Nat) :
    (∀ e, finish = some e → Leads c low [resumeAt e trail k depth]) →
    Leads c low
      (match finish with
        | some e => [resumeAt e trail k depth]
        | none => []) := by
  intro h
  cases finish with
  | some e => exact h e rfl
  | none => exact nil

end Leads

/-! ## What follows an element -/

/-- A continuation leads on from every position behind a place. -/
def Follows (c : Setting) (low place : Nat) (k : Continuation) : Prop :=
  ∀ position, place ≤ position → position ≤ c.text.size → ∀ trail depth,
    Leads c low [resumeAt position trail k depth]

/-- An element leads on from wherever it is entered, if what follows it does. -/
def Passes (c : Setting) (node : Node) : Prop :=
  ∀ {low place k}, low ≤ place → place ≤ c.text.size → Follows c low place k → ∀ trail depth,
    Leads c low [.enter (.last node) place trail k depth]

variable {place : Nat} {k : Continuation}

theorem Follows.weaken {place' : Nat} (hle : place ≤ place') (h : Follows c low place k) :
    Follows c low place' k :=
  fun position hposition => h position (Nat.le_trans hle hposition)

theorem follows_done : Follows c low place .done := by
  intro position _ _ trail depth rest noted steps _
  refine ⟨⟨0, 0⟩, ?_⟩
  have hfound : run (c.within ⟨0, 0⟩)
      ⟨[resumeAt position trail .done depth] ++ rest, noted, steps⟩ =
        ⟨.found position trail.captures, steps⟩ := run_done
  rw [hfound]
  rfl

theorem follows_note (hlow : low ≤ place) : Follows c low place .note := by
  intro position hplace hsize trail depth rest noted steps hrest
  have hnoted : Ends c ⟨rest, noteEnd position noted, steps⟩ :=
    hrest [position] steps fun e he => by
      rw [List.mem_singleton.mp he]
      exact ⟨Nat.le_trans hlow hplace, hsize⟩
  exact hnoted.of_eq fun limits => run_note.trans run_resume_nil

theorem leads_follow {position : Nat} {trail : Trail} {depth : Nat} (hdone : k ≠ .done)
    (hnote : k ≠ .note) (h : Leads c low (follow c position trail depth k)) :
    Leads c low [resumeAt position trail k depth] :=
  h.of_eq fun _ _ _ _ => run_follow hdone hnote

theorem follows_chain {next : Chain}
    (h : ∀ position, place ≤ position → position ≤ c.text.size → ∀ trail depth,
      Leads c low [.enter next position trail k depth]) :
    Follows c low place (.chain next k) := by
  intro position hplace hsize trail depth
  exact leads_follow (by simp) (by simp) (h position hplace hsize trail (depth + 1))

theorem follows_bind {name : String} {start : Nat} (h : Follows c low place k) :
    Follows c low place (.bind name start k) := by
  intro position hplace hsize trail depth
  exact leads_follow (by simp) (by simp) (h position hplace hsize _ (depth + 1))

theorem follows_again {quantifier : Quantifier} {fewest : Bool} {body : Node} {count : Nat}
    (hk : Follows c low place k)
    (h : ∀ position, place ≤ position → position ≤ c.text.size →
      ¬(position = place && quantifier.metBy count) = true → ∀ trail depth,
        Leads c low (iterate quantifier fewest body count position trail k depth)) :
    Follows c low place (.again quantifier fewest body count place k) := by
  intro position hplace hsize trail depth
  refine leads_follow (by simp) (by simp) ?_
  simp only [follow]
  by_cases hempty : position = place && quantifier.metBy count
  · rw [if_pos hempty]
    exact hk position hplace hsize trail (depth + 1)
  · rw [if_neg hempty]
    exact h position hplace hsize hempty trail (depth + 1)

/-! ## Repetitions -/

/-- How many repetitions there can be at most: those that are needed, and one for every byte. -/
def roundsLeft (c : Setting) (quantifier : Quantifier) (count position : Nat) : Nat :=
  (quantifier.least - count) + (c.text.size - position)

/-- A repetition that is not the last one leaves fewer of them. -/
theorem roundsLeft_lt {quantifier : Quantifier} {count position finish : Nat}
    (hle : position ≤ finish) (hsize : finish ≤ c.text.size)
    (h : ¬(finish = position && quantifier.metBy (count + 1)) = true) :
    roundsLeft c quantifier (count + 1) finish < roundsLeft c quantifier count position := by
  simp only [Quantifier.metBy, Bool.and_eq_true, decide_eq_true_eq, not_and] at h
  unfold roundsLeft
  by_cases hempty : finish = position
  · have hfew := h hempty
    omega
  · omega

theorem leads_iterate {body : Node} (hbody : Passes c body) (quantifier : Quantifier)
    (fewest : Bool) (count place : Nat) (hlow : low ≤ place) (hsize : place ≤ c.text.size)
    (hk : Follows c low place k) (trail : Trail) (depth : Nat) :
    Leads c low (iterate quantifier fewest body count place trail k depth) := by
  refine Leads.inOrder (hk place (Nat.le_refl _) hsize trail depth) ?_
  split
  · refine hbody hlow hsize (follows_again hk fun position hplace hposition hempty => ?_) trail
      (depth + 1)
    have := roundsLeft_lt hplace hposition hempty
    exact leads_iterate hbody quantifier fewest (count + 1) position (Nat.le_trans hlow hplace)
      hposition (hk.weaken hplace)
  · exact .nil
termination_by roundsLeft c quantifier count place

theorem leads_most (l : Loop) (hstep : l.body.isStep = true) (hk : Follows c low place l.k)
    (count position : Nat) (older : List Nat) (hsize : position ≤ c.text.size)
    (hends : ∀ e ∈ position :: older, place ≤ e ∧ e ≤ c.text.size) :
    Leads c low [.most l count (position :: older)] := by
  have back : Leads c low [.resume (l.enough count (position :: older)) l.trail l.k l.depth] :=
    .resume fun e he =>
      have ⟨hplace, hsize⟩ := hends e (List.mem_of_mem_take he)
      hk e hplace hsize l.trail l.depth
  cases hallows : l.quantifier.allowsAfter count with
  | false => exact back.of_eq fun _ _ _ _ => run_most_full hallows
  | true =>
    cases hfinish : l.body.stepEnd? c.text position with
    | none =>
      refine back.of_step l.depth fun limits rest noted steps hx => ?_
      refine (run_most hallows hx).trans ?_
      rw [show l.body.stepEnd? (c.within limits).text position = none from hfinish]
      rfl
    | some finish =>
      have hbounds := Walk.stepEnd?_bounds l.body hstep hsize hfinish
      have hmore : Leads c low [.most l (count + 1) (finish :: position :: older)] := by
        refine leads_most l hstep hk (count + 1) finish (position :: older) hbounds.2 ?_
        refine List.forall_mem_cons.mpr ⟨⟨?_, hbounds.2⟩, hends⟩
        have := (hends position List.mem_cons_self).1
        omega
      refine hmore.of_step l.depth fun limits rest noted steps hx => ?_
      refine (run_most hallows hx).trans ?_
      rw [show l.body.stepEnd? (c.within limits).text position = some finish from hfinish]
      rfl
termination_by c.text.size - position
decreasing_by omega

theorem leads_more (l : Loop) (hstep : l.body.isStep = true) (hk : Follows c low place l.k)
    (count position : Nat) (hplace : place ≤ position) (hsize : position ≤ c.text.size) :
    Leads c low [.more l count position] := by
  cases hallows : l.quantifier.allowsAfter count with
  | false => exact Leads.nil.of_eq fun _ _ _ _ => run_more_full hallows
  | true =>
    cases hfinish : l.body.stepEnd? c.text position with
    | none =>
      refine Leads.nil.of_step l.depth fun limits rest noted steps hx => ?_
      refine (run_more hallows hx).trans ?_
      rw [show l.body.stepEnd? (c.within limits).text position = none from hfinish]
      rfl
    | some finish =>
      obtain ⟨hlt, hfinal⟩ := Walk.stepEnd?_bounds l.body hstep hsize hfinish
      have hbehind : place ≤ finish := by omega
      have hvisit : Leads c low (l.visitStep (count + 1) finish) :=
        Leads.inOrder (hk finish hbehind hfinal l.trail l.depth)
          (leads_more l hstep hk (count + 1) finish hbehind hfinal)
      refine hvisit.of_step l.depth fun limits rest noted steps hx => ?_
      refine (run_more hallows hx).trans ?_
      rw [show l.body.stepEnd? (c.within limits).text position = some finish from hfinish]
      rfl
termination_by c.text.size - position

/-- The ends of a body that are gathered lie behind the place where it is entered. -/
theorem leads_visit (l : Loop) (hbody : Passes c l.body) (hk : Follows c low place l.k)
    (count position : Nat) (hplace : place ≤ position) (hsize : position ≤ c.text.size) :
    Leads c low (l.visit count position) := by
  refine Leads.inOrder (hk position hplace hsize l.trail l.depth) ?_
  have spread : ∀ finish, position ≤ finish → finish ≤ c.text.size →
      Leads c low (l.visitEnd count position finish) := by
    intro finish hle hfinal
    unfold Loop.visitEnd
    by_cases hempty : finish = position && l.quantifier.metBy (count + 1)
    · rw [if_pos hempty]
      exact hk position hplace hsize l.trail l.depth
    · rw [if_neg hempty]
      have := roundsLeft_lt hle hfinal hempty
      exact leads_visit l hbody hk (count + 1) finish (Nat.le_trans hplace hle) hfinal
  cases hallows : l.quantifier.allowsAfter count with
  | false => exact Leads.nil.of_eq fun _ _ _ _ => run_gather_full hallows
  | true =>
    intro rest noted steps hrest
    refine Ends.of_eq ?_ fun limits => run_gather hallows
    refine hbody (Nat.le_refl position) hsize (follows_note (Nat.le_refl _)) l.trail (l.depth + 1)
      _ ([] :: noted) steps fun ends steps' hends => ?_
    obtain ⟨fresh, hfresh, hmem⟩ := noteAll_cons ends [] noted
    rw [hfresh]
    refine Ends.of_eq ?_ fun limits => run_spread
    refine Leads.flatMap (fun e he => ?_) rest noted steps' hrest
    have hbounds := hends e (by simpa using (hmem e).mp he)
    exact spread e hbounds.1 hbounds.2
termination_by roundsLeft c l.quantifier count position

/-- Every method of repeating a body leads on. -/
theorem leads_repetitions (hc : c.Fits) (l : Loop) (hbody : Passes c l.body) (hlow : low ≤ place)
    (hsize : place ≤ c.text.size) (hk : Follows c low place l.k) :
    Leads c low (repetitions (c.method l.body) l place) := by
  cases hmethod : c.method l.body with
  | stepwise =>
    have hstep := hc.stepwise l.body hmethod
    unfold repetitions
    dsimp only
    split
    · exact Leads.inOrder (hk place (Nat.le_refl _) hsize l.trail l.depth)
        (leads_more l hstep hk 0 place (Nat.le_refl _) hsize)
    · exact leads_most l hstep hk 0 place [] hsize (by simp [hsize])
  | gathered => exact leads_visit l hbody hk 0 place (Nat.le_refl _) hsize
  | general =>
    exact leads_iterate hbody l.quantifier l.fewest 0 place hlow hsize hk l.trail l.depth

/-! ## Every element -/

theorem leads_single (node : Node) {trail : Trail} {depth : Nat} (hsize : place ≤ c.text.size)
    (hk : Follows c low place k) :
    Leads c low
      (match Walk.singleEnd? c.environment.texts trail c.text place node with
        | some finish => [resumeAt finish trail k depth]
        | none => []) := by
  refine Leads.atEnd _ fun finish hfinish => ?_
  obtain ⟨hle, hfinal⟩ := Walk.singleEnd?_bounds hfinish hsize
  exact hk finish hle hfinal trail depth

theorem leads_range {low' high : List UInt8} {negated : Bool} {trail : Trail} {depth : Nat}
    (hk : Follows c low place k) :
    Leads c low [.resume (rangeEnds c.text low' high negated place) trail k depth] := by
  refine Leads.resume fun finish hfinish => ?_
  rw [Walk.rangeEnds_eq] at hfinish
  obtain ⟨width, _, hwidth⟩ := List.mem_filterMap.mp hfinish
  obtain ⟨hle, hfinal⟩ := Walk.widthEnd?_bounds hwidth
  exact hk finish hle hfinal trail depth

theorem leads_item (item : Item) {trail : Trail} {depth : Nat} (hsize : place ≤ c.text.size)
    (hk : Follows c low place k) :
    Leads c low [.enter (.last item.node) place trail k depth] := by
  apply Leads.enter
  cases item with
  | literal bytes => exact leads_single (.literal bytes false) hsize hk
  | range low' high => exact leads_range hk
  | byteClass b => exact leads_single (.byteClass b false) hsize hk

mutual
/-- An element that calls no name leads on to what follows it. -/
theorem leads_ways (hc : c.Fits) :
    (node : Node) → node.all (!·.isCall) = true → ∀ {low place k}, low ≤ place →
      place ≤ c.text.size → Follows c low place k → ∀ trail depth,
        Leads c low (ways c node place trail k depth)
  | .literal bytes negated, _, _, _, _, _, hsize, hk, _, _ =>
    leads_single (.literal bytes negated) hsize hk
  | .byteClass b negated, _, _, _, _, _, hsize, hk, _, _ =>
    leads_single (.byteClass b negated) hsize hk
  | .noneOf items, _, _, _, _, _, hsize, hk, _, _ =>
    leads_single (.noneOf items) hsize hk
  | .variableText name, _, _, _, _, _, hsize, hk, _, _ => by
    rw [Walk.ways_variableText]
    exact leads_single _ hsize hk
  | .anchor a, _, _, place, _, _, hsize, hk, trail, depth => by
    unfold ways
    dsimp only
    split
    · exact hk place (Nat.le_refl _) hsize trail depth
    · exact .nil
  | .range .., _, _, _, _, _, _, hk, _, _ => leads_range hk
  | .oneOf items, _, _, place, k, _, hsize, hk, trail, depth => by
    have hitems : Leads _ _ (items.flatMap fun i =>
        [Task.enter (.last i.node) place trail k (depth + 1)]) :=
      Leads.flatMap fun i _ => leads_item i hsize hk
    rw [← List.map_eq_flatMap] at hitems
    exact hitems
  | .group chain, hcalls, _, _, _, hlow, hsize, hk, trail, depth =>
    leads_enter hc chain (Bool.and_eq_true_iff.mp hcalls).2 hlow hsize hk trail (depth + 1)
  | .«repeat» quantifier fewest body, hcalls, _, _, _, hlow, hsize, hk, trail, depth => by
    have hbody : Passes c body := fun hlow hsize hk trail depth =>
      .enter (leads_ways hc body (Bool.and_eq_true_iff.mp hcalls).2 hlow hsize hk trail depth)
    exact leads_repetitions hc { quantifier, fewest, body, trail, k := _, depth } hbody hlow hsize
      hk
  | .or left right, hcalls, _, _, _, hlow, hsize, hk, trail, depth => by
    obtain ⟨hleft, hright⟩ := Bool.and_eq_true_iff.mp (Bool.and_eq_true_iff.mp hcalls).2
    exact (Leads.enter (leads_ways hc left hleft hlow hsize hk trail (depth + 1))).append
      (Leads.enter (leads_ways hc right hright hlow hsize hk trail (depth + 1)))
  | .capture name body, hcalls, _, _, _, hlow, hsize, hk, trail, depth =>
    .enter (leads_ways hc body (Bool.and_eq_true_iff.mp hcalls).2 hlow hsize (follows_bind hk)
      trail (depth + 1))
  | .define name body, hcalls, _, _, _, hlow, hsize, hk, _, depth =>
    .enter (leads_ways hc body (Bool.and_eq_true_iff.mp hcalls).2 hlow hsize hk _ (depth + 1))

/-- A chain that calls no name leads on to what follows it. -/
theorem leads_enter (hc : c.Fits) :
    (chain : Chain) → chain.all (!·.isCall) = true → ∀ {low place k}, low ≤ place →
      place ≤ c.text.size → Follows c low place k → ∀ trail depth,
        Leads c low [.enter chain place trail k depth]
  | .last node, hcalls, _, _, _, hlow, hsize, hk, trail, depth =>
    .enter (leads_ways hc node hcalls hlow hsize hk trail depth)
  | .cons node rest, hcalls, _, _, _, hlow, hsize, hk, trail, depth => by
    obtain ⟨hnode, hrest⟩ := Bool.and_eq_true_iff.mp hcalls
    refine .enter (leads_ways hc node hnode hlow hsize ?_ trail depth)
    exact follows_chain fun position hplace hposition =>
      leads_enter hc rest hrest (Nat.le_trans hlow hplace) hposition (hk.weaken hplace)
end

theorem ends_enter (hc : c.Fits) {pattern : Chain} (hcalls : pattern.all (!·.isCall) = true)
    {start : Nat} (hstart : start ≤ c.text.size) :
    Ends c ⟨[.enter pattern start {} .done 0], [], 0⟩ := by
  refine leads_enter hc pattern hcalls (Nat.zero_le _) hstart follows_done {} 0 [] [] 0 ?_
  intro ends steps _
  refine ⟨⟨0, 0⟩, ?_⟩
  rw [run_nil]
  rfl

end Search

/-- Without calls, a search ends by itself: from some limits on, an attempt is not cut off and takes
the same number of steps under all of them. -/
theorem search_without_calls_ends (b : Buffer) (environment : Environment) (pattern : Chain)
    (hb : b.position ≤ b.size) (hcalls : pattern.all (!·.isCall) = true) :
    ∃ limits attempt, attempt.outcome.isCutOff = false ∧ ∀ larger, limits ≤ larger →
      let c : Setting := { text := b.bytes, environment, limits := larger }
      c.attempt pattern b.position = attempt ∧
      ∃ found t, b.tryMatch c pattern = some (found, t) ∧ t.stopped = none ∧
        t.steps = attempt.steps := by
  let c : Setting := { text := b.bytes, environment }
  obtain ⟨limits, hends⟩ := Search.ends_enter (c := c) (Setting.fits_of rfl) hcalls hb
  have hcut : ((c.within limits).attempt pattern b.position).outcome.isCutOff = false := hends
  refine ⟨limits, (c.within limits).attempt pattern b.position, hcut, fun larger hle => ?_⟩
  have hsame : (c.within larger).attempt pattern b.position =
      (c.within limits).attempt pattern b.position :=
    Setting.attempt_of_larger (c := c.within limits) hle hcut
  have hfits : (c.within larger).Fits := Setting.fits_of rfl
  obtain ⟨found, t, hmatch, hattempt⟩ := b.tryMatch_attempt hfits rfl hb pattern
  have hstop := b.tryMatch_stopped hfits rfl hb hmatch
  rw [hsame, hcut] at hstop
  refine ⟨hsame, found, t, hmatch, by simpa using hstop, ?_⟩
  rw [← hsame, hattempt]
  rfl

/-- An empty repetition that is needed is counted, and ends the search no later than any other. -/
theorem empty_repetitions_end :
    let b := Buffer.ofBytes ⟨#[98, 10]⟩
    let pattern := Chain.last (.«repeat» (.atLeast 3) false (.capture "line"
      (.«repeat» (.atMost 1) true (.anchor .lineStart))))
    b.position ≤ b.size ∧ pattern.all (!·.isCall) = true ∧
      ∃ limits attempt, attempt.outcome.isCutOff = false ∧ ∀ larger, limits ≤ larger →
        let c : Setting := { text := b.bytes, limits := larger }
        c.attempt pattern b.position = attempt ∧
        ∃ found t, b.tryMatch c pattern = some (found, t) ∧ t.stopped = none ∧
          t.steps = attempt.steps := by
  intro b pattern
  have hcalls : pattern.all (!·.isCall) = true := rfl
  exact ⟨Nat.zero_le _, hcalls, search_without_calls_ends b {} pattern (Nat.zero_le _) hcalls⟩

end WordPattern
