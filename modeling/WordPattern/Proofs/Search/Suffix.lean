import Mathlib.Data.List.Forall2
import WordPattern.Proofs.Bindings
import WordPattern.Proofs.Text.Suffix
import WordPattern.Proofs.Walk.Outcomes

/-!
# Searches in the text that is left

Without a test that looks back, a search at a position goes the same way as a search at the start of
the text that is left there. The two machines go in step: they hold the same tasks, only that every
place in one of them is counted from the position.
-/

namespace WordPattern

/-- No part of the element depends on what stands before it. -/
abbrev Node.looksAhead (node : Node) : Bool := node.all (!·.looksBack)

abbrev Chain.looksAhead (chain : Chain) : Bool := chain.all (!·.looksBack)

/-- Every pattern that is bound to a name looks ahead. -/
def LookAhead (subroutines : Bindings Chain) : Prop :=
  subroutines.Every fun chain => chain.looksAhead = true

/-- The same search in the text that is left at a position. -/
def Setting.ahead (c : Setting) (p : Nat) : Setting := { c with text := WordPattern.ahead c.text p }

namespace Search

variable {c : Setting} {p : Nat}

/-- The outcome, with the place where it ends counted from further back. -/
def Outcome.shift (p : Nat) : Outcome → Outcome
  | .found finish captures => .found (finish + p) captures
  | .missed => .missed
  | .cutOff cause => .cutOff cause

def Attempt.shift (p : Nat) (a : Attempt) : Attempt := { a with outcome := a.outcome.shift p }

/-! ## Machines in step

Two machines that differ only in where the places on their agendas are counted from. Every pattern
that they come to looks ahead. -/

inductive Continuation.Shifted (p : Nat) : Continuation → Continuation → Prop
  | done : Shifted p .done .done
  | note : Shifted p .note .note
  | chain {next : Chain} {k k' : Continuation} (hnext : next.looksAhead = true)
    (h : Shifted p k k') : Shifted p (.chain next k) (.chain next k')
  | bind {name : String} {start : Nat} {k k' : Continuation} (h : Shifted p k k') :
    Shifted p (.bind name start k) (.bind name (start + p) k')
  | again {quantifier : Quantifier} {fewest : Bool} {body : Node} {count start : Nat}
    {k k' : Continuation} (hbody : body.looksAhead = true) (h : Shifted p k k') :
    Shifted p (.again quantifier fewest body count start k)
      (.again quantifier fewest body count (start + p) k')

inductive Loop.Shifted (p : Nat) : Loop → Loop → Prop
  | mk {quantifier : Quantifier} {fewest : Bool} {body : Node} {trail : Trail} {depth : Nat}
    {k k' : Continuation} (hbody : body.looksAhead = true)
    (htrail : LookAhead trail.subroutines) (h : k.Shifted p k') :
    Shifted p ⟨quantifier, fewest, body, trail, k, depth⟩
      ⟨quantifier, fewest, body, trail, k', depth⟩

inductive Task.Shifted (p : Nat) : Task → Task → Prop
  | enter {chain : Chain} {start depth : Nat} {trail : Trail} {k k' : Continuation}
    (hchain : chain.looksAhead = true) (htrail : LookAhead trail.subroutines)
    (h : k.Shifted p k') :
    Shifted p (.enter chain start trail k depth) (.enter chain (start + p) trail k' depth)
  | resume (positions : List Nat) {depth : Nat} {trail : Trail} {k k' : Continuation}
    (htrail : LookAhead trail.subroutines) (h : k.Shifted p k') :
    Shifted p (.resume positions trail k depth) (.resume (positions.map (· + p)) trail k' depth)
  | most {l l' : Loop} {count : Nat} (ends : List Nat) (h : l.Shifted p l') :
    Shifted p (.most l count ends) (.most l' count (ends.map (· + p)))
  | more {l l' : Loop} {count position : Nat} (h : l.Shifted p l') :
    Shifted p (.more l count position) (.more l' count (position + p))
  | gather {l l' : Loop} {count position : Nat} (h : l.Shifted p l') :
    Shifted p (.gather l count position) (.gather l' count (position + p))
  | spread {l l' : Loop} {count position : Nat} (h : l.Shifted p l') :
    Shifted p (.spread l count position) (.spread l' count (position + p))

abbrev Shifts (p : Nat) : List Task → List Task → Prop := List.Forall₂ (Task.Shifted p)

inductive State.Shifted (p : Nat) : State → State → Prop
  | mk {agenda agenda' : List Task} (noted : List (List Nat)) {steps : Nat}
    (h : Shifts p agenda agenda') :
    Shifted p ⟨agenda, noted, steps⟩ ⟨agenda', noted.map (·.map (· + p)), steps⟩

theorem Shifts.one {task task' : Task} (h : task.Shifted p task') : Shifts p [task] [task'] :=
  .cons h .nil

theorem Shifts.append {front front' back back' : List Task} (h : Shifts p front front')
    (h' : Shifts p back back') : Shifts p (front ++ back) (front' ++ back') :=
  List.rel_append h h'

/-! ## What follows an element -/

section

variable {trail : Trail} {k k' : Continuation} {position depth : Nat}

theorem resumeAt_shifted (htrail : LookAhead trail.subroutines) (h : k.Shifted p k') :
    (resumeAt position trail k depth).Shifted p (resumeAt (position + p) trail k' depth) :=
  .resume [position] htrail h

theorem resumeThen_shifted (positions : List Nat) (depth : Nat) {rest rest' : List Task}
    (htrail : LookAhead trail.subroutines) (h : k.Shifted p k') (hrest : Shifts p rest rest') :
    Shifts p (resumeThen positions trail k depth rest)
      (resumeThen (positions.map (· + p)) trail k' depth rest') := by
  cases positions with
  | nil => exact hrest
  | cons position positions => exact .cons (.resume _ htrail h) hrest

theorem inOrder_shifted (quantifier : Quantifier) (fewest : Bool) (count : Nat)
    {stop stop' : Task} {grow grow' : List Task} (hstop : stop.Shifted p stop')
    (hgrow : Shifts p grow grow') :
    Shifts p (inOrder quantifier fewest count stop grow)
      (inOrder quantifier fewest count stop' grow') := by
  have hstops : Shifts p (if quantifier.metBy count then [stop] else [])
      (if quantifier.metBy count then [stop'] else []) := by
    split
    · exact .one hstop
    · exact .nil
  cases fewest with
  | true => exact hstops.append hgrow
  | false => exact hgrow.append hstops

theorem iterate_shifted (quantifier : Quantifier) (fewest : Bool) {body : Node} (count : Nat)
    (hbody : body.looksAhead = true) (htrail : LookAhead trail.subroutines)
    (h : k.Shifted p k') :
    Shifts p (iterate quantifier fewest body count position trail k depth)
      (iterate quantifier fewest body count (position + p) trail k' depth) := by
  refine inOrder_shifted quantifier fewest count (resumeAt_shifted htrail h) ?_
  split
  · exact .one (.enter hbody htrail (.again hbody h))
  · exact .nil

/-- Whether a repetition was empty does not depend on where places are counted from. -/
theorem shift_eq_decide (a b : Nat) : decide (a + p = b + p) = decide (a = b) := by
  simp only [Nat.add_right_cancel_iff]

theorem follow_shifted (position depth : Nat) (htrail : LookAhead trail.subroutines)
    (h : k.Shifted p k') :
    Shifts p (follow (c.ahead p) position trail depth k)
      (follow c (position + p) trail depth k') := by
  cases h with
  | done => exact .nil
  | note => exact .nil
  | chain hnext h => exact .one (.enter hnext htrail h)
  | @bind name start k k' h =>
    have hvalue : Text.decode ((c.ahead p).text.extract start position) =
        Text.decode (c.text.extract (start + p) (position + p)) :=
      congrArg Text.decode (extract_ahead start position)
    simp only [follow, hvalue]
    exact .one (resumeAt_shifted htrail h)
  | again hbody h =>
    simp only [follow, shift_eq_decide]
    split
    · exact .one (resumeAt_shifted htrail h)
    · exact iterate_shifted _ _ _ hbody htrail h

end

/-! ## Repetitions -/

section

variable {l l' : Loop}

theorem Loop.Shifted.stop (h : l.Shifted p l') (position : Nat) :
    (resumeAt position l.trail l.k l.depth).Shifted p
      (resumeAt (position + p) l'.trail l'.k l'.depth) := by
  obtain ⟨-, htrail, hk⟩ := h
  exact resumeAt_shifted htrail hk

theorem Loop.Shifted.visit (h : l.Shifted p l') (count position : Nat) :
    Shifts p (l.visit count position) (l'.visit count (position + p)) := by
  have hstop := h.stop position
  cases h with
  | mk hbody htrail hk =>
    exact inOrder_shifted _ _ count hstop (.one (.gather (.mk hbody htrail hk)))

theorem Loop.Shifted.visitStep (h : l.Shifted p l') (count position : Nat) :
    Shifts p (l.visitStep count position) (l'.visitStep count (position + p)) := by
  have hstop := h.stop position
  cases h with
  | mk hbody htrail hk =>
    exact inOrder_shifted _ _ count hstop (.one (.more (.mk hbody htrail hk)))

theorem Loop.Shifted.visitEnd (h : l.Shifted p l') (count position finish : Nat) :
    Shifts p (l.visitEnd count position finish)
      (l'.visitEnd count (position + p) (finish + p)) := by
  have hstop := h.stop position
  have hvisit := h.visit (count + 1) finish
  cases h with
  | mk hbody htrail hk =>
    unfold Loop.visitEnd
    rw [shift_eq_decide]
    split
    · exact .one hstop
    · exact hvisit

theorem Loop.Shifted.spread (h : l.Shifted p l') (count position : Nat) (ends : List Nat) :
    Shifts p (ends.flatMap (l.visitEnd count position))
      ((ends.map (· + p)).flatMap (l'.visitEnd count (position + p))) := by
  induction ends with
  | nil => exact .nil
  | cons finish ends ih => exact (h.visitEnd count position finish).append ih

theorem Loop.Shifted.enough (h : l.Shifted p l') (count : Nat) (ends : List Nat) :
    Task.Shifted p (.resume (l.enough count ends) l.trail l.k l.depth)
      (.resume (l'.enough count (ends.map (· + p))) l'.trail l'.k l'.depth) := by
  cases h with
  | mk hbody htrail hk =>
    unfold Loop.enough
    rw [← List.map_take]
    exact .resume _ htrail hk

theorem repetitions_shifted (method : Method) (h : l.Shifted p l') (position : Nat) :
    Shifts p (repetitions method l position) (repetitions method l' (position + p)) := by
  have hvisit := h.visit 0 position
  have hstep := h.visitStep 0 position
  have hmost : Task.Shifted p (.most l 0 [position]) (.most l' 0 [position + p]) :=
    .most [position] h
  cases h with
  | mk hbody htrail hk =>
    cases method with
    | stepwise =>
      unfold repetitions
      dsimp only
      split
      · exact hstep
      · exact .one hmost
    | gathered => exact hvisit
    | general => exact iterate_shifted _ _ 0 hbody htrail hk

end

/-! ## Every element -/

theorem atEnd_shifted {trail : Trail} {k k' : Continuation} {depth : Nat}
    (htrail : LookAhead trail.subroutines) (hk : k.Shifted p k') (finish : Option Nat) :
    Shifts p
      (match finish with
        | some finish => [resumeAt finish trail k depth]
        | none => [])
      (match finish.map (· + p) with
        | some finish => [resumeAt finish trail k' depth]
        | none => []) := by
  cases finish with
  | some finish => exact .one (resumeAt_shifted htrail hk)
  | none => exact .nil

/-- The ways to match an element are the same in the text that is left. -/
theorem ways_shifted (hp : p ≤ c.text.size) (henvironment : LookAhead c.environment.subroutines)
    {node : Node} (hnode : node.looksAhead = true) {trail : Trail}
    (htrail : LookAhead trail.subroutines) {k k' : Continuation} (hk : k.Shifted p k')
    (start depth : Nat) :
    Shifts p (ways (c.ahead p) node start trail k depth)
      (ways c node (start + p) trail k' depth) := by
  have single : ∀ node : Node,
      Shifts p
        (match node.end? (c.ahead p).text start with
          | some finish => [resumeAt finish trail k depth]
          | none => [])
        (match node.end? c.text (start + p) with
          | some finish => [resumeAt finish trail k' depth]
          | none => []) := by
    intro node
    rw [Node.end?_ahead]
    exact atEnd_shifted htrail hk _
  cases node with
  | literal bytes negated => exact single (.literal bytes negated)
  | byteClass b negated => exact single (.byteClass b negated)
  | noneOf items => exact single (.noneOf items)
  | anchor a =>
    have hholds : a.holdsAt (c.ahead p).text start = a.holdsAt c.text (start + p) :=
      Anchor.holdsAt_ahead (by simpa [Node.looksAhead, Node.all] using hnode) start
    unfold ways
    dsimp only
    rw [hholds]
    split
    · exact .one (resumeAt_shifted htrail hk)
    · exact .nil
  | range low high negated =>
    unfold ways
    dsimp only
    rw [rangeEnds_ahead hp]
    exact .one (.resume _ htrail hk)
  | oneOf items =>
    unfold ways
    dsimp only
    rw [Shifts, List.forall₂_map_left_iff, List.forall₂_map_right_iff, List.forall₂_same]
    intro item _
    exact .enter (by cases item <;> rfl) htrail hk
  | variableText name =>
    simp only [ways, Setting.ahead]
    cases (trail.captures.get? name).or (c.environment.texts.get? name) with
    | none => exact .nil
    | some value =>
      simp only [standsAt_ahead, Nat.add_right_comm start p]
      split
      · exact .one (resumeAt_shifted htrail hk)
      · exact .nil
  | call name =>
    unfold ways
    dsimp only [Setting.ahead]
    cases hchain : (trail.subroutines.get? name).or (c.environment.subroutines.get? name) with
    | none => exact .nil
    | some chain => exact .one (.enter (htrail.or henvironment hchain) htrail hk)
  | group chain => exact .one (.enter (Bool.and_eq_true_iff.mp hnode).2 htrail hk)
  | «repeat» quantifier fewest body =>
    exact repetitions_shifted (c.method body)
      (.mk (Bool.and_eq_true_iff.mp hnode).2 htrail hk) start
  | or left right =>
    obtain ⟨hleft, hright⟩ := Bool.and_eq_true_iff.mp (Bool.and_eq_true_iff.mp hnode).2
    exact .cons (.enter hleft htrail hk) (Shifts.one (.enter hright htrail hk))
  | capture name body =>
    exact .one (.enter (Bool.and_eq_true_iff.mp hnode).2 htrail (.bind hk))
  | define name body =>
    have hbody : (Chain.last body).looksAhead = true := (Bool.and_eq_true_iff.mp hnode).2
    exact .one (.enter hbody (htrail.insert hbody name) hk)

theorem chainWays_shifted (hp : p ≤ c.text.size)
    (henvironment : LookAhead c.environment.subroutines) {chain : Chain}
    (hchain : chain.looksAhead = true) {trail : Trail} (htrail : LookAhead trail.subroutines)
    {k k' : Continuation} (hk : k.Shifted p k') (start depth : Nat) :
    Shifts p (chainWays (c.ahead p) chain start trail k depth)
      (chainWays c chain (start + p) trail k' depth) := by
  cases chain with
  | last node => exact ways_shifted hp henvironment hchain htrail hk start depth
  | cons node rest =>
    obtain ⟨hnode, hrest⟩ := Bool.and_eq_true_iff.mp hchain
    exact ways_shifted hp henvironment hnode htrail (.chain hrest hk) start depth

/-! ## The machine -/

theorem noteEnd_shifted (position : Nat) (noted : List (List Nat)) :
    noteEnd (position + p) (noted.map (·.map (· + p))) =
      (noteEnd position noted).map (·.map (· + p)) := by
  cases noted with
  | nil => rfl
  | cons ends outer =>
    have hcontains : (ends.map (· + p)).contains (position + p) = ends.contains position := by
      rw [Bool.eq_iff_iff]
      simp
    rw [List.map_cons, noteEnd, noteEnd, hcontains, List.map_cons]
    split <;> simp

/-- What two machines in step come to: two machines in step, or the same end. -/
inductive Stepped (p : Nat) : Except Attempt State → Except Attempt State → Prop
  | ok {s s' : State} (h : s.Shifted p s') : Stepped p (.ok s) (.ok s')
  | error (a : Attempt) : Stepped p (.error a) (.error (a.shift p))

/-- The machine goes in step with the one in the text that is left. -/
theorem step_shifted (hp : p ≤ c.text.size) (henvironment : LookAhead c.environment.subroutines)
    {s s' : State} (h : s.Shifted p s') : Stepped p (step (c.ahead p) s) (step c s') := by
  obtain ⟨noted, h⟩ := h
  rename_i agenda agenda' steps
  cases h with
  | nil => exact .error ⟨.missed, steps⟩
  | @cons task task' rest rest' htask hrest =>
    cases htask with
    | @enter chain start depth trail k k' hchain htrail hk =>
      simp only [step, Setting.ahead]
      cases exceeded? c.limits steps depth with
      | some cause => exact .error ⟨.cutOff cause, steps + 1⟩
      | none =>
        exact .ok (.mk _ ((chainWays_shifted hp henvironment hchain htrail hk start depth).append
          hrest))
    | @resume positions depth trail k k' htrail hk =>
      cases positions with
      | nil => exact .ok (.mk _ hrest)
      | cons position positions =>
        have hthen := resumeThen_shifted positions depth htrail hk hrest
        have hfollow := follow_shifted (c := c) position depth htrail hk
        cases hk with
        | done => exact .error ⟨.found position trail.captures, steps⟩
        | note =>
          simp only [step, List.map_cons, noteEnd_shifted]
          exact .ok (.mk _ hthen)
        | chain hnext hk => exact .ok (.mk _ (hfollow.append hthen))
        | bind hk => exact .ok (.mk _ (hfollow.append hthen))
        | again hbody hk => exact .ok (.mk _ (hfollow.append hthen))
    | @most l l' count ends hl =>
      have henough := hl.enough count ends
      have hfinish : (ends.map (· + p)).head?.bind (l'.body.stepEnd? c.text) =
          (ends.head?.bind (l'.body.stepEnd? (ahead c.text p))).map (· + p) := by
        cases ends with
        | nil => rfl
        | cons finish ends => exact Node.stepEnd?_ahead l'.body finish
      have hmost : ∀ finish, Task.Shifted p (.most l (count + 1) (finish :: ends))
          (.most l' (count + 1) ((finish + p) :: ends.map (· + p))) :=
        fun finish => .most (finish :: ends) hl
      -- The loops are taken apart only now: both have the same body, quantifier and depth.
      cases hl
      simp only [step, Setting.ahead, hfinish]
      split
      · split
        · exact .error ⟨.cutOff _, steps + 1⟩
        · cases ends.head?.bind _ with
          | some finish => exact .ok (.mk _ (.cons (hmost finish) hrest))
          | none => exact .ok (.mk _ (.cons henough hrest))
      · exact .ok (.mk _ (.cons henough hrest))
    | @more l l' count position hl =>
      have hvisit := hl.visitStep (count + 1)
      cases hl
      simp only [step, Setting.ahead, Node.stepEnd?_ahead]
      split
      · split
        · exact .error ⟨.cutOff _, steps + 1⟩
        · cases Node.stepEnd? _ _ position with
          | some finish => exact .ok (.mk _ ((hvisit finish).append hrest))
          | none => exact .ok (.mk _ hrest)
      · exact .ok (.mk _ hrest)
    | @gather l l' count position hl =>
      have hspread : Task.Shifted p (.spread l count position) (.spread l' count (position + p)) :=
        .spread hl
      cases hl with
      | mk hbody htrail hk =>
        simp only [step]
        split
        · exact .ok (.mk ([] :: noted) (.cons (.enter hbody htrail .note)
            (.cons hspread hrest)))
        · exact .ok (.mk _ hrest)
    | @spread l l' count position hl =>
      cases noted with
      | nil => exact .ok (.mk _ hrest)
      | cons ends outer => exact .ok (.mk _ ((hl.spread count position ends).append hrest))

/-- Machines in step come to the same end. -/
theorem run_shifted (hp : p ≤ c.text.size) (henvironment : LookAhead c.environment.subroutines)
    (s : State) : ∀ s', s.Shifted p s' → run c s' = (run (c.ahead p) s).shift p := by
  induction s using run.induct (c.ahead p) with
  | case1 s next hstep ih =>
    intro s' h
    have hstepped := step_shifted hp henvironment h
    rw [hstep] at hstepped
    generalize hstep' : step c s' = result at hstepped
    cases hstepped with
    | ok hnext => rw [run_of_ok hstep, run_of_ok hstep', ih _ hnext]
  | case2 s a hstep =>
    intro s' h
    have hstepped := step_shifted hp henvironment h
    rw [hstep] at hstepped
    generalize hstep' : step c s' = result at hstepped
    cases hstepped with
    | error => rw [run_of_error hstep, run_of_error hstep']

end Search

/-- An attempt at a position is the attempt at the start of the text that is left there. -/
theorem Setting.attempt_ahead {c : Setting} {p : Nat} (hp : p ≤ c.text.size)
    (henvironment : LookAhead c.environment.subroutines) {pattern : Chain}
    (hpattern : pattern.looksAhead = true) :
    c.attempt pattern p = ((c.ahead p).attempt pattern 0).shift p := by
  have henter : Search.Task.Shifted p (.enter pattern 0 {} .done 0)
      (.enter pattern p {} .done 0) := by
    have h : Search.Task.Shifted p (.enter pattern 0 {} .done 0)
        (.enter pattern (0 + p) {} .done 0) := .enter hpattern Bindings.every_empty .done
    rwa [Nat.zero_add] at h
  exact Search.run_shifted hp henvironment _ _ (.mk [] (.cons henter .nil))

namespace Search.Outcome

variable (p start : Nat) (o : Search.Outcome)

theorem cause?_shift : (o.shift p).cause? = o.cause? := by
  cases o <;> rfl

theorem captures?_shift : (o.shift p).captures? = o.captures? := by
  cases o <;> rfl

theorem place_shift : (o.shift p).place (start + p) = o.place start + p := by
  cases o <;> rfl

end Search.Outcome

/-- Without a test that looks back, only what lies ahead of a position counts. An attempt there
comes to the same as an attempt in the text that is left, also when it is cut off, and takes as many
steps. What it captures is the same, and where it ends is counted from the position. -/
theorem matching_looks_ahead (whole rest : Buffer) (environment : Environment) (limits : Limits)
    (pattern : Chain) (hwhole : whole.position ≤ whole.size) (hrest : rest.position = 0)
    (hbytes : rest.bytes = whole.bytes.extract whole.position whole.size)
    (hpattern : pattern.looksAhead = true) (henvironment : LookAhead environment.subroutines) :
    let c : Setting := { text := whole.bytes, environment, limits }
    let c' : Setting := { text := rest.bytes, environment, limits }
    c.attempt pattern whole.position = (c'.attempt pattern 0).shift whole.position ∧
      ∃ found t found' t', whole.tryMatch c pattern = some (found, t) ∧
        rest.tryMatch c' pattern = some (found', t') ∧ t.stopped = t'.stopped ∧
        t.steps = t'.steps ∧ found.map Trail.captures = found'.map Trail.captures ∧
        t.position = t'.position + whole.position := by
  intro c c'
  have hsame : c' = c.ahead whole.position :=
    congrArg (fun text => ({ c with text } : Setting)) hbytes
  have hattempt : c.attempt pattern whole.position =
      (c'.attempt pattern 0).shift whole.position := by
    rw [hsame]
    exact Setting.attempt_ahead (c := c) hwhole henvironment hpattern
  have hc : c.Fits := Setting.fits_of rfl
  have hc' : c'.Fits := Setting.fits_of rfl
  have hstart : rest.position ≤ rest.size := hrest ▸ Nat.zero_le _
  obtain ⟨found, t, hmatch, _⟩ := whole.tryMatch_attempt hc rfl hwhole pattern
  obtain ⟨found', t', hmatch', _⟩ := rest.tryMatch_attempt hc' rfl hstart pattern
  obtain ⟨hstop, hsteps, hcaptures, hplace⟩ := whole.tryMatch_reports hc rfl hwhole hmatch
  obtain ⟨hstop', hsteps', hcaptures', hplace'⟩ := rest.tryMatch_reports hc' rfl hstart hmatch'
  rw [hrest] at hstop' hsteps' hcaptures' hplace'
  rw [hattempt] at hstop hsteps hcaptures hplace
  refine ⟨hattempt, found, t, found', t', hmatch, hmatch', ?_, ?_, ?_, ?_⟩
  · rw [hstop, hstop']
    exact Search.Outcome.cause?_shift _ _
  · rw [hsteps, hsteps']
    rfl
  · rw [hcaptures, hcaptures']
    exact Search.Outcome.captures?_shift _ _
  · rw [hplace, hplace', ← Search.Outcome.place_shift, Nat.zero_add]
    rfl

/-- A text that is captured behind a position, and called for again there. -/
theorem repeated_digit_looks_ahead :
    let whole : Buffer := ⟨.bytes ⟨#[97, 10, 55, 55]⟩, 2⟩
    let rest := Buffer.ofBytes ⟨#[55, 55]⟩
    let environment : Environment :=
      { subroutines := .ofList [("digit", .last (.byteClass .digit false))] }
    let pattern := Chain.cons (.capture "first" (.call "digit"))
      (.cons (.variableText "first") (.last (.anchor .lineEnd)))
    let c : Setting := { text := whole.bytes, environment }
    let c' : Setting := { text := rest.bytes, environment }
    whole.position ≤ whole.size ∧ rest.position = 0 ∧
      rest.bytes = whole.bytes.extract whole.position whole.size ∧
      pattern.looksAhead = true ∧ LookAhead environment.subroutines ∧
      c.attempt pattern whole.position = (c'.attempt pattern 0).shift whole.position ∧
      ∃ found t found' t', whole.tryMatch c pattern = some (found, t) ∧
        rest.tryMatch c' pattern = some (found', t') ∧ t.stopped = t'.stopped ∧
        t.steps = t'.steps ∧ found.map Trail.captures = found'.map Trail.captures ∧
        t.position = t'.position + whole.position := by
  intro whole rest environment pattern c c'
  have hbytes : rest.bytes = whole.bytes.extract whole.position whole.size := by decide
  have henvironment : LookAhead environment.subroutines :=
    Bindings.every_empty.insert (by rfl) "digit"
  exact ⟨by decide, rfl, hbytes, rfl, henvironment, matching_looks_ahead whole rest environment {}
    pattern (by decide) rfl hbytes rfl henvironment⟩

end WordPattern
