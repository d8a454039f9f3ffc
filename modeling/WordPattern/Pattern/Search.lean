import WordPattern.Bindings
import WordPattern.Pattern.Step
import WordPattern.Text.Utf8

/-!
# Search

A pattern is tried at a position by a machine that backtracks. Its agenda holds what is still to be
tried, the first task on top: a task that fails is dropped, and one that opens several ways is
replaced by a task for each of them, in the order of preference. What follows an element once it has
matched is a continuation. Every element that is entered counts as one step, and the steps are
limited, so every search ends.
-/

namespace WordPattern

/-- What one attempt to match may use up. -/
structure Limits where
  /-- How many steps may be counted. -/
  steps : Nat := 5000000
  /-- How deep elements may nest. -/
  depth : Nat := 50000
deriving DecidableEq, Repr

/-- The limit that an attempt has run into. -/
inductive CutOff where
  | steps | depth
deriving DecidableEq, Repr

/-- The names that a pattern sees from outside. -/
structure Environment where
  texts : Bindings String := .empty
  subroutines : Bindings Chain := .empty

/-- What has been bound on the way through a pattern. -/
structure Trail where
  captures : Bindings String := .empty
  subroutines : Bindings Chain := .empty

/-- How the repetitions of an element are found. -/
inductive Method where
  /-- The ends of all repetitions are found in a row. -/
  | stepwise
  /-- The ends of one repetition are gathered before any of them is gone on from. -/
  | gathered
  /-- Every repetition is followed by the rest of the pattern at once. -/
  | general
deriving DecidableEq, Repr

/-- The fastest method that fits the body of a repetition. -/
def Method.of (body : Node) : Method :=
  if body.isStep then .stepwise else if body.bindsNothing then .gathered else .general

/-- What a search is made in. -/
structure Setting where
  text : ByteArray
  environment : Environment := {}
  limits : Limits := {}
  method : Node → Method := Method.of

namespace Search

/-- What follows once an element has matched. -/
inductive Continuation where
  /-- The whole pattern has matched. -/
  | done
  /-- The end is noted and the search goes on for further ends. -/
  | note
  /-- The elements of a chain follow. -/
  | chain (next : Chain) (k : Continuation)
  /-- The text from `start` on is captured. -/
  | bind (name : String) (start : Nat) (k : Continuation)
  /-- The repetition that began at `start` is the last one so far. -/
  | again (quantifier : Quantifier) (fewest : Bool) (body : Node) (count start : Nat)
    (k : Continuation)

/-- A repetition whose body binds nothing, and what follows it. -/
structure Loop where
  quantifier : Quantifier
  fewest : Bool
  body : Node
  trail : Trail
  k : Continuation
  depth : Nat

/-- Something that is to be tried. -/
inductive Task where
  /-- A chain is to match at a position. -/
  | enter (chain : Chain) (start : Nat) (trail : Trail) (k : Continuation) (depth : Nat)
  /-- A continuation is to be followed from each of some positions in turn. -/
  | resume (positions : List Nat) (trail : Trail) (k : Continuation) (depth : Nat)
  /-- As many steps as possible are to be made; `ends` holds the ends so far, the last one first. -/
  | most (loop : Loop) (count : Nat) (ends : List Nat)
  /-- One more step is to be made, since the steps so far have not led on. -/
  | more (loop : Loop) (count position : Nat)
  /-- The ends of one more repetition are to be gathered. -/
  | gather (loop : Loop) (count position : Nat)
  /-- The ends of one more repetition have been gathered. -/
  | spread (loop : Loop) (count position : Nat)

/-- The machine between two tasks. -/
structure State where
  agenda : List Task
  /-- The ends noted for every repetition that is being gathered, the innermost first. -/
  noted : List (List Nat)
  /-- The steps counted. -/
  steps : Nat

/-- How an attempt ends. -/
inductive Outcome where
  | found (finish : Nat) (captures : Bindings String)
  | missed
  | cutOff (cause : CutOff)

/-- An attempt that has ended, and the steps it has counted. -/
structure Attempt where
  outcome : Outcome
  steps : Nat

/-! ## Steps and limits -/

/-- The limit that the next step, at a depth, runs into. -/
def exceeded? (limits : Limits) (steps depth : Nat) : Option CutOff :=
  if limits.steps < steps + 1 then some .steps
  else if limits.depth < depth then some .depth
  else none

/-! ## Tasks -/

/-- A continuation is followed from one position. -/
def resumeAt (position : Nat) (trail : Trail) (k : Continuation) (depth : Nat) : Task :=
  .resume [position] trail k depth

/-- A continuation is followed from each of some positions, before the tasks of `rest`. -/
def resumeThen (positions : List Nat) (trail : Trail) (k : Continuation) (depth : Nat)
    (rest : List Task) : List Task :=
  match positions with
  | [] => rest
  | _ :: _ => .resume positions trail k depth :: rest

/-- The two ways to go on after `count` repetitions: to stop, if they are enough, and to grow. -/
def inOrder (quantifier : Quantifier) (fewest : Bool) (count : Nat) (stop : Task)
    (grow : List Task) : List Task :=
  let stops := if quantifier.metBy count then [stop] else []
  if fewest then stops ++ grow else grow ++ stops

/-- The ways to go on after `count` repetitions of a body. -/
def iterate (quantifier : Quantifier) (fewest : Bool) (body : Node) (count position : Nat)
    (trail : Trail) (k : Continuation) (depth : Nat) : List Task :=
  inOrder quantifier fewest count (resumeAt position trail k depth)
    (if quantifier.allowsAfter count then
      [.enter (.last body) position trail (.again quantifier fewest body (count + 1) position k)
        (depth + 1)]
    else [])

/-- The ways to go on after `count` repetitions of a body that binds nothing. -/
def Loop.visit (l : Loop) (count position : Nat) : List Task :=
  inOrder l.quantifier l.fewest count (resumeAt position l.trail l.k l.depth)
    [.gather l count position]

/-- The ways to go on from one end of the next repetition. An empty repetition is the last one, if
there are enough. -/
def Loop.visitEnd (l : Loop) (count position finish : Nat) : List Task :=
  if finish = position && l.quantifier.metBy (count + 1) then
    [resumeAt position l.trail l.k l.depth]
  else l.visit (count + 1) finish

/-- The ways to go on after `count` steps that are repeated as seldom as possible. -/
def Loop.visitStep (l : Loop) (count position : Nat) : List Task :=
  inOrder l.quantifier true count (resumeAt position l.trail l.k l.depth) [.more l count position]

/-- The ends from which a repetition of as many steps as possible leads on, the last one first. -/
def Loop.enough (l : Loop) (count : Nat) (ends : List Nat) : List Nat :=
  ends.take (count + 1 - l.quantifier.least)

/-- The ways to repeat a body. -/
def repetitions (method : Method) (l : Loop) (position : Nat) : List Task :=
  match method with
  | .stepwise => if l.fewest then l.visitStep 0 position else [.most l 0 [position]]
  | .gathered => l.visit 0 position
  | .general => iterate l.quantifier l.fewest l.body 0 position l.trail l.k l.depth

/-- The ways to match an element at a position. -/
def ways (c : Setting) (node : Node) (start : Nat) (trail : Trail) (k : Continuation)
    (depth : Nat) : List Task :=
  match node with
  | .anchor a => if a.holdsAt c.text start then [resumeAt start trail k depth] else []
  | .range low high negated => [.resume (rangeEnds c.text low high negated start) trail k depth]
  | .oneOf items => items.map fun i => .enter (.last i.node) start trail k (depth + 1)
  | .variableText name =>
    match (trail.captures.get? name).or (c.environment.texts.get? name) with
    | some value =>
      let bytes := value.toUTF8.toList
      if standsAt c.text bytes start then [resumeAt (start + bytes.length) trail k depth] else []
    | none => []
  | .call name =>
    match (trail.subroutines.get? name).or (c.environment.subroutines.get? name) with
    | some chain => [.enter chain start trail k (depth + 1)]
    | none => []
  | .group chain => [.enter chain start trail k (depth + 1)]
  | .«repeat» quantifier fewest body =>
    repetitions (c.method body) { quantifier, fewest, body, trail, k, depth } start
  | .or left right =>
    [.enter (.last left) start trail k (depth + 1), .enter (.last right) start trail k (depth + 1)]
  | .capture name body => [.enter (.last body) start trail (.bind name start k) (depth + 1)]
  | .define name body =>
    [.enter (.last body) start
      { trail with subroutines := trail.subroutines.insert name (.last body) } k (depth + 1)]
  | node =>
    match node.end? c.text start with
    | some finish => [resumeAt finish trail k depth]
    | none => []

/-- The ways to match a chain: its first element, and the others behind it. -/
def chainWays (c : Setting) (chain : Chain) (start : Nat) (trail : Trail) (k : Continuation)
    (depth : Nat) : List Task :=
  match chain with
  | .last node => ways c node start trail k depth
  | .cons node rest => ways c node start trail (.chain rest k) depth

/-- The ways to follow a continuation that neither ends the search nor notes an end. -/
def follow (c : Setting) (position : Nat) (trail : Trail) (depth : Nat) :
    Continuation → List Task
  | .done => []
  | .note => []
  | .chain next k => [.enter next position trail k (depth + 1)]
  | .bind name start k =>
    let value := Text.decode (c.text.extract start position)
    [resumeAt position { trail with captures := trail.captures.insert name value } k (depth + 1)]
  | .again quantifier fewest body count start k =>
    if position = start && quantifier.metBy count then [resumeAt position trail k (depth + 1)]
    else iterate quantifier fewest body count position trail k (depth + 1)

/-- Notes an end for the innermost repetition that is being gathered, unless it is noted already. -/
def noteEnd (position : Nat) : List (List Nat) → List (List Nat)
  | [] => []
  | ends :: outer => (if ends.contains position then ends else ends ++ [position]) :: outer

/-! ## The machine -/

/-- Carries out the first task, unless the attempt has ended. -/
def step (c : Setting) (s : State) : Except Attempt State :=
  match s.agenda with
  | [] => .error ⟨.missed, s.steps⟩
  | task :: rest =>
    match task with
    | .enter chain start trail k depth =>
      match exceeded? c.limits s.steps depth with
      | some cause => .error ⟨.cutOff cause, s.steps + 1⟩
      | none =>
        .ok { s with
          agenda := chainWays c chain start trail k depth ++ rest
          steps := s.steps + 1 }
    | .resume [] _ _ _ => .ok { s with agenda := rest }
    | .resume (position :: positions) trail k depth =>
      match k with
      | .done => .error ⟨.found position trail.captures, s.steps⟩
      | .note =>
        .ok { s with
          agenda := resumeThen positions trail .note depth rest
          noted := noteEnd position s.noted }
      | k =>
        .ok { s with
          agenda := follow c position trail depth k ++ resumeThen positions trail k depth rest }
    | .most l count ends =>
      if l.quantifier.allowsAfter count then
        match exceeded? c.limits s.steps l.depth with
        | some cause => .error ⟨.cutOff cause, s.steps + 1⟩
        | none =>
          match ends.head?.bind (l.body.stepEnd? c.text) with
          | some finish =>
            .ok { s with
              agenda := .most l (count + 1) (finish :: ends) :: rest
              steps := s.steps + 1 }
          | none =>
            .ok { s with
              agenda := .resume (l.enough count ends) l.trail l.k l.depth :: rest
              steps := s.steps + 1 }
      else .ok { s with agenda := .resume (l.enough count ends) l.trail l.k l.depth :: rest }
    | .more l count position =>
      if l.quantifier.allowsAfter count then
        match exceeded? c.limits s.steps l.depth with
        | some cause => .error ⟨.cutOff cause, s.steps + 1⟩
        | none =>
          match l.body.stepEnd? c.text position with
          | some finish =>
            .ok { s with agenda := l.visitStep (count + 1) finish ++ rest, steps := s.steps + 1 }
          | none => .ok { s with agenda := rest, steps := s.steps + 1 }
      else .ok { s with agenda := rest }
    | .gather l count position =>
      if l.quantifier.allowsAfter count then
        .ok { s with
          agenda := .enter (.last l.body) position l.trail .note (l.depth + 1) ::
            .spread l count position :: rest
          noted := [] :: s.noted }
      else .ok { s with agenda := rest }
    | .spread l count position =>
      match s.noted with
      | [] => .ok { s with agenda := rest }
      | ends :: outer =>
        .ok { s with
          agenda := ends.flatMap (l.visitEnd count position) ++ rest
          noted := outer }

/-! ## The search ends -/

/-- How much work a continuation can add before an element is entered. -/
def Continuation.weight : Continuation → Nat
  | .done => 1
  | .note => 1
  | .chain _ _ => 2
  | .bind _ _ k => k.weight + 3
  | .again _ _ _ _ _ k => k.weight + 3

/-- How much work a task can add before an element is entered. -/
def Task.weight : Task → Nat
  | .resume positions _ k _ => 1 + positions.length * k.weight
  | .most l _ ends => 2 + ends.length * l.k.weight
  | _ => 1

/-- The work on an agenda. -/
def agendaWeight (agenda : List Task) : Nat :=
  agenda.foldr (fun task weight => task.weight + weight) 0

/-- An element is about to be entered. -/
def State.enters (s : State) : Bool :=
  match s.agenda with
  | .enter .. :: _ => true
  | _ => false

/-- What is left of the steps, and whether one of them is about to be counted. -/
def State.budget (c : Setting) (s : State) : Nat :=
  2 * (c.limits.steps + 1 - s.steps) + if s.enters then 0 else 1

@[simp] theorem agendaWeight_nil : agendaWeight [] = 0 := rfl

@[simp] theorem agendaWeight_cons (task : Task) (rest : List Task) :
    agendaWeight (task :: rest) = task.weight + agendaWeight rest := rfl

@[simp] theorem agendaWeight_append (front back : List Task) :
    agendaWeight (front ++ back) = agendaWeight front + agendaWeight back := by
  induction front with
  | nil => simp
  | cons task rest ih =>
    rw [List.cons_append, agendaWeight_cons, agendaWeight_cons, ih, Nat.add_assoc]

theorem agendaWeight_resumeThen (positions : List Nat) (trail : Trail) (k : Continuation)
    (depth : Nat) (rest : List Task) :
    agendaWeight (resumeThen positions trail k depth rest) ≤
      1 + positions.length * k.weight + agendaWeight rest := by
  cases positions <;> simp [resumeThen, Task.weight]

theorem exceeded?_eq_none {limits : Limits} {steps depth : Nat}
    (h : exceeded? limits steps depth = none) : steps < limits.steps ∧ depth ≤ limits.depth := by
  simp only [exceeded?] at h
  split at h
  · simp at h
  split at h
  · simp at h
  · omega

/-- The repetition of a body is entered, or it weighs little. -/
theorem iterate_weight (quantifier : Quantifier) (fewest : Bool) (body : Node)
    (count position : Nat) (trail : Trail) (k : Continuation) (depth : Nat) :
    agendaWeight (iterate quantifier fewest body count position trail k depth) ≤ k.weight + 2 := by
  simp only [iterate, inOrder, resumeAt]
  split <;> split <;> split <;> simp [Task.weight] <;> omega

/-- What follows a continuation weighs less than the continuation. -/
theorem follow_weight (c : Setting) (position : Nat) (trail : Trail) (depth : Nat)
    (k : Continuation) : agendaWeight (follow c position trail depth k) < k.weight := by
  cases k with
  | done => simp [follow, Continuation.weight]
  | note => simp [follow, Continuation.weight]
  | chain => simp [follow, Task.weight, Continuation.weight]
  | bind => simp [follow, resumeAt, Task.weight, Continuation.weight]; omega
  | again quantifier fewest body count start k =>
    simp only [follow]
    split
    · simp [resumeAt, Task.weight, Continuation.weight]; omega
    · have := iterate_weight quantifier fewest body count position trail k (depth + 1)
      simp only [Continuation.weight]
      omega

/-- The order in which the machine's states decrease. -/
def State.rank (c : Setting) (s : State) : Nat × Nat × Nat :=
  (s.budget c, s.noted.length, agendaWeight s.agenda)

theorem lex_of_le {a b x y m n : Nat} (h : a ≤ b) (h' : x < y ∨ (x = y ∧ m < n)) :
    Prod.Lex (· < ·) (Prod.Lex (· < ·) (· < ·)) (a, x, m) (b, y, n) := by
  rcases Nat.lt_or_eq_of_le h with h | rfl
  · exact .left _ _ h
  · refine .right _ ?_
    rcases h' with h' | ⟨rfl, h'⟩
    · exact .left _ _ h'
    · exact .right _ h'

theorem budget_le {c : Setting} {s t : State} (hs : s.enters = false) (h : t.steps = s.steps) :
    t.budget c ≤ s.budget c := by
  simp only [State.budget, hs, h]
  split <;> simp

theorem budget_lt_of_enters {c : Setting} {s t : State} (hs : s.enters = false)
    (ht : t.enters = true) (h : t.steps = s.steps) : t.budget c < s.budget c := by
  simp [State.budget, hs, ht, h]

theorem budget_lt_of_steps {c : Setting} {s t : State} (hlt : s.steps < c.limits.steps)
    (h : t.steps = s.steps + 1) : t.budget c < s.budget c := by
  simp only [State.budget, h]
  split <;> split <;> omega

/-- Every step of the machine leads to a smaller state. -/
theorem step_decreases {c : Setting} {s t : State} (h : step c s = .ok t) :
    Prod.Lex (· < ·) (Prod.Lex (· < ·) (· < ·)) (t.rank c) (s.rank c) := by
  obtain ⟨agenda, noted, steps⟩ := s
  cases agenda with
  | nil => simp [step] at h
  | cons task rest =>
    cases task with
    | enter chain start trail k depth =>
      simp only [step] at h
      split at h
      · simp at h
      · rename_i hx
        cases h
        exact .left _ _ (budget_lt_of_steps (exceeded?_eq_none hx).1 rfl)
    | resume positions trail k depth =>
      cases positions with
      | nil =>
        simp only [step] at h
        cases h
        exact lex_of_le (budget_le rfl rfl) (.inr ⟨rfl, by simp [Task.weight]⟩)
      | cons position positions =>
        have hr := agendaWeight_resumeThen positions trail k depth rest
        cases k with
        | done => simp [step] at h
        | note =>
          simp only [step] at h
          cases h
          refine lex_of_le (budget_le rfl rfl) (.inr ⟨?_, ?_⟩)
          · cases noted <;> simp [noteEnd]
          · simp only [agendaWeight_cons, Task.weight, Continuation.weight,
              List.length_cons] at hr ⊢
            omega
        | chain next k =>
          simp only [step] at h
          cases h
          exact .left _ _ (budget_lt_of_enters rfl rfl rfl)
        | bind name start k =>
          simp only [step] at h
          cases h
          have hf := follow_weight c position trail depth (.bind name start k)
          refine lex_of_le (budget_le rfl rfl) (.inr ⟨rfl, ?_⟩)
          simp only [agendaWeight_append, agendaWeight_cons, Task.weight, List.length_cons,
            Nat.add_mul] at hr ⊢
          omega
        | again quantifier fewest body count start k =>
          simp only [step] at h
          cases h
          have hf := follow_weight c position trail depth
            (.again quantifier fewest body count start k)
          refine lex_of_le (budget_le rfl rfl) (.inr ⟨rfl, ?_⟩)
          simp only [agendaWeight_append, agendaWeight_cons, Task.weight, List.length_cons,
            Nat.add_mul] at hr ⊢
          omega
    | most l count ends =>
      have hl : (l.enough count ends).length * l.k.weight ≤ ends.length * l.k.weight :=
        Nat.mul_le_mul_right _ (by simp only [Loop.enough, List.length_take]; omega)
      simp only [step] at h
      split at h
      · split at h
        · simp at h
        · rename_i hx
          have hlt := (exceeded?_eq_none hx).1
          split at h <;> (cases h; exact .left _ _ (budget_lt_of_steps hlt rfl))
      · cases h
        refine lex_of_le (budget_le rfl rfl) (.inr ⟨rfl, ?_⟩)
        simp only [agendaWeight_cons, Task.weight]
        omega
    | more l count position =>
      simp only [step] at h
      split at h
      · split at h
        · simp at h
        · rename_i hx
          have hlt := (exceeded?_eq_none hx).1
          split at h <;> (cases h; exact .left _ _ (budget_lt_of_steps hlt rfl))
      · cases h
        exact lex_of_le (budget_le rfl rfl) (.inr ⟨rfl, by simp [Task.weight]⟩)
    | gather l count position =>
      simp only [step] at h
      split at h
      · cases h
        exact .left _ _ (budget_lt_of_enters rfl rfl rfl)
      · cases h
        exact lex_of_le (budget_le rfl rfl) (.inr ⟨rfl, by simp [Task.weight]⟩)
    | spread l count position =>
      simp only [step] at h
      split at h
      · cases h
        exact lex_of_le (budget_le rfl rfl) (.inr ⟨rfl, by simp [Task.weight]⟩)
      · cases h
        exact lex_of_le (budget_le rfl rfl) (.inl (by simp))

/-- Carries out tasks until the attempt has ended. -/
def run (c : Setting) (s : State) : Attempt :=
  match _h : step c s with
  | .ok next => run c next
  | .error attempt => attempt
termination_by s.rank c
decreasing_by exact step_decreases _h

end Search

/-- Tries a pattern at a position. -/
def Setting.attempt (c : Setting) (pattern : Chain) (start : Nat) : Search.Attempt :=
  Search.run c { agenda := [.enter pattern start {} .done 0], noted := [], steps := 0 }

end WordPattern
