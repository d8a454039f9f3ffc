import WordPattern.Pattern.Walk

/-!
# The parts of a walk

What a walk does at a state, as choices between parts. `Walk.orElse` tries a second part where the
first does not match, from the state that the first has left behind.
-/

namespace WordPattern.Walk

open Search (Continuation Loop)

/-! ## Walks at a state -/

section

variable {α β : Type} {s t : State}

theorem bind_of {m : Walk α} {a : α} (h : m s = some (a, t)) (f : α → Walk β) :
    (m >>= f) s = f a t := by
  change (m s).bind (fun p => f p.1 p.2) = f a t
  rw [h]
  rfl

theorem get_bind (f : State → Walk β) : ((get : Walk State) >>= f) s = f s s := rfl

theorem modify_bind (g : State → State) (f : PUnit → Walk β) :
    ((modify g : Walk PUnit) >>= f) s = f ⟨⟩ (g s) := rfl

theorem modifyGet_bind (g : State → α × State) (f : α → Walk β) :
    ((modifyGet g : Walk α) >>= f) s = f (g s).1 (g s).2 := rfl

end

/-! ## Choices -/

/-- A way that does not match. -/
def miss : Walk (Option Trail) := pure none

/-- Tries a second way where the first one does not match. -/
def orElse (first second : Walk (Option Trail)) : Walk (Option Trail) := do
  match ← first with
  | some found => return some found
  | none => second

/-- Makes a move before a walk. -/
def after (move : State → State) (m : Walk (Option Trail)) : Walk (Option Trail) := do
  modify move
  m

/-- Counts a step before a walk. -/
def counted (limits : Limits) (depth : Nat) (m : Walk (Option Trail)) : Walk (Option Trail) := do
  if ← modifyGet (State.tick limits depth) then m else miss

section

variable {first second : Walk (Option Trail)} {s t : State}

theorem orElse_found {found : Trail} (h : first s = some (some found, t)) :
    orElse first second s = some (some found, t) := by
  rw [orElse, bind_of h]
  rfl

theorem orElse_missed (h : first s = some (none, t)) : orElse first second s = second t := by
  rw [orElse, bind_of h]

theorem after_apply (move : State → State) (m : Walk (Option Trail)) :
    after move m s = m (move s) := rfl

theorem counted_true {limits : Limits} {depth : Nat} {m : Walk (Option Trail)}
    (h : s.tick limits depth = (true, t)) : counted limits depth m s = m t := by
  rw [counted, modifyGet_bind, State.tick.eq_def] at *
  rw [h]
  rfl

end

/-! ## The parts of each walk -/

section

variable (c : Setting) (inner : Entry) (n : Nat) (trail : Trail) (k : Continuation) (depth : Nat)
  (s : State)

/-- Matches the first element of a chain and what follows it. -/
def body (chain : Chain) : Walk (Option Trail) :=
  match chain with
  | .last node => element c inner n node trail k depth
  | .cons node rest => element c inner n node trail (.chain rest k) depth

/-- Ends an element: a way that failed must have left the position where it was. -/
def settled (m : Walk (Option Trail)) : Walk (Option Trail) := do
  let entry := (← get).position
  let found ← m
  modify fun s => s.demand (found.isSome || s.position == entry)
  return found

theorem enter_eq (chain : Chain) :
    enter c (n + 1) chain trail k depth =
      counted c.limits depth (settled (body c (enter c n) n trail k depth chain)) := by
  rw [enter]
  cases chain <;> rfl

theorem element_anchor (a : Anchor) :
    element c inner n (.anchor a) trail k depth s =
      (if a.holdsAt s.buffer.bytes s.position then resume inner trail k depth else miss) s := by
  rw [element]
  rfl

theorem element_range (low high : List UInt8) (negated : Bool) :
    element c inner n (.range low high negated) trail k depth =
      widths inner low high negated (rangeWidths low high) trail k depth := by
  rw [element]
  rfl

theorem element_oneOf (items : List Item) :
    element c inner n (.oneOf items) trail k depth = choices inner items trail k depth := by
  rw [element]
  rfl

theorem element_call (name : String) :
    element c inner n (.call name) trail k depth =
      match (trail.subroutines.get? name).or (c.environment.subroutines.get? name) with
      | some chain => inner chain trail k (depth + 1)
      | none => miss := by
  rw [element]
  rfl

theorem element_group (chain : Chain) :
    element c inner n (.group chain) trail k depth = inner chain trail k (depth + 1) := by
  rw [element]
  rfl

theorem element_repeat (quantifier : Quantifier) (fewest : Bool) (node : Node) :
    element c inner n (.«repeat» quantifier fewest node) trail k depth =
      match c.method node with
      | .stepwise => stepwise c inner { quantifier, fewest, body := node, trail, k, depth } n
      | .gathered => gathered inner { quantifier, fewest, body := node, trail, k, depth } n
      | .general => iterate inner quantifier fewest node 0 trail k depth := by
  rw [element]
  rfl

theorem element_or (left right : Node) :
    element c inner n (.or left right) trail k depth =
      orElse (inner (.last left) trail k (depth + 1))
        (inner (.last right) trail k (depth + 1)) := by
  rw [element]
  rfl

theorem element_capture (name : String) (node : Node) :
    element c inner n (.capture name node) trail k depth s =
      inner (.last node) trail (.bind name s.position k) (depth + 1) s := by
  rw [element]
  rfl

theorem element_define (name : String) (node : Node) :
    element c inner n (.define name node) trail k depth =
      inner (.last node)
        { trail with subroutines := trail.subroutines.insert name (.last node) } k
        (depth + 1) := by
  rw [element]
  rfl

/-- Reads an element that matches in one way, follows the continuation, and goes back if it fails. -/
def consuming (node : Node) : Walk (Option Trail) := do
  match ← modifyGet (single c.environment.texts trail node) with
  | some consumed => orElse (resume inner trail k depth) (after (·.unread consumed) miss)
  | none => miss

theorem element_literal (bytes : List UInt8) (negated : Bool) :
    element c inner n (.literal bytes negated) trail k depth =
      consuming c inner trail k depth (.literal bytes negated) := by
  rw [element]
  rfl

theorem element_byteClass (b : ByteClass) (negated : Bool) :
    element c inner n (.byteClass b negated) trail k depth =
      consuming c inner trail k depth (.byteClass b negated) := by
  rw [element]
  rfl

theorem element_noneOf (items : List Item) :
    element c inner n (.noneOf items) trail k depth =
      consuming c inner trail k depth (.noneOf items) := by
  rw [element]
  rfl

theorem element_variableText (name : String) :
    element c inner n (.variableText name) trail k depth =
      consuming c inner trail k depth (.variableText name) := by
  rw [element]
  rfl

theorem choices_nil : choices inner [] trail k depth = miss := by
  rw [choices]
  rfl

theorem choices_cons (item : Item) (items : List Item) :
    choices inner (item :: items) trail k depth =
      orElse (inner (.last item.node) trail k (depth + 1)) (choices inner items trail k depth) := by
  rw [choices]
  rfl

theorem widths_nil (low high : List UInt8) (negated : Bool) :
    widths inner low high negated [] trail k depth = miss := by
  rw [widths]
  rfl

theorem widths_cons (low high : List UInt8) (negated : Bool) (width : Nat) (rest : List Nat) :
    widths inner low high negated (width :: rest) trail k depth s =
      (let got := (s.read width).1
       let next := after (·.unread got.size) (widths inner low high negated rest trail k depth)
       if got.size = width && inRange low high got.toList != negated then
         orElse (resume inner trail k depth) next
       else next) (s.read width).2 := by
  rw [widths]
  dsimp only
  rw [modifyGet_bind]
  split <;> rfl

theorem resume_done : resume inner trail .done depth s = some (some trail, s) := by
  rw [resume]
  rfl

theorem resume_note :
    resume inner trail .note depth s =
      some (none, { s with noted := Search.noteEnd s.position s.noted }) := by
  rw [resume]
  rfl

theorem resume_chain (next : Chain) :
    resume inner trail (.chain next k) depth = inner next trail k (depth + 1) := by
  rw [resume]

theorem resume_bind (name : String) (start : Nat) :
    resume inner trail (.bind name start k) depth s =
      resume inner
        { trail with
          captures := trail.captures.insert name (Text.decode (s.buffer.slice start s.position)) }
        k (depth + 1) s := by
  rw [resume]
  rfl

theorem resume_again (quantifier : Quantifier) (fewest : Bool) (node : Node) (count start : Nat) :
    resume inner trail (.again quantifier fewest node count start k) depth s =
      (if s.position = start && quantifier.metBy count then resume inner trail k (depth + 1)
       else iterate inner quantifier fewest node count trail k (depth + 1)) s := by
  rw [resume]
  rfl

theorem iterate_eq (quantifier : Quantifier) (fewest : Bool) (node : Node) (count : Nat) :
    iterate inner quantifier fewest node count trail k depth s =
      (let stop := if quantifier.metBy count then resume inner trail k depth else miss
       let grow :=
        if quantifier.allowsAfter count then
          inner (.last node) trail (.again quantifier fewest node (count + 1) s.position k)
            (depth + 1)
        else miss
       if fewest then orElse stop grow else orElse grow stop) s := by
  rw [iterate]
  cases fewest <;> rfl

end

/-! ## The parts of a loop -/

section

variable (c : Setting) (inner : Entry) (l : Loop) (n : Nat) (s : State)

/-- Follows a loop after `count` repetitions, if they are enough. -/
def stopping (count : Nat) : Walk (Option Trail) :=
  if l.quantifier.metBy count then resume inner l.trail l.k l.depth else miss

theorem stepwise_eq :
    stepwise c inner l n s =
      orElse (if l.fewest then more c inner l n 0 else most c inner l n)
        (after (·.rewindTo s.position) miss) s := by
  rw [stepwise]
  cases l.fewest <;> rfl

theorem most_of {ends : List Nat} {t : State} (h : climb c l n 0 [s.position] s = some (ends, t)) :
    most c inner l n s = descend inner l (ends.take (ends.length - l.quantifier.least)) t := by
  rw [most, get_bind, bind_of h]

/-- Makes one more step of a loop, if one is allowed, and goes on from its end. -/
def stepping (count : Nat) : Walk (Option Trail) :=
  if l.quantifier.allowsAfter count then
    counted c.limits l.depth (do
      match ← modifyGet (nodeStep c.environment.texts l.trail l.body) with
      | some _ => more c inner l n (count + 1)
      | none => miss)
  else miss

theorem more_eq (count : Nat) :
    more c inner l (n + 1) count =
      orElse (stopping inner l count) (stepping c inner l n count) := by
  rw [more]
  rfl

theorem climb_eq (count : Nat) (ends : List Nat) :
    climb c l (n + 1) count ends s =
      if l.quantifier.allowsAfter count then
        match s.tick c.limits l.depth with
        | (true, t) =>
          match nodeStep c.environment.texts l.trail l.body t with
          | (some _, u) => climb c l n (count + 1) (u.position :: ends) u
          | (none, u) => some (ends, u)
        | (false, t) => some (ends, t)
      else some (ends, s) := by
  rw [climb]
  split
  · rw [modifyGet_bind]
    rcases s.tick c.limits l.depth with ⟨_ | _, t⟩
    · rfl
    · change ((modifyGet _ : Walk _) >>= _) t = _
      rw [modifyGet_bind]
      dsimp only
      rcases nodeStep c.environment.texts l.trail l.body t with ⟨_ | _, u⟩ <;> rfl
  · rfl

theorem descend_nil : descend inner l [] = miss := by
  rw [descend]
  rfl

theorem descend_cons (finish : Nat) (ends : List Nat) :
    descend inner l (finish :: ends) =
      after (·.rewindTo finish)
        (orElse (resume inner l.trail l.k l.depth) (descend inner l ends)) := by
  rw [descend]
  rfl

theorem gathered_eq :
    gathered inner l n s =
      orElse (explore inner l n [{ count := 0, position := s.position }])
        (after (·.seek s.position) miss) s := by
  rw [gathered]
  rfl

theorem stopAt_eq (place : Nat) :
    stopAt inner l place = after (·.seek place) (resume inner l.trail l.k l.depth) := by
  rw [stopAt]
  rfl

theorem explore_nil : explore inner l n [] = miss := by
  rw [explore]
  rfl

/-- Gathers the ends of one more repetition and goes on from them. -/
def gathering (visit : Visit) (below : List Visit) : Nat → Walk (Option Trail)
  | 0 => fun _ => none
  | n + 1 =>
    after (·.seek visit.position) (do
      let ends ← bodyEnds inner l
      advance inner l n visit ends below)

theorem explore_cons (visit : Visit) (below : List Visit) :
    explore inner l n (visit :: below) s =
      (if s.stopped.isSome then miss
       else if l.fewest && !visit.stopTried then
         orElse (if l.quantifier.metBy visit.count then stopAt inner l visit.position else miss)
           (explore inner l n ({ visit with stopTried := true } :: below))
       else
         match visit.ends with
         | some ends => advance inner l n visit ends below
         | none =>
           if l.quantifier.allowsAfter visit.count then gathering inner l visit below n
           else advance inner l n visit [] below) s := by
  rw [explore.eq_def]
  dsimp only
  rw [get_bind]
  split
  · rfl
  split
  · rfl
  obtain ⟨count, position, ends, stopTried⟩ := visit
  cases ends with
  | some ends => rfl
  | none =>
    split
    · cases n <;> rfl
    · rfl

theorem advance_nil (visit : Visit) (below : List Visit) :
    advance inner l n visit [] below =
      orElse
        (if !l.fewest && l.quantifier.metBy visit.count then stopAt inner l visit.position else miss)
        (explore inner l n below) := by
  rw [advance]
  rfl

theorem advance_cons (visit : Visit) (finish : Nat) (ends : List Nat) (below : List Visit) :
    advance inner l n visit (finish :: ends) below =
      if finish = visit.position && l.quantifier.metBy (visit.count + 1) then
        orElse (stopAt inner l visit.position)
          (explore inner l n ({ visit with ends := some ends } :: below))
      else
        explore inner l n
          ({ count := visit.count + 1, position := finish } :: { visit with ends := some ends } ::
            below) := by
  rw [advance]
  rfl

theorem bodyEnds_eq :
    bodyEnds inner l s =
      (inner (.last l.body) l.trail .note (l.depth + 1)
        { s with noted := [] :: s.noted }).map
        fun p => (p.2.noted.headD [], { p.2 with noted := p.2.noted.tail }) := by
  rw [bodyEnds]
  change (inner (.last l.body) l.trail .note (l.depth + 1)
    { s with noted := [] :: s.noted }).bind _ = _
  cases inner (.last l.body) l.trail .note (l.depth + 1) { s with noted := [] :: s.noted } <;> rfl

end

end WordPattern.Walk
