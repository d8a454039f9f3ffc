import WordPattern.Expr.Steps

/-!
# Evaluation comes to an end

The machine finds the value of every expression, whatever functions the scope holds. The calls that
are going on are those that wait for the value of their body; there are never more than the limit,
and each has its own frame on the scope, which goes when the call ends.
-/

namespace WordPattern.Evaluation

namespace State

variable {s t u : State} {scope : Scope}

/-! ## Steps to the value -/

/-- Some steps lead from one state to another. -/
def Leads (s t : State) : Prop := ∃ n, run n s = t

theorem run_add (m n : Nat) (s : State) : run (m + n) s = run n (run m s) := by
  induction m generalizing s with
  | zero => rw [Nat.zero_add, run]
  | succ m ih => rw [Nat.succ_add, run, run, ih]

theorem Leads.refl (s : State) : s.Leads s := ⟨0, rfl⟩

theorem Leads.trans (h : s.Leads t) (h' : t.Leads u) : s.Leads u := by
  obtain ⟨m, rfl⟩ := h
  obtain ⟨n, rfl⟩ := h'
  exact ⟨m + n, run_add m n s⟩

/-- An expression is begun in a step. -/
theorem Leads.begin {e : Expr} (h : (s.begin e).Leads t) : (s.eval e).Leads t := by
  obtain ⟨n, rfl⟩ := h
  refine ⟨n + 1, ?_⟩
  cases e <;> rfl

/-- A value goes to the innermost task in a step. -/
theorem Leads.resume {task : Task} {value : Value} (h : (s.resume task value).Leads t) :
    ((s.await task).give value).Leads t := by
  obtain ⟨n, rfl⟩ := h
  refine ⟨n + 1, ?_⟩
  cases task <;> rfl

/-- The value of a call where `room` more may nest. -/
def callWithin (room : Nat) (scope : Scope) (function : Value) (values : List Value) : Value :=
  match function with
  | .function (.builtin b) => b.call (values.headD .blank)
  | .function (.lambda parameters body) =>
    match room with
    | 0 => .absent
    | room + 1 => body.evalWithin room (scope.push (Scope.frame parameters values))
  | _ => .absent

/-- An application has the value of its call. -/
theorem evalWithin_apply (room : Nat) (scope : Scope) (callee : Expr) (arguments : List Expr) :
    (Expr.apply callee arguments).evalWithin room scope =
      callWithin room scope (callee.evalWithin room scope)
        (Expr.evalAll room scope arguments) := by
  rw [Expr.evalWithin]
  cases callee.evalWithin room scope with
  | function f => cases f with
    | builtin b => rfl
    | lambda parameters body => cases room <;> rfl
  | _ => rfl

theorem evalWithin_cases (room : Nat) (scope : Scope) (arms : List (Expr × Expr))
    (otherwise : Option Expr) :
    (Expr.cases arms otherwise).evalWithin room scope =
      (Expr.evalArms room scope arms).getD
        ((otherwise.map (·.evalWithin room scope)).getD .blank) := by
  rw [Expr.evalWithin.eq_def]
  dsimp only
  cases Expr.evalArms room scope arms with
  | some value => rfl
  | none => cases otherwise <;> rfl

@[simp] theorem await_scope (s : State) (task : Task) : (s.await task).scope = s.scope := rfl

@[simp] theorem leave_enter (s : State) (frame : Bindings Value) : (s.enter frame).leave = s := rfl

/-- Which operator it is decides whether the right operand counts. -/
theorem leads_operate {room : Nat} {s : State} {op : BinaryOp} {left right : Expr}
    (h : ∀ t : State, t.scope = s.scope → t.depth = s.depth →
      (t.eval right).Leads (t.give (right.evalWithin room s.scope))) :
    (s.operate op (left.evalWithin room s.scope) right).Leads
      (s.give ((Expr.binary op left right).evalWithin room s.scope)) := by
  have hdecides (s : State) (value : Value) :
      ((s.await .truth).give value).Leads (s.give (.bool value.isTruthy)) := .resume (.refl _)
  cases op with
  | and =>
    rw [Expr.evalWithin, operate]
    split <;> rename_i hleft
    · rw [hleft, Bool.true_and]
      exact (h (s.await .truth) rfl rfl).trans (hdecides s _)
    · rw [Bool.not_eq_true] at hleft
      rw [hleft, Bool.false_and]
      exact .refl _
  | or =>
    rw [Expr.evalWithin, operate]
    split <;> rename_i hleft
    · rw [hleft, Bool.true_or]
      exact .refl _
    · rw [Bool.not_eq_true] at hleft
      rw [hleft, Bool.false_or]
      exact (h (s.await .truth) rfl rfl).trans (hdecides s _)
  | _ =>
    rw [Expr.evalWithin]
    · exact (h (s.await (.right _ _)) rfl rfl).trans (.resume (.refl _))
    · decide
    · decide

mutual

/-- The machine finds the value of an expression and leaves everything else as it was. -/
theorem leads_eval (room : Nat) (s : State) (e : Expr) (h : room + s.depth = callLimit) :
    (s.eval e).Leads (s.give (e.evalWithin room s.scope)) := by
  refine .begin ?_
  match e with
  | .text _ | .number _ | .bool _ | .variableValue _ | .builtin _ | .function _ _ =>
    rw [Expr.evalWithin]
    exact .refl _
  | .unary op operand =>
    rw [Expr.evalWithin]
    exact (leads_eval room (s.await (.unary op)) operand h).trans (.resume (.refl _))
  | .binary op left right =>
    refine (leads_eval room (s.await (.left op right)) left h).trans (.resume ?_)
    rw [State.resume, await_scope]
    refine leads_operate ?_
    intro t hscope hdepth
    rw [← hscope]
    exact leads_eval room t right (by rwa [hdepth])
  | .cases arms otherwise =>
    rw [evalWithin_cases]
    refine leads_choose room s arms otherwise h ?_
    intro value hvalue
    have : sizeOf value < 1 + sizeOf arms + sizeOf otherwise := by
      rw [hvalue, Option.some.sizeOf_spec]
      omega
    exact leads_eval room s value h
  | .apply callee arguments =>
    rw [evalWithin_apply]
    refine (leads_eval room (s.await (.callee arguments)) callee h).trans (.resume ?_)
    exact leads_supply room s _ [] arguments h
termination_by (room, sizeOf e)

/-- The machine finds the value of the first arm whose guard counts as true. -/
theorem leads_choose (room : Nat) (s : State) (arms : List (Expr × Expr)) (otherwise : Option Expr)
    (h : room + s.depth = callLimit)
    (hotherwise : ∀ value, otherwise = some value →
      (s.eval value).Leads (s.give (value.evalWithin room s.scope))) :
    (s.choose arms otherwise).Leads
      (s.give ((Expr.evalArms room s.scope arms).getD
        ((otherwise.map (·.evalWithin room s.scope)).getD .blank))) := by
  match arms with
  | [] =>
    rw [Expr.evalArms]
    cases otherwise with
    | none => exact .refl _
    | some value => exact hotherwise value rfl
  | (guard, value) :: rest =>
    rw [Expr.evalArms]
    refine (leads_eval room (s.await (.guard value rest otherwise)) guard h).trans (.resume ?_)
    rw [State.resume, await_scope]
    by_cases hguard : (guard.evalWithin room s.scope).isTruthy = true
    · rw [if_pos hguard, if_pos hguard]
      exact leads_eval room s value h
    · rw [if_neg hguard, if_neg hguard]
      exact leads_choose room s rest otherwise h hotherwise
termination_by (room, sizeOf arms)

/-- The machine finds the values of the arguments from left to right, and then that of the call. -/
theorem leads_supply (room : Nat) (s : State) (function : Value) (values : List Value)
    (arguments : List Expr) (h : room + s.depth = callLimit) :
    (s.supply function values arguments).Leads
      (s.give (callWithin room s.scope function
        (values ++ Expr.evalAll room s.scope arguments))) := by
  match arguments with
  | [] =>
    rw [Expr.evalAll, List.append_nil]
    exact leads_call room s function values h
  | e :: rest =>
    rw [Expr.evalAll]
    refine (leads_eval room (s.await (.argument function values rest)) e h).trans (.resume ?_)
    have hrest := leads_supply room s function (values ++ [e.evalWithin room s.scope]) rest h
    rwa [List.append_assoc] at hrest
termination_by (room, sizeOf arguments)

/-- The machine finds the value of a call. -/
theorem leads_call (room : Nat) (s : State) (function : Value) (values : List Value)
    (h : room + s.depth = callLimit) :
    (s.call function values).Leads (s.give (callWithin room s.scope function values)) := by
  match function with
  | .function (.builtin b) => exact .refl _
  | .function (.lambda parameters body) =>
    rw [call]
    match room with
    | 0 =>
      rw [if_pos (by omega)]
      exact .refl _
    | room + 1 =>
      rw [if_neg (by omega)]
      have hroom : room + (s.enter (Scope.frame parameters values)).depth = callLimit := by
        rw [← h]
        exact (Nat.succ_add_eq_add_succ room s.depth).symm
      refine (leads_eval room ((s.enter _).await .leave) body hroom).trans (.resume ?_)
      rw [State.resume, leave_enter]
      exact .refl _
  | .bool _ | .text _ | .number _ | .absent => exact .refl _
termination_by (room, 0)

end

/-! ## Calls that are going on -/

theorem activeCalls_await {task : Task} (h : task.isLeave = false) :
    (s.await task).activeCalls = s.activeCalls :=
  List.countP_cons_of_neg (by simp [h])

theorem activeCalls_await_leave : (s.await .leave).activeCalls = s.activeCalls + 1 :=
  List.countP_cons_of_pos rfl

/-- The scope is that of the beginning below the frames of the calls that are going on. -/
structure Balanced (scope : Scope) (s : State) : Prop where
  globals : s.scope.globals = scope.globals
  frames : ∃ calls, s.scope.frames = calls ++ scope.frames ∧ calls.length = s.activeCalls
  depth : s.depth = s.activeCalls
  limit : s.activeCalls ≤ callLimit

namespace Balanced

theorem eval (h : s.Balanced scope) (e : Expr) : (s.eval e).Balanced scope :=
  ⟨h.globals, h.frames, h.depth, h.limit⟩

theorem give (h : s.Balanced scope) (value : Value) : (s.give value).Balanced scope :=
  ⟨h.globals, h.frames, h.depth, h.limit⟩

theorem await_iff {task : Task} (htask : task.isLeave = false) :
    (s.await task).Balanced scope ↔ s.Balanced scope := by
  have hactive := activeCalls_await (s := s) htask
  constructor <;> rintro ⟨hglobals, hframes, hdepth, hlimit⟩
  · rw [hactive] at hframes hdepth hlimit
    exact ⟨hglobals, hframes, hdepth, hlimit⟩
  · rw [← hactive] at hframes hdepth hlimit
    exact ⟨hglobals, hframes, hdepth, hlimit⟩

theorem enter (h : s.Balanced scope) (hroom : s.depth < callLimit) (frame : Bindings Value) :
    ((s.enter frame).await .leave).Balanced scope := by
  obtain ⟨calls, hframes, hcalls⟩ := h.frames
  have hactive : ((s.enter frame).await .leave).activeCalls = s.activeCalls + 1 :=
    activeCalls_await_leave
  constructor
  · exact h.globals
  · refine ⟨frame :: calls, congrArg (frame :: ·) hframes, ?_⟩
    rw [hactive, List.length_cons, hcalls]
  · rw [hactive, ← h.depth]
    rfl
  · rw [hactive, ← h.depth]
    exact hroom

theorem leave (h : (s.await .leave).Balanced scope) : s.leave.Balanced scope := by
  obtain ⟨calls, hframes, hcalls⟩ := h.frames
  have hdepth := h.depth
  have hlimit := h.limit
  rw [activeCalls_await_leave] at hcalls hdepth hlimit
  obtain ⟨frame, calls, rfl⟩ := List.exists_cons_of_length_eq_add_one hcalls
  constructor
  · exact h.globals
  · exact ⟨calls, congrArg List.tail hframes, Nat.succ.inj hcalls⟩
  · exact congrArg (· - 1) hdepth
  · exact Nat.le_of_succ_le hlimit

theorem call (h : s.Balanced scope) (function : Value) (values : List Value) :
    (s.call function values).Balanced scope := by
  match function with
  | .function (.builtin b) => exact h.give _
  | .function (.lambda parameters body) =>
    rw [State.call]
    split <;> rename_i hroom
    · exact h.give _
    · exact (h.enter (Nat.lt_of_not_le hroom) _).eval body
  | .bool _ | .text _ | .number _ | .absent => exact h.give _

theorem supply (h : s.Balanced scope) (function : Value) (values : List Value)
    (arguments : List Expr) : (s.supply function values arguments).Balanced scope := by
  cases arguments with
  | nil => exact h.call function values
  | cons e rest => exact ((await_iff rfl).mpr h).eval e

theorem choose (h : s.Balanced scope) (arms : List (Expr × Expr)) (otherwise : Option Expr) :
    (s.choose arms otherwise).Balanced scope := by
  cases arms with
  | nil =>
    cases otherwise with
    | none => exact h.give _
    | some value => exact h.eval value
  | cons arm rest => exact ((await_iff rfl).mpr h).eval arm.1

theorem operate (h : s.Balanced scope) (op : BinaryOp) (left : Value) (right : Expr) :
    (s.operate op left right).Balanced scope := by
  have hawait {task : Task} (htask : task.isLeave = false) :
      ((s.await task).eval right).Balanced scope := ((await_iff htask).mpr h).eval right
  cases op with
  | and | or =>
    rw [State.operate]
    split
    all_goals first
      | exact hawait rfl
      | exact h.give _
  | _ => exact hawait rfl

theorem begin (h : s.Balanced scope) (e : Expr) : (s.begin e).Balanced scope := by
  cases e with
  | text | number | bool | variableValue | builtin | function => exact h.give _
  | unary op operand => exact ((await_iff rfl).mpr h).eval operand
  | binary op left right => exact ((await_iff rfl).mpr h).eval left
  | cases arms otherwise => exact h.choose arms otherwise
  | apply callee arguments => exact ((await_iff rfl).mpr h).eval callee

theorem resume {task : Task} (h : (s.await task).Balanced scope) (value : Value) :
    (s.resume task value).Balanced scope := by
  cases task with
  | unary op => exact ((await_iff rfl).mp h).give _
  | left op right => exact ((await_iff rfl).mp h).operate op value right
  | right op left => exact ((await_iff rfl).mp h).give _
  | truth => exact ((await_iff rfl).mp h).give _
  | guard chosen rest otherwise =>
    rw [State.resume]
    split
    · exact ((await_iff rfl).mp h).eval chosen
    · exact ((await_iff rfl).mp h).choose rest otherwise
  | callee arguments => exact ((await_iff rfl).mp h).supply value [] arguments
  | argument function values rest =>
    exact ((await_iff rfl).mp h).supply function (values ++ [value]) rest
  | leave => exact h.leave.give value

theorem step (h : s.Balanced scope) : s.step.Balanced scope := by
  obtain ⟨focus, tasks, base, depth⟩ := s
  cases focus with
  | eval e => exact h.begin e
  | give value =>
    cases tasks with
    | nil => exact h
    | cons t rest => exact resume (s := ⟨.give value, rest, base, depth⟩) h value

theorem run (h : s.Balanced scope) (n : Nat) : (run n s).Balanced scope := by
  induction n generalizing s with
  | zero => exact h
  | succ n ih => exact ih h.step

end Balanced

theorem balanced_start (scope : Scope) (e : Expr) : (start scope e).Balanced scope :=
  ⟨rfl, ⟨[], rfl, rfl⟩, rfl, Nat.zero_le _⟩

end State

open State

/-- The machine comes to the value of every expression, with nothing that waits, and leaves the scope
as it was. On the way never more calls are going on than the limit, and above the frames that were
there stands one frame for each of them. -/
theorem evaluation_ends_balanced (scope : Scope) (e : Expr) :
    (∃ n, run n (start scope e) = ⟨.give (e.eval scope), [], scope, 0⟩) ∧
      ∀ n, (run n (start scope e)).activeCalls ≤ callLimit ∧
        ∃ calls, (run n (start scope e)).scope.frames = calls ++ scope.frames ∧
          calls.length = (run n (start scope e)).activeCalls := by
  refine ⟨leads_eval callLimit (start scope e) e rfl, fun n => ?_⟩
  have h := (balanced_start scope e).run n
  exact ⟨h.limit, h.frames⟩

end WordPattern.Evaluation
