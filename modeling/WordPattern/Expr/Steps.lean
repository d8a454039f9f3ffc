import WordPattern.Expr.Eval

/-!
# Evaluation step by step

The value of an expression is found by a machine: it has one expression or value at hand, tasks that
wait for values, the scope as it is changed on the way, and a counter of calls. A lambda is called by
putting its frame on the scope and its body in place of the call, so that nothing says in advance
that the machine comes to an end.
-/

namespace WordPattern.Evaluation

/-- What is done with a value that is found. -/
inductive Task where
  | unary (op : UnaryOp)
  /-- The value is the left operand. -/
  | left (op : BinaryOp) (right : Expr)
  /-- The value is the right operand. -/
  | right (op : BinaryOp) (left : Value)
  /-- The value decides alone. -/
  | truth
  | guard (value : Expr) (rest : List (Expr × Expr)) (otherwise : Option Expr)
  | callee (arguments : List Expr)
  | argument (function : Value) (values : List Value) (rest : List Expr)
  /-- The value is that of a body, whose call ends. -/
  | leave

def Task.isLeave : Task → Bool
  | leave => true
  | _ => false

inductive Focus where
  | eval (e : Expr)
  | give (value : Value)

structure State where
  focus : Focus
  /-- What waits, the innermost task first. -/
  tasks : List Task
  scope : Scope
  depth : Nat

namespace State

/-- The state that evaluates an expression next. -/
def eval (s : State) (e : Expr) : State := { s with focus := .eval e }

/-- The state that has found a value. -/
def give (s : State) (value : Value) : State := { s with focus := .give value }

/-- The state with one more task. -/
def await (s : State) (t : Task) : State := { s with tasks := t :: s.tasks }

/-- The state in a call with a frame. -/
def enter (s : State) (frame : Bindings Value) : State :=
  { s with scope := s.scope.push frame, depth := s.depth + 1 }

/-- The state behind a call, without the frame on top. -/
def leave (s : State) : State :=
  { s with scope := { s.scope with frames := s.scope.frames.tail }, depth := s.depth - 1 }

/-- Calls a function, unless too many calls are going on. -/
def call (s : State) (function : Value) (values : List Value) : State :=
  match function with
  | .function (.builtin b) => s.give (b.call (values.headD .blank))
  | .function (.lambda parameters body) =>
    if callLimit ≤ s.depth then s.give .absent
    else ((s.enter (Scope.frame parameters values)).await .leave).eval body
  | _ => s.give .absent

/-- Evaluates the next argument, or calls the function. -/
def supply (s : State) (function : Value) (values : List Value) : List Expr → State
  | [] => s.call function values
  | e :: rest => (s.await (.argument function values rest)).eval e

/-- Evaluates the next guard, or what is left without one. -/
def choose (s : State) (arms : List (Expr × Expr)) (otherwise : Option Expr) : State :=
  match arms, otherwise with
  | (guard, value) :: rest, _ => (s.await (.guard value rest otherwise)).eval guard
  | [], some value => s.eval value
  | [], none => s.give .blank

/-- Goes on to the right operand, where the left one does not decide. -/
def operate (s : State) (op : BinaryOp) (left : Value) (right : Expr) : State :=
  match op with
  | .and => if left.isTruthy then (s.await .truth).eval right else s.give (.bool false)
  | .or => if left.isTruthy then s.give (.bool true) else (s.await .truth).eval right
  | _ => (s.await (.right op left)).eval right

/-- Begins with an expression. -/
def begin (s : State) (e : Expr) : State :=
  match e with
  | .text value => s.give (.text value)
  | .number value => s.give (.number value)
  | .bool value => s.give (.bool value)
  | .variableValue name => s.give ((s.scope.lookup? name).getD .blank)
  | .builtin b => s.give (.function (.builtin b))
  | .function parameters body => s.give (.function (.lambda parameters body))
  | .unary op operand => (s.await (.unary op)).eval operand
  | .binary op left right => (s.await (.left op right)).eval left
  | .cases arms otherwise => s.choose arms otherwise
  | .apply callee arguments => (s.await (.callee arguments)).eval callee

/-- Does a task with the value that it waited for. -/
def resume (s : State) (t : Task) (value : Value) : State :=
  match t with
  | .unary op => s.give (op.call value)
  | .left op right => s.operate op value right
  | .right op left => s.give (op.call left value)
  | .truth => s.give (.bool value.isTruthy)
  | .guard chosen rest otherwise =>
    if value.isTruthy then s.eval chosen else s.choose rest otherwise
  | .callee arguments => s.supply value [] arguments
  | .argument function values rest => s.supply function (values ++ [value]) rest
  | .leave => s.leave.give value

/-- One step; a state with a value that nothing waits for stays. -/
def step (s : State) : State :=
  match s.focus with
  | .eval e => s.begin e
  | .give value =>
    match s.tasks with
    | [] => s
    | t :: rest => { s with tasks := rest }.resume t value

/-- Some steps. -/
def run : Nat → State → State
  | 0, s => s
  | n + 1, s => run n s.step

/-- The state that the evaluation of an expression begins with. -/
def start (scope : Scope) (e : Expr) : State := ⟨.eval e, [], scope, 0⟩

/-- How many calls of lambdas have begun and not ended. -/
def activeCalls (s : State) : Nat := s.tasks.countP (·.isLeave)

end State

end WordPattern.Evaluation
