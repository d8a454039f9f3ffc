import WordPattern.Expr.Value

/-!
# Evaluation

Every expression has a value. A variable is looked up in the frames of the calls that are going on,
the latest first, and then among the globals. Calls nest only so deep; a call beyond has no result.
-/

namespace WordPattern

/-- How many calls may be going on at a time. -/
def callLimit : Nat := 256

/-- The variables that an expression sees: frames, the latest first, above the globals. -/
structure Scope where
  globals : Bindings Value
  frames : List (Bindings Value) := []

/-- The value of a variable. -/
def Scope.lookup? (s : Scope) (name : String) : Option Value :=
  match s.frames.findSome? (·.get? name) with
  | some value => some value
  | none => s.globals.get? name

/-- The scope with a frame put on top. -/
def Scope.push (s : Scope) (frame : Bindings Value) : Scope :=
  { s with frames := frame :: s.frames }

/-- The frame of a call: parameters without an argument are blank, and of two parameters with one
name the later counts. -/
def Scope.frame (parameters : List String) (values : List Value) : Bindings Value :=
  .ofList (parameters.mapIdx fun i name => (name, values[i]?.getD .blank))

mutual
/-- The value of an expression where `room` more calls may nest. -/
def Expr.evalWithin (room : Nat) (scope : Scope) (e : Expr) : Value :=
  match e with
  | .text value => .text value
  | .number value => .number value
  | .bool value => .bool value
  | .variableValue name => (scope.lookup? name).getD .blank
  | .builtin b => .function (.builtin b)
  | .function parameters body => .function (.lambda parameters body)
  | .unary op operand => op.call (Expr.evalWithin room scope operand)
  | .binary .and left right =>
    .bool ((Expr.evalWithin room scope left).isTruthy &&
      (Expr.evalWithin room scope right).isTruthy)
  | .binary .or left right =>
    .bool ((Expr.evalWithin room scope left).isTruthy ||
      (Expr.evalWithin room scope right).isTruthy)
  | .binary op left right =>
    op.call (Expr.evalWithin room scope left) (Expr.evalWithin room scope right)
  | .cases arms otherwise =>
    match Expr.evalArms room scope arms with
    | some value => value
    | none =>
      match otherwise with
      | some value => Expr.evalWithin room scope value
      | none => .blank
  | .apply callee arguments =>
    let function := Expr.evalWithin room scope callee
    let values := Expr.evalAll room scope arguments
    match function with
    | .function (.builtin b) => b.call (values.headD .blank)
    | .function (.lambda parameters body) =>
      match _h : room with
      | 0 => .absent
      | room + 1 => Expr.evalWithin room (scope.push (Scope.frame parameters values)) body
    | _ => .absent
termination_by (room, sizeOf e)

/-- The value of the first arm whose guard counts as true. -/
def Expr.evalArms (room : Nat) (scope : Scope) (arms : List (Expr × Expr)) : Option Value :=
  match arms with
  | [] => none
  | (guard, value) :: rest =>
    if (Expr.evalWithin room scope guard).isTruthy then some (Expr.evalWithin room scope value)
    else Expr.evalArms room scope rest
termination_by (room, sizeOf arms)

/-- The values of expressions from left to right. -/
def Expr.evalAll (room : Nat) (scope : Scope) (es : List Expr) : List Value :=
  match es with
  | [] => []
  | e :: rest => Expr.evalWithin room scope e :: Expr.evalAll room scope rest
termination_by (room, sizeOf es)
end

/-- The value of an expression. -/
def Expr.eval (scope : Scope) (e : Expr) : Value :=
  e.evalWithin callLimit scope

/-- The text of expressions that stand side by side. -/
def Expr.evalText (scope : Scope) (parts : List Expr) : String :=
  String.join (parts.map fun part => (part.eval scope).display)

end WordPattern
