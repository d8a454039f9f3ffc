/-!
# Expressions

The expressions that compute replacements and the values of variables.
-/

namespace WordPattern

/-- A function that every program knows. -/
inductive Builtin where
  | upper | lower | length | trim | number | string
deriving DecidableEq, Repr

/-- The name of a known function. -/
def Builtin.name : Builtin → String
  | upper => "upper"
  | lower => "lower"
  | length => "length"
  | trim => "trim"
  | number => "number"
  | string => "string"

/-- The known function that a word names; `upper` and `lower` are keywords instead. -/
def Builtin.ofWord? (word : String) : Option Builtin :=
  [length, trim, number, string].find? (·.name == word)

inductive UnaryOp where
  | not | negate
deriving DecidableEq, Repr

inductive BinaryOp where
  | or | and
  | equal | notEqual | less | greater | lessEqual | greaterEqual
  | add | subtract | multiply | divide | remainder
deriving DecidableEq, Repr

/-- An expression. -/
inductive Expr where
  | text (value : String)
  | number (value : Float)
  | bool (value : Bool)
  | variableValue (name : String)
  | builtin (function : Builtin)
  | unary (op : UnaryOp) (operand : Expr)
  | binary (op : BinaryOp) (left right : Expr)
  /-- The value of the first arm whose guard holds. -/
  | cases (arms : List (Expr × Expr)) (otherwise : Option Expr)
  | function (parameters : List String) (body : Expr)
  | apply (callee : Expr) (arguments : List Expr)

end WordPattern
