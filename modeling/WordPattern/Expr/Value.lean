import WordPattern.Bindings
import WordPattern.Decimal.Binary
import WordPattern.Decimal.Numeral
import WordPattern.Decimal.Shortest
import WordPattern.Expr.Basic
import WordPattern.Text.Character
import WordPattern.Text.Case

/-!
# Values

Values are loosely typed. Numbers and booleans calculate; texts and functions are read as numbers
where a number is needed, and everything has a text.
-/

namespace WordPattern

/-- Something that can be called. -/
inductive Function where
  | builtin (b : Builtin)
  | lambda (parameters : List String) (body : Expr)

/-- The value of an expression. -/
inductive Value where
  | bool (value : Bool)
  | text (value : String)
  | number (value : Float)
  | function (f : Function)
  /-- The function that is not there. -/
  | absent

namespace Value

/-- The value that unbound variables and missing arguments have. -/
def blank : Value := .text ""

/-- The value counts as true. -/
def isTruthy : Value → Bool
  | bool b => b
  | text s => !s.isEmpty
  | number x => !(x == 0.0)
  | function _ => true
  | absent => false

/-- The value read as a number: a text that is none reads as zero, and so does a function. -/
def toNumber : Value → Float
  | bool b => if b then 1.0 else 0.0
  | number x => x
  | text s => (Decimal.read? (Text.trim s)).getD 0.0
  | function _ => 0.0
  | absent => 0.0

/-- The text of the value. -/
def display : Value → String
  | bool b => if b then "true" else "false"
  | text s => s
  | number x => Decimal.display x
  | function (.builtin b) => b.name
  | function (.lambda ..) => "func"
  | absent => ""

/-- The value of the same kind that counts as false. -/
def falsyLike : Value → Value
  | bool _ => bool false
  | text _ => blank
  | number _ => number 0.0
  | function _ => absent
  | absent => absent

/-- Numbers and booleans calculate as numbers. -/
def isNumeric : Value → Bool
  | bool _ => true
  | number _ => true
  | _ => false

/-- Two values in order: as numbers if both are numeric, else by their texts. Nothing compares with
a number that is none. -/
def compare? (a b : Value) : Option Ordering :=
  if a.isNumeric && b.isNumeric then
    let x := a.toNumber
    let y := b.toNumber
    if x < y then some .lt else if x == y then some .eq else if y < x then some .gt else none
  else
    let s := a.display
    let t := b.display
    some (if s < t then .lt else if s = t then .eq else .gt)

/-- A quotient or remainder; a divisor that counts as false gives its own kind of false. -/
def divided (divide : Float → Float → Float) (a b : Value) : Value :=
  if !b.isTruthy then b.falsyLike
  else if b.toNumber == 0.0 then number 0.0
  else number (divide a.toNumber b.toNumber)

/-- The sum of two numeric values; others are joined as texts. -/
def plus (a b : Value) : Value :=
  if a.isNumeric && b.isNumeric then number (a.toNumber + b.toNumber)
  else text (a.display ++ b.display)

end Value

/-- Applies a known function to its first argument. -/
def Builtin.call (b : Builtin) (value : Value) : Value :=
  match b with
  | upper => .text (Text.upper value.display)
  | lower => .text (Text.lower value.display)
  | length => .number (Float.ofNat value.display.utf8ByteSize)
  | trim => .text (Text.trim value.display)
  | number => .number value.toNumber
  | string => .text value.display

/-- Applies an operator that evaluates its operand first. -/
def UnaryOp.call (op : UnaryOp) (value : Value) : Value :=
  match op with
  | not => .bool (!value.isTruthy)
  | negate => .number (-value.toNumber)

/-- Applies an operator to two values. -/
def BinaryOp.call (op : BinaryOp) (a b : Value) : Value :=
  match op with
  | or => .bool (a.isTruthy || b.isTruthy)
  | and => .bool (a.isTruthy && b.isTruthy)
  | equal => .bool (a.compare? b == some .eq)
  | notEqual => .bool (a.compare? b != some .eq)
  | less => .bool (a.compare? b == some .lt)
  | greater => .bool (a.compare? b == some .gt)
  | lessEqual => .bool (a.compare? b == some .lt || a.compare? b == some .eq)
  | greaterEqual => .bool (a.compare? b == some .gt || a.compare? b == some .eq)
  | add => a.plus b
  | subtract => .number (a.toNumber - b.toNumber)
  | multiply => .number (a.toNumber * b.toNumber)
  | divide => Value.divided (· / ·) a b
  | remainder => Value.divided Decimal.remainder a b

end WordPattern
