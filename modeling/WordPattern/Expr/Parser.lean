import WordPattern.Decimal.Numeral
import WordPattern.Expr.Basic
import WordPattern.Token.Parsed

/-!
# Reading expressions

| Level          | Operators                          |
|----------------|------------------------------------|
| or             | `or`                               |
| and            | `and`                              |
| comparison     | `==` `!=` `<` `>` `<=` `>=`, once  |
| additive       | `+` `-`                            |
| multiplicative | `*` `/` `%`                        |
| unary          | `not` `-`                          |
| call           | `f(x, y)`                          |

The loosest level comes first. Operators of one level are grouped to the left.
-/

namespace WordPattern

namespace Expression

/-- A level of binary operators. -/
inductive Level where
  | or | and | comparison | additive | multiplicative
deriving DecidableEq, Repr

/-- Looser levels rank higher. -/
def Level.rank : Level → Nat
  | or => 5
  | and => 4
  | comparison => 3
  | additive => 2
  | multiplicative => 1

/-- The operator of a level that a token stands for. -/
def Level.operator? : Level → Lexeme → Option BinaryOp
  | or, .keyword .or => some .or
  | and, .keyword .and => some .and
  | comparison, .symbol .equal => some .equal
  | comparison, .symbol .notEqual => some .notEqual
  | comparison, .symbol .less => some .less
  | comparison, .symbol .greater => some .greater
  | comparison, .symbol .lessEqual => some .lessEqual
  | comparison, .symbol .greaterEqual => some .greaterEqual
  | additive, .symbol .plus => some .add
  | additive, .symbol .minus => some .subtract
  | multiplicative, .symbol .star => some .multiply
  | multiplicative, .symbol .slash => some .divide
  | multiplicative, .symbol .percent => some .remainder
  | _, _ => none

/-- Takes an operator of a level off the front. -/
def Level.eat? (l : Level) :
    (ts : List Token) → Option (BinaryOp × { rest : List Token // rest.length < ts.length })
  | [] => none
  | t :: rest => (l.operator? t.lexeme).map (·, behindFirst t rest)

/-- The number that a numeral stands for. -/
def ofNumeral (n : Numeral) : Expr :=
  match n.fraction with
  | none => .number (Decimal.scaled false n.whole 0)
  | some digits =>
    .number (Decimal.scaled false (n.whole ++ digits) (-digits.length))

variable (finish : Position)

/-- Reads parameters and the bracket behind them. -/
def someParameters (ts : List Token) : Parse (List String) ts :=
  match ts with
  | ⟨.variableName name, _⟩ :: rest =>
    match eat? (.symbol .rightParen) rest with
    | some ⟨more, h⟩ => .ok ⟨[name], more, Nat.lt_succ_of_lt h⟩
    | none => do
      let ⟨_, ts₁, _⟩ ← expectSymbol finish .comma rest
      let ⟨others, ts₂, _⟩ ← someParameters ts₁
      return ⟨name :: others, ts₂, by simp only [List.length_cons]; omega⟩
  | ts => .error (unexpected finish .parameter ts)
termination_by ts.length

/-- Reads a list of parameters between brackets. -/
def parameters (ts : List Token) : Parse (List String) ts := do
  let ⟨_, ts₁, h₁⟩ ← expectSymbol finish .leftParen ts
  match eat? (.symbol .rightParen) ts₁ with
  | some ⟨ts₂, h₂⟩ => return .past h₁ ⟨[], ts₂, h₂⟩
  | none => return (← someParameters finish ts₁).past h₁

/-- The word that names a known function. -/
def builtinWord (name : String) (position : Position) : Except SyntaxError Expr :=
  match Builtin.ofWord? name with
  | some b => .ok (.builtin b)
  | none => .error ⟨.unknownFunction name, position⟩

mutual
/-- Reads an expression whose binary operators are of a level or bind tighter. -/
def level (l : Level) (ts : List Token) : Parse Expr ts := do
  let ⟨left, ts₁, _⟩ ← operand l ts
  return (← operations l left ts₁).widen (by omega)
termination_by (ts.length, 2 * l.rank + 10)

/-- Reads an operand of a level. -/
def operand (l : Level) (ts : List Token) : Parse Expr ts :=
  match l with
  | .or => level .and ts
  | .and => level .comparison ts
  | .comparison => level .additive ts
  | .additive => level .multiplicative ts
  | .multiplicative => unary ts
termination_by (ts.length, 2 * l.rank + 9)
decreasing_by all_goals exact Prod.Lex.right _ (by decide)

/-- Reads the operations of a level that follow their left operand; a comparison takes one only. -/
def operations (l : Level) (left : Expr) (ts : List Token) :
    Except SyntaxError (Parsed Expr (ts.length + 1)) :=
  match l.eat? ts with
  | none => .ok ⟨left, ts, Nat.lt_succ_self _⟩
  | some (op, ⟨ts₁, _⟩) => do
    let ⟨right, ts₂, _⟩ ← operand l ts₁
    if l = .comparison then return ⟨.binary op left right, ts₂, by omega⟩
    else return (← operations l (.binary op left right) ts₂).widen (by omega)
termination_by (ts.length, 2 * l.rank + 10)

/-- Reads an operand with signs in front. -/
def unary (ts : List Token) : Parse Expr ts :=
  match eat? (.keyword .not) ts, eat? (.symbol .minus) ts with
  | some ⟨ts₁, _⟩, _ => do
    let ⟨value, ts₂, _⟩ ← unary ts₁
    return ⟨.unary .not value, ts₂, by omega⟩
  | none, some ⟨ts₁, _⟩ => do
    let ⟨value, ts₂, _⟩ ← unary ts₁
    return ⟨.unary .negate value, ts₂, by omega⟩
  | none, none => do
    let ⟨callee, ts₁, _⟩ ← atom ts
    return (← calls callee ts₁).widen (by omega)
termination_by (ts.length, 8)

/-- Reads the lists of arguments that follow a callee. -/
def calls (callee : Expr) (ts : List Token) : Except SyntaxError (Parsed Expr (ts.length + 1)) :=
  match eat? (.symbol .leftParen) ts with
  | none => .ok ⟨callee, ts, Nat.lt_succ_self _⟩
  | some ⟨ts₁, _⟩ => do
    let ⟨values, ts₂, _⟩ ← arguments ts₁
    return (← calls (.apply callee values) ts₂).widen (by omega)
termination_by (ts.length, 8)

/-- Reads arguments, if there are any, and the bracket behind them. -/
def arguments (ts : List Token) : Parse (List Expr) ts :=
  match eat? (.symbol .rightParen) ts with
  | some ⟨ts₁, h₁⟩ => .ok ⟨[], ts₁, h₁⟩
  | none => someArguments ts
termination_by (ts.length, 22)

/-- Reads arguments and the bracket behind them. -/
def someArguments (ts : List Token) : Parse (List Expr) ts := do
  let ⟨first, ts₁, _⟩ ← level .or ts
  match eat? (.symbol .rightParen) ts₁ with
  | some ⟨ts₂, _⟩ => return ⟨[first], ts₂, by omega⟩
  | none =>
    let ⟨_, ts₂, _⟩ ← expectSymbol finish .comma ts₁
    let ⟨others, ts₃, _⟩ ← someArguments ts₂
    return ⟨first :: others, ts₃, by omega⟩
termination_by (ts.length, 21)
decreasing_by
  · exact Prod.Lex.right _ (by decide)
  · exact Prod.Lex.left _ _ (by omega)

/-- Reads an expression without operators. -/
def atom (ts : List Token) : Parse Expr ts :=
  match ts with
  | ⟨.literal bytes, _⟩ :: rest => .ok (.single (.text (literalText bytes)) rest)
  | ⟨.number n, _⟩ :: rest => .ok (.single (ofNumeral n) rest)
  | ⟨.variableName name, _⟩ :: rest => .ok (.single (.variableValue name) rest)
  | ⟨.keyword .true, _⟩ :: rest => .ok (.single (.bool true) rest)
  | ⟨.keyword .false, _⟩ :: rest => .ok (.single (.bool false) rest)
  | ⟨.keyword .upper, _⟩ :: rest => .ok (.single (.builtin .upper) rest)
  | ⟨.keyword .lower, _⟩ :: rest => .ok (.single (.builtin .lower) rest)
  | ⟨.word name, position⟩ :: rest => do
    return .single (← builtinWord name position) rest
  | ⟨.symbol .leftParen, _⟩ :: rest => do
    let ⟨inner, ts₁, _⟩ ← level .or rest
    let ⟨_, ts₂, _⟩ ← expectSymbol finish .rightParen ts₁
    return ⟨inner, ts₂, by simp only [List.length_cons]; omega⟩
  | ⟨.keyword .case, _⟩ :: rest => do
    let ⟨first, ts₁, _⟩ ← arm rest
    let ⟨others, ts₂, _⟩ ← arms ts₁
    let ⟨otherwise, ts₃, _⟩ ← alternative ts₂
    let ⟨_, ts₄, _⟩ ← expectKeyword finish .«end» ts₃
    return ⟨.cases (first :: others) otherwise, ts₄, by simp only [List.length_cons]; omega⟩
  | ⟨.keyword .func, _⟩ :: rest => do
    let ⟨names, ts₁, _⟩ ← parameters finish rest
    let ⟨body, ts₂, _⟩ ← level .or ts₁
    return ⟨.function names body, ts₂, by simp only [List.length_cons]; omega⟩
  | ts => .error (unexpected finish .expression ts)
termination_by (ts.length, 7)

/-- Reads an arm: a guard behind `when` and a value behind `then`. -/
def arm (ts : List Token) : Parse (Expr × Expr) ts := do
  let ⟨_, ts₁, _⟩ ← expectKeyword finish .when ts
  let ⟨guard, ts₂, _⟩ ← level .or ts₁
  let ⟨_, ts₃, _⟩ ← expectKeyword finish .«then» ts₂
  let ⟨value, ts₄, _⟩ ← level .or ts₃
  return ⟨(guard, value), ts₄, by omega⟩
termination_by (ts.length, 21)

/-- Reads the arms that follow the first one. -/
def arms (ts : List Token) : Except SyntaxError (Parsed (List (Expr × Expr)) (ts.length + 1)) :=
  match eat? (.keyword .when) ts with
  | none => .ok ⟨[], ts, Nat.lt_succ_self _⟩
  | some _ => do
    let ⟨first, ts₁, _⟩ ← arm ts
    let ⟨others, ts₂, _⟩ ← arms ts₁
    return ⟨first :: others, ts₂, by omega⟩
termination_by (ts.length, 22)

/-- Reads the alternative behind `otherwise`, if there is one. -/
def alternative (ts : List Token) :
    Except SyntaxError (Parsed (Option Expr) (ts.length + 1)) :=
  match eat? (.keyword .otherwise) ts with
  | none => .ok ⟨none, ts, Nat.lt_succ_self _⟩
  | some ⟨ts₁, _⟩ => do
    let ⟨value, ts₂, _⟩ ← level .or ts₁
    return ⟨some value, ts₂, by omega⟩
termination_by (ts.length, 22)
end

end Expression

/-- Reads an expression. -/
def Expr.parse (finish : Position) (ts : List Token) : Parse Expr ts :=
  Expression.level finish .or ts

/-- The token can begin an expression. -/
def Expr.begins : List Token → Bool
  | ⟨.literal _, _⟩ :: _ => true
  | ⟨.number _, _⟩ :: _ => true
  | ⟨.variableName _, _⟩ :: _ => true
  | ⟨.word _, _⟩ :: _ => true
  | ⟨.symbol s, _⟩ :: _ => s == .leftParen || s == .minus
  | ⟨.keyword k, _⟩ :: _ =>
    k == .true || k == .false || k == .upper || k == .lower || k == .case || k == .func || k == .not
  | _ => false

/-- Reads expressions that stand side by side, at least one. -/
def Expr.parseAll (finish : Position) (ts : List Token) : Parse (List Expr) ts := do
  let ⟨first, ts₁, h₁⟩ ← Expr.parse finish ts
  if Expr.begins ts₁ then
    let ⟨others, ts₂, _⟩ ← Expr.parseAll finish ts₁
    return ⟨first :: others, ts₂, by omega⟩
  else return ⟨[first], ts₁, h₁⟩
termination_by ts.length

end WordPattern
