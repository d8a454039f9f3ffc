import WordPattern.Expr.Parser

/-!
# The grammar of expressions

| Form        | Made of                                                           |
|-------------|-------------------------------------------------------------------|
| level       | operands of the level, joined from the left by its operators      |
| operand     | a form of the next tighter level, and at the tightest one a unary |
| unary       | signs, and a call behind them                                     |
| call        | an atom, and any number of argument lists                         |
| atom        | a value, a name, brackets, a choice between cases or a function   |

Every form goes on as long as it can: it ends only where no operator or bracket behind it would make
it longer. So a form is told by the lexemes that it begins and by those that it leaves, and
`Derives f ls v rest` says that `ls` begins with `v` and that `rest` stands behind it.
-/

namespace WordPattern

namespace Expression

/-- No operator of the level stands at the front. -/
def Level.EndsAt (l : Level) (ls : List Lexeme) : Prop :=
  ∀ t, ls.head? = some t → l.operator? t = none

/-- What expressions and their parts are made of. -/
inductive Form where
  | level (l : Level)
  | chain (l : Level)
  | operand (l : Level)
  | unary
  | call
  | atom
  /-- The values between brackets, and the closing bracket. -/
  | arguments
  | someArguments
  | arm
  | arms
  | alternative

/-- What a form stands for. -/
abbrev Form.Value : Form → Type
  | .arguments | .someArguments => List Expr
  | .arm => Expr × Expr
  | .arms => List (Expr × Expr)
  | .alternative => Option Expr
  | _ => Expr

/-- The names behind `func`, between brackets. -/
inductive NamesForm : List Lexeme → List String → Prop
  | last (name : String) : NamesForm [.variableName name, .symbol .rightParen] [name]
  | cons {ls : List Lexeme} {names : List String} (name : String) (others : NamesForm ls names) :
    NamesForm (.variableName name :: .symbol .comma :: ls) (name :: names)

/-- The parameters of a function. -/
inductive ParametersForm : List Lexeme → List String → Prop
  | none : ParametersForm [.symbol .leftParen, .symbol .rightParen] []
  | some {ls : List Lexeme} {names : List String} (h : NamesForm ls names) :
    ParametersForm (.symbol .leftParen :: ls) names

/-- Lexemes begin with a form, and others are left behind it. -/
inductive Derives : (f : Form) → List Lexeme → f.Value → List Lexeme → Prop
  -- levels
  | level {l : Level} {ls rest : List Lexeme} {e : Expr} (chain : Derives (.chain l) ls e rest)
    (ends : l.EndsAt rest) : Derives (.level l) ls e rest
  | compare {ls mid rest : List Lexeme} {t : Lexeme} {op : BinaryOp} {a b : Expr}
    (left : Derives (.operand .comparison) ls a (t :: mid))
    (sign : Level.comparison.operator? t = some op)
    (right : Derives (.operand .comparison) mid b rest) :
    Derives (.level .comparison) ls (.binary op a b) rest
  | first {l : Level} {ls rest : List Lexeme} {e : Expr}
    (operand : Derives (.operand l) ls e rest) : Derives (.chain l) ls e rest
  | more {l : Level} {ls mid rest : List Lexeme} {t : Lexeme} {op : BinaryOp} {a b : Expr}
    (hl : l ≠ .comparison) (left : Derives (.chain l) ls a (t :: mid))
    (sign : l.operator? t = some op) (right : Derives (.operand l) mid b rest) :
    Derives (.chain l) ls (.binary op a b) rest
  -- operands
  | ofAnd {ls rest : List Lexeme} {e : Expr} (h : Derives (.level .and) ls e rest) :
    Derives (.operand .or) ls e rest
  | ofComparison {ls rest : List Lexeme} {e : Expr} (h : Derives (.level .comparison) ls e rest) :
    Derives (.operand .and) ls e rest
  | ofAdditive {ls rest : List Lexeme} {e : Expr} (h : Derives (.level .additive) ls e rest) :
    Derives (.operand .comparison) ls e rest
  | ofMultiplicative {ls rest : List Lexeme} {e : Expr}
    (h : Derives (.level .multiplicative) ls e rest) : Derives (.operand .additive) ls e rest
  | ofUnary {ls rest : List Lexeme} {e : Expr} (h : Derives .unary ls e rest) :
    Derives (.operand .multiplicative) ls e rest
  -- signs and calls
  | not {ls rest : List Lexeme} {e : Expr} (h : Derives .unary ls e rest) :
    Derives .unary (.keyword .not :: ls) (.unary .not e) rest
  | negate {ls rest : List Lexeme} {e : Expr} (h : Derives .unary ls e rest) :
    Derives .unary (.symbol .minus :: ls) (.unary .negate e) rest
  | unsigned {ls rest : List Lexeme} {e : Expr} (h : Derives .call ls e rest)
    (ends : rest.head? ≠ some (.symbol .leftParen)) : Derives .unary ls e rest
  | callee {ls rest : List Lexeme} {e : Expr} (h : Derives .atom ls e rest) :
    Derives .call ls e rest
  | apply {ls mid rest : List Lexeme} {e : Expr} {values : List Expr}
    (callee : Derives .call ls e (.symbol .leftParen :: mid))
    (arguments : Derives .arguments mid values rest) : Derives .call ls (.apply e values) rest
  | noArguments {rest : List Lexeme} : Derives .arguments (.symbol .rightParen :: rest) [] rest
  | arguments {ls rest : List Lexeme} {values : List Expr}
    (h : Derives .someArguments ls values rest) : Derives .arguments ls values rest
  | lastArgument {ls rest : List Lexeme} {e : Expr}
    (value : Derives (.level .or) ls e (.symbol .rightParen :: rest)) :
    Derives .someArguments ls [e] rest
  | argument {ls mid rest : List Lexeme} {e : Expr} {values : List Expr}
    (value : Derives (.level .or) ls e (.symbol .comma :: mid))
    (others : Derives .someArguments mid values rest) :
    Derives .someArguments ls (e :: values) rest
  -- atoms
  | text {rest : List Lexeme} (bytes : List UInt8) :
    Derives .atom (.literal bytes :: rest) (.text (literalText bytes)) rest
  | number {rest : List Lexeme} (n : Numeral) :
    Derives .atom (.number n :: rest) (ofNumeral n) rest
  | variableValue {rest : List Lexeme} (name : String) :
    Derives .atom (.variableName name :: rest) (.variableValue name) rest
  | true {rest : List Lexeme} : Derives .atom (.keyword .true :: rest) (.bool Bool.true) rest
  | false {rest : List Lexeme} : Derives .atom (.keyword .false :: rest) (.bool Bool.false) rest
  | upper {rest : List Lexeme} : Derives .atom (.keyword .upper :: rest) (.builtin .upper) rest
  | lower {rest : List Lexeme} : Derives .atom (.keyword .lower :: rest) (.builtin .lower) rest
  | builtin {rest : List Lexeme} {name : String} {b : Builtin} (h : Builtin.ofWord? name = some b) :
    Derives .atom (.word name :: rest) (.builtin b) rest
  | brackets {ls rest : List Lexeme} {e : Expr}
    (inner : Derives (.level .or) ls e (.symbol .rightParen :: rest)) :
    Derives .atom (.symbol .leftParen :: ls) e rest
  | cases {ls mid mid' rest : List Lexeme} {first : Expr × Expr} {others : List (Expr × Expr)}
    {otherwise : Option Expr} (arm : Derives .arm ls first mid)
    (arms : Derives .arms mid others mid')
    (alternative : Derives .alternative mid' otherwise (.keyword .«end» :: rest)) :
    Derives .atom (.keyword .case :: ls) (.cases (first :: others) otherwise) rest
  | function {ls ms rest : List Lexeme} {names : List String} {e : Expr}
    (parameters : ParametersForm ls names) (body : Derives (.level .or) ms e rest) :
    Derives .atom (.keyword .func :: (ls ++ ms)) (.function names e) rest
  -- cases
  | arm {ls mid rest : List Lexeme} {a b : Expr}
    (guard : Derives (.level .or) ls a (.keyword .«then» :: mid))
    (value : Derives (.level .or) mid b rest) : Derives .arm (.keyword .when :: ls) (a, b) rest
  | noArms {rest : List Lexeme} (ends : rest.head? ≠ some (.keyword .when)) :
    Derives .arms rest [] rest
  | arms {ls mid rest : List Lexeme} {first : Expr × Expr} {others : List (Expr × Expr)}
    (arm : Derives .arm ls first mid) (arms : Derives .arms mid others rest) :
    Derives .arms ls (first :: others) rest
  | noAlternative {rest : List Lexeme} (ends : rest.head? ≠ some (.keyword .otherwise)) :
    Derives .alternative rest none rest
  | alternative {ls rest : List Lexeme} {e : Expr} (h : Derives (.level .or) ls e rest) :
    Derives .alternative (.keyword .otherwise :: ls) (some e) rest

/-- The lexemes are those of an expression, taken as long as they go. -/
def Forms (ls : List Lexeme) (e : Expr) : Prop := Derives (.level .or) ls e []

/-- The lexeme can stand behind these ones in an expression. -/
def Continues (ls : List Lexeme) (t : Lexeme) : Prop := ∃ more e, Forms (ls ++ t :: more) e

/-! ## Writing expressions -/

/-- How tightly an expression binds at least. -/
inductive Strength where
  | level (l : Level)
  | unary
  | call

/-- The strength of the operands of a level, which bind tighter. -/
def Level.tighter : Level → Strength
  | or => .level .and
  | and => .level .comparison
  | comparison => .level .additive
  | additive => .level .multiplicative
  | multiplicative => .unary

/-- The strength of a left operand: operators group to the left, but a comparison takes one only. -/
def Level.left (l : Level) : Strength := if l = .comparison then l.tighter else .level l

mutual
/-- Lexemes for a tree that binds at least as tightly as `s`. There are brackets where the table of
precedence asks for them, and there may be more. A function goes without them only if it is `last`:
what stands behind it would become part of its body. -/
inductive Written : (s : Strength) → (last : Bool) → Expr → List Lexeme → Prop
  | binary {l : Level} {last : Bool} {t : Lexeme} {op : BinaryOp} {a b : Expr} {ls ms : List Lexeme}
    (sign : l.operator? t = some op) (left : Written l.left Bool.false a ls)
    (right : Written l.tighter last b ms) : Written (.level l) last (.binary op a b) (ls ++ t :: ms)
  | loose {l : Level} {last : Bool} {e : Expr} {ls : List Lexeme}
    (h : Written l.tighter last e ls) : Written (.level l) last e ls
  | not {last : Bool} {e : Expr} {ls : List Lexeme} (h : Written .unary last e ls) :
    Written .unary last (.unary .not e) (.keyword .not :: ls)
  | negate {last : Bool} {e : Expr} {ls : List Lexeme} (h : Written .unary last e ls) :
    Written .unary last (.unary .negate e) (.symbol .minus :: ls)
  | unsigned {last : Bool} {e : Expr} {ls : List Lexeme} (h : Written .call last e ls) :
    Written .unary last e ls
  | apply {last : Bool} {e : Expr} {values : List Expr} {ls ms : List Lexeme}
    (callee : Written .call Bool.false e ls) (arguments : WrittenArguments values ms) :
    Written .call last (.apply e values) (ls ++ .symbol .leftParen :: ms)
  | brackets {last : Bool} {e : Expr} {ls : List Lexeme} (h : Written (.level .or) Bool.true e ls) :
    Written .call last e (.symbol .leftParen :: (ls ++ [.symbol .rightParen]))
  | text {last : Bool} (bytes : List UInt8) :
    Written .call last (.text (literalText bytes)) [.literal bytes]
  | number {last : Bool} (n : Numeral) : Written .call last (ofNumeral n) [.number n]
  | variableValue {last : Bool} (name : String) :
    Written .call last (.variableValue name) [.variableName name]
  | true {last : Bool} : Written .call last (.bool Bool.true) [.keyword .true]
  | false {last : Bool} : Written .call last (.bool Bool.false) [.keyword .false]
  | upper {last : Bool} : Written .call last (.builtin .upper) [.keyword .upper]
  | lower {last : Bool} : Written .call last (.builtin .lower) [.keyword .lower]
  | builtin {last : Bool} {name : String} {b : Builtin} (h : Builtin.ofWord? name = some b) :
    Written .call last (.builtin b) [.word name]
  | cases {last : Bool} {arms : List (Expr × Expr)} {otherwise : Option Expr} {ls ms : List Lexeme}
    (h : WrittenArms arms ls) (alternative : WrittenAlternative otherwise ms) :
    Written .call last (.cases arms otherwise)
      (.keyword .case :: (ls ++ (ms ++ [.keyword .«end»])))
  | function {names : List String} {e : Expr} {ls ms : List Lexeme}
    (parameters : ParametersForm ls names) (body : Written (.level .or) Bool.true e ms) :
    Written .call Bool.true (.function names e) (.keyword .func :: (ls ++ ms))

/-- Lexemes for arguments, with the closing bracket. -/
inductive WrittenArguments : List Expr → List Lexeme → Prop
  | none : WrittenArguments [] [.symbol .rightParen]
  | some {values : List Expr} {ls : List Lexeme} (h : WrittenValues values ls) :
    WrittenArguments values ls

/-- Lexemes for arguments, at least one, with the closing bracket. -/
inductive WrittenValues : List Expr → List Lexeme → Prop
  | last {e : Expr} {ls : List Lexeme} (value : Written (.level .or) Bool.true e ls) :
    WrittenValues [e] (ls ++ [.symbol .rightParen])
  | cons {e : Expr} {values : List Expr} {ls ms : List Lexeme}
    (value : Written (.level .or) Bool.true e ls) (others : WrittenValues values ms) :
    WrittenValues (e :: values) (ls ++ .symbol .comma :: ms)

/-- Lexemes for arms, at least one. -/
inductive WrittenArms : List (Expr × Expr) → List Lexeme → Prop
  | last {a b : Expr} {ls ms : List Lexeme} (guard : Written (.level .or) Bool.true a ls)
    (value : Written (.level .or) Bool.true b ms) :
    WrittenArms [(a, b)] (.keyword .when :: (ls ++ .keyword .«then» :: ms))
  | cons {a b : Expr} {others : List (Expr × Expr)} {ls ms ns : List Lexeme}
    (guard : Written (.level .or) Bool.true a ls) (value : Written (.level .or) Bool.true b ms)
    (h : WrittenArms others ns) :
    WrittenArms ((a, b) :: others) (.keyword .when :: (ls ++ .keyword .«then» :: (ms ++ ns)))

/-- Lexemes for what applies if no arm does. -/
inductive WrittenAlternative : Option Expr → List Lexeme → Prop
  | none : WrittenAlternative none []
  | some {e : Expr} {ls : List Lexeme} (h : Written (.level .or) Bool.true e ls) :
    WrittenAlternative (some e) (.keyword .otherwise :: ls)
end

end Expression

end WordPattern
