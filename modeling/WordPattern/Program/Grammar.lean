import WordPattern.Expr.Grammar
import WordPattern.Pattern.Grammar
import WordPattern.Program.Parser

/-!
# The grammar of programs

| Form        | Made of                                                              |
|-------------|----------------------------------------------------------------------|
| program     | statements one behind the other, or none                             |
| find        | `find`, an amount and a pattern                                      |
| replace     | `replace`, an amount and a pattern, and expressions behind `with`    |
| use         | `use`, and file names with commas between them                       |
| repeat      | `repeat`, a count and a statement                                    |
| set         | `set`, and `to` between a name and an expression or a pattern        |

Nothing stands between two statements: a statement ends where another one begins.
-/

namespace WordPattern.Statement

/-- Words for an amount. -/
inductive AmountForm : List Lexeme → Amount → Prop
  | all : AmountForm [.keyword .all] .all
  | top {l : Lexeme} {n : Nat} (count : l.IsCount n) : AmountForm [.keyword .top, l] (.top n)
  | take {l : Lexeme} {n : Nat} (count : l.IsCount n) : AmountForm [.keyword .take, l] (.top n)
  | skip {l : Lexeme} {n : Nat} (count : l.IsCount n) : AmountForm [.keyword .skip, l] ⟨n, none⟩
  | skipTake {l l' : Lexeme} {n most : Nat} (count : l.IsCount n) (count' : l'.IsCount most) :
    AmountForm [.keyword .skip, l, .keyword .take, l'] ⟨n, some most⟩

/-- File names with commas between them. -/
inductive PathsForm : List Lexeme → List String → Prop
  | last (bytes : List UInt8) : PathsForm [.literal bytes] [literalText bytes]
  | cons {ls : List Lexeme} {files : List String} (bytes : List UInt8)
    (others : PathsForm ls files) :
    PathsForm (.literal bytes :: .symbol .comma :: ls) (literalText bytes :: files)

/-- Expressions that stand side by side, each as long as it goes. -/
inductive ReplacementForm : List Lexeme → List Expr → Prop
  | last {ls : List Lexeme} {e : Expr} (h : Expression.Forms ls e) : ReplacementForm ls [e]
  | cons {ls ms : List Lexeme} {e : Expr} {others : List Expr}
    (first : Expression.Derives (.level .or) ls e ms) (h : ReplacementForm ms others) :
    ReplacementForm ls (e :: others)

/-- Lexemes spell a statement. -/
inductive Form : List Lexeme → Statement → Prop
  | find {ls ms : List Lexeme} {amount : Amount} {c : Chain} (hamount : AmountForm ls amount)
    (pattern : Pattern.ChainForm ms c) : Form (.keyword .find :: (ls ++ ms)) (.find amount c)
  | replace {ls ms ns : List Lexeme} {amount : Amount} {c : Chain} {values : List Expr}
    (hamount : AmountForm ls amount) (pattern : Pattern.ChainForm ms c)
    (replacement : ReplacementForm ns values) :
    Form (.keyword .replace :: (ls ++ (ms ++ .keyword .«with» :: ns))) (.replace amount c values)
  | use {ls : List Lexeme} {files : List String} (paths : PathsForm ls files) :
    Form (.keyword .use :: ls) (.use files)
  | «repeat» {l : Lexeme} {ls : List Lexeme} {n : Nat} {s : Statement} (count : l.IsCount n)
    (body : Form ls s) : Form (.keyword .«repeat» :: l :: ls) (.«repeat» n s)
  | setVariable {ls : List Lexeme} {e : Expr} (name : String) (value : Expression.Forms ls e) :
    Form (.keyword .set :: .variableName name :: .keyword .«to» :: ls) (.setVariable name e)
  | setSubroutine {ls : List Lexeme} {c : Chain} (name : String)
    (pattern : Pattern.ChainForm ls c) :
    Form (.keyword .set :: .subroutineName name :: .keyword .«to» :: .keyword .pattern :: ls)
      (.setSubroutine name c)

/-- Statements one behind the other. -/
inductive ListForm : List Lexeme → List Statement → Prop
  | nil : ListForm [] []
  | cons {ls ms : List Lexeme} {s : Statement} {others : List Statement} (first : Form ls s)
    (h : ListForm ms others) : ListForm (ls ++ ms) (s :: others)

/-- What stands behind a statement: nothing, or another one. -/
inductive Ending : List Lexeme → Prop
  | finish : Ending []
  | statement {k : Keyword} (h : k.BeginsStatement) (rest : List Lexeme) :
    Ending (.keyword k :: rest)

end WordPattern.Statement
