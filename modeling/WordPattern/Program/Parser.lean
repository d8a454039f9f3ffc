import WordPattern.Expr.Parser
import WordPattern.Pattern.Parser
import WordPattern.Program.Basic
import WordPattern.Token.Lexer

/-!
# Reading programs

A source text is cut into tokens, and these are read as statements up to the end.
-/

namespace WordPattern

/-- Reads an amount: `all`, `top N`, `take N`, `skip N` or `skip N take M`. -/
def Amount.parse (finish : Position) (ts : List Token) : Parse Amount ts :=
  match ts with
  | ⟨.keyword .all, _⟩ :: rest => .ok (.single .all rest)
  | ⟨.keyword .top, _⟩ :: rest => do
    let ⟨n, ts₁, h₁⟩ ← expectCount finish rest
    return .behind ⟨.top n, ts₁, h₁⟩
  | ⟨.keyword .take, _⟩ :: rest => do
    let ⟨n, ts₁, h₁⟩ ← expectCount finish rest
    return .behind ⟨.top n, ts₁, h₁⟩
  | ⟨.keyword .skip, _⟩ :: rest => do
    let ⟨skip, ts₁, h₁⟩ ← expectCount finish rest
    match eat? (.keyword .take) ts₁ with
    | none => return .behind ⟨⟨skip, none⟩, ts₁, h₁⟩
    | some ⟨ts₂, h₂⟩ =>
      let ⟨most, ts₃, h₃⟩ ← expectCount finish ts₂
      return .behind (.past h₁ (.past h₂ ⟨⟨skip, some most⟩, ts₃, h₃⟩))
  | ts => .error (unexpected finish .amount ts)

namespace Statement

variable (finish : Position)

/-- Reads file names with commas between them. -/
def paths (ts : List Token) : Parse (List String) ts := do
  let ⟨bytes, ts₁, h₁⟩ ← expectLiteral finish ts
  match eat? (.symbol .comma) ts₁ with
  | none => return ⟨[literalText bytes], ts₁, h₁⟩
  | some ⟨ts₂, _⟩ =>
    let ⟨others, ts₃, _⟩ ← paths ts₂
    return ⟨literalText bytes :: others, ts₃, by omega⟩
termination_by ts.length

/-- Reads what follows `set`. -/
def setting (ts : List Token) : Parse Statement ts :=
  match ts with
  | ⟨.variableName name, _⟩ :: rest => do
    let ⟨_, ts₁, h₁⟩ ← expectKeyword finish .«to» rest
    let ⟨value, ts₂, h₂⟩ ← Expr.parse finish ts₁
    return .behind (.past h₁ ⟨.setVariable name value, ts₂, h₂⟩)
  | ⟨.subroutineName name, _⟩ :: rest => do
    let ⟨_, ts₁, h₁⟩ ← expectKeyword finish .«to» rest
    let ⟨_, ts₂, h₂⟩ ← expectKeyword finish .pattern ts₁
    let ⟨pattern, ts₃, h₃⟩ ← Chain.parse finish ts₂
    return .behind (.past h₁ (.past h₂ ⟨.setSubroutine name pattern, ts₃, h₃⟩))
  | ts => .error (unexpected finish .setTarget ts)

/-- Reads a statement. -/
def parse (ts : List Token) : Parse Statement ts :=
  match ts with
  | ⟨.keyword .find, _⟩ :: rest => do
    let ⟨amount, ts₁, _⟩ ← Amount.parse finish rest
    let ⟨pattern, ts₂, _⟩ ← Chain.parse finish ts₁
    return ⟨.find amount pattern, ts₂, by simp only [List.length_cons]; omega⟩
  | ⟨.keyword .replace, _⟩ :: rest => do
    let ⟨amount, ts₁, _⟩ ← Amount.parse finish rest
    let ⟨pattern, ts₂, _⟩ ← Chain.parse finish ts₁
    let ⟨_, ts₃, _⟩ ← expectKeyword finish .«with» ts₂
    let ⟨replacement, ts₄, _⟩ ← Expr.parseAll finish ts₃
    return ⟨.replace amount pattern replacement, ts₄, by simp only [List.length_cons]; omega⟩
  | ⟨.keyword .use, _⟩ :: rest => do
    let ⟨files, ts₁, h₁⟩ ← paths finish rest
    return .behind ⟨.use files, ts₁, h₁⟩
  | ⟨.keyword .«repeat», _⟩ :: rest => do
    let ⟨times, ts₁, _⟩ ← expectCount finish rest
    let ⟨body, ts₂, _⟩ ← parse ts₁
    return ⟨.«repeat» times body, ts₂, by simp only [List.length_cons]; omega⟩
  | ⟨.keyword .set, _⟩ :: rest => do
    return (← setting finish rest).behind
  | ts => .error (unexpected finish .statement ts)
termination_by ts.length

/-- Reads statements up to the end. -/
def parseAll (ts : List Token) : Except SyntaxError (List Statement) :=
  match ts with
  | [] => .ok []
  | t :: rest => do
    let ⟨first, more, _shorter⟩ ← parse finish (t :: rest)
    return first :: (← parseAll more)
termination_by ts.length
decreasing_by exact _shorter

end Statement

/-- The program that some tokens are read as. -/
def Program.ofTokens (tokens : Tokens) : Except SyntaxError Program := do
  return ⟨← Statement.parseAll tokens.finish tokens.list⟩

/-- The program of a source text. -/
def Program.ofSource (source : String) : Except SyntaxError Program := do
  Program.ofTokens (← Tokens.ofSource source)

end WordPattern
