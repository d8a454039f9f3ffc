import WordPattern.Pattern.Forest
import WordPattern.Program.Parser

/-!
# Programs laid out

The patterns of a program can be laid out in one arena, one behind the other. A statement then
refers to the first cell of its pattern, and the patterns make a forest of cells.
-/

namespace WordPattern

/-- A statement whose patterns are told by the numbers of their first cells. -/
inductive Statement.Stored where
  | find (amount : Amount) (pattern : Nat)
  | replace (amount : Amount) (pattern : Nat) (replacement : List Expr)
  | use (paths : List String)
  | «repeat» (times : Nat) (body : Stored)
  | setVariable (name : String) (value : Expr)
  | setSubroutine (name : String) (pattern : Nat)

/-- Statements, and the arena of their patterns. -/
structure Program.Stored where
  statements : List Statement.Stored
  arena : Arena

/-! ## Laying out a program -/

namespace Statement

/-- Refers to cells whose numbers are larger by `d`. -/
def Stored.shift (d : Nat) : Stored → Stored
  | find amount pattern => find amount (pattern + d)
  | replace amount pattern replacement => replace amount (pattern + d) replacement
  | «repeat» times body => «repeat» times (body.shift d)
  | setSubroutine name pattern => setSubroutine name (pattern + d)
  | s => s

/-- Lays out the pattern of a statement, if it has one. -/
def store : Statement → Arena → Stored × Arena
  | .find amount pattern, a =>
    let (id, a) := pattern.store a
    (.find amount id, a)
  | .replace amount pattern replacement, a =>
    let (id, a) := pattern.store a
    (.replace amount id replacement, a)
  | .use paths, a => (.use paths, a)
  | .«repeat» times body, a =>
    let (body, a) := body.store a
    (.«repeat» times body, a)
  | .setVariable name value, a => (.setVariable name value, a)
  | .setSubroutine name pattern, a =>
    let (id, a) := pattern.store a
    (.setSubroutine name id, a)

/-- Lays out the patterns of statements in their order. -/
def storeAll : List Statement → Arena → List Stored × Arena
  | [], a => ([], a)
  | s :: rest, a =>
    let (first, a) := s.store a
    let (others, a) := storeAll rest a
    (first :: others, a)

end Statement

namespace Program

/-- Lays out the patterns of a program. -/
def store (p : Program) : Stored :=
  let (statements, arena) := Statement.storeAll p.statements []
  ⟨statements, arena⟩

/-- The statements of the second program behind those of the first one, and its cells likewise. -/
def Stored.behind (first second : Stored) : Stored :=
  ⟨first.statements ++ second.statements.map (Statement.Stored.shift first.arena.length),
    first.arena.behind second.arena⟩

end Program

/-- The patterns of a statement stand in an arena, from the cells on that it refers to. -/
inductive Arena.HoldsStatement (a : Arena) : Statement.Stored → Statement → Prop
  | find {amount : Amount} {id : Nat} {c : Chain} (pattern : a.Holds id c) :
    HoldsStatement a (.find amount id) (.find amount c)
  | replace {amount : Amount} {id : Nat} {c : Chain} {values : List Expr} (pattern : a.Holds id c) :
    HoldsStatement a (.replace amount id values) (.replace amount c values)
  | use {paths : List String} : HoldsStatement a (.use paths) (.use paths)
  | «repeat» {n : Nat} {stored : Statement.Stored} {s : Statement}
    (body : HoldsStatement a stored s) : HoldsStatement a (.«repeat» n stored) (.«repeat» n s)
  | setVariable {name : String} {e : Expr} :
    HoldsStatement a (.setVariable name e) (.setVariable name e)
  | setSubroutine {name : String} {id : Nat} {c : Chain} (pattern : a.Holds id c) :
    HoldsStatement a (.setSubroutine name id) (.setSubroutine name c)

/-! ## Reading a program into an arena -/

namespace Arena

variable (finish : Position)

/-- Reads what follows `set`. -/
def setting (a : Arena) (ts : List Token) : Parse (Statement.Stored × Arena) ts :=
  match ts with
  | ⟨.variableName name, _⟩ :: rest => do
    let ⟨_, ts₁, h₁⟩ ← expectKeyword finish .«to» rest
    let ⟨value, ts₂, h₂⟩ ← Expr.parse finish ts₁
    return .behind (.past h₁ ⟨(.setVariable name value, a), ts₂, h₂⟩)
  | ⟨.subroutineName name, _⟩ :: rest => do
    let ⟨_, ts₁, h₁⟩ ← expectKeyword finish .«to» rest
    let ⟨_, ts₂, h₂⟩ ← expectKeyword finish .pattern ts₁
    let ⟨(head, a), ts₃, h₃⟩ ← chain finish a ts₂
    return .behind (.past h₁ (.past h₂ ⟨(.setSubroutine name head, a), ts₃, h₃⟩))
  | ts => .error (unexpected finish .setTarget ts)

/-- Reads a statement. -/
def statement (a : Arena) (ts : List Token) : Parse (Statement.Stored × Arena) ts :=
  match ts with
  | ⟨.keyword .find, _⟩ :: rest => do
    let ⟨amount, ts₁, _⟩ ← Amount.parse finish rest
    let ⟨(head, a), ts₂, _⟩ ← chain finish a ts₁
    return ⟨(.find amount head, a), ts₂, by simp only [List.length_cons]; omega⟩
  | ⟨.keyword .replace, _⟩ :: rest => do
    let ⟨amount, ts₁, _⟩ ← Amount.parse finish rest
    let ⟨(head, a), ts₂, _⟩ ← chain finish a ts₁
    let ⟨_, ts₃, _⟩ ← expectKeyword finish .«with» ts₂
    let ⟨replacement, ts₄, _⟩ ← Expr.parseAll finish ts₃
    return ⟨(.replace amount head replacement, a), ts₄, by simp only [List.length_cons]; omega⟩
  | ⟨.keyword .use, _⟩ :: rest => do
    let ⟨files, ts₁, h₁⟩ ← Statement.paths finish rest
    return .behind ⟨(.use files, a), ts₁, h₁⟩
  | ⟨.keyword .«repeat», _⟩ :: rest => do
    let ⟨times, ts₁, _⟩ ← expectCount finish rest
    let ⟨(body, a), ts₂, _⟩ ← statement a ts₁
    return ⟨(.«repeat» times body, a), ts₂, by simp only [List.length_cons]; omega⟩
  | ⟨.keyword .set, _⟩ :: rest => do
    return (← setting finish a rest).behind
  | ts => .error (unexpected finish .statement ts)
termination_by ts.length

/-- Reads statements up to the end. -/
def statements (a : Arena) (ts : List Token) :
    Except SyntaxError (List Statement.Stored × Arena) :=
  match ts with
  | [] => .ok ([], a)
  | t :: rest => do
    let ⟨(first, a), more, _shorter⟩ ← statement finish a (t :: rest)
    let (others, a) ← statements a more
    return (first :: others, a)
termination_by ts.length
decreasing_by exact _shorter

end Arena

/-- The program of a source text, with its patterns laid out. -/
def Program.Stored.ofSource (source : String) : Except SyntaxError Program.Stored := do
  let tokens ← Tokens.ofSource source
  let (statements, arena) ← Arena.statements tokens.finish [] tokens.list
  return ⟨statements, arena⟩

/-! ## Forests of programs -/

/-- The first cell of the pattern of a statement. -/
def Statement.Stored.head? : Stored → Option Nat
  | find _ pattern => some pattern
  | replace _ pattern _ => some pattern
  | use _ => none
  | «repeat» _ body => body.head?
  | setVariable .. => none
  | setSubroutine _ pattern => some pattern

namespace Program.Stored

/-- The numbers that the statements and the cells store. -/
def references (p : Stored) : List Nat :=
  p.statements.filterMap Statement.Stored.head? ++ p.arena.references

/-- Each cell has its place below a statement, a cell in front of it or a cell above it. -/
structure IsForest (p : Stored) : Prop where
  /-- Only cells are referred to. -/
  reference_lt : ∀ id ∈ p.references, id < p.arena.length
  /-- A single statement or a single cell refers to a cell. -/
  count_references : ∀ id < p.arena.length, p.references.count id = 1
  ordered : p.arena.Ordered
  unlinked : p.arena.Unlinked
  plainItems : p.arena.PlainItems

end Program.Stored

end WordPattern
