import WordPattern.Source.Error

/-!
# Reading off a token list

A parser takes tokens off the front of a list and returns a value with the tokens behind it. Its
type says that fewer are left, which is why every parser of the library ends.
-/

namespace WordPattern

/-- A value that was read, and the tokens behind it, fewer than `bound`. -/
structure Parsed (α : Type) (bound : Nat) where
  value : α
  rest : List Token
  shorter : rest.length < bound

/-- Where no token is taken, fewer than one more are left. -/
theorem length_lt_succ (ts : List Token) : ts.length < ts.length + 1 := Nat.lt_succ_self _

/-- The outcome of reading a value off the front of `ts`. -/
abbrev Parse (α : Type) (ts : List Token) := Except SyntaxError (Parsed α ts.length)

namespace Parsed

variable {α : Type} {t u : Token} {ts ts₁ : List Token}

/-- Reading from a later place is reading from an earlier one. -/
def widen {m n : Nat} (p : Parsed α m) (h : m ≤ n) : Parsed α n :=
  ⟨p.value, p.rest, Nat.lt_of_lt_of_le p.shorter h⟩

/-- Reading on where tokens have been read is reading from their front. -/
def past (h : ts₁.length < ts.length) (p : Parsed α ts₁.length) : Parsed α ts.length :=
  p.widen (Nat.le_of_lt h)

/-- Reading behind a token is reading from it on. -/
def behind (p : Parsed α ts.length) : Parsed α (t :: ts).length :=
  p.widen (Nat.le_succ _)

/-- Reading behind two tokens, be it nothing, is reading from the first one on. -/
def behindTwo (p : Parsed α (ts.length + 1)) : Parsed α ((t :: u :: ts).length + 1) :=
  p.widen (by simp only [List.length_cons]; omega)

/-- A value that one token stands for. -/
def single (value : α) (rest : List Token) : Parsed α (t :: rest).length :=
  ⟨value, rest, Nat.lt_succ_self _⟩

end Parsed

/-- The error of finding the wrong token, or none, at the front. -/
def unexpected (finish : Position) (wanted : Expectation) : List Token → SyntaxError
  | [] => ⟨.unexpected wanted none, finish⟩
  | t :: _ => ⟨.unexpected wanted (some t.lexeme), t.position⟩

/-- The tokens behind the first one. -/
def behindFirst (t : Token) (rest : List Token) :
    { more : List Token // more.length < (t :: rest).length } :=
  ⟨rest, Nat.lt_succ_self _⟩

/-- Takes one given lexeme off the front, if it stands there. -/
def eat? (l : Lexeme) : (ts : List Token) → Option { rest : List Token // rest.length < ts.length }
  | [] => none
  | t :: rest => if t.lexeme = l then some (behindFirst t rest) else none

/-- Takes a keyword off the front. -/
def expectKeyword (finish : Position) (k : Keyword) (ts : List Token) : Parse Unit ts :=
  match eat? (.keyword k) ts with
  | some ⟨rest, h⟩ => .ok ⟨(), rest, h⟩
  | none => .error (unexpected finish (.keyword k) ts)

/-- Takes a mark off the front. -/
def expectSymbol (finish : Position) (s : Symbol) (ts : List Token) : Parse Unit ts :=
  match eat? (.symbol s) ts with
  | some ⟨rest, h⟩ => .ok ⟨(), rest, h⟩
  | none => .error (unexpected finish (.symbol s) ts)

/-- Counts lie below this bound. -/
def countBound : Nat := Nat.pow 2 64

/-- The count that a number stands for: it has no fraction and is not too large. -/
def Numeral.count? (n : Numeral) : Option Nat :=
  let value := n.whole.foldl (fun value c => value * 10 + (c.toNat - '0'.toNat)) 0
  if n.fraction.isNone && value < countBound then some value else none

/-- Takes a count off the front. -/
def expectCount (finish : Position) : (ts : List Token) → Parse Nat ts
  | ⟨.number n, position⟩ :: rest =>
    match n.count? with
    | some value => .ok (.single value rest)
    | none => .error ⟨.notWhole n, position⟩
  | ts => .error (unexpected finish .number ts)

/-- Takes a literal off the front. -/
def expectLiteral (finish : Position) : (ts : List Token) → Parse (List UInt8) ts
  | ⟨.literal bytes, _⟩ :: rest => .ok (.single bytes rest)
  | ts => .error (unexpected finish .literal ts)

theorem Numeral.count?_lt {n : Numeral} {value : Nat} (h : n.count? = some value) :
    value < countBound := by
  simp only [Numeral.count?] at h
  split at h <;> simp_all

end WordPattern
