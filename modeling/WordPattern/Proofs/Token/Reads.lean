import WordPattern.Token.Count

/-!
# What has been read

A parser reads a value and leaves tokens behind it. Where the tokens stand in the source does not
matter for what is read, so what is read is said of their lexemes.
-/

namespace WordPattern

/-- What some tokens say, without their places. -/
def lexemes (ts : List Token) : List Lexeme := ts.map Token.lexeme

@[simp] theorem lexemes_nil : lexemes [] = [] := rfl

@[simp] theorem lexemes_cons (t : Token) (ts : List Token) :
    lexemes (t :: ts) = t.lexeme :: lexemes ts := rfl

@[simp] theorem lexemes_append (ts us : List Token) :
    lexemes (ts ++ us) = lexemes ts ++ lexemes us := List.map_append

@[simp] theorem length_lexemes (ts : List Token) : (lexemes ts).length = ts.length :=
  List.length_map _

theorem lexemes_eq_cons_iff {ts : List Token} {l : Lexeme} {ls : List Lexeme} :
    lexemes ts = l :: ls ↔ ∃ position rest, ts = ⟨l, position⟩ :: rest ∧ lexemes rest = ls := by
  constructor
  · intro h
    obtain ⟨⟨lexeme, position⟩, rest, rfl, rfl, hrest⟩ := List.map_eq_cons_iff.mp h
    exact ⟨position, rest, rfl, hrest⟩
  · rintro ⟨position, rest, rfl, rfl⟩
    rfl

theorem lexemes_eq_nil_iff {ts : List Token} : lexemes ts = [] ↔ ts = [] := List.map_eq_nil_iff

theorem lexemes_eq_append_iff {ts : List Token} {ls ms : List Lexeme} :
    lexemes ts = ls ++ ms ↔
      ∃ front back, ts = front ++ back ∧ lexemes front = ls ∧ lexemes back = ms :=
  List.map_eq_append_iff

/-- A value has been read, and these tokens are left. -/
def Reads {α : Type} {bound : Nat} (outcome : Except SyntaxError (Parsed α bound)) (value : α)
    (rest : List Token) : Prop :=
  ∃ h, outcome = .ok ⟨value, rest, h⟩

variable {α β : Type} {m n : Nat} {value value' : α} {rest rest' : List Token}

@[simp] theorem reads_ok {p : Parsed α n} :
    Reads (.ok p) value rest ↔ p.value = value ∧ p.rest = rest := by
  constructor
  · rintro ⟨h, heq⟩
    cases heq
    exact ⟨rfl, rfl⟩
  · rintro ⟨rfl, rfl⟩
    exact ⟨p.shorter, rfl⟩

@[simp] theorem reads_pure {p : Parsed α n} :
    Reads (pure p) value rest ↔ p.value = value ∧ p.rest = rest := reads_ok

@[simp] theorem not_reads_error {e : SyntaxError} :
    ¬Reads (.error e : Except SyntaxError (Parsed α n)) value rest := by
  rintro ⟨h, heq⟩
  cases heq

@[simp] theorem not_reads_throw {e : SyntaxError} :
    ¬Reads (throw e : Except SyntaxError (Parsed α n)) value rest := not_reads_error

/-- What is read in two steps is read by the second one behind the first. -/
theorem reads_bind {p : Except SyntaxError (Parsed α m)}
    {f : Parsed α m → Except SyntaxError (Parsed β n)} {value : β} :
    Reads (p >>= f) value rest ↔
      ∃ first mid, ∃ h : mid.length < m, Reads p first mid ∧
        Reads (f ⟨first, mid, h⟩) value rest := by
  constructor
  · intro hreads
    cases p with
    | error e => exact absurd hreads not_reads_error
    | ok x => exact ⟨x.value, x.rest, x.shorter, reads_ok.mpr ⟨rfl, rfl⟩, hreads⟩
  · rintro ⟨first, mid, _, ⟨_, rfl⟩, hreads⟩
    exact hreads

theorem Reads.bind {p : Except SyntaxError (Parsed α m)}
    {f : Parsed α m → Except SyntaxError (Parsed β n)} {first : α} {mid : List Token} {value : β}
    (h : Reads p first mid) (h' : ∀ hmid, Reads (f ⟨first, mid, hmid⟩) value rest) :
    Reads (p >>= f) value rest :=
  reads_bind.mpr ⟨first, mid, h.1, h, h' h.1⟩

theorem Reads.unique {p : Except SyntaxError (Parsed α n)} (h : Reads p value rest)
    (h' : Reads p value' rest') : value = value' ∧ rest = rest' := by
  obtain ⟨_, rfl⟩ := h
  obtain ⟨_, heq⟩ := h'
  cases heq
  exact ⟨rfl, rfl⟩

/-! ## Single tokens -/

theorem eat?_eq_none_iff {l : Lexeme} {ts : List Token} :
    eat? l ts = none ↔ (lexemes ts).head? ≠ some l := by
  cases ts with
  | nil => simp [eat?]
  | cons t rest =>
    rw [eat?]
    split <;> simp_all

theorem of_eat?_eq_some {l : Lexeme} {ts rest : List Token} {hrest : rest.length < ts.length}
    (h : eat? l ts = some ⟨rest, hrest⟩) : ∃ position, ts = ⟨l, position⟩ :: rest := by
  cases ts with
  | nil => cases h
  | cons t more =>
    rw [eat?] at h
    split at h
    · rename_i hl
      cases h
      obtain ⟨lexeme, position⟩ := t
      obtain rfl := hl
      exact ⟨position, rfl⟩
    · cases h

@[simp] theorem eat?_cons_self {l : Lexeme} {position : Position} {rest : List Token} :
    eat? l (⟨l, position⟩ :: rest) = some (behindFirst ⟨l, position⟩ rest) := if_pos rfl

variable {finish : Position} {ts : List Token}

theorem reads_eat {l : Lexeme} {e : SyntaxError} {u : Unit} :
    Reads (match eat? l ts with
      | some ⟨rest, h⟩ => .ok ⟨(), rest, h⟩
      | none => .error e : Parse Unit ts) u rest ↔ ∃ position, ts = ⟨l, position⟩ :: rest := by
  constructor
  · intro h
    split at h
    · rename_i heat
      obtain ⟨-, rfl⟩ := reads_ok.mp h
      exact of_eat?_eq_some heat
    · exact absurd h not_reads_error
  · rintro ⟨position, rfl⟩
    rw [eat?_cons_self]
    exact reads_ok.mpr ⟨rfl, rfl⟩

theorem reads_expectKeyword {k : Keyword} {u : Unit} :
    Reads (expectKeyword finish k ts) u rest ↔
      ∃ position, ts = ⟨.keyword k, position⟩ :: rest := reads_eat

theorem reads_expectSymbol {s : Symbol} {u : Unit} :
    Reads (expectSymbol finish s ts) u rest ↔
      ∃ position, ts = ⟨.symbol s, position⟩ :: rest := reads_eat

theorem reads_keyword {k : Keyword} {position : Position} :
    Reads (expectKeyword finish k (⟨.keyword k, position⟩ :: rest)) () rest :=
  reads_expectKeyword.mpr ⟨position, rfl⟩

theorem reads_symbol {s : Symbol} {position : Position} :
    Reads (expectSymbol finish s (⟨.symbol s, position⟩ :: rest)) () rest :=
  reads_expectSymbol.mpr ⟨position, rfl⟩

theorem reads_expectLiteral {bytes : List UInt8} :
    Reads (expectLiteral finish ts) bytes rest ↔
      ∃ position, ts = ⟨.literal bytes, position⟩ :: rest := by
  constructor
  · intro h
    unfold expectLiteral at h
    split at h
    · rename_i position more
      obtain ⟨rfl, rfl⟩ := reads_ok.mp h
      exact ⟨position, rfl⟩
    · exact absurd h not_reads_error
  · rintro ⟨position, rfl⟩
    exact reads_ok.mpr ⟨rfl, rfl⟩

theorem reads_expectCount {count : Nat} :
    Reads (expectCount finish ts) count rest ↔
      ∃ l position, ts = ⟨l, position⟩ :: rest ∧ l.IsCount count := by
  constructor
  · intro h
    unfold expectCount at h
    split at h
    · rename_i numeral position more
      split at h
      · rename_i hcount
        obtain ⟨rfl, rfl⟩ := reads_ok.mp h
        exact ⟨_, position, rfl, count?_eq_some_iff.mp hcount⟩
      · exact absurd h not_reads_error
    · exact absurd h not_reads_error
  · rintro ⟨l, position, rfl, hcount⟩
    cases hcount with
    | whole digits hlt =>
      have hcount : (Numeral.mk digits none).count? = some (decimalValue digits) :=
        count?_eq_some_iff.mpr (.whole digits hlt)
      simp [expectCount, hcount, Parsed.single]

/-! ## The tokens of a form -/

/-- Tokens that spell a form, with the rest behind them. -/
def Spelled (form : List Lexeme → Prop) (ts rest : List Token) : Prop :=
  ∃ front, ts = front ++ rest ∧ form (lexemes front)

namespace Spelled

variable {F G H : List Lexeme → Prop} {mid : List Token} {t : Token}

theorem imp (h : Spelled F ts rest) (himp : ∀ ls, F ls → G ls) : Spelled G ts rest := by
  obtain ⟨front, rfl, hF⟩ := h
  exact ⟨front, rfl, himp _ hF⟩

theorem token (h : F [t.lexeme]) : Spelled F (t :: rest) rest := ⟨[t], rfl, h⟩

theorem cons (h : Spelled F ts rest) (hcons : ∀ ls, F ls → G (t.lexeme :: ls)) :
    Spelled G (t :: ts) rest := by
  obtain ⟨front, rfl, hF⟩ := h
  exact ⟨t :: front, rfl, hcons _ hF⟩

theorem append (h : Spelled F ts mid) (h' : Spelled G mid rest)
    (happend : ∀ ls ms, F ls → G ms → H (ls ++ ms)) : Spelled H ts rest := by
  obtain ⟨front, rfl, hF⟩ := h
  obtain ⟨back, rfl, hG⟩ := h'
  refine ⟨front ++ back, (List.append_assoc ..).symm, ?_⟩
  rw [lexemes_append]
  exact happend _ _ hF hG

theorem around (h : Spelled F ts (t :: mid)) (h' : Spelled G mid rest)
    (haround : ∀ ls ms, F ls → G ms → H (ls ++ t.lexeme :: ms)) : Spelled H ts rest := by
  obtain ⟨front, rfl, hF⟩ := h
  obtain ⟨back, rfl, hG⟩ := h'
  refine ⟨front ++ t :: back, (List.append_assoc front (t :: back) rest).symm, ?_⟩
  rw [lexemes_append]
  exact haround _ _ hF hG

theorem extend (more : List Token) (h : Spelled F ts (more ++ rest))
    (hextend : ∀ ls, F ls → G (ls ++ lexemes more)) : Spelled G ts rest := by
  obtain ⟨front, rfl, hF⟩ := h
  refine ⟨front ++ more, (List.append_assoc ..).symm, ?_⟩
  rw [lexemes_append]
  exact hextend _ hF

end Spelled

/-- None of these lexemes stands at the front. -/
def Avoids (ls : List Lexeme) (ts : List Token) : Prop := ∀ l ∈ ls, (lexemes ts).head? ≠ some l

@[simp] theorem avoids_nil {ls : List Lexeme} : Avoids ls [] := fun _ _ => nofun

@[simp] theorem avoids_cons {ls : List Lexeme} {t : Token} :
    Avoids ls (t :: ts) ↔ t.lexeme ∉ ls := by
  constructor
  · exact fun h ht => h _ ht rfl
  · intro h l hl heq
    obtain rfl : t.lexeme = l := Option.some.inj heq
    exact h hl

theorem Avoids.mono {ls ms : List Lexeme} (h : Avoids ms ts) (hsub : ls ⊆ ms) : Avoids ls ts :=
  fun l hl => h l (hsub hl)

theorem Avoids.eat? {ls : List Lexeme} {l : Lexeme} (h : Avoids ls ts) (hl : l ∈ ls) :
    WordPattern.eat? l ts = none := eat?_eq_none_iff.mpr (h l hl)

end WordPattern
