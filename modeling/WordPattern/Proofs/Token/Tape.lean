import WordPattern.Proofs.Token.Reads
import WordPattern.Token.Tape

/-!
# Tapes and token lists

Reading off a tape follows a parser of token lists: on the tokens that stand ahead of the place, it
has the outcome of the parser, and it passes the tokens that the parser takes. The parser takes a
token where it succeeds, so the place moves on.
-/

namespace WordPattern

/-! ## Outcomes -/

namespace OnTape

variable {α β : Type} {m : OnTape α} {g : α → OnTape β} {a : α} {e : SyntaxError} {i j : Nat}

@[simp] theorem from?_pure : (pure a : OnTape α).from? i = some (.ok (a, i)) := rfl

@[simp] theorem from?_throw : (throw e : OnTape α).from? i = some (.error e) := rfl

theorem from?_bind_of_ok (h : m.from? i = some (.ok (a, j))) :
    (m >>= g).from? i = (g a).from? j := by
  have hm : m i = some (.ok (a, j)) := h
  show (m >>= g) i = g a j
  simp only [bind, StateT.bind, ExceptT.bind, ExceptT.mk, hm]
  rfl

theorem from?_bind_of_error (h : m.from? i = some (.error e)) :
    (m >>= g).from? i = some (.error e) := by
  have hm : m i = some (.error e) := h
  show (m >>= g) i = some (.error e)
  simp only [bind, StateT.bind, ExceptT.bind, ExceptT.mk, hm]
  rfl

theorem Gives.bind {r : Nat → OnTape α} {g : Nat → α → OnTape β}
    {outcome : Except SyntaxError (β × Nat)} (h : Gives r i (.ok (a, j)))
    (hg : Gives (fun fuel => g fuel a) j outcome) :
    Gives (fun fuel => r fuel >>= g fuel) i outcome :=
  h.both hg fun _ hr hg => (from?_bind_of_ok hr).trans hg

theorem Gives.bind_error {r : Nat → OnTape α} {g : Nat → α → OnTape β}
    (h : Gives r i (.error e)) : Gives (fun fuel => r fuel >>= g fuel) i (.error e) :=
  h.imp fun _ hr => from?_bind_of_error hr

end OnTape

namespace Tape

variable {tape : Tape} {finish : Position} {i j k : Nat} {t : Token} {ts rest : List Token}

/-! ## What stands ahead of a place -/

theorem passed_refl : tape.Passed i i :=
  ⟨Nat.le_refl i, fun _ hi hj => absurd hj (Nat.not_lt.mpr hi)⟩

theorem Passed.trans (h : tape.Passed i j) (h' : tape.Passed j k) : tape.Passed i k := by
  refine ⟨Nat.le_trans h.1 h'.1, fun n hi hk => ?_⟩
  rcases Nat.lt_or_ge n j with hj | hj
  · exact h.2 n hi hj
  · exact h'.2 n hj hk

/-- The tokens from a place up to the next mark, and the place in the source that the mark has. -/
def Ahead (tape : Tape) (finish : Position) (i : Nat) (ts : List Token) : Prop :=
  ∃ back, tape.drop i = ts.map Token.entry ++ ⟨none, finish⟩ :: back

/-- The entry in front of some tokens and a mark. -/
def frontEntry (finish : Position) : List Token → Entry
  | [] => ⟨none, finish⟩
  | t :: _ => t.entry

namespace Ahead

theorem getElem?_eq (h : tape.Ahead finish i ts) : tape[i]? = some (frontEntry finish ts) := by
  obtain ⟨back, hback⟩ := h
  rw [← List.head?_drop, hback]
  cases ts <;> rfl

theorem lt_length (h : tape.Ahead finish i ts) : i < tape.length :=
  (List.getElem?_eq_some_iff.mp h.getElem?_eq).1

theorem tail (h : tape.Ahead finish i (t :: ts)) : tape.Ahead finish (i + 1) ts := by
  obtain ⟨back, hback⟩ := h
  refine ⟨back, ?_⟩
  rw [← List.drop_drop, hback]
  rfl

theorem passed (h : tape.Ahead finish i (t :: ts)) : tape.Passed i (i + 1) := by
  refine ⟨Nat.le_succ i, fun k hi hk => ⟨t, ?_⟩⟩
  obtain rfl := Nat.le_antisymm hi (Nat.le_of_lt_succ hk)
  exact h.getElem?_eq

theorem unique (h : tape.Ahead finish i ts) (h' : tape.Ahead finish i rest) : ts = rest := by
  have hfront : frontEntry finish ts = frontEntry finish rest :=
    Option.some.inj (h.getElem?_eq.symm.trans h'.getElem?_eq)
  induction ts generalizing i rest with
  | nil =>
    cases rest with
    | nil => rfl
    | cons u rest => cases hfront
  | cons t ts ih =>
    cases rest with
    | nil => cases hfront
    | cons u rest =>
      obtain rfl : t = u := by
        cases t
        cases u
        cases hfront
        rfl
      have hnext : frontEntry finish ts = frontEntry finish rest :=
        Option.some.inj (h.tail.getElem?_eq.symm.trans h'.tail.getElem?_eq)
      rw [ih h.tail h'.tail hnext]

theorem peek (h : tape.Ahead finish i ts) :
    tape.peek.from? i = some (.ok (frontEntry finish ts, i)) := by
  have hlast : min i (tape.length - 1) = i := Nat.min_eq_left (Nat.le_pred_of_lt h.lt_length)
  have hentry := h.getElem?_eq
  rw [← hlast] at hentry
  simp only [Tape.peek, OnTape.from?, StateT.run_bind, StateT.run_get, pure_bind, hentry]
  rfl

theorem peekLexeme (h : tape.Ahead finish i ts) :
    tape.peekLexeme.from? i = some (.ok (ts.head?.map Token.lexeme, i)) := by
  rw [Tape.peekLexeme, OnTape.from?_bind_of_ok h.peek]
  cases ts <;> rfl

theorem next (h : tape.Ahead finish i (t :: ts)) :
    tape.next.from? i = some (.ok ((), i + 1)) := by
  rw [Tape.next, OnTape.from?_bind_of_ok h.peekLexeme]
  rfl

theorem eat_self {l : Lexeme} {position : Position}
    (h : tape.Ahead finish i (⟨l, position⟩ :: ts)) :
    (tape.eat l).from? i = some (.ok (true, i + 1)) := by
  rw [Tape.eat, OnTape.from?_bind_of_ok h.peekLexeme]
  simp only [List.head?_cons, Option.map_some, if_true]
  exact (OnTape.from?_bind_of_ok h.next).trans OnTape.from?_pure

theorem eat_none {l : Lexeme} (h : tape.Ahead finish i ts) (hl : eat? l ts = none) :
    (tape.eat l).from? i = some (.ok (false, i)) := by
  have hne : ts.head?.map Token.lexeme ≠ some l := by
    have hhead := eat?_eq_none_iff.mp hl
    rwa [lexemes, List.head?_map] at hhead
  rw [Tape.eat, OnTape.from?_bind_of_ok h.peekLexeme, if_neg hne]
  rfl

theorem unexpected {α : Type} {wanted : Expectation} (h : tape.Ahead finish i ts) :
    (tape.unexpected wanted : OnTape α).from? i =
      some (.error (WordPattern.unexpected finish wanted ts)) := by
  rw [Tape.unexpected, OnTape.from?_bind_of_ok h.peek]
  cases ts <;> rfl

end Ahead

/-! ## Following a parser -/

/-- Reading from a place on has the outcome of a parser of token lists, with its value changed by
`f`. -/
def Follows {α β : Type} {n : Nat} (tape : Tape) (finish : Position) (i : Nat) (m : Nat → OnTape α)
    (f : β → α) (outcome : Except SyntaxError (Parsed β n)) : Prop :=
  match outcome with
  | .ok p =>
    ∃ j, OnTape.Gives m i (.ok (f p.value, j)) ∧ tape.Passed i j ∧ tape.Ahead finish j p.rest
  | .error e => OnTape.Gives m i (.error e)

variable {α β γ δ : Type} {m n : Nat}

namespace Follows

theorem bind {r : Nat → OnTape α} {g : Nat → α → OnTape γ} {f : β → α} {f' : δ → γ}
    {outcome : Except SyntaxError (Parsed β m)}
    {q : Parsed β m → Except SyntaxError (Parsed δ n)} (h : Follows tape finish i r f outcome)
    (hq : ∀ value rest hrest j, tape.Ahead finish j rest →
      Follows tape finish j (fun fuel => g fuel (f value)) f' (q ⟨value, rest, hrest⟩)) :
    Follows tape finish i (fun fuel => r fuel >>= g fuel) f' (outcome >>= q) := by
  cases outcome with
  | error e => exact OnTape.Gives.bind_error h
  | ok p =>
    obtain ⟨j, hr, hpassed, hahead⟩ := h
    have hmore := hq p.value p.rest p.shorter j hahead
    show Follows tape finish i (fun fuel => r fuel >>= g fuel) f' (q p)
    cases hp : q p with
    | error e =>
      rw [hp] at hmore
      exact hr.bind hmore
    | ok p' =>
      rw [hp] at hmore
      obtain ⟨k, hg, hpassed', hahead'⟩ := hmore
      exact ⟨k, hr.bind hg, hpassed.trans hpassed', hahead'⟩

/-- A step of the parser for which nothing is read. -/
theorem map {r : Nat → OnTape α} {f : β → α} {f' : δ → α}
    {outcome : Except SyntaxError (Parsed β m)}
    {q : Parsed β m → Except SyntaxError (Parsed δ n)} (h : Follows tape finish i r f outcome)
    (hq : ∀ p, ∃ p', q p = .ok p' ∧ p'.rest = p.rest ∧ f' p'.value = f p.value) :
    Follows tape finish i r f' (outcome >>= q) := by
  cases outcome with
  | error e => exact h
  | ok p =>
    obtain ⟨j, hr, hpassed, hahead⟩ := h
    obtain ⟨p', hp, hrest, hvalue⟩ := hq p
    show Follows tape finish i r f' (q p)
    rw [hp]
    exact ⟨j, hvalue ▸ hr, hpassed, hrest ▸ hahead⟩

theorem widen {r : Nat → OnTape α} {f : β → α} {outcome : Except SyntaxError (Parsed β m)}
    (h : Follows tape finish i r f outcome) (hle : m ≤ n) :
    Follows tape finish i r f (do return (← outcome).widen hle) :=
  h.map fun _ => ⟨_, rfl, rfl, rfl⟩

/-- A token that the parser takes, and that has been passed before. -/
theorem behind {r : Nat → OnTape α} {f : δ → α} {p : Parsed β m}
    {q : Parsed β m → Except SyntaxError (Parsed δ n)} (h : Follows tape finish i r f (q p)) :
    Follows tape finish i r f (.ok p >>= q) := h

/-- A call makes the calls inside it with one less. -/
theorem of_succ {r : Nat → OnTape α} {f : β → α} {outcome : Except SyntaxError (Parsed β n)}
    (h : Follows tape finish i (fun fuel => r (fuel + 1)) f outcome) :
    Follows tape finish i r f outcome := by
  cases outcome with
  | error e => exact EndsIn.of_succ h
  | ok p =>
    obtain ⟨j, hr, hpassed, hahead⟩ := h
    exact ⟨j, EndsIn.of_succ hr, hpassed, hahead⟩

/-- A step on the tape for which the parser does nothing. -/
theorem after {r : Nat → OnTape α} {g : Nat → α → OnTape γ} {a : α} {f : β → γ}
    {outcome : Except SyntaxError (Parsed β n)} (hr : OnTape.Gives r i (.ok (a, j)))
    (hpassed : tape.Passed i j) (h : Follows tape finish j (fun fuel => g fuel a) f outcome) :
    Follows tape finish i (fun fuel => r fuel >>= g fuel) f outcome := by
  cases outcome with
  | error e => exact hr.bind h
  | ok p =>
    obtain ⟨k, hg, hpassed', hahead⟩ := h
    exact ⟨k, hr.bind hg, hpassed.trans hpassed', hahead⟩

theorem step {r : OnTape α} {g : Nat → α → OnTape γ} {a : α} {f : β → γ}
    {outcome : Except SyntaxError (Parsed β n)} (hr : r.from? i = some (.ok (a, j)))
    (hpassed : tape.Passed i j) (h : Follows tape finish j (fun fuel => g fuel a) f outcome) :
    Follows tape finish i (fun fuel => r >>= g fuel) f outcome :=
  .after (.of_eq fun _ => hr) hpassed h

theorem done {a : α} {f : β → α} {p : Parsed β n} (h : tape.Ahead finish i p.rest)
    (ha : a = f p.value) : Follows tape finish i (fun _ => pure a) f (.ok p) := by
  rw [ha]
  exact ⟨i, .of_eq fun _ => rfl, passed_refl, h⟩

theorem thrown {f : β → α} {e : SyntaxError} :
    Follows tape finish i (fun _ => throw e) f (.error e : Except SyntaxError (Parsed β n)) :=
  .of_eq fun _ => rfl

theorem unexpected {f : β → α} {wanted : Expectation} (h : tape.Ahead finish i ts) :
    Follows tape finish i (fun _ => tape.unexpected wanted) f
      (.error (WordPattern.unexpected finish wanted ts) : Except SyntaxError (Parsed β n)) :=
  .of_eq fun _ => h.unexpected

variable {r : OnTape α} {g : Nat → Option Lexeme → OnTape α} {f : β → α} {l : Lexeme}
  {position : Position} {outcome : Except SyntaxError (Parsed β n)}

theorem peekLexeme (h : tape.Ahead finish i ts)
    (hg : Follows tape finish i (fun fuel => g fuel (ts.head?.map Token.lexeme)) f outcome) :
    Follows tape finish i (fun fuel => tape.peekLexeme >>= g fuel) f outcome :=
  .step h.peekLexeme passed_refl hg

theorem next {g : Nat → Unit → OnTape α} (h : tape.Ahead finish i (t :: ts))
    (hg : tape.Ahead finish (i + 1) ts →
      Follows tape finish (i + 1) (fun fuel => g fuel ()) f outcome) :
    Follows tape finish i (fun fuel => tape.next >>= g fuel) f outcome :=
  .step h.next h.passed (hg h.tail)

/-- The lexeme that is looked for stands at the place. -/
theorem eaten {yes no : Nat → OnTape α} (h : tape.Ahead finish i (⟨l, position⟩ :: ts))
    (hyes : tape.Ahead finish (i + 1) ts → Follows tape finish (i + 1) yes f outcome) :
    Follows tape finish i
      (fun fuel => tape.eat l >>= fun b => if b = true then yes fuel else no fuel) f outcome :=
  .step h.eat_self h.passed (hyes h.tail)

/-- The lexeme that is looked for does not stand at the place. -/
theorem missed {yes no : Nat → OnTape α} (h : tape.Ahead finish i ts) (hl : eat? l ts = none)
    (hno : Follows tape finish i no f outcome) :
    Follows tape finish i
      (fun fuel => tape.eat l >>= fun b => if b = true then yes fuel else no fuel) f outcome :=
  .step (h.eat_none hl) passed_refl hno

end Follows

/-! ## Single tokens -/

theorem eat?_of_forall_ne {l : Lexeme} (hl : ∀ position rest, ts ≠ ⟨l, position⟩ :: rest) :
    eat? l ts = none := by
  cases heat : eat? l ts with
  | none => rfl
  | some taken =>
    obtain ⟨rest, hrest⟩ := taken
    obtain ⟨position, hts⟩ := of_eat?_eq_some heat
    exact absurd hts (hl position rest)

theorem follows_expectKeyword {k : Keyword} (h : tape.Ahead finish i ts) :
    Follows tape finish i (fun _ => tape.expectKeyword k) (fun u => u)
      (WordPattern.expectKeyword finish k ts) := by
  rw [Tape.expectKeyword, WordPattern.expectKeyword]
  split
  · rename_i rest hrest heat
    obtain ⟨position, rfl⟩ := of_eat?_eq_some heat
    exact .eaten h fun h => .done h rfl
  · rename_i heat
    exact .missed h heat (.unexpected h)

theorem expectKeyword_self {k : Keyword} {position : Position} :
    WordPattern.expectKeyword finish k (⟨.keyword k, position⟩ :: ts) = .ok (.single () ts) := by
  rw [WordPattern.expectKeyword, eat?_cons_self]
  rfl

theorem follows_expectSymbol {s : Symbol} (h : tape.Ahead finish i ts) :
    Follows tape finish i (fun _ => tape.expectSymbol s) (fun u => u)
      (WordPattern.expectSymbol finish s ts) := by
  rw [Tape.expectSymbol, WordPattern.expectSymbol]
  split
  · rename_i rest hrest heat
    obtain ⟨position, rfl⟩ := of_eat?_eq_some heat
    exact .eaten h fun h => .done h rfl
  · rename_i heat
    exact .missed h heat (.unexpected h)

theorem follows_expectLiteral (h : tape.Ahead finish i ts) :
    Follows tape finish i (fun _ => tape.expectLiteral) (fun bytes => bytes)
      (WordPattern.expectLiteral finish ts) := by
  rcases ts with _ | ⟨⟨l, position⟩, rest⟩
  · exact .peekLexeme h (.unexpected h)
  · cases l with
    | literal bytes => exact .peekLexeme h (.next h fun h => .done h rfl)
    | _ => exact .peekLexeme h (.unexpected h)

theorem follows_expectCount (h : tape.Ahead finish i ts) :
    Follows tape finish i (fun _ => tape.expectCount) (fun n => n)
      (WordPattern.expectCount finish ts) := by
  rcases ts with _ | ⟨⟨l, position⟩, rest⟩
  · exact .step h.peek passed_refl (.unexpected h)
  · cases l with
    | number n =>
      refine .step h.peek passed_refl ?_
      simp only [WordPattern.expectCount, frontEntry, Token.entry]
      cases n.count? with
      | none => exact .thrown
      | some value => exact .next h fun h => .done h rfl
    | _ => exact .step h.peek passed_refl (.unexpected h)

/-! ## Progress -/

theorem returns_here {r : Nat → OnTape α} {a : α} (h : OnTape.Gives r i (.ok (a, i))) :
    tape.Returns r i := by
  refine ⟨_, h, ?_⟩
  rintro a j ⟨⟩
  exact passed_refl

theorem Follows.returns {r : Nat → OnTape α} {f : β → α}
    {outcome : Except SyntaxError (Parsed β n)}
    (h : Follows tape finish i r f outcome) : tape.Returns r i := by
  cases outcome with
  | error e =>
    refine ⟨_, h, ?_⟩
    rintro a j ⟨⟩
  | ok p =>
    obtain ⟨j, hr, hpassed, -⟩ := h
    refine ⟨_, hr, ?_⟩
    rintro a k ⟨⟩
    exact hpassed

/-- A parser that succeeds leaves fewer tokens, so it has gone on from its place. -/
theorem Follows.advances {r : Nat → OnTape α} {f : β → α} {outcome : Parse β ts}
    (h : Follows tape finish i r f outcome) (hahead : tape.Ahead finish i ts) :
    tape.Advances r i := by
  cases outcome with
  | error e =>
    refine ⟨_, h, ?_⟩
    rintro a j ⟨⟩
  | ok p =>
    obtain ⟨j, hr, hpassed, hrest⟩ := h
    refine ⟨_, hr, ?_⟩
    rintro a k ⟨⟩
    refine ⟨Nat.lt_of_le_of_ne hpassed.1 ?_, hpassed⟩
    rintro rfl
    exact absurd (congrArg List.length (hahead.unique hrest)) (Nat.ne_of_gt p.shorter)

theorem exists_mark : {list : List Entry} → (∃ position, list.getLast? = some ⟨none, position⟩) →
    ∃ finish, ∃ ts : List Token, ∃ back, list = ts.map Token.entry ++ ⟨none, finish⟩ :: back
  | [], h => by
    obtain ⟨position, hlast⟩ := h
    cases hlast
  | ⟨none, finish⟩ :: back, _ => ⟨finish, [], back, rfl⟩
  | ⟨some l, position⟩ :: more, h => by
    cases more with
    | nil =>
      obtain ⟨position, hlast⟩ := h
      cases hlast
    | cons entry more =>
      obtain ⟨finish, ts, back, hmore⟩ := @exists_mark (entry :: more) (by simpa using h)
      exact ⟨finish, ⟨l, position⟩ :: ts, back, by rw [hmore]; rfl⟩

/-- From every place on a tape that ends with a mark, tokens stand ahead up to a mark. -/
theorem Ends.exists_ahead (h : tape.Ends) (hi : i < tape.length) :
    ∃ finish ts, tape.Ahead finish i ts := by
  obtain ⟨position, hlast⟩ := h
  refine exists_mark ⟨position, ?_⟩
  rw [List.getLast?_drop, if_neg (Nat.not_le.mpr hi), hlast]

end Tape

theorem Tokens.ahead (tokens : Tokens) : tokens.tape.Ahead tokens.finish 0 tokens.list := ⟨[], rfl⟩

end WordPattern
