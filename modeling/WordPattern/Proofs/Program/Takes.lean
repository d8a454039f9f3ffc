import WordPattern.Proofs.Program.Stacks
import WordPattern.Proofs.Token.Reads

/-!
# Parsers and stacks

A parser takes what is wanted on top of a stack and leaves what is below. Where it fails, the lexeme
at the place of the error is the first one that the stack does not take either, whatever is below.
-/

namespace WordPattern

open Wanted

/-- The place of the first of some tokens at the end of a source text, or that of the end. -/
def place (finish : Position) : List Token → Position
  | [] => finish
  | t :: _ => t.position

theorem position_unexpected (finish : Position) (wanted : Expectation) (ts : List Token) :
    (unexpected finish wanted ts).position = place finish ts := by
  cases ts <;> rfl

/-- The error is that of bounds in the wrong order, which is found at the first one. -/
def SyntaxError.IsCrossed (e : SyntaxError) : Prop :=
  ∃ least most, e.cause = .crossedBounds least most

/-- The error is found at the first token that `ws` does not take, whatever is wanted behind. -/
def Blames (finish : Position) (ws : List Wanted) (ts : List Token) (e : SyntaxError) : Prop :=
  ∃ back, back <:+ ts ∧ (e.IsCrossed ∨ e.position = place finish back) ∧
    ∀ k, firstWrong? (ws ++ k) (lexemes ts) = some (lexemes back)

/-- The outcome of reading `ts` is that of taking `ws`. -/
def Takes {α : Type} {bound : Nat} (finish : Position) (ws : List Wanted) (ts : List Token)
    (outcome : Except SyntaxError (Parsed α bound)) : Prop :=
  match outcome with
  | .ok p => p.rest <:+ ts ∧
    ∀ k, firstWrong? (ws ++ k) (lexemes ts) = firstWrong? k (lexemes p.rest)
  | .error e => Blames finish ws ts e

variable {α β : Type} {m n : Nat} {finish : Position} {w : Wanted} {ws vs : List Wanted}
  {t : Token} {ts rest : List Token} {e : SyntaxError}

/-! ## Parsers one behind the other -/

theorem exists_of_head? {t : Lexeme} (h : t ∈ (lexemes ts).head?) :
    ∃ position rest, ts = ⟨t, position⟩ :: rest := by
  obtain ⟨more, hmore⟩ := List.head?_eq_some_iff.mp h
  obtain ⟨position, rest, rfl, -⟩ := lexemes_eq_cons_iff.mp hmore
  exact ⟨position, rest, rfl⟩

theorem Blames.of_suffix (h : Blames finish vs rest e) (hrest : rest <:+ ts)
    (htake : ∀ k, firstWrong? (ws ++ k) (lexemes ts) = firstWrong? (vs ++ k) (lexemes rest)) :
    Blames finish ws ts e := by
  obtain ⟨back, hback, hplace, hwrong⟩ := h
  exact ⟨back, hback.trans hrest, hplace, fun k => (htake k).trans (hwrong k)⟩

theorem Blames.append (h : Blames finish ws ts e) (vs : List Wanted) :
    Blames finish (ws ++ vs) ts e := by
  obtain ⟨back, hback, hplace, hwrong⟩ := h
  exact ⟨back, hback, hplace, fun k => by rw [List.append_assoc, hwrong]⟩

namespace Takes

/-- What is wanted may be replaced by what takes the same lexemes. -/
theorem of_suffix {outcome : Except SyntaxError (Parsed α n)} (h : Takes finish vs rest outcome)
    (hrest : rest <:+ ts)
    (htake : ∀ k, firstWrong? (ws ++ k) (lexemes ts) = firstWrong? (vs ++ k) (lexemes rest)) :
    Takes finish ws ts outcome := by
  cases outcome with
  | ok p => exact ⟨h.1.trans hrest, fun k => (htake k).trans (h.2 k)⟩
  | error e => exact Blames.of_suffix h hrest htake

theorem done {p : Parsed α n} (h : p.rest = ts) : Takes finish [] ts (.ok p) := by
  subst h
  exact ⟨List.suffix_rfl, fun _ => rfl⟩

theorem bind {outcome : Except SyntaxError (Parsed α m)}
    {f : Parsed α m → Except SyntaxError (Parsed β n)} (h : Takes finish ws ts outcome)
    (vs : List Wanted) (hf : ∀ value rest hrest, Takes finish vs rest (f ⟨value, rest, hrest⟩)) :
    Takes finish (ws ++ vs) ts (outcome >>= f) := by
  cases outcome with
  | ok p =>
    refine (hf p.value p.rest p.shorter).of_suffix h.1 fun k => ?_
    rw [List.append_assoc, h.2]
  | error e => exact Blames.append h vs

theorem map {outcome : Except SyntaxError (Parsed α m)}
    {f : Parsed α m → Except SyntaxError (Parsed β n)} (h : Takes finish ws ts outcome)
    (hf : ∀ p, ∃ q, f p = .ok q ∧ q.rest = p.rest) : Takes finish ws ts (outcome >>= f) := by
  have hbind : Takes finish (ws ++ []) ts (outcome >>= f) := by
    refine h.bind [] fun value rest hshorter => ?_
    obtain ⟨q, hq, hrest⟩ := hf ⟨value, rest, hshorter⟩
    rw [hq]
    exact .done hrest
  rwa [List.append_nil] at hbind

/-- A token that begins what is wanted is taken. -/
theorem begin {outcome : Except SyntaxError (Parsed α n)} (ws : List Wanted)
    (hbegin : w.begin? t.lexeme = some ws) (h : Takes finish (ws ++ vs) rest outcome) :
    Takes finish (w :: vs) (t :: rest) outcome := by
  refine h.of_suffix (List.suffix_cons t rest) fun k => ?_
  rw [List.cons_append, lexemes_cons, firstWrong?_begin hbegin, List.append_assoc]

/-- What is wanted, but not there, is left out. -/
theorem idle {outcome : Except SyntaxError (Parsed α n)}
    (hidle : w.idle (lexemes ts).head? = true) (h : Takes finish vs ts outcome) :
    Takes finish (w :: vs) ts outcome :=
  h.of_suffix List.suffix_rfl fun _ => firstWrong?_idle hidle

/-- What does not begin what is wanted is the first wrong token. -/
theorem refuse (hplace : e.IsCrossed ∨ e.position = place finish ts)
    (hbegin : ∀ t ∈ (lexemes ts).head?, w.begin? t = none)
    (hmiss : w.mayMiss (lexemes ts).head? = false) :
    Takes finish (w :: vs) ts (.error e : Except SyntaxError (Parsed α n)) :=
  ⟨ts, List.suffix_rfl, hplace, fun _ => firstWrong?_wrong hbegin hmiss⟩

theorem unexpected {wanted : Expectation} (hbegin : ∀ t ∈ (lexemes ts).head?, w.begin? t = none)
    (hmiss : w.mayMiss (lexemes ts).head? = false) :
    Takes finish (w :: vs) ts
      (.error (unexpected finish wanted ts) : Except SyntaxError (Parsed α n)) :=
  .refuse (.inr (position_unexpected ..)) hbegin hmiss

/-- A token that a parser has no case for begins nothing. -/
theorem unmatched {wanted : Expectation}
    (hbegin : ∀ t position rest, ts = ⟨t, position⟩ :: rest → w.begin? t = none)
    (hmiss : w.mayMiss (lexemes ts).head? = false) :
    Takes finish (w :: vs) ts
      (.error (WordPattern.unexpected finish wanted ts) : Except SyntaxError (Parsed α n)) := by
  refine .unexpected (fun t ht => ?_) hmiss
  obtain ⟨position, rest, hts⟩ := exists_of_head? ht
  exact hbegin t position rest hts

/-- What is wanted may give way to its parts. -/
theorem expand {outcome : Except SyntaxError (Parsed α n)} (v : Wanted) (ws : List Wanted)
    (hbegin : ∀ t ∈ (lexemes ts).head?, w.begin? t = (v.begin? t).map (· ++ ws))
    (hmiss : (∀ t ∈ (lexemes ts).head?, v.begin? t = none) →
      w.mayMiss (lexemes ts).head? = false ∧ v.mayMiss (lexemes ts).head? = false)
    (h : Takes finish (v :: (ws ++ vs)) ts outcome) : Takes finish (w :: vs) ts outcome := by
  refine h.of_suffix List.suffix_rfl fun k => ?_
  rw [List.cons_append, firstWrong?_expand v ws hbegin hmiss, List.cons_append, List.append_assoc]

end Takes

/-! ## Single tokens -/

theorem ne_of_eat? {l t : Lexeme} (h : eat? l ts = none) (ht : t ∈ (lexemes ts).head?) : t ≠ l := by
  rintro rfl
  exact eat?_eq_none_iff.mp h ht

/-- What begins with one lexeme only, and may be missing, is left out where another one stands. -/
theorem idle_of_eat? {l : Lexeme} (hbegin : w.begin? = first l ws)
    (hmiss : ∀ next, w.mayMiss next = true) (h : eat? l ts = none) :
    w.idle (lexemes ts).head? = true := by
  refine idle_iff.mpr ⟨fun t ht => ?_, hmiss _⟩
  rw [hbegin]
  exact if_neg (ne_of_eat? h ht)

theorem takes_eat {l : Lexeme} (he : e.position = place finish ts) :
    Takes finish [lexeme l] ts (match eat? l ts with
      | some ⟨rest, h⟩ => .ok ⟨(), rest, h⟩
      | none => .error e : Parse Unit ts) := by
  split
  · rename_i heat
    obtain ⟨position, rfl⟩ := of_eat?_eq_some heat
    exact .begin [] (if_pos rfl) (.done rfl)
  · rename_i heat
    exact .refuse (.inr he) (fun t ht => if_neg (ne_of_eat? heat ht)) rfl

theorem takes_expectKeyword {k : Keyword} :
    Takes finish [lexeme (.keyword k)] ts (expectKeyword finish k ts) :=
  takes_eat (position_unexpected ..)

theorem takes_expectSymbol {s : Symbol} :
    Takes finish [lexeme (.symbol s)] ts (expectSymbol finish s ts) :=
  takes_eat (position_unexpected ..)

theorem takes_expectLiteral : Takes finish [literal] ts (expectLiteral finish ts) := by
  unfold expectLiteral
  split
  · exact .begin [] rfl (.done rfl)
  · rename_i hne
    refine .unmatched (fun t position rest hts => ?_) rfl
    cases t with
    | literal bytes => exact (hne bytes position rest hts).elim
    | _ => rfl

/-- A count is read off the front, or the token there is none. -/
theorem expectCount_cases (finish : Position) (ts : List Token) :
    (∃ n position rest value, ts = ⟨.number n, position⟩ :: rest ∧ n.count? = some value ∧
      expectCount finish (⟨.number n, position⟩ :: rest) = .ok (.single value rest)) ∨
    ∃ e, expectCount finish ts = .error e ∧ e.position = place finish ts ∧
      ∀ t ∈ (lexemes ts).head?, ∀ n, t = .number n → n.count? = none := by
  unfold expectCount
  split
  · rename_i n position rest
    cases hcount : n.count? with
    | some value => exact .inl ⟨n, position, rest, value, rfl, hcount, by rw [hcount]⟩
    | none =>
      refine .inr ⟨_, rfl, rfl, ?_⟩
      rintro t ⟨⟩ m ⟨⟩
      exact hcount
  · rename_i hne
    refine .inr ⟨_, rfl, position_unexpected .., ?_⟩
    rintro t ht n rfl
    obtain ⟨position, rest, rfl⟩ := exists_of_head? ht
    exact (hne n position rest rfl).elim

theorem beginCount?_eq_none {accepts : Nat → Bool} {t : Lexeme}
    (h : ∀ n, t = .number n → n.count? = none) : beginCount? accepts t = none := by
  unfold beginCount?
  split
  · rename_i n
    rw [h n rfl]
    rfl
  · rfl

theorem takes_expectCount : Takes finish [count] ts (expectCount finish ts) := by
  obtain ⟨n, position, rest, value, rfl, hcount, hread⟩ | ⟨e, hread, hplace, hnone⟩ :=
    expectCount_cases finish ts
  · rw [hread]
    refine .begin [] ?_ (.done rfl)
    simp [begin?, beginCount?, hcount]
  · rw [hread]
    exact .refuse (.inr hplace) (fun t ht => beginCount?_eq_none (hnone t ht)) rfl

end WordPattern
