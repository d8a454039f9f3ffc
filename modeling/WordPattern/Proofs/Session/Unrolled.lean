import WordPattern.Proofs.Files.Dialogue
import WordPattern.Session.Run

/-!
# Running what is written out

A program runs as it does with its repetitions written out.
-/

namespace WordPattern

/-- Runs numbered statements in order. -/
def Run.sequence {m : Type → Type} [Monad m] [FileStore m] :
    List (Nat × Statement) → Run → m (Run × Option RunError)
  | [], r => return (r, none)
  | (number, first) :: rest, r => do
    match ← statement number first r with
    | (r, none) => sequence rest r
    | (r, some e) => return (r, some e)

namespace Run

variable {m : Type → Type} [Monad m] [LawfulMonad m] [FileStore m]

theorem sequence_append (xs ys : List (Nat × Statement)) (r : Run) :
    (sequence (xs ++ ys) r : m (Run × Option RunError)) = do
      match ← sequence xs r with
      | (r, none) => sequence ys r
      | (r, some e) => return (r, some e) := by
  induction xs generalizing r with
  | nil => simp only [List.nil_append, sequence, pure_bind]
  | cons first rest ih =>
    simp only [List.cons_append, sequence, bind_assoc]
    refine bind_congr fun outcome => ?_
    obtain ⟨r, failure⟩ := outcome
    cases failure with
    | none => exact ih r
    | some e => rw [pure_bind]

theorem sequence_singleton (number : Nat) (s : Statement) (r : Run) :
    (sequence [(number, s)] r : m (Run × Option RunError)) = statement number s r := by
  simp only [sequence]
  refine Eq.trans (bind_congr fun outcome => ?_) (bind_pure _)
  obtain ⟨r, failure⟩ := outcome
  cases failure <;> rfl

theorem times_eq_sequence {act : Run → m (Run × Option RunError)} {xs : List (Nat × Statement)}
    (h : ∀ r, act r = sequence xs r) (n : Nat) (r : Run) :
    times act n r = sequence (List.replicate n xs).flatten r := by
  induction n generalizing r with
  | zero => rfl
  | succ n ih =>
    rw [List.replicate_succ, List.flatten_cons, sequence_append, times, h]
    refine bind_congr fun outcome => ?_
    obtain ⟨r, failure⟩ := outcome
    cases failure with
    | none => exact ih r
    | some e => rfl

theorem statement_eq_sequence (number : Nat) (s : Statement) (r : Run) :
    (statement number s r : m (Run × Option RunError)) =
      sequence (s.unrolled.map (number, ·)) r := by
  induction s generalizing r with
  | «repeat» n body ih =>
    rw [statement, times_eq_sequence ih, Statement.unrolled, List.map_flatten, List.map_replicate]
  | _ => exact (sequence_singleton number _ r).symm

theorem statements_eq_sequence (number : Nat) (list : List Statement) (r : Run) :
    (statements number list r : m (Run × Option RunError)) =
      sequence (Statement.numbered number list) r := by
  induction list generalizing number r with
  | nil => rfl
  | cons first rest ih =>
    rw [statements, Statement.numbered, sequence_append, statement_eq_sequence]
    refine bind_congr fun outcome => ?_
    obtain ⟨r, failure⟩ := outcome
    cases failure with
    | none => exact ih _ r
    | some e => rfl

end Run

/-- A program runs what it is unrolled to, and then writes what it has replaced. -/
theorem Session.execute_eq {m : Type → Type} [Monad m] [LawfulMonad m] [FileStore m] (s : Session)
    (program : Program) :
    (s.execute program : m (Session × Except RunError (List Report))) = do
      match ← Run.sequence program.unrolled { session := s } with
      | (r, some e) => return (r.session, .error e)
      | (r, none) =>
        match ← r.session.flush with
        | (session, some e) => return (session, .error e)
        | (session, none) => return (session, .ok r.reports.reverse) := by
  rw [Session.execute, Run.statements_eq_sequence]
  rfl

/-! ## What statements come to -/

/-- The first statement fails, or the others are run after it. -/
theorem Run.sequence_cons_comesTo {number : Nat} {t : Statement} {rest : List (Nat × Statement)}
    {r r' : Run} {xs : List Exchange} {failure : Option RunError}
    (h : (sequence ((number, t) :: rest) r : Dialogue _).ComesTo xs (r', failure)) :
    (∃ e, (statement number t r : Dialogue _).ComesTo xs (r', some e) ∧ failure = some e) ∨
      ∃ ys r₁ zs, (statement number t r : Dialogue _).ComesTo ys (r₁, none) ∧
        (sequence rest r₁ : Dialogue _).ComesTo zs (r', failure) ∧ xs = ys ++ zs := by
  obtain ⟨ys, ⟨r₁, outcome⟩, zs, hfirst, hrest, rfl⟩ := Dialogue.comesTo_bind.mp h
  cases outcome with
  | none => exact .inr ⟨ys, r₁, zs, hfirst, hrest, rfl⟩
  | some e =>
    obtain ⟨rfl, heq⟩ := Dialogue.comesTo_pure.mp hrest
    cases heq
    rw [List.append_nil]
    exact .inl ⟨e, hfirst, rfl⟩

/-- How a program ends once its statements have been run: one of them has failed, or what they have
replaced is written. -/
inductive Session.ExecuteEnd (r : Run) :
    Option RunError → List Exchange → Session → Except RunError (List Report) → Prop
  | stopped (e : RunError) : ExecuteEnd r (some e) [] r.session (.error e)
  | unwritten {xs : List Exchange} {s' : Session} (e : RunError)
    (h : (r.session.flush : Dialogue _).ComesTo xs (s', some e)) :
    ExecuteEnd r none xs s' (.error e)
  | written {xs : List Exchange} {s' : Session}
    (h : (r.session.flush : Dialogue _).ComesTo xs (s', none)) :
    ExecuteEnd r none xs s' (.ok r.reports.reverse)

theorem Session.execute_comesTo {s s' : Session} {program : Program} {xs : List Exchange}
    {outcome : Except RunError (List Report)}
    (h : (s.execute program : Dialogue _).ComesTo xs (s', outcome)) :
    ∃ ys r failure zs,
      (Run.sequence program.unrolled { session := s } : Dialogue _).ComesTo ys (r, failure) ∧
        xs = ys ++ zs ∧ ExecuteEnd r failure zs s' outcome := by
  rw [execute_eq] at h
  obtain ⟨ys, ⟨r, failure⟩, zs, hrun, hlast, rfl⟩ := Dialogue.comesTo_bind.mp h
  refine ⟨ys, r, failure, zs, hrun, rfl, ?_⟩
  cases failure with
  | some e =>
    obtain ⟨rfl, heq⟩ := Dialogue.comesTo_pure.mp hlast
    cases heq
    exact .stopped e
  | none =>
    obtain ⟨zs, ⟨s₁, failure⟩, ws, hflush, hlast, rfl⟩ := Dialogue.comesTo_bind.mp hlast
    cases failure with
    | some e =>
      obtain ⟨rfl, heq⟩ := Dialogue.comesTo_pure.mp hlast
      cases heq
      rw [List.append_nil]
      exact .unwritten e hflush
    | none =>
      obtain ⟨rfl, heq⟩ := Dialogue.comesTo_pure.mp hlast
      cases heq
      rw [List.append_nil]
      exact .written hflush

/-! ## Unrolled statements -/

namespace Statement

/-- A statement that runs as a whole. -/
def IsSingle : Statement → Prop
  | .«repeat» .. => False
  | _ => True

theorem isSingle_of_mem_unrolled {s t : Statement} (h : t ∈ s.unrolled) : t.IsSingle := by
  induction s with
  | «repeat» n body ih =>
    obtain ⟨list, hlist, ht⟩ := List.mem_flatten.mp h
    rw [List.eq_of_mem_replicate hlist] at ht
    exact ih ht
  | _ =>
    obtain rfl := List.mem_singleton.mp h
    trivial

theorem keepsInputs_of_mem_unrolled {s t : Statement} (hs : s.keepsInputs = true)
    (h : t ∈ s.unrolled) : t.keepsInputs = true := by
  induction s with
  | «repeat» n body ih =>
    obtain ⟨list, hlist, ht⟩ := List.mem_flatten.mp h
    rw [List.eq_of_mem_replicate hlist] at ht
    exact ih hs ht
  | _ =>
    obtain rfl := List.mem_singleton.mp h
    exact hs

theorem mem_numbered {number k : Nat} {list : List Statement} {t : Statement}
    (h : (k, t) ∈ numbered number list) : ∃ s ∈ list, t ∈ s.unrolled := by
  induction list generalizing number with
  | nil => cases h
  | cons first rest ih =>
    rcases List.mem_append.mp h with hfirst | hrest
    · obtain ⟨t', ht', heq⟩ := List.mem_map.mp hfirst
      cases heq
      exact ⟨first, List.mem_cons_self, ht'⟩
    · obtain ⟨s, hs, ht⟩ := ih hrest
      exact ⟨s, List.mem_cons_of_mem _ hs, ht⟩

end Statement

namespace Program

variable {program : Program} {number : Nat} {t : Statement}

theorem isSingle_of_mem_unrolled (h : (number, t) ∈ program.unrolled) : t.IsSingle := by
  obtain ⟨s, -, ht⟩ := Statement.mem_numbered h
  exact Statement.isSingle_of_mem_unrolled ht

theorem keepsInputs_of_mem_unrolled (hkeeps : program.keepsInputs = true)
    (h : (number, t) ∈ program.unrolled) : t.keepsInputs = true := by
  obtain ⟨s, hs, ht⟩ := Statement.mem_numbered h
  exact Statement.keepsInputs_of_mem_unrolled (List.all_eq_true.mp hkeeps s hs) ht

end Program

end WordPattern
