import WordPattern.Proofs.Files.Dialogue
import WordPattern.Session.Run

/-!
# Runs over any store

What a session asks of a file store does not depend on the store: every store has the dialogue of
the session.
-/

namespace WordPattern

open Dialogue

variable {m : Type → Type} [Monad m] [LawfulMonad m] [FileStore m]

namespace Session

theorem perform_openFile (path : String) :
    (openFile path : Dialogue _).perform = (openFile path : m _) := by
  simp only [openFile, perform_bind, perform_read]
  refine bind_congr fun answer => ?_
  cases answer <;> rfl

theorem perform_openFiles (paths : List String) :
    (openFiles paths : Dialogue _).perform = (openFiles paths : m _) := by
  induction paths with
  | nil => rfl
  | cons path rest ih =>
    simp only [openFiles, perform_bind, perform_openFile]
    refine bind_congr fun first => ?_
    cases first with
    | error e => rfl
    | ok first =>
      simp only [perform_bind, ih]
      refine bind_congr fun others => ?_
      cases others <;> rfl

theorem perform_writeSibling (path : String) (contents : ByteArray) :
    (writeSibling path contents : Dialogue _).perform = (writeSibling path contents : m _) := by
  simp only [writeSibling, perform_bind, perform_write]
  refine bind_congr fun answer => ?_
  cases answer <;> rfl

theorem perform_flushInputs (inputs : List Input) :
    (flushInputs inputs : Dialogue _).perform = (flushInputs inputs : m _) := by
  induction inputs with
  | nil => rfl
  | cons i rest ih =>
    simp only [flushInputs]
    split
    · simp only [perform_bind, perform_writeSibling]
      refine bind_congr fun outcome => ?_
      cases outcome with
      | error e => rfl
      | ok target =>
        simp only [perform_bind, ih]
        rfl
    · simp only [perform_bind, ih]
      rfl

theorem perform_flush (s : Session) : (s.flush : Dialogue _).perform = (s.flush : m _) := by
  simp only [flush, perform_bind, perform_flushInputs]
  rfl

end Session

namespace Run

theorem perform_use (r : Run) (paths : List String) :
    (r.use paths : Dialogue _).perform = (r.use paths : m _) := by
  simp only [use, perform_bind, Session.perform_flush]
  refine bind_congr fun outcome => ?_
  obtain ⟨s, failure⟩ := outcome
  cases failure with
  | some e => rfl
  | none =>
    simp only [perform_bind, Session.perform_openFiles]
    refine bind_congr fun inputs => ?_
    cases inputs <;> rfl

theorem perform_times {act : Run → Dialogue (Run × Option RunError)}
    {act' : Run → m (Run × Option RunError)} (h : ∀ r, (act r).perform = act' r) (n : Nat)
    (r : Run) : (times act n r).perform = times act' n r := by
  induction n generalizing r with
  | zero => rfl
  | succ n ih =>
    simp only [times, perform_bind, h]
    refine bind_congr fun outcome => ?_
    obtain ⟨r, failure⟩ := outcome
    cases failure with
    | none => exact ih r
    | some e => rfl

theorem perform_statement (number : Nat) (s : Statement) (r : Run) :
    (statement number s r : Dialogue _).perform = (statement number s r : m _) := by
  induction s generalizing r with
  | use paths => exact perform_use r paths
  | «repeat» n body ih => exact perform_times ih n r
  | _ => rfl

theorem perform_statements (number : Nat) (list : List Statement) (r : Run) :
    (statements number list r : Dialogue _).perform = (statements number list r : m _) := by
  induction list generalizing number r with
  | nil => rfl
  | cons first rest ih =>
    simp only [statements, perform_bind, perform_statement]
    refine bind_congr fun outcome => ?_
    obtain ⟨r, failure⟩ := outcome
    cases failure with
    | none => exact ih _ r
    | some e => rfl

end Run

/-- Whatever store a program runs over, it has the one dialogue of the program. -/
theorem Session.perform_execute (s : Session) (program : Program) :
    (s.execute program : Dialogue _).perform = (s.execute program : m _) := by
  simp only [execute, perform_bind, Run.perform_statements]
  refine bind_congr fun outcome => ?_
  obtain ⟨r, failure⟩ := outcome
  cases failure with
  | some e => rfl
  | none =>
    simp only [perform_bind, Session.perform_flush]
    refine bind_congr fun outcome => ?_
    obtain ⟨s, failure⟩ := outcome
    cases failure <;> rfl

end WordPattern
