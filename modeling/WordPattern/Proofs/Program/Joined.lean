import Mathlib
import WordPattern.Proofs.Program.Layout
import WordPattern.Proofs.Program.Reading
import WordPattern.Proofs.Token.Cuts

/-!
# Programs one behind the other

A source text is a program if it is cut into the lexemes of statements. Two of them with a line
break between them are the program of both, one behind the other.
-/

namespace WordPattern

theorem Statement.ListForm.append {ls ms : List Lexeme} {first second : List Statement}
    (h : Statement.ListForm ls first) (h' : Statement.ListForm ms second) :
    Statement.ListForm (ls ++ ms) (first ++ second) := by
  induction h with
  | nil => exact h'
  | cons statement _ ih =>
    rw [List.append_assoc]
    exact .cons statement ih

namespace Program

theorem ofTokens_iff {tokens : Tokens} {p : Program} :
    Program.ofTokens tokens = .ok p ↔ Statement.ListForm (lexemes tokens.list) p.statements := by
  refine Iff.trans ?_ (@Statement.parseAll_iff tokens.finish _ _)
  rw [Program.ofTokens]
  obtain ⟨list⟩ := p
  cases Statement.parseAll tokens.finish tokens.list with
  | error e => simp [bind, Except.bind]
  | ok list' => simp [bind, Except.bind, pure, Except.pure]

/-- A source text is read as a program if and only if it is cut into the lexemes of it. -/
theorem ofSource_iff {source : String} {p : Program} :
    Program.ofSource source = .ok p ↔
      ∃ ls, Lexer.Cuts source.toList ls ∧ Statement.ListForm ls p.statements := by
  simp only [← Lexer.ofSource_iff]
  rw [Program.ofSource]
  cases Tokens.ofSource source with
  | error e => simp [bind, Except.bind]
  | ok tokens => simp [bind, Except.bind, ofTokens_iff]

/-- Two source texts that are programs, with a line break between them, are the program that has the
statements of both: nothing at the end of the first one goes on in the second. Laid out, the second
program stands behind the first one with its numbers shifted by the length of the first arena, and
the cells hold the statements of both. -/
theorem joined_texts_are_joined_programs {first second : String} {p q : Program}
    (hp : Program.ofSource first = .ok p) (hq : Program.ofSource second = .ok q) :
    Program.ofSource (first ++ "\n" ++ second) = .ok (p ++ q) ∧
      ∃ a b, Stored.ofSource first = .ok a ∧ Stored.ofSource second = .ok b ∧
        Stored.ofSource (first ++ "\n" ++ second) = .ok (a.behind b) ∧
        ∀ list, List.Forall₂ (a.behind b).arena.HoldsStatement (a.behind b).statements list ↔
          list = p.statements ++ q.statements := by
  have hboth : Program.ofSource (first ++ "\n" ++ second) = .ok (p ++ q) := by
    obtain ⟨ls, hls, hform⟩ := ofSource_iff.mp hp
    obtain ⟨ms, hms, hform'⟩ := ofSource_iff.mp hq
    refine ofSource_iff.mpr ⟨ls ++ ms, ?_, hform.append hform'⟩
    rw [String.toList_append, String.toList_append, List.append_assoc]
    exact hls.append hms
  refine ⟨hboth, p.store, q.store, ?_, ?_, ?_, fun list => ?_⟩
  · rw [Stored.ofSource_eq, hp]
    rfl
  · rw [Stored.ofSource_eq, hq]
    rfl
  · rw [Stored.ofSource_eq, hboth, ← store_append]
    rfl
  · rw [← store_append]
    exact (p ++ q).store_holds_iff list

theorem joined_searches :
    Program.ofSource "find all any -- and then" =
        .ok ⟨[.find .all (.last (.byteClass .any false))]⟩ ∧
      Program.ofSource "find all digit" = .ok ⟨[.find .all (.last (.byteClass .digit false))]⟩ ∧
      Program.ofSource ("find all any -- and then" ++ "\n" ++ "find all digit") =
        .ok ⟨[.find .all (.last (.byteClass .any false)),
          .find .all (.last (.byteClass .digit false))]⟩ ∧
      Stored.ofSource ("find all any -- and then" ++ "\n" ++ "find all digit") =
        .ok ⟨[.find .all 0, .find .all 1],
          [⟨.byteClass .any false, none⟩, ⟨.byteClass .digit false, none⟩]⟩ := by
  have hp : Program.ofSource "find all any -- and then" =
      .ok ⟨[.find .all (.last (.byteClass .any false))]⟩ := by cbv
  have hq : Program.ofSource "find all digit" =
      .ok ⟨[.find .all (.last (.byteClass .digit false))]⟩ := by cbv
  obtain ⟨hboth, a, b, ha, hb, hstored, -⟩ := joined_texts_are_joined_programs hp hq
  refine ⟨hp, hq, hboth, hstored.trans ?_⟩
  rw [Stored.ofSource_eq, hp] at ha
  rw [Stored.ofSource_eq, hq] at hb
  cases ha
  cases hb
  rfl

end Program

end WordPattern
