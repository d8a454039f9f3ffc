import WordPattern.Proofs.Expr.Reading
import WordPattern.Proofs.Program.Takes

/-!
# Expressions and stacks

The parsers of expressions take what a stack wants of an expression.
-/

namespace WordPattern.Expression

variable {finish : Position} {ts : List Token}

/-! ## Lists in brackets -/

/-- Behind a part of a list that does not end stands a comma. -/
theorem takes_comma {α : Type} {bound : Nat} {w : Wanted} {ws : List Wanted}
    (hcomma : w.begin? (.symbol .comma) = some ws)
    (hnone : ∀ t, t ≠ .symbol .rightParen → t ≠ .symbol .comma → w.begin? t = none)
    (hmiss : ∀ next, w.mayMiss next = false) (hparen : eat? (.symbol .rightParen) ts = none)
    {f : Parsed Unit ts.length → Except SyntaxError (Parsed α bound)}
    (hf : ∀ u rest hrest, Takes finish ws rest (f ⟨u, rest, hrest⟩)) :
    Takes finish [w] ts (expectSymbol finish .comma ts >>= f) := by
  unfold expectSymbol
  split
  · rename_i rest hrest heat
    obtain ⟨position, rfl⟩ := of_eat?_eq_some heat
    refine .begin ws hcomma ?_
    rw [List.append_nil]
    exact hf ..
  · rename_i heat
    exact .unexpected (fun t ht => hnone t (ne_of_eat? hparen ht) (ne_of_eat? heat ht)) (hmiss _)

theorem begin_moreParameters {t : Lexeme} (hparen : t ≠ .symbol .rightParen)
    (hcomma : t ≠ .symbol .comma) : Wanted.begin? .moreParameters t = none := by
  simp only [Wanted.begin?]

theorem takes_someParameters {ts : List Token} :
    Takes finish [.parameter, .moreParameters] ts (someParameters finish ts) := by
  rw [someParameters.eq_def]
  split
  · refine .begin [] rfl ?_
    dsimp only
    split
    · rename_i heat
      obtain ⟨position, rfl⟩ := of_eat?_eq_some heat
      exact .begin [] rfl (.done rfl)
    · rename_i heat
      refine takes_comma rfl (fun t hparen hcomma => ?_) (fun _ => rfl) heat fun _ ts₁ h₁ => ?_
      · exact begin_moreParameters hparen hcomma
      · exact takes_someParameters.map fun _ => ⟨_, rfl, rfl⟩
  · rename_i hname
    refine .unmatched (fun t position rest hts => ?_) rfl
    cases t with
    | variableName name => exact (hname name position rest hts).elim
    | _ => rfl
termination_by ts.length
decreasing_by
  subst_vars
  simp only [List.length_cons]
  omega

theorem takes_parameters : Takes finish [.lexeme (.symbol .leftParen), .firstParameter] ts
    (parameters finish ts) := by
  rw [parameters]
  refine takes_expectSymbol.bind [.firstParameter] fun _ ts₁ h₁ => ?_
  dsimp only
  split
  · rename_i heat
    obtain ⟨position, rfl⟩ := of_eat?_eq_some heat
    exact .begin [] rfl (.done rfl)
  · rename_i heat
    refine .expand .parameter [.moreParameters] (fun t ht => ?_)
      (fun _ => ⟨rfl, rfl⟩) (takes_someParameters.map fun _ => ⟨_, rfl, rfl⟩)
    exact if_neg (ne_of_eat? heat ht)

/-! ## Expressions -/

theorem begin_unary {t : Lexeme} (hnot : t ≠ .keyword .not) (hminus : t ≠ .symbol .minus) :
    Wanted.begin? .unary t = (Wanted.begin? .atom t).map (· ++ [.moreCalls]) := by
  simp only [Wanted.begin?, Wanted.beginUnary?]

theorem begin_moreArguments {t : Lexeme} (hparen : t ≠ .symbol .rightParen)
    (hcomma : t ≠ .symbol .comma) : Wanted.begin? .moreArguments t = none := by
  simp only [Wanted.begin?]

theorem idle_operations {l : Level} (h : l.eat? ts = none) :
    Wanted.idle (.operations l) (lexemes ts).head? = true := by
  refine Wanted.idle_iff.mpr ⟨fun t ht => ?_, rfl⟩
  simp [Wanted.begin?, endsAt_of_eat? h t ht]

-- The second number of the measures orders the parsers that call one another on the same tokens.
mutual

theorem takes_level {l : Level} {ts : List Token} :
    Takes finish (Wanted.level l) ts (level finish l ts) := by
  rw [level]
  exact takes_operand.bind [.operations l] fun left ts₁ h₁ =>
    takes_operations.map fun _ => ⟨_, rfl, rfl⟩
termination_by (ts.length, 2 * l.rank + 10)

theorem takes_operand {l : Level} {ts : List Token} :
    Takes finish (Wanted.operand l) ts (operand finish l ts) := by
  rw [operand.eq_def]
  match l with
  | .or => exact takes_level (l := .and)
  | .and => exact takes_level (l := .comparison)
  | .comparison => exact takes_level (l := .additive)
  | .additive => exact takes_level (l := .multiplicative)
  | .multiplicative => exact takes_unary
termination_by (ts.length, 2 * l.rank + 9)
decreasing_by all_goals exact Prod.Lex.right _ (by decide)

theorem takes_operations {l : Level} {left : Expr} {ts : List Token} :
    Takes finish [.operations l] ts (operations finish l left ts) := by
  rw [operations]
  split
  · rename_i heat
    exact .idle (idle_operations heat) (.done rfl)
  · rename_i op ts₁ h₁ heat
    obtain ⟨t, rfl, hop⟩ := of_levelEat? heat
    refine .begin (Wanted.operand l ++ if l = .comparison then [] else [.operations l]) ?_ ?_
    · simp [Wanted.begin?, hop]
    rw [List.append_nil]
    refine takes_operand.bind _ fun right ts₂ h₂ => ?_
    dsimp only
    -- A comparison is not followed by another one.
    split
    · exact .done rfl
    · exact takes_operations.map fun _ => ⟨_, rfl, rfl⟩
termination_by (ts.length, 2 * l.rank + 10)

theorem takes_unary {ts : List Token} : Takes finish [.unary] ts (unary finish ts) := by
  rw [unary]
  split
  · rename_i heat
    obtain ⟨position, rfl⟩ := of_eat?_eq_some heat
    exact .begin [.unary] rfl (takes_unary.map fun _ => ⟨_, rfl, rfl⟩)
  · rename_i heat
    obtain ⟨position, rfl⟩ := of_eat?_eq_some heat
    exact .begin [.unary] rfl (takes_unary.map fun _ => ⟨_, rfl, rfl⟩)
  · rename_i hnot hminus
    refine .expand .atom [.moreCalls] (fun t ht => ?_) (fun _ => ⟨rfl, rfl⟩) ?_
    · exact begin_unary (ne_of_eat? hnot ht) (ne_of_eat? hminus ht)
    · exact takes_atom.bind [.moreCalls] fun callee ts₁ h₁ =>
        takes_calls.map fun _ => ⟨_, rfl, rfl⟩
termination_by (ts.length, 8)

theorem takes_calls {callee : Expr} {ts : List Token} :
    Takes finish [.moreCalls] ts (calls finish callee ts) := by
  rw [calls]
  split
  · rename_i heat
    exact .idle (idle_of_eat? rfl (fun _ => rfl) heat) (.done rfl)
  · rename_i ts₁ h₁ heat
    obtain ⟨position, rfl⟩ := of_eat?_eq_some heat
    refine .begin [.firstArgument, .moreCalls] rfl ?_
    exact takes_arguments.bind [.moreCalls] fun values ts₂ h₂ =>
      takes_calls.map fun _ => ⟨_, rfl, rfl⟩
termination_by (ts.length, 8)

theorem takes_arguments {ts : List Token} :
    Takes finish [.firstArgument] ts (arguments finish ts) := by
  rw [arguments]
  split
  · rename_i heat
    obtain ⟨position, rfl⟩ := of_eat?_eq_some heat
    exact .begin [] rfl (.done rfl)
  · rename_i heat
    refine .expand .unary (Wanted.tighter .or ++ [Wanted.operations .or, Wanted.moreArguments])
      (fun t ht => ?_) (fun _ => ⟨rfl, rfl⟩) takes_someArguments
    exact if_neg (ne_of_eat? heat ht)
termination_by (ts.length, 22)

theorem takes_someArguments {ts : List Token} :
    Takes finish (Wanted.expression ++ [.moreArguments]) ts (someArguments finish ts) := by
  rw [someArguments]
  refine (takes_level (l := .or)).bind [.moreArguments] fun first ts₁ h₁ => ?_
  dsimp only
  split
  · rename_i heat
    obtain ⟨position, rfl⟩ := of_eat?_eq_some heat
    exact .begin [] rfl (.done rfl)
  · rename_i heat
    refine takes_comma rfl (fun t hparen hcomma => ?_) (fun _ => rfl) heat fun _ ts₂ h₂ => ?_
    · exact begin_moreArguments hparen hcomma
    · exact takes_someArguments.map fun _ => ⟨_, rfl, rfl⟩
termination_by (ts.length, 21)
decreasing_by
  · exact Prod.Lex.right _ (by decide)
  · exact Prod.Lex.left _ _ (by omega)

theorem takes_atom {ts : List Token} : Takes finish [.atom] ts (atom finish ts) := by
  rw [atom.eq_def]
  split
  · exact .begin [] rfl (.done rfl)
  · exact .begin [] rfl (.done rfl)
  · exact .begin [] rfl (.done rfl)
  · exact .begin [] rfl (.done rfl)
  · exact .begin [] rfl (.done rfl)
  · exact .begin [] rfl (.done rfl)
  · exact .begin [] rfl (.done rfl)
  · rename_i name position rest
    unfold builtinWord
    split
    · rename_i b hb
      refine .begin [] ?_ (.done rfl)
      simp [Wanted.begin?, Wanted.beginAtom?, hb]
    · rename_i hnone
      refine .refuse (.inr rfl) ?_ rfl
      rintro t ⟨⟩
      simp [Wanted.begin?, Wanted.beginAtom?, hnone]
  · refine .begin (Wanted.expression ++ [.lexeme (.symbol .rightParen)]) rfl ?_
    exact (takes_level (l := .or)).bind [.lexeme (.symbol .rightParen)]
      fun inner ts₁ h₁ => takes_expectSymbol.map fun _ => ⟨_, rfl, rfl⟩
  · refine .begin (.lexeme (.keyword .when) :: Wanted.arm ++
      [.moreArms, .otherwise, .lexeme (.keyword .«end»)]) rfl ?_
    refine takes_arm.bind [.moreArms, .otherwise, .lexeme (.keyword .«end»)]
      fun first ts₁ h₁ => ?_
    dsimp only
    refine takes_arms.bind [.otherwise, .lexeme (.keyword .«end»)]
      fun others ts₂ h₂ => ?_
    dsimp only
    refine takes_alternative.bind [.lexeme (.keyword .«end»)]
      fun otherwise ts₃ h₃ => ?_
    exact takes_expectKeyword.map fun _ => ⟨_, rfl, rfl⟩
  · refine .begin
      (.lexeme (.symbol .leftParen) :: .firstParameter :: Wanted.expression) rfl ?_
    refine takes_parameters.bind Wanted.expression fun names ts₁ h₁ => ?_
    exact (takes_level (l := .or)).map fun _ => ⟨_, rfl, rfl⟩
  · rename_i hliteral hnumber hvariable htrue hfalse hupper hlower hword hparen hcase hfunc
    refine .unmatched (fun t position rest hts => ?_) rfl
    cases t with
    | literal bytes => exact (hliteral bytes position rest hts).elim
    | number n => exact (hnumber n position rest hts).elim
    | variableName name => exact (hvariable name position rest hts).elim
    | word name => exact (hword name position rest hts).elim
    | symbol s => cases s <;> first | rfl | exact (hparen position rest hts).elim
    | subroutineName name => rfl
    | keyword k =>
      cases k <;> first
        | rfl
        | exact (htrue position rest hts).elim
        | exact (hfalse position rest hts).elim
        | exact (hupper position rest hts).elim
        | exact (hlower position rest hts).elim
        | exact (hcase position rest hts).elim
        | exact (hfunc position rest hts).elim
termination_by (ts.length, 7)
decreasing_by
  all_goals (subst_vars; exact Prod.Lex.left _ _ (by simp only [List.length_cons]; omega))

theorem takes_arm {ts : List Token} :
    Takes finish (.lexeme (.keyword .when) :: Wanted.arm) ts (arm finish ts) := by
  rw [arm]
  refine takes_expectKeyword.bind Wanted.arm fun _ ts₁ h₁ => ?_
  dsimp only
  refine (takes_level (l := .or)).bind (.lexeme (.keyword .«then») :: Wanted.expression)
    fun guard ts₂ h₂ => ?_
  dsimp only
  refine takes_expectKeyword.bind Wanted.expression fun _ ts₃ h₃ => ?_
  exact (takes_level (l := .or)).map fun _ => ⟨_, rfl, rfl⟩
termination_by (ts.length, 21)

theorem takes_arms {ts : List Token} : Takes finish [.moreArms] ts (arms finish ts) := by
  rw [arms]
  split
  · rename_i heat
    exact .idle (idle_of_eat? rfl (fun _ => rfl) heat) (.done rfl)
  · rename_i rest heat
    obtain ⟨position, hts⟩ := of_eat?_eq_some heat
    refine .expand (.lexeme (.keyword .when)) (Wanted.arm ++ [.moreArms])
      (fun t ht => ?_) (fun hnone => ?_) ?_
    · simp only [Wanted.begin?, Wanted.first_map, List.nil_append]
    · rw [hts] at hnone
      exact absurd (hnone _ rfl) (Option.some_ne_none [])
    · exact takes_arm.bind [.moreArms] fun first ts₁ h₁ =>
        takes_arms.map fun _ => ⟨_, rfl, rfl⟩
termination_by (ts.length, 22)

theorem takes_alternative {ts : List Token} :
    Takes finish [.otherwise] ts (alternative finish ts) := by
  rw [alternative]
  split
  · rename_i heat
    exact .idle (idle_of_eat? rfl (fun _ => rfl) heat) (.done rfl)
  · rename_i ts₁ h₁ heat
    obtain ⟨position, rfl⟩ := of_eat?_eq_some heat
    exact .begin Wanted.expression rfl
      ((takes_level (l := .or)).map fun _ => ⟨_, rfl, rfl⟩)
termination_by (ts.length, 22)

end

/-! ## Expressions side by side -/

/-- What does not begin an expression begins no operand of one either. -/
theorem beginUnary?_of_begins {t : Lexeme} (h : Expr.begins ts = false)
    (ht : t ∈ (lexemes ts).head?) : Wanted.beginUnary? t = none := by
  obtain ⟨position, rest, rfl⟩ := exists_of_head? ht
  cases t with
  | keyword k => cases k <;> first | rfl | cases h
  | symbol s => cases s <;> first | rfl | cases h
  | subroutineName name => rfl
  | _ => cases h

theorem mayMiss_moreExpressions :
    Wanted.mayMiss .moreExpressions (lexemes ts).head? = !Expr.begins ts := by
  rcases ts with _ | ⟨⟨l, position⟩, rest⟩
  · rfl
  · cases l <;> rfl

theorem takes_parseAll {ts : List Token} :
    Takes finish (Wanted.expression ++ [.moreExpressions]) ts (Expr.parseAll finish ts) := by
  rw [Expr.parseAll]
  refine (takes_level (l := .or)).bind [.moreExpressions] fun first ts₁ h₁ => ?_
  dsimp only
  split
  · rename_i hbegins
    refine .expand .unary
      (Wanted.tighter .or ++ [Wanted.operations .or, Wanted.moreExpressions])
      (fun _ _ => rfl) (fun _ => ⟨?_, rfl⟩) (takes_parseAll.map fun _ => ⟨_, rfl, rfl⟩)
    rw [mayMiss_moreExpressions, hbegins]
    rfl
  · rename_i hbegins
    have hbegins := Bool.eq_false_iff.mpr hbegins
    refine .idle (Wanted.idle_iff.mpr ⟨fun t ht => ?_, ?_⟩) (.done rfl)
    · rw [Wanted.begin?, Wanted.beginExpression?, beginUnary?_of_begins hbegins ht]
      rfl
    · rw [mayMiss_moreExpressions, hbegins]
      rfl
termination_by ts.length

end WordPattern.Expression
