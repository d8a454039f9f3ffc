import WordPattern.Expr.Tape
import WordPattern.Proofs.Expr.Reading
import WordPattern.Proofs.Token.Tape

/-!
# Expressions on a tape follow the parsers of expressions

Every function follows the parser that reads the same part of an expression. What a loop has read so
far stands in front of what the parser reads.
-/

namespace WordPattern.Tape

open Expression

variable {tape : Tape} {finish : Position} {i j : Nat} {ts : List Token}

/-! ## Parameters -/

theorem follows_someParameters {names : List String} {i : Nat} {ts : List Token}
    (h : tape.Ahead finish i ts) :
    Follows tape finish i (tape.someParameters names) (names ++ ·)
      (Expression.someParameters finish ts) := by
  refine .of_succ ?_
  simp only [someParameters]
  rw [Expression.someParameters.eq_def]
  split
  · refine .peekLexeme h (.next h fun h => ?_)
    dsimp only
    split
    · rename_i heat
      obtain ⟨position, rfl⟩ := of_eat?_eq_some heat
      exact .eaten h fun h => .done h rfl
    · rename_i heat
      refine .missed h heat ((follows_expectSymbol h).bind fun _ ts₁ h₁ j h => ?_)
      exact (follows_someParameters h).map fun p => ⟨_, rfl, rfl, List.append_cons ..⟩
  · rename_i hname
    refine .peekLexeme h ?_
    rcases ts with _ | ⟨⟨l, position⟩, rest⟩
    · exact .unexpected h
    · cases l with
      | variableName name => exact (hname name position rest rfl).elim
      | _ => exact .unexpected h
termination_by ts.length
decreasing_by
  subst_vars
  simp only [List.length_cons]
  omega

theorem follows_parameters (h : tape.Ahead finish i ts) :
    Follows tape finish i tape.parameters (fun names => names)
      (Expression.parameters finish ts) := by
  unfold parameters
  rw [Expression.parameters]
  refine (follows_expectSymbol h).bind fun _ ts₁ h₁ j h => ?_
  dsimp only
  split
  · rename_i heat
    obtain ⟨position, rfl⟩ := of_eat?_eq_some heat
    exact .eaten h fun h => .done h rfl
  · rename_i heat
    exact .missed h heat ((follows_someParameters h).map fun p => ⟨_, rfl, rfl, rfl⟩)

/-! ## Parts that the parser reads in one go -/

/-- An atom and the lists of arguments behind it. -/
def applied (finish : Position) (ts : List Token) : Parse Expr ts := do
  let ⟨callee, ts₁, h₁⟩ ← Expression.atom finish ts
  return (← Expression.calls finish callee ts₁).widen h₁

/-- The arms of a selection, at least one. -/
def someArms (finish : Position) (ts : List Token) :
    Parse ((Expr × Expr) × List (Expr × Expr)) ts := do
  let ⟨first, ts₁, h₁⟩ ← Expression.arm finish ts
  let ⟨others, ts₂, h₂⟩ ← Expression.arms finish ts₁
  return ⟨(first, others), ts₂, Nat.lt_of_lt_of_le h₂ h₁⟩

/-- What follows `case`. -/
def selected (finish : Position) (ts : List Token) : Parse Expr ts := do
  let ⟨arms, ts₁, h₁⟩ ← someArms finish ts
  let ⟨otherwise, ts₂, _⟩ ← Expression.alternative finish ts₁
  let ⟨_, ts₃, _⟩ ← WordPattern.expectKeyword finish .«end» ts₂
  return ⟨.cases (arms.1 :: arms.2) otherwise, ts₃, by omega⟩

/-- What follows `func`. -/
def abstracted (finish : Position) (ts : List Token) : Parse Expr ts := do
  let ⟨names, ts₁, h₁⟩ ← Expression.parameters finish ts
  let ⟨body, ts₂, h₂⟩ ← Expression.level finish .or ts₁
  return .past h₁ ⟨.function names body, ts₂, h₂⟩

theorem arms_none (h : tape.Ahead finish i ts) (heat : eat? (.keyword .when) ts = none)
    (before : List (Expr × Expr)) : OnTape.Gives (tape.arms before) i (.ok (before, i)) := by
  refine .of_succ (.of_eq fun fuel => ?_)
  rw [Tape.arms, OnTape.from?_bind_of_ok (h.eat_none heat)]
  rfl

/-! ## Expressions -/

-- The second number of the measures orders the parsers that call one another on the same tokens.
mutual

theorem follows_level {l : Level} {i : Nat} {ts : List Token} (h : tape.Ahead finish i ts) :
    Follows tape finish i (tape.level l) (fun e => e) (Expression.level finish l ts) := by
  refine .of_succ ?_
  rw [Expression.level]
  simp only [Tape.level]
  refine (follows_operand h).bind fun left ts₁ h₁ j h => ?_
  exact (follows_operations h).map fun p => ⟨_, rfl, rfl, rfl⟩
termination_by (ts.length, 2 * l.rank + 10)

theorem follows_operand {l : Level} {i : Nat} {ts : List Token} (h : tape.Ahead finish i ts) :
    Follows tape finish i (tape.operand l) (fun e => e) (Expression.operand finish l ts) := by
  refine .of_succ ?_
  rw [Expression.operand.eq_def]
  simp only [Tape.operand]
  match l with
  | .or => exact follows_level (l := .and) h
  | .and => exact follows_level (l := .comparison) h
  | .comparison => exact follows_level (l := .additive) h
  | .additive => exact follows_level (l := .multiplicative) h
  | .multiplicative => exact follows_unary h
termination_by (ts.length, 2 * l.rank + 9)
decreasing_by all_goals exact Prod.Lex.right _ (by decide)

theorem follows_operations {l : Level} {left : Expr} {i : Nat} {ts : List Token}
    (h : tape.Ahead finish i ts) :
    Follows tape finish i (tape.operations l left) (fun e => e)
      (Expression.operations finish l left ts) := by
  refine .of_succ ?_
  rw [Expression.operations]
  split
  · rename_i heat
    have hop : (ts.head?.map Token.lexeme).bind l.operator? = none := by
      cases ts with
      | nil => rfl
      | cons t rest => exact Option.map_eq_none_iff.mp heat
    simp only [Tape.operations]
    refine .peekLexeme h ?_
    rw [hop]
    exact .done h rfl
  · rename_i op ts₁ h₁ heat
    obtain ⟨t, rfl, hop⟩ := of_levelEat? heat
    simp only [Tape.operations]
    refine .peekLexeme h ?_
    simp only [List.head?_cons, Option.map_some, Option.bind_some, hop]
    refine .next h fun h => (follows_operand h).bind fun right ts₂ h₂ j h => ?_
    by_cases hl : l = .comparison
    · simp only [if_pos hl]
      exact .done h rfl
    · simp only [if_neg hl]
      exact (follows_operations h).map fun p => ⟨_, rfl, rfl, rfl⟩
termination_by (ts.length, 2 * l.rank + 10)

theorem follows_unary {i : Nat} {ts : List Token} (h : tape.Ahead finish i ts) :
    Follows tape finish i tape.unary (fun e => e) (Expression.unary finish ts) := by
  refine .of_succ ?_
  rw [Expression.unary]
  simp only [Tape.unary]
  split
  · rename_i heat
    obtain ⟨position, rfl⟩ := of_eat?_eq_some heat
    exact .eaten h fun h => (follows_unary h).bind fun value rest hrest j h => .done h rfl
  · rename_i hnot heat
    obtain ⟨position, rfl⟩ := of_eat?_eq_some heat
    refine .missed h hnot ?_
    exact .eaten h fun h => (follows_unary h).bind fun value rest hrest j h => .done h rfl
  · rename_i hnot hminus
    exact .missed h hnot (.missed h hminus (follows_application h))
termination_by (ts.length, 9)

theorem follows_application {i : Nat} {ts : List Token} (h : tape.Ahead finish i ts) :
    Follows tape finish i tape.application (fun e => e) (applied finish ts) := by
  refine .of_succ ?_
  rw [applied]
  simp only [Tape.application]
  refine (follows_atom h).bind fun callee ts₁ h₁ j h => ?_
  exact (follows_calls h).map fun p => ⟨_, rfl, rfl, rfl⟩
termination_by (ts.length, 8)

theorem follows_calls {callee : Expr} {i : Nat} {ts : List Token} (h : tape.Ahead finish i ts) :
    Follows tape finish i (tape.calls callee) (fun e => e) (Expression.calls finish callee ts) := by
  refine .of_succ ?_
  rw [Expression.calls]
  simp only [Tape.calls]
  split
  · rename_i heat
    exact .missed h heat (.done h rfl)
  · rename_i ts₁ h₁ heat
    obtain ⟨position, rfl⟩ := of_eat?_eq_some heat
    refine .eaten h fun h => (follows_arguments h).bind fun values ts₂ h₂ j h => ?_
    exact (follows_calls h).map fun p => ⟨_, rfl, rfl, rfl⟩
termination_by (ts.length, 8)

theorem follows_arguments {i : Nat} {ts : List Token} (h : tape.Ahead finish i ts) :
    Follows tape finish i tape.arguments (fun values => values)
      (Expression.arguments finish ts) := by
  refine .of_succ ?_
  rw [Expression.arguments]
  simp only [Tape.arguments]
  split
  · rename_i heat
    obtain ⟨position, rfl⟩ := of_eat?_eq_some heat
    exact .eaten h fun h => .done h rfl
  · rename_i heat
    exact .missed h heat (follows_someArguments h)
termination_by (ts.length, 22)

theorem follows_someArguments {values : List Expr} {i : Nat} {ts : List Token}
    (h : tape.Ahead finish i ts) :
    Follows tape finish i (tape.someArguments values) (values ++ ·)
      (Expression.someArguments finish ts) := by
  refine .of_succ ?_
  rw [Expression.someArguments]
  simp only [Tape.someArguments]
  refine (follows_level h).bind fun value ts₁ h₁ j h => ?_
  dsimp only
  split
  · rename_i heat
    obtain ⟨position, rfl⟩ := of_eat?_eq_some heat
    exact .eaten h fun h => .done h rfl
  · rename_i heat
    refine .missed h heat ((follows_expectSymbol h).bind fun _ ts₂ h₂ j h => ?_)
    exact (follows_someArguments h).map fun p => ⟨_, rfl, rfl, List.append_cons ..⟩
termination_by (ts.length, 21)
decreasing_by
  · exact Prod.Lex.right _ (by decide)
  · exact Prod.Lex.left _ _ (by omega)

theorem follows_atom {i : Nat} {ts : List Token} (h : tape.Ahead finish i ts) :
    Follows tape finish i tape.atom (fun e => e) (Expression.atom finish ts) := by
  refine .of_succ ?_
  rw [Expression.atom.eq_def]
  split
  all_goals
    simp only [Tape.atom]
    refine .step h.peek passed_refl ?_
  · exact .next h fun h => .done h rfl
  · exact .next h fun h => .done h rfl
  · exact .next h fun h => .done h rfl
  · exact .next h fun h => .done h rfl
  · exact .next h fun h => .done h rfl
  · exact .next h fun h => .done h rfl
  · exact .next h fun h => .done h rfl
  · rename_i name position rest
    simp only [frontEntry, Token.entry, builtinWord]
    cases Builtin.ofWord? name with
    | none => exact .thrown
    | some b => exact .next h fun h => .done h rfl
  · refine .next h fun h => (follows_level h).bind fun inner ts₁ h₁ j h => ?_
    exact (follows_expectSymbol h).bind fun _ ts₂ h₂ j h => .done h rfl
  · rename_i position rest
    refine .next h fun h => ?_
    have hselected := (follows_selection h).widen (Nat.le_succ rest.length)
    simpa [selected, someArms, Parsed.widen, bind_assoc] using hselected
  · rename_i position rest
    refine .next h fun h => ?_
    have habstracted := (follows_abstraction h).widen (Nat.le_succ rest.length)
    simpa [abstracted, Parsed.past, Parsed.widen, bind_assoc] using habstracted
  · rename_i hliteral hnumber hvariable htrue hfalse hupper hlower hword hparen hcase hfunc
    rcases ts with _ | ⟨⟨l, position⟩, rest⟩
    · exact .unexpected h
    cases l with
    | literal bytes => exact (hliteral bytes position rest rfl).elim
    | number n => exact (hnumber n position rest rfl).elim
    | variableName name => exact (hvariable name position rest rfl).elim
    | word name => exact (hword name position rest rfl).elim
    | symbol s => cases s <;> first | exact (hparen position rest rfl).elim | exact .unexpected h
    | subroutineName name => exact .unexpected h
    | keyword k =>
      cases k <;> first
        | exact (htrue position rest rfl).elim
        | exact (hfalse position rest rfl).elim
        | exact (hupper position rest rfl).elim
        | exact (hlower position rest rfl).elim
        | exact (hcase position rest rfl).elim
        | exact (hfunc position rest rfl).elim
        | exact .unexpected h
termination_by (ts.length, 7)

theorem follows_selection {i : Nat} {ts : List Token} (h : tape.Ahead finish i ts) :
    Follows tape finish i tape.selection (fun e => e) (selected finish ts) := by
  refine .of_succ ?_
  rw [selected]
  simp only [Tape.selection]
  cases heat : eat? (.keyword .when) ts with
  | none =>
    refine .after (arms_none h heat []) passed_refl ?_
    rw [someArms, Expression.arm, WordPattern.expectKeyword, heat]
    exact .unexpected h
  | some taken =>
    obtain ⟨rest, hrest⟩ := taken
    obtain ⟨position, rfl⟩ := of_eat?_eq_some heat
    refine (follows_someArms h).bind fun arms ts₁ h₁ j h => ?_
    refine (follows_alternative h).bind fun otherwise ts₂ h₂ j h => ?_
    exact (follows_expectKeyword h).bind fun _ ts₃ h₃ j h => .done h rfl
termination_by (ts.length, 23)
decreasing_by
  · subst_vars
    exact Prod.Lex.right _ (by decide)
  · subst_vars
    exact Prod.Lex.left _ _ (by omega)

theorem follows_someArms {position : Position} {i : Nat} {ts : List Token}
    (h : tape.Ahead finish i (⟨.keyword .when, position⟩ :: ts)) :
    Follows tape finish i (tape.arms []) (fun arms => arms.1 :: arms.2)
      (someArms finish (⟨.keyword .when, position⟩ :: ts)) := by
  refine .of_succ ?_
  rw [someArms]
  simp only [Tape.arms]
  refine .eaten h fun h => (follows_arm h).bind fun first ts₁ h₁ j h => ?_
  exact (follows_arms h).map fun p => ⟨_, rfl, rfl, rfl⟩
termination_by (ts.length + 1, 22)

theorem follows_arms {before : List (Expr × Expr)} {i : Nat} {ts : List Token}
    (h : tape.Ahead finish i ts) :
    Follows tape finish i (tape.arms before) (before ++ ·) (Expression.arms finish ts) := by
  rw [Expression.arms]
  split
  · rename_i heat
    exact ⟨i, by simpa using arms_none h heat before, passed_refl, h⟩
  · rename_i taken heat
    obtain ⟨rest, hrest⟩ := taken
    obtain ⟨position, rfl⟩ := of_eat?_eq_some heat
    refine .of_succ ?_
    simp only [Tape.arms]
    refine .eaten h fun h => (follows_arm h).bind fun first ts₁ h₁ j h => ?_
    exact (follows_arms h).map fun p => ⟨_, rfl, rfl, List.append_cons ..⟩
termination_by (ts.length, 22)
decreasing_by
  · subst_vars
    exact Prod.Lex.right _ (by decide)
  · subst_vars
    exact Prod.Lex.left _ _ (by omega)

theorem follows_arm {position : Position} {i : Nat} {ts : List Token}
    (h : tape.Ahead finish i ts) :
    Follows tape finish i tape.arm (fun arm => arm)
      (Expression.arm finish (⟨.keyword .when, position⟩ :: ts)) := by
  refine .of_succ ?_
  rw [Expression.arm, expectKeyword_self]
  simp only [Tape.arm]
  refine .behind ((follows_level h).bind fun guard ts₂ h₂ j h => ?_)
  refine (follows_expectKeyword h).bind fun _ ts₃ h₃ j h => ?_
  exact (follows_level h).bind fun value ts₄ h₄ j h => .done h rfl
termination_by (ts.length + 1, 21)

theorem follows_alternative {i : Nat} {ts : List Token} (h : tape.Ahead finish i ts) :
    Follows tape finish i tape.alternative (fun otherwise => otherwise)
      (Expression.alternative finish ts) := by
  refine .of_succ ?_
  rw [Expression.alternative]
  simp only [Tape.alternative]
  split
  · rename_i heat
    exact .missed h heat (.done h rfl)
  · rename_i ts₁ h₁ heat
    obtain ⟨position, rfl⟩ := of_eat?_eq_some heat
    exact .eaten h fun h => (follows_level h).bind fun value ts₂ h₂ j h => .done h rfl
termination_by (ts.length, 22)

theorem follows_abstraction {i : Nat} {ts : List Token} (h : tape.Ahead finish i ts) :
    Follows tape finish i tape.abstraction (fun e => e) (abstracted finish ts) := by
  refine .of_succ ?_
  rw [abstracted]
  simp only [Tape.abstraction]
  refine (follows_parameters h).bind fun names ts₁ h₁ j h => ?_
  exact (follows_level h).bind fun body ts₂ h₂ j h => .done h rfl
termination_by (ts.length, 23)

end

theorem follows_expression (h : tape.Ahead finish i ts) :
    Follows tape finish i tape.expression (fun e => e) (Expr.parse finish ts) := follows_level h

/-! ## Expressions that stand side by side -/

theorem atExpression_eq (h : tape.Ahead finish i ts) :
    tape.atExpression.from? i = some (.ok (Expr.begins ts, i)) := by
  rw [atExpression, OnTape.from?_bind_of_ok h.peekLexeme]
  rcases ts with _ | ⟨⟨l, position⟩, rest⟩
  · rfl
  · cases l <;> rfl

theorem moreExpressions_end {values : List Expr} (h : tape.Ahead finish i ts)
    (hend : ¬Expr.begins ts = true) :
    OnTape.Gives (tape.moreExpressions values) i (.ok (values, i)) := by
  refine .of_succ (.of_eq fun fuel => ?_)
  rw [moreExpressions, OnTape.from?_bind_of_ok (atExpression_eq h), if_neg hend]
  rfl

theorem follows_moreExpressions {values : List Expr} {i : Nat} {ts : List Token}
    (h : tape.Ahead finish i ts) (hbegins : Expr.begins ts = true) :
    Follows tape finish i (tape.moreExpressions values) (values ++ ·)
      (Expr.parseAll finish ts) := by
  refine .of_succ ?_
  rw [Expr.parseAll]
  simp only [moreExpressions]
  refine .step (atExpression_eq h) passed_refl ?_
  simp only [hbegins, if_true]
  refine (follows_expression h).bind fun value ts₁ h₁ j h => ?_
  dsimp only
  split
  · rename_i hmore
    exact (follows_moreExpressions h hmore).map fun p => ⟨_, rfl, rfl, List.append_cons ..⟩
  · rename_i hend
    exact ⟨j, moreExpressions_end h hend, passed_refl, h⟩
termination_by ts.length

theorem follows_expressions (h : tape.Ahead finish i ts) :
    Follows tape finish i tape.expressions (fun values => values) (Expr.parseAll finish ts) := by
  unfold expressions
  rw [Expr.parseAll]
  refine (follows_expression h).bind fun first ts₁ h₁ j h => ?_
  dsimp only
  split
  · rename_i hmore
    exact (follows_moreExpressions h hmore).map fun p => ⟨_, rfl, rfl, rfl⟩
  · rename_i hend
    exact ⟨j, moreExpressions_end h hend, passed_refl, h⟩

end WordPattern.Tape
