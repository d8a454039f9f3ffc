import Mathlib
import WordPattern.Proofs.Expr.Takes
import WordPattern.Proofs.Pattern.Takes

/-!
# The first wrong token

An error is found at the first token that makes a program wrong: the tokens in front of it begin some
program, and with it they begin none.
-/

namespace WordPattern

open Wanted

variable {finish : Position} {ts : List Token} {e : SyntaxError}

/-! ## Statements -/

theorem takes_amount : Takes finish [amount] ts (Amount.parse finish ts) := by
  unfold Amount.parse
  split
  · exact .begin [] rfl (.done rfl)
  · exact .begin [count] rfl (takes_expectCount.map fun _ => ⟨_, rfl, rfl⟩)
  · exact .begin [count] rfl (takes_expectCount.map fun _ => ⟨_, rfl, rfl⟩)
  · refine .begin [count, mostTaken] rfl ?_
    refine takes_expectCount.bind [mostTaken] fun skip ts₁ h₁ => ?_
    dsimp only
    split
    · rename_i heat
      exact .idle (idle_of_eat? rfl (fun _ => rfl) heat) (.done rfl)
    · rename_i ts₂ h₂ heat
      obtain ⟨position, rfl⟩ := of_eat?_eq_some heat
      exact .begin [count] rfl (takes_expectCount.map fun _ => ⟨_, rfl, rfl⟩)
  · rename_i hall htop htake hskip
    refine .unmatched (fun t position rest hts => ?_) rfl
    cases t with
    | keyword k =>
      cases k <;> first
        | rfl
        | exact (hall position rest hts).elim
        | exact (htop position rest hts).elim
        | exact (htake position rest hts).elim
        | exact (hskip position rest hts).elim
    | _ => rfl

namespace Statement

theorem takes_paths {ts : List Token} :
    Takes finish [literal, morePaths] ts (paths finish ts) := by
  rw [paths]
  refine takes_expectLiteral.bind [morePaths] fun bytes ts₁ h₁ => ?_
  dsimp only
  split
  · rename_i heat
    exact .idle (idle_of_eat? rfl (fun _ => rfl) heat) (.done rfl)
  · rename_i ts₂ h₂ heat
    obtain ⟨position, rfl⟩ := of_eat?_eq_some heat
    exact .begin [literal, morePaths] rfl (takes_paths.map fun _ => ⟨_, rfl, rfl⟩)
termination_by ts.length

theorem takes_pattern : Takes finish chain ts (Chain.parse finish ts) := Pattern.takes_chain

theorem takes_expression : Takes finish expression ts (Expr.parse finish ts) :=
  Expression.takes_level

theorem takes_setting : Takes finish [setTarget] ts (setting finish ts) := by
  unfold setting
  split
  · refine .begin (lexeme (.keyword .«to») :: expression) rfl ?_
    refine takes_expectKeyword.bind expression fun _ ts₁ h₁ => ?_
    exact takes_expression.map fun _ => ⟨_, rfl, rfl⟩
  · refine .begin (lexeme (.keyword .«to») :: lexeme (.keyword .pattern) :: chain) rfl ?_
    refine takes_expectKeyword.bind (lexeme (.keyword .pattern) :: chain)
      fun _ ts₁ h₁ => ?_
    refine takes_expectKeyword.bind chain fun _ ts₂ h₂ => ?_
    exact takes_pattern.map fun _ => ⟨_, rfl, rfl⟩
  · rename_i hvariable hsubroutine
    refine .unmatched (fun t position rest hts => ?_) rfl
    cases t with
    | variableName name => exact (hvariable name position rest hts).elim
    | subroutineName name => exact (hsubroutine name position rest hts).elim
    | _ => rfl

theorem takes_parse {ts : List Token} : Takes finish [statement] ts (parse finish ts) := by
  rw [parse.eq_def]
  split
  · refine .begin (amount :: chain) rfl ?_
    refine takes_amount.bind chain fun _ ts₁ h₁ => ?_
    exact takes_pattern.map fun _ => ⟨_, rfl, rfl⟩
  · refine .begin (amount :: (chain ++
      lexeme (.keyword .«with») :: (expression ++ [moreExpressions]))) rfl ?_
    refine takes_amount.bind (chain ++
      lexeme (.keyword .«with») :: (expression ++ [moreExpressions])) fun _ ts₁ h₁ => ?_
    refine takes_pattern.bind (lexeme (.keyword .«with») :: (expression ++ [moreExpressions]))
      fun pattern ts₂ h₂ => ?_
    refine takes_expectKeyword.bind (expression ++ [moreExpressions])
      fun _ ts₃ h₃ => ?_
    exact Expression.takes_parseAll.map fun _ => ⟨_, rfl, rfl⟩
  · exact .begin [literal, morePaths] rfl (takes_paths.map fun _ => ⟨_, rfl, rfl⟩)
  · refine .begin [count, statement] rfl ?_
    refine takes_expectCount.bind [statement] fun times ts₁ h₁ => ?_
    exact takes_parse.map fun _ => ⟨_, rfl, rfl⟩
  · exact .begin [setTarget] rfl (takes_setting.map fun _ => ⟨_, rfl, rfl⟩)
  · rename_i hfind hreplace huse hrepeat hset
    refine .unmatched (fun t position rest hts => ?_) rfl
    cases t with
    | keyword k =>
      cases k <;> first
        | rfl
        | exact (hfind position rest hts).elim
        | exact (hreplace position rest hts).elim
        | exact (huse position rest hts).elim
        | exact (hrepeat position rest hts).elim
        | exact (hset position rest hts).elim
    | _ => rfl
termination_by ts.length
decreasing_by
  subst_vars
  simp only [List.length_cons]
  omega

end Statement

/-! ## Programs -/

/-- Where a statement is wanted up to the end, a token begins one. -/
theorem firstWrong?_program (t : Token) (rest : List Token) (k : List Wanted) :
    firstWrong? (program :: k) (lexemes (t :: rest)) =
      firstWrong? (statement :: program :: k) (lexemes (t :: rest)) :=
  firstWrong?_expand statement [program] (fun _ _ => rfl) fun _ => ⟨rfl, rfl⟩

/-- A program is read exactly if none of its tokens is wrong. -/
theorem takes_statements (finish : Position) (ts : List Token) :
    match Statement.parseAll finish ts with
    | .ok _ => firstWrong? [program] (lexemes ts) = none
    | .error e => Blames finish [program] ts e := by
  rw [Statement.parseAll.eq_def]
  match ts with
  | [] => rfl
  | t :: rest =>
    have hfirst : Takes finish [statement] (t :: rest) (Statement.parse finish (t :: rest)) :=
      Statement.takes_parse
    dsimp only
    cases hparse : Statement.parse finish (t :: rest) with
    | error e =>
      rw [hparse] at hfirst
      exact (Blames.append hfirst [program]).of_suffix List.suffix_rfl
        (firstWrong?_program t rest)
    | ok p =>
      rw [hparse] at hfirst
      obtain ⟨first, more, hmore⟩ := p
      have htake (k : List Wanted) : firstWrong? (program :: k) (lexemes (t :: rest)) =
          firstWrong? (program :: k) (lexemes more) :=
        (firstWrong?_program t rest k).trans (hfirst.2 (program :: k))
      have hothers := takes_statements finish more
      show match (do return first :: (← Statement.parseAll finish more)) with
        | .ok _ => _
        | .error e => _
      cases hall : Statement.parseAll finish more with
      | error e =>
        rw [hall] at hothers
        exact hothers.of_suffix hfirst.1 htake
      | ok others =>
        rw [hall] at hothers
        exact (htake []).trans hothers
termination_by ts.length
decreasing_by exact hmore

theorem ofTokens_ok_iff {tokens : Tokens} :
    (∃ program, Program.ofTokens tokens = .ok program) ↔
      firstWrong? [program] (lexemes tokens.list) = none := by
  have h := takes_statements tokens.finish tokens.list
  rw [Program.ofTokens]
  cases hall : Statement.parseAll tokens.finish tokens.list with
  | ok statements =>
    rw [hall] at h
    exact ⟨fun _ => h, fun _ => ⟨_, rfl⟩⟩
  | error e =>
    rw [hall] at h
    obtain ⟨back, -, -, hwrong⟩ := h
    constructor
    · rintro ⟨program, hprogram⟩
      cases hprogram
    · intro hnone
      cases (hwrong []).symm.trans hnone

/-- An error stands at the first wrong token, but for that of crossed bounds. -/
theorem blames_of_error {tokens : Tokens} (h : Program.ofTokens tokens = .error e) :
    Blames tokens.finish [program] tokens.list e := by
  have hstatements := takes_statements tokens.finish tokens.list
  rw [Program.ofTokens] at h
  cases hall : Statement.parseAll tokens.finish tokens.list with
  | ok statements =>
    rw [hall] at h
    cases h
  | error e' =>
    rw [hall] at h hstatements
    cases h
    exact hstatements

/-- Every error of a program, but that of bounds in the wrong order, is found at the first token that
makes it wrong, or at the end. The tokens in front of this place begin a program, and no program
begins with them and the token at this place. -/
theorem errors_are_at_the_first_wrong_token (source : String) (tokens : Tokens) (e : SyntaxError)
    (htokens : Tokens.ofSource source = .ok tokens) (herror : Program.ofSource source = .error e)
    (hbounds : ∀ least most, e.cause ≠ .crossedBounds least most) :
    ∃ front back, tokens.list = front ++ back ∧ e.position = place tokens.finish back ∧
      (∃ more, ∀ finish, ∃ program, Program.ofTokens ⟨front ++ more, finish⟩ = .ok program) ∧
      ∀ t behind, back = t :: behind → ∀ more finish program,
        Program.ofTokens ⟨front ++ t :: more, finish⟩ ≠ .ok program := by
  rw [Program.ofSource, htokens] at herror
  obtain ⟨back, ⟨front, hfront⟩, hplace, hwrong⟩ := blames_of_error herror
  have hplace : e.position = place tokens.finish back := by
    refine hplace.resolve_left ?_
    rintro ⟨least, most, hcause⟩
    exact hbounds least most hcause
  have hwrong : firstWrong? [program] (lexemes tokens.list) = some (lexemes back) := hwrong []
  -- `k` is what is wanted at the wrong token: it can be completed, and the token does not begin it.
  obtain ⟨front', k, hsplit, hafter, hnext⟩ := of_firstWrong? hwrong
  obtain rfl : lexemes front = front' := by
    rw [← hfront, lexemes_append] at hsplit
    exact List.append_cancel_right hsplit
  refine ⟨front, back, hfront.symm, hplace, ?_, ?_⟩
  · -- What is still wanted behind the tokens in front can be given.
    refine ⟨(closing k).map (⟨·, .start⟩), fun finish => ofTokens_ok_iff.mpr ?_⟩
    have hclosing : lexemes ((closing k).map (⟨·, .start⟩)) = closing k := by
      simp [lexemes, Function.comp_def]
    rw [lexemes_append, hclosing, firstWrong?_append hafter]
    exact firstWrong?_closing (fitting_after rfl hafter)
  · rintro t behind rfl more finish program hprogram
    have hnone := ofTokens_ok_iff.mp ⟨program, hprogram⟩
    rw [lexemes_append, firstWrong?_append hafter, lexemes_cons, firstWrong?,
      hnext t.lexeme rfl] at hnone
    cases hnone

/-- Where a count is missing, the error stands at the token in its place. -/
theorem missing_count_is_at_the_class :
    let source := "find top\n digit"
    ∃ tokens e, Tokens.ofSource source = .ok tokens ∧ Program.ofSource source = .error e ∧
      e.position = ⟨2, 2⟩ ∧ ∃ front back, tokens.list = front ++ back ∧
        e.position = place tokens.finish back ∧
        (∃ more, ∀ finish, ∃ program, Program.ofTokens ⟨front ++ more, finish⟩ = .ok program) ∧
        ∀ t behind, back = t :: behind → ∀ more finish program,
          Program.ofTokens ⟨front ++ t :: more, finish⟩ ≠ .ok program := by
  intro source
  have htokens : Tokens.ofSource source = .ok
      ⟨[⟨.keyword .find, ⟨1, 1⟩⟩, ⟨.keyword .top, ⟨1, 6⟩⟩, ⟨.keyword .digit, ⟨2, 2⟩⟩], ⟨2, 7⟩⟩ := by
    cbv
  have herror : Program.ofSource source =
      .error ⟨.unexpected .number (some (.keyword .digit)), ⟨2, 2⟩⟩ := by
    cbv
  refine ⟨_, _, htokens, herror, rfl, errors_are_at_the_first_wrong_token _ _ _ htokens herror ?_⟩
  exact fun least most h => SyntaxError.Cause.noConfusion h

end WordPattern
