import Mathlib
import WordPattern.Program.Tape
import WordPattern.Proofs.Expr.Tape
import WordPattern.Proofs.Pattern.Tape

/-!
# Programs on a tape

Statements on a tape follow the parsers of statements. So, on any tape that ends with a mark,
whatever reads a part of a program takes a token where it succeeds, and no loop goes on for ever.
-/

namespace WordPattern

namespace Tape

variable {tape : Tape} {finish : Position} {i j : Nat} {ts : List Token}

/-! ## Statements -/

theorem follows_amount (h : tape.Ahead finish i ts) :
    Follows tape finish i (fun _ => tape.amount) (fun a => a) (Amount.parse finish ts) := by
  rw [Amount.parse.eq_def]
  split
  all_goals rw [amount]
  · exact .eaten h fun h => .done h rfl
  · refine .missed h rfl (.eaten h fun h => ?_)
    exact (follows_expectCount h).bind fun n ts₁ h₁ j h => .done h rfl
  · refine .missed h rfl (.missed h rfl (.eaten h fun h => ?_))
    exact (follows_expectCount h).bind fun n ts₁ h₁ j h => .done h rfl
  · refine .missed h rfl (.missed h rfl (.missed h rfl (.eaten h fun h => ?_)))
    refine (follows_expectCount h).bind fun skip ts₁ h₁ j h => ?_
    dsimp only
    split
    · rename_i heat
      exact .missed h heat (.done h rfl)
    · rename_i ts₂ h₂ heat
      obtain ⟨position, rfl⟩ := of_eat?_eq_some heat
      exact .eaten h fun h => (follows_expectCount h).bind fun most ts₃ h₃ j h => .done h rfl
  · rename_i hall htop htake hskip
    refine .missed h (eat?_of_forall_ne hall) (.missed h (eat?_of_forall_ne htop) ?_)
    refine .missed h (eat?_of_forall_ne htake) (.missed h (eat?_of_forall_ne hskip) ?_)
    exact .unexpected h

theorem morePaths_end {names : List String} (h : tape.Ahead finish i ts)
    (heat : eat? (.symbol .comma) ts = none) :
    OnTape.Gives (tape.morePaths names) i (.ok (names, i)) := by
  refine .of_succ (.of_eq fun fuel => ?_)
  rw [morePaths, OnTape.from?_bind_of_ok (h.eat_none heat)]
  rfl

theorem follows_morePaths {names : List String} {i : Nat} {ts : List Token}
    {position : Position} (h : tape.Ahead finish i (⟨.symbol .comma, position⟩ :: ts)) :
    Follows tape finish i (tape.morePaths names) (names ++ ·) (Statement.paths finish ts) := by
  refine .of_succ ?_
  rw [Statement.paths]
  simp only [morePaths]
  refine .eaten h fun h => (follows_expectLiteral h).bind fun bytes ts₁ h₁ j h => ?_
  dsimp only
  split
  · rename_i heat
    exact ⟨j, morePaths_end h heat, passed_refl, h⟩
  · rename_i ts₂ h₂ heat
    obtain ⟨position, rfl⟩ := of_eat?_eq_some heat
    exact (follows_morePaths h).map fun p => ⟨_, rfl, rfl, List.append_cons ..⟩
termination_by ts.length

theorem follows_paths (h : tape.Ahead finish i ts) :
    Follows tape finish i tape.paths (fun names => names) (Statement.paths finish ts) := by
  unfold paths
  rw [Statement.paths]
  refine (follows_expectLiteral h).bind fun bytes ts₁ h₁ j h => ?_
  dsimp only
  split
  · rename_i heat
    exact ⟨j, morePaths_end h heat, passed_refl, h⟩
  · rename_i ts₂ h₂ heat
    obtain ⟨position, rfl⟩ := of_eat?_eq_some heat
    exact (follows_morePaths h).map fun p => ⟨_, rfl, rfl, rfl⟩

theorem follows_setting (h : tape.Ahead finish i ts) :
    Follows tape finish i tape.setting (fun s => s) (Statement.setting finish ts) := by
  unfold setting Statement.setting
  split
  · refine .peekLexeme h (.next h fun h => ?_)
    refine (follows_expectKeyword h).bind fun _ ts₁ h₁ j h => ?_
    exact (follows_expression h).bind fun value ts₂ h₂ j h => .done h rfl
  · refine .peekLexeme h (.next h fun h => ?_)
    refine (follows_expectKeyword h).bind fun _ ts₁ h₁ j h => ?_
    refine (follows_expectKeyword h).bind fun _ ts₂ h₂ j h => ?_
    exact (follows_chain h).bind fun pattern ts₃ h₃ j h => .done h rfl
  · rename_i hvariable hsubroutine
    refine .peekLexeme h ?_
    rcases ts with _ | ⟨⟨l, position⟩, rest⟩
    · exact .unexpected h
    cases l with
    | variableName name => exact (hvariable name position rest rfl).elim
    | subroutineName name => exact (hsubroutine name position rest rfl).elim
    | _ => exact .unexpected h

theorem follows_statement {i : Nat} {ts : List Token} (h : tape.Ahead finish i ts) :
    Follows tape finish i tape.statement (fun s => s) (Statement.parse finish ts) := by
  refine .of_succ ?_
  rw [Statement.parse.eq_def]
  split
  all_goals
    simp only [statement]
    refine .peekLexeme h ?_
  · refine .next h fun h => (follows_amount h).bind fun amount ts₁ h₁ j h => ?_
    exact (follows_chain h).bind fun pattern ts₂ h₂ j h => .done h rfl
  · refine .next h fun h => (follows_amount h).bind fun amount ts₁ h₁ j h => ?_
    refine (follows_chain h).bind fun pattern ts₂ h₂ j h => ?_
    refine (follows_expectKeyword h).bind fun _ ts₃ h₃ j h => ?_
    exact (follows_expressions h).bind fun replacement ts₄ h₄ j h => .done h rfl
  · exact .next h fun h => (follows_paths h).bind fun files ts₁ h₁ j h => .done h rfl
  · refine .next h fun h => (follows_expectCount h).bind fun times ts₁ h₁ j h => ?_
    exact (follows_statement h).bind fun body ts₂ h₂ j h => .done h rfl
  · exact .next h fun h => (follows_setting h).widen (Nat.le_succ _)
  · rename_i hfind hreplace huse hrepeat hset
    rcases ts with _ | ⟨⟨l, position⟩, rest⟩
    · exact .unexpected h
    cases l with
    | keyword k =>
      cases k <;> first
        | exact (hfind position rest rfl).elim
        | exact (hreplace position rest rfl).elim
        | exact (huse position rest rfl).elim
        | exact (hrepeat position rest rfl).elim
        | exact (hset position rest rfl).elim
        | exact .unexpected h
    | _ => exact .unexpected h
termination_by ts.length
decreasing_by
  subst_vars
  simp only [List.length_cons]
  omega

/-- What the parser of all statements reads, with nothing left. -/
def allStatements (finish : Position) (ts : List Token) :
    Except SyntaxError (Parsed (List Statement) (ts.length + 1)) := do
  return ⟨← Statement.parseAll finish ts, [], Nat.succ_pos _⟩

theorem allStatements_cons {t : Token} {rest : List Token} :
    allStatements finish (t :: rest) = (do
      let ⟨first, more, hmore⟩ ← Statement.parse finish (t :: rest)
      let ⟨others, ts₁, h₁⟩ ← allStatements finish more
      return ⟨first :: others, ts₁, Nat.lt_succ_of_lt (Nat.lt_of_lt_of_le h₁ hmore)⟩) := by
  simp [allStatements, Statement.parseAll]

theorem follows_statements {list : List Statement} {i : Nat} {ts : List Token}
    (h : tape.Ahead finish i ts) :
    Follows tape finish i (tape.statements list) (list ++ ·) (allStatements finish ts) := by
  refine .of_succ ?_
  simp only [statements]
  refine .peekLexeme h ?_
  cases ts with
  | nil =>
    rw [allStatements, Statement.parseAll]
    exact .done h (List.append_nil list).symm
  | cons t rest =>
    rw [allStatements_cons]
    refine (follows_statement h).bind fun first more hmore j h => ?_
    exact (follows_statements h).map fun p => ⟨_, rfl, rfl, List.append_cons ..⟩
termination_by ts.length

/-! ## Loops that may stop at once -/

theorem returns_elements {nodes : List Node} (h : tape.Ahead finish i ts) :
    tape.Returns (tape.elements nodes) i := by
  rcases List.eq_nil_or_concat nodes with hnil | ⟨before, last, rfl⟩
  · exact (follows_elements h (.inl hnil)).returns
  cases hend : Pattern.atEnd ts with
  | true => exact returns_here (List.concat_eq_append ▸ elements_end h hend)
  | false => exact (follows_elements h (.inr hend)).returns

theorem returns_moreExpressions {values : List Expr} (h : tape.Ahead finish i ts) :
    tape.Returns (tape.moreExpressions values) i := by
  by_cases hbegins : Expr.begins ts = true
  · exact (follows_moreExpressions h hbegins).returns
  · exact returns_here (moreExpressions_end h hbegins)

theorem returns_morePaths {names : List String} (h : tape.Ahead finish i ts) :
    tape.Returns (tape.morePaths names) i := by
  cases heat : eat? (.symbol .comma) ts with
  | none => exact returns_here (morePaths_end h heat)
  | some taken =>
    obtain ⟨rest, hrest⟩ := taken
    obtain ⟨position, rfl⟩ := of_eat?_eq_some heat
    exact (follows_morePaths h).returns

/-! ## Progress -/

theorem Ends.makesProgress (h : tape.Ends) (hi : i < tape.length) : tape.MakesProgress i := by
  obtain ⟨finish, ts, hahead⟩ := h.exists_ahead hi
  exact {
    statement := (follows_statement hahead).advances hahead
    setting := (follows_setting hahead).advances hahead
    amount := (follows_amount hahead).advances hahead
    paths := (follows_paths hahead).advances hahead
    chain := (follows_chain hahead).advances hahead
    element := (follows_element hahead).advances hahead
    bound := (follows_bound hahead).advances hahead
    quantified := (follows_quantified hahead).advances hahead
    single := (follows_single hahead).advances hahead
    listItems := fun _ => (follows_listItems hahead).advances hahead
    level := fun _ => (follows_level hahead).advances hahead
    operand := fun _ => (follows_operand hahead).advances hahead
    unary := (follows_unary hahead).advances hahead
    application := (follows_application hahead).advances hahead
    atom := (follows_atom hahead).advances hahead
    arguments := (follows_arguments hahead).advances hahead
    someArguments := fun _ => (follows_someArguments hahead).advances hahead
    selection := (follows_selection hahead).advances hahead
    abstraction := (follows_abstraction hahead).advances hahead
    parameters := (follows_parameters hahead).advances hahead
    someParameters := fun _ => (follows_someParameters hahead).advances hahead
    expressions := (follows_expressions hahead).advances hahead
    statements := fun _ => (follows_statements hahead).returns
    elements := fun _ => returns_elements hahead
    binders := fun _ => (follows_binders hahead).returns
    operations := fun _ _ => (follows_operations hahead).returns
    calls := fun _ => (follows_calls hahead).returns
    arms := fun _ => (follows_arms hahead).returns
    moreExpressions := fun _ => returns_moreExpressions hahead
    morePaths := fun _ => returns_morePaths hahead }

end Tape

/-! ## Compilation -/

theorem Program.compile?_ends (source : String) :
    EndsIn (Program.compile? source) (Program.ofSource source) := by
  unfold Program.compile? Program.ofSource
  cases Tokens.ofSource source with
  | error e => exact .of_eq fun _ => rfl
  | ok tokens =>
    have hread : tokens.tape.Follows tokens.finish 0 (tokens.tape.statements []) ([] ++ ·)
        (Tape.allStatements tokens.finish tokens.list) := Tape.follows_statements tokens.ahead
    show EndsIn _ (Program.ofTokens tokens)
    unfold Tape.allStatements at hread
    unfold Program.ofTokens
    cases hall : Statement.parseAll tokens.finish tokens.list with
    | error e =>
      rw [hall] at hread
      refine EndsIn.imp hread fun fuel herror => ?_
      simp only [herror]
      rfl
    | ok list =>
      rw [hall] at hread
      obtain ⟨j, hok, -⟩ := hread
      refine EndsIn.imp hok fun fuel hok => ?_
      simp only [hok]
      rfl

/-- On a tape that ends with a mark, whatever reads a part of a program passes tokens only, and at
least one where it succeeds, and every loop comes to its end. So every source text is compiled. -/
theorem compilation_makes_progress :
    (∀ tape : Tape, tape.Ends → ∀ i < tape.length, tape.MakesProgress i) ∧
      ∀ source, EndsIn (Program.compile? source) (Program.ofSource source) :=
  ⟨fun _ hends _ hi => hends.makesProgress hi, Program.compile?_ends⟩

/-- A tape with a mark in the middle, from the bracket behind it on, and a text with a bracket that
stays open. -/
theorem torn_tapes_are_read :
    let tape : Tape := [⟨some (.keyword .find), ⟨1, 1⟩⟩, ⟨none, ⟨1, 5⟩⟩,
      ⟨some (.symbol .leftParen), ⟨2, 1⟩⟩, ⟨none, ⟨2, 2⟩⟩]
    tape.Ends ∧ 2 < tape.length ∧ tape.MakesProgress 2 ∧
      EndsIn (Program.compile? "find all (any")
        (.error ⟨.unexpected (.symbol .rightParen) none, ⟨1, 14⟩⟩) := by
  intro tape
  have hends : tape.Ends := ⟨⟨2, 2⟩, rfl⟩
  have hread : Program.ofSource "find all (any" =
    .error ⟨.unexpected (.symbol .rightParen) none, ⟨1, 14⟩⟩ := by cbv
  refine ⟨hends, by decide, compilation_makes_progress.1 tape hends 2 (by decide), ?_⟩
  exact hread ▸ compilation_makes_progress.2 "find all (any"

end WordPattern
