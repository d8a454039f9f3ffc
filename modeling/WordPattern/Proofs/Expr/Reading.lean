import WordPattern.Proofs.Expr.Continuing
import WordPattern.Proofs.Token.Reads

/-!
# Expressions are read by their grammar

What is read as a form of an expression derives from the grammar, and what derives from it is read.
-/

namespace WordPattern.Expression

variable {finish : Position}

/-! ## What is read derives from the grammar -/

/-- Some tokens begin with a form, and the rest is left behind it. -/
def Derived (f : Form) (ts : List Token) (v : f.Value) (rest : List Token) : Prop :=
  rest <:+ ts ∧ Derives f (lexemes ts) v (lexemes rest)

theorem Derived.imp {f g : Form} {v : f.Value} {w : g.Value} {ts rest : List Token}
    (h : Derived f ts v rest)
    (himp : Derives f (lexemes ts) v (lexemes rest) → Derives g (lexemes ts) w (lexemes rest)) :
    Derived g ts w rest := ⟨h.1, himp h.2⟩

theorem endsAt_of_eat? {l : Level} {ts : List Token} (h : l.eat? ts = none) :
    l.EndsAt (lexemes ts) := by
  cases ts with
  | nil => exact fun _ => nofun
  | cons t rest =>
    rintro _ ⟨⟩
    exact Option.map_eq_none_iff.mp h

theorem of_levelEat? {l : Level} {ts rest : List Token} {op : BinaryOp}
    {hrest : rest.length < ts.length} (h : l.eat? ts = some (op, ⟨rest, hrest⟩)) :
    ∃ t, ts = t :: rest ∧ l.operator? t.lexeme = some op := by
  cases ts with
  | nil => cases h
  | cons t more =>
    obtain ⟨op', hop, heq⟩ := Option.map_eq_some_iff.mp h
    cases heq
    exact ⟨t, rfl, hop⟩

theorem spelled_someParameters {ts rest : List Token} {names : List String}
    (h : Reads (someParameters finish ts) names rest) : Spelled (NamesForm · names) ts rest := by
  rw [someParameters.eq_def] at h
  split at h
  · rename_i name position more
    split at h
    · rename_i heat
      obtain ⟨position', rfl⟩ := of_eat?_eq_some heat
      obtain ⟨rfl, rfl⟩ := reads_ok.mp h
      exact ⟨[_, _], rfl, .last name⟩
    · simp only [reads_bind, reads_expectSymbol, reads_pure] at h
      obtain ⟨_, ts₁, h₁, ⟨position', rfl⟩, others, ts₂, h₂, hothers, rfl, rfl⟩ := h
      obtain ⟨front, rfl, hnames⟩ := spelled_someParameters hothers
      exact ⟨_ :: _ :: front, rfl, .cons name hnames⟩
  · exact absurd h not_reads_error
termination_by ts.length

theorem spelled_parameters {ts rest : List Token} {names : List String}
    (h : Reads (parameters finish ts) names rest) : Spelled (ParametersForm · names) ts rest := by
  simp only [parameters, reads_bind, reads_expectSymbol] at h
  obtain ⟨_, ts₁, h₁, ⟨position, rfl⟩, h⟩ := h
  split at h
  · rename_i heat
    obtain ⟨position', rfl⟩ := of_eat?_eq_some heat
    obtain ⟨rfl, rfl⟩ := reads_pure.mp h
    exact ⟨[_, _], rfl, .none⟩
  · simp only [reads_bind, reads_pure] at h
    obtain ⟨_, _, _, hnames, rfl, rfl⟩ := h
    exact (spelled_someParameters hnames).cons fun _ => .some

mutual
theorem derived_level {l : Level} {ts rest : List Token} {e : Expr}
    (h : Reads (level finish l ts) e rest) : Derived (.level l) ts e rest := by
  rw [level] at h
  simp only [reads_bind, reads_pure] at h
  obtain ⟨left, ts₁, h₁, hleft, _, _, _, hoperations, rfl, rfl⟩ := h
  exact derived_operations ((derived_operand hleft).imp .first) hoperations
termination_by (ts.length, 2 * l.rank + 10)

theorem derived_operand {l : Level} {ts rest : List Token} {e : Expr}
    (h : Reads (operand finish l ts) e rest) : Derived (.operand l) ts e rest := by
  rw [operand.eq_def] at h
  match hl : l, h with
  | .or, h => exact (derived_level h).imp .ofAnd
  | .and, h => exact (derived_level h).imp .ofComparison
  | .comparison, h => exact (derived_level h).imp .ofAdditive
  | .additive, h => exact (derived_level h).imp .ofMultiplicative
  | .multiplicative, h => exact (derived_unary h).imp .ofUnary
termination_by (ts.length, 2 * l.rank + 9)
decreasing_by all_goals (subst hl; exact Prod.Lex.right _ (by decide))

theorem derived_operations {l : Level} {ts mid rest : List Token} {left e : Expr}
    (hleft : Derived (.chain l) ts left mid) (h : Reads (operations finish l left mid) e rest) :
    Derived (.level l) ts e rest := by
  rw [operations] at h
  split at h
  · rename_i heat
    obtain ⟨rfl, rfl⟩ := reads_ok.mp h
    exact hleft.imp fun hchain => .level hchain (endsAt_of_eat? heat)
  · rename_i op ts₁ h₁ heat
    obtain ⟨t, rfl, hop⟩ := of_levelEat? heat
    simp only [reads_bind] at h
    obtain ⟨right, ts₂, h₂, hright, h⟩ := h
    have hright := derived_operand hright
    have hsuffix : ts₂ <:+ ts := hright.1.trans ((List.suffix_cons t ts₁).trans hleft.1)
    split at h
    · rename_i hl
      subst hl
      obtain ⟨rfl, rfl⟩ := reads_pure.mp h
      exact ⟨hsuffix, .compare hleft.2.of_comparison hop hright.2⟩
    · rename_i hl
      simp only [reads_bind, reads_pure] at h
      obtain ⟨_, _, _, hoperations, rfl, rfl⟩ := h
      exact derived_operations ⟨hsuffix, .more hl hleft.2 hop hright.2⟩ hoperations
termination_by (mid.length, 2 * l.rank + 10)

theorem derived_unary {ts rest : List Token} {e : Expr} (h : Reads (unary finish ts) e rest) :
    Derived .unary ts e rest := by
  rw [unary] at h
  split at h
  · rename_i heat
    obtain ⟨position, rfl⟩ := of_eat?_eq_some heat
    simp only [reads_bind, reads_pure] at h
    obtain ⟨value, ts₂, h₂, hvalue, rfl, rfl⟩ := h
    have hvalue := derived_unary hvalue
    exact ⟨hvalue.1.trans (List.suffix_cons ..), .not hvalue.2⟩
  · rename_i heat
    obtain ⟨position, rfl⟩ := of_eat?_eq_some heat
    simp only [reads_bind, reads_pure] at h
    obtain ⟨value, ts₂, h₂, hvalue, rfl, rfl⟩ := h
    have hvalue := derived_unary hvalue
    exact ⟨hvalue.1.trans (List.suffix_cons ..), .negate hvalue.2⟩
  · simp only [reads_bind, reads_pure] at h
    obtain ⟨callee, ts₁, h₁, hcallee, _, _, _, hcalls, rfl, rfl⟩ := h
    exact derived_calls ((derived_atom hcallee).imp .callee) hcalls
termination_by (ts.length, 8)

theorem derived_calls {ts mid rest : List Token} {callee e : Expr}
    (hcallee : Derived .call ts callee mid) (h : Reads (calls finish callee mid) e rest) :
    Derived .unary ts e rest := by
  rw [calls] at h
  split at h
  · rename_i heat
    obtain ⟨rfl, rfl⟩ := reads_ok.mp h
    exact hcallee.imp fun hcall => .unsigned hcall (eat?_eq_none_iff.mp heat)
  · rename_i ts₁ h₁ heat
    obtain ⟨position, rfl⟩ := of_eat?_eq_some heat
    simp only [reads_bind, reads_pure] at h
    obtain ⟨values, ts₂, h₂, hvalues, _, _, _, hcalls, rfl, rfl⟩ := h
    have hvalues := derived_arguments hvalues
    exact derived_calls ⟨hvalues.1.trans ((List.suffix_cons _ ts₁).trans hcallee.1),
      .apply hcallee.2 hvalues.2⟩ hcalls
termination_by (mid.length, 8)

theorem derived_arguments {ts rest : List Token} {values : List Expr}
    (h : Reads (arguments finish ts) values rest) : Derived .arguments ts values rest := by
  rw [arguments] at h
  split at h
  · rename_i heat
    obtain ⟨position, rfl⟩ := of_eat?_eq_some heat
    obtain ⟨rfl, rfl⟩ := reads_ok.mp h
    exact ⟨List.suffix_cons .., .noArguments⟩
  · exact (derived_someArguments h).imp .arguments
termination_by (ts.length, 22)

theorem derived_someArguments {ts rest : List Token} {values : List Expr}
    (h : Reads (someArguments finish ts) values rest) : Derived .someArguments ts values rest := by
  rw [someArguments] at h
  simp only [reads_bind] at h
  obtain ⟨first, ts₁, h₁, hfirst, h⟩ := h
  have hfirst := derived_level hfirst
  split at h
  · rename_i heat
    obtain ⟨position, rfl⟩ := of_eat?_eq_some heat
    obtain ⟨rfl, rfl⟩ := reads_pure.mp h
    exact ⟨(List.suffix_cons ..).trans hfirst.1, .lastArgument hfirst.2⟩
  · simp only [reads_bind, reads_expectSymbol, reads_pure] at h
    obtain ⟨_, ts₂, h₂, ⟨position, rfl⟩, others, ts₃, h₃, hothers, rfl, rfl⟩ := h
    have hothers := derived_someArguments hothers
    exact ⟨hothers.1.trans ((List.suffix_cons _ ts₂).trans hfirst.1),
      .argument hfirst.2 hothers.2⟩
termination_by (ts.length, 21)
decreasing_by
  · exact Prod.Lex.right _ (by decide)
  · exact Prod.Lex.left _ _ (by omega)

theorem derived_atom {ts rest : List Token} {e : Expr} (h : Reads (atom finish ts) e rest) :
    Derived .atom ts e rest := by
  rw [atom.eq_def] at h
  split at h
  · obtain ⟨rfl, rfl⟩ := reads_ok.mp h
    exact ⟨List.suffix_cons .., .text _⟩
  · obtain ⟨rfl, rfl⟩ := reads_ok.mp h
    exact ⟨List.suffix_cons .., .number _⟩
  · obtain ⟨rfl, rfl⟩ := reads_ok.mp h
    exact ⟨List.suffix_cons .., .variableValue _⟩
  · obtain ⟨rfl, rfl⟩ := reads_ok.mp h
    exact ⟨List.suffix_cons .., .true⟩
  · obtain ⟨rfl, rfl⟩ := reads_ok.mp h
    exact ⟨List.suffix_cons .., .false⟩
  · obtain ⟨rfl, rfl⟩ := reads_ok.mp h
    exact ⟨List.suffix_cons .., .upper⟩
  · obtain ⟨rfl, rfl⟩ := reads_ok.mp h
    exact ⟨List.suffix_cons .., .lower⟩
  · rename_i name position more
    unfold builtinWord at h
    split at h
    · rename_i b hb
      obtain ⟨rfl, rfl⟩ := reads_ok.mp h
      exact ⟨List.suffix_cons .., .builtin hb⟩
    · exact absurd h not_reads_error
  · simp only [reads_bind, reads_expectSymbol, reads_pure] at h
    obtain ⟨inner, ts₁, h₁, hinner, _, ts₂, h₂, ⟨position, rfl⟩, rfl, rfl⟩ := h
    have hinner := derived_level hinner
    exact ⟨(List.suffix_cons ..).trans (hinner.1.trans (List.suffix_cons ..)), .brackets hinner.2⟩
  · simp only [reads_bind, reads_expectKeyword, reads_pure] at h
    obtain ⟨first, ts₁, h₁, hfirst, others, ts₂, h₂, hothers, otherwise, ts₃, h₃, halternative,
      _, ts₄, h₄, ⟨position, rfl⟩, rfl, rfl⟩ := h
    have hfirst := derived_arm hfirst
    have hothers := derived_arms hothers
    have halternative := derived_alternative halternative
    refine ⟨?_, .cases hfirst.2 hothers.2 halternative.2⟩
    exact (List.suffix_cons ..).trans (halternative.1.trans (hothers.1.trans
      (hfirst.1.trans (List.suffix_cons ..))))
  · simp only [reads_bind, reads_pure] at h
    obtain ⟨names, ts₁, h₁, hnames, body, ts₂, h₂, hbody, rfl, rfl⟩ := h
    have hbody := derived_level hbody
    obtain ⟨front, rfl, hparameters⟩ := spelled_parameters hnames
    refine ⟨hbody.1.trans ((List.suffix_append ..).trans (List.suffix_cons ..)), ?_⟩
    rw [lexemes_cons, lexemes_append]
    exact .function hparameters hbody.2
  · exact absurd h not_reads_error
termination_by (ts.length, 7)
decreasing_by
  all_goals (subst_vars; exact Prod.Lex.left _ _ (by simp only [List.length_cons]; omega))

theorem derived_arm {ts rest : List Token} {a : Expr × Expr} (h : Reads (arm finish ts) a rest) :
    Derived .arm ts a rest := by
  rw [arm] at h
  simp only [reads_bind, reads_expectKeyword, reads_pure] at h
  obtain ⟨_, ts₁, h₁, ⟨position, rfl⟩, guard, ts₂, h₂, hguard, _, ts₃, h₃, ⟨position', rfl⟩,
    value, ts₄, h₄, hvalue, rfl, rfl⟩ := h
  have hguard := derived_level hguard
  have hvalue := derived_level hvalue
  refine ⟨?_, .arm hguard.2 hvalue.2⟩
  exact hvalue.1.trans ((List.suffix_cons ..).trans (hguard.1.trans (List.suffix_cons ..)))
termination_by (ts.length, 21)

theorem derived_arms {ts rest : List Token} {arms' : List (Expr × Expr)}
    (h : Reads (arms finish ts) arms' rest) : Derived .arms ts arms' rest := by
  rw [arms] at h
  split at h
  · rename_i heat
    obtain ⟨rfl, rfl⟩ := reads_ok.mp h
    exact ⟨List.suffix_rfl, .noArms (eat?_eq_none_iff.mp heat)⟩
  · simp only [reads_bind, reads_pure] at h
    obtain ⟨first, ts₁, h₁, hfirst, others, ts₂, h₂, hothers, rfl, rfl⟩ := h
    have hfirst := derived_arm hfirst
    have hothers := derived_arms hothers
    exact ⟨hothers.1.trans hfirst.1, .arms hfirst.2 hothers.2⟩
termination_by (ts.length, 22)

theorem derived_alternative {ts rest : List Token} {otherwise : Option Expr}
    (h : Reads (alternative finish ts) otherwise rest) :
    Derived .alternative ts otherwise rest := by
  rw [alternative] at h
  split at h
  · rename_i heat
    obtain ⟨rfl, rfl⟩ := reads_ok.mp h
    exact ⟨List.suffix_rfl, .noAlternative (eat?_eq_none_iff.mp heat)⟩
  · rename_i heat
    obtain ⟨position, rfl⟩ := of_eat?_eq_some heat
    simp only [reads_bind, reads_pure] at h
    obtain ⟨value, ts₂, h₂, hvalue, rfl, rfl⟩ := h
    have hvalue := derived_level hvalue
    exact ⟨hvalue.1.trans (List.suffix_cons ..), .alternative hvalue.2⟩
termination_by (ts.length, 22)
end

/-! ## What derives from the grammar is read -/

/-- The form is read off the front of some tokens. What is joined from the left is read together
with what is joined to it. -/
def Form.IsRead (finish : Position) : (f : Form) → List Token → f.Value → List Token → Prop
  | .level l, ts, e, rest => Reads (Expression.level finish l ts) e rest
  | .chain l, ts, left, rest => ∀ e more, Reads (operations finish l left rest) e more →
    Reads (Expression.level finish l ts) e more
  | .operand l, ts, e, rest => Reads (Expression.operand finish l ts) e rest
  | .unary, ts, e, rest => Reads (Expression.unary finish ts) e rest
  | .call, ts, callee, rest => ∀ e more, Reads (calls finish callee rest) e more →
    Reads (Expression.unary finish ts) e more
  | .atom, ts, e, rest => Reads (Expression.atom finish ts) e rest
  | .arguments, ts, values, rest => Reads (Expression.arguments finish ts) values rest
  | .someArguments, ts, values, rest => Reads (Expression.someArguments finish ts) values rest
  | .arm, ts, a, rest => Reads (Expression.arm finish ts) a rest
  | .arms, ts, all, rest => Reads (Expression.arms finish ts) all rest
  | .alternative, ts, otherwise, rest => Reads (Expression.alternative finish ts) otherwise rest

theorem eat?_of_endsAt {l : Level} {ts : List Token} (h : l.EndsAt (lexemes ts)) :
    l.eat? ts = none := by
  cases ts with
  | nil => rfl
  | cons t rest => exact Option.map_eq_none_iff.mpr (h t.lexeme rfl)

theorem eat?_operator {l : Level} {t : Lexeme} {op : BinaryOp} {position : Position}
    {rest : List Token} (h : l.operator? t = some op) :
    l.eat? (⟨t, position⟩ :: rest) = some (op, behindFirst ⟨t, position⟩ rest) := by
  simp [Level.eat?, h]

theorem reads_someParameters {ls : List Lexeme} {names : List String} (h : NamesForm ls names)
    {front rest : List Token} (hls : lexemes front = ls) :
    Reads (someParameters finish (front ++ rest)) names rest := by
  induction h generalizing front with
  | last name =>
    simp only [lexemes_eq_cons_iff, lexemes_eq_nil_iff] at hls
    obtain ⟨position, _, rfl, position', _, rfl, rfl⟩ := hls
    rw [List.cons_append, someParameters]
    exact reads_ok.mpr ⟨rfl, rfl⟩
  | cons name _ ih =>
    obtain ⟨position, _, rfl, hcomma⟩ := lexemes_eq_cons_iff.mp hls
    obtain ⟨position', others, rfl, hothers⟩ := lexemes_eq_cons_iff.mp hcomma
    rw [List.cons_append, List.cons_append, someParameters]
    exact .bind reads_symbol fun _ => .bind (ih hothers) fun _ => reads_pure.mpr ⟨rfl, rfl⟩

theorem reads_parameters {names : List String} {front rest : List Token}
    (h : ParametersForm (lexemes front) names) :
    Reads (parameters finish (front ++ rest)) names rest := by
  generalize hls : lexemes front = ls at h
  cases h with
  | none =>
    simp only [lexemes_eq_cons_iff, lexemes_eq_nil_iff] at hls
    obtain ⟨position, _, rfl, position', _, rfl, rfl⟩ := hls
    exact .bind reads_symbol fun _ => reads_pure.mpr ⟨rfl, rfl⟩
  | some hnames =>
    obtain ⟨position, names, rfl, hback⟩ := lexemes_eq_cons_iff.mp hls
    have hread : Reads (someParameters finish (names ++ rest)) _ rest :=
      reads_someParameters hnames hback
    have heat : eat? (.symbol .rightParen) (names ++ rest) = none := by
      cases hnames with
      | last | cons =>
        obtain ⟨_, _, rfl, -⟩ := lexemes_eq_cons_iff.mp hback
        rfl
    rw [List.cons_append, parameters]
    refine .bind reads_symbol fun _ => ?_
    dsimp only
    rw [heat]
    exact .bind hread fun _ => reads_pure.mpr ⟨rfl, rfl⟩

/-- What derives from the grammar is read. -/
theorem isRead_of_derives (finish : Position) {f : Form} {ls rs : List Lexeme} {v : f.Value}
    (h : Derives f ls v rs) {ts : List Token} (hls : lexemes ts = ls) :
    ∃ rest, lexemes rest = rs ∧ f.IsRead finish ts v rest := by
  induction h generalizing ts with
  | level _ ends ih =>
    obtain ⟨rest, rfl, hchain⟩ := ih hls
    refine ⟨rest, rfl, hchain _ _ ?_⟩
    rw [operations, eat?_of_endsAt ends]
    exact reads_ok.mpr ⟨rfl, rfl⟩
  | compare _ sign _ ihleft ihright =>
    obtain ⟨_, hback, hleft⟩ := ihleft hls
    obtain ⟨position, mid, rfl, hmid⟩ := lexemes_eq_cons_iff.mp hback
    obtain ⟨rest, rfl, hright⟩ := ihright hmid
    refine ⟨rest, rfl, ?_⟩
    simp only [Form.IsRead] at hleft hright ⊢
    rw [level]
    refine .bind hleft fun _ => .bind (?_ : Reads _ _ rest) fun _ => reads_pure.mpr ⟨rfl, rfl⟩
    rw [operations, eat?_operator sign]
    exact .bind hright fun _ => reads_pure.mpr ⟨rfl, rfl⟩
  | first _ ih =>
    obtain ⟨rest, rfl, hoperand⟩ := ih hls
    refine ⟨rest, rfl, fun e more hmore => ?_⟩
    rw [level]
    exact .bind hoperand fun _ => .bind hmore fun _ => reads_pure.mpr ⟨rfl, rfl⟩
  | more hl _ sign _ ihleft ihright =>
    obtain ⟨_, hback, hleft⟩ := ihleft hls
    obtain ⟨position, mid, rfl, hmid⟩ := lexemes_eq_cons_iff.mp hback
    obtain ⟨rest, rfl, hright⟩ := ihright hmid
    refine ⟨rest, rfl, fun e more hmore => hleft _ _ ?_⟩
    rw [operations, eat?_operator sign]
    refine .bind hright fun _ => ?_
    simp only [hl, ↓reduceIte]
    exact .bind hmore fun _ => reads_pure.mpr ⟨rfl, rfl⟩
  | ofAnd _ ih | ofComparison _ ih | ofAdditive _ ih | ofMultiplicative _ ih | ofUnary _ ih =>
    obtain ⟨rest, rfl, hread⟩ := ih hls
    refine ⟨rest, rfl, ?_⟩
    simp only [Form.IsRead] at hread ⊢
    rw [operand]
    exact hread
  | not _ ih | negate _ ih =>
    obtain ⟨position, more, rfl, hmore⟩ := lexemes_eq_cons_iff.mp hls
    obtain ⟨rest, rfl, hread⟩ := ih hmore
    refine ⟨rest, rfl, ?_⟩
    simp only [Form.IsRead] at hread ⊢
    rw [unary]
    exact .bind hread fun _ => reads_pure.mpr ⟨rfl, rfl⟩
  | unsigned _ ends ih =>
    obtain ⟨rest, rfl, hcall⟩ := ih hls
    refine ⟨rest, rfl, hcall _ _ ?_⟩
    rw [calls, eat?_eq_none_iff.mpr ends]
    exact reads_ok.mpr ⟨rfl, rfl⟩
  | callee h ih =>
    obtain ⟨rest, rfl, hatom⟩ := ih hls
    refine ⟨rest, rfl, fun e more hmore => ?_⟩
    cases h
    -- no sign stands in front of an atom
    all_goals
      obtain ⟨position, tail, rfl, -⟩ := lexemes_eq_cons_iff.mp hls
      rw [unary]
      exact .bind hatom fun _ => .bind hmore fun _ => reads_pure.mpr ⟨rfl, rfl⟩
  | apply _ _ ihcallee iharguments =>
    obtain ⟨_, hback, hcallee⟩ := ihcallee hls
    obtain ⟨position, mid, rfl, hmid⟩ := lexemes_eq_cons_iff.mp hback
    obtain ⟨rest, rfl, harguments⟩ := iharguments hmid
    refine ⟨rest, rfl, fun e more hmore => hcallee _ _ ?_⟩
    rw [calls, eat?_cons_self]
    exact .bind harguments fun _ => .bind hmore fun _ => reads_pure.mpr ⟨rfl, rfl⟩
  | noArguments =>
    obtain ⟨position, rest, rfl, rfl⟩ := lexemes_eq_cons_iff.mp hls
    refine ⟨rest, rfl, ?_⟩
    simp only [Form.IsRead]
    rw [arguments]
    exact reads_ok.mpr ⟨rfl, rfl⟩
  | arguments h ih =>
    obtain ⟨rest, rfl, hread⟩ := ih hls
    refine ⟨rest, rfl, ?_⟩
    simp only [Form.IsRead] at hread ⊢
    obtain ⟨t, _, hbegin, ht⟩ := h.begins trivial
    obtain ⟨position, tail, rfl, -⟩ := lexemes_eq_cons_iff.mp (hls.trans hbegin)
    have heat : eat? (.symbol .rightParen) (⟨t, position⟩ :: tail) = none := by
      refine eat?_eq_none_iff.mpr fun heq => ?_
      cases heq
      exact absurd ht (by decide)
    rw [arguments, heat]
    exact hread
  | lastArgument _ ih =>
    obtain ⟨_, hmid, hvalue⟩ := ih hls
    obtain ⟨position, rest, rfl, rfl⟩ := lexemes_eq_cons_iff.mp hmid
    refine ⟨rest, rfl, ?_⟩
    simp only [Form.IsRead] at hvalue ⊢
    rw [someArguments]
    exact .bind hvalue fun _ => reads_pure.mpr ⟨rfl, rfl⟩
  | argument _ _ ihvalue ihothers =>
    obtain ⟨_, hback, hvalue⟩ := ihvalue hls
    obtain ⟨position, mid, rfl, hmid⟩ := lexemes_eq_cons_iff.mp hback
    obtain ⟨rest, rfl, hothers⟩ := ihothers hmid
    refine ⟨rest, rfl, ?_⟩
    simp only [Form.IsRead] at hvalue hothers ⊢
    rw [someArguments]
    exact .bind hvalue fun _ => .bind reads_symbol fun _ => .bind hothers fun _ =>
      reads_pure.mpr ⟨rfl, rfl⟩
  | text | number | variableValue | true | false | upper | lower =>
    obtain ⟨position, rest, rfl, rfl⟩ := lexemes_eq_cons_iff.mp hls
    refine ⟨rest, rfl, ?_⟩
    simp only [Form.IsRead]
    rw [atom]
    exact reads_ok.mpr ⟨rfl, rfl⟩
  | builtin hname =>
    obtain ⟨position, rest, rfl, rfl⟩ := lexemes_eq_cons_iff.mp hls
    refine ⟨rest, rfl, ?_⟩
    simp only [Form.IsRead]
    rw [atom, builtinWord, hname]
    exact reads_ok.mpr ⟨rfl, rfl⟩
  | brackets _ ih =>
    obtain ⟨position, more, rfl, hmore⟩ := lexemes_eq_cons_iff.mp hls
    obtain ⟨_, hmid, hread⟩ := ih hmore
    obtain ⟨position', rest, rfl, rfl⟩ := lexemes_eq_cons_iff.mp hmid
    refine ⟨rest, rfl, ?_⟩
    simp only [Form.IsRead] at hread ⊢
    rw [atom]
    exact .bind hread fun _ => .bind reads_symbol fun _ => reads_pure.mpr ⟨rfl, rfl⟩
  | cases _ _ _ iharm iharms ihalternative =>
    obtain ⟨position, more, rfl, hmore⟩ := lexemes_eq_cons_iff.mp hls
    obtain ⟨_, hmid, harm⟩ := iharm hmore
    obtain ⟨_, hmid', harms⟩ := iharms hmid
    obtain ⟨_, hend, halternative⟩ := ihalternative hmid'
    obtain ⟨position', rest, rfl, rfl⟩ := lexemes_eq_cons_iff.mp hend
    refine ⟨rest, rfl, ?_⟩
    simp only [Form.IsRead] at harm harms halternative ⊢
    rw [atom]
    exact .bind harm fun _ => .bind harms fun _ => .bind halternative fun _ =>
      .bind reads_keyword fun _ => reads_pure.mpr ⟨rfl, rfl⟩
  | function parameters _ ih =>
    obtain ⟨position, _, rfl, hback⟩ := lexemes_eq_cons_iff.mp hls
    obtain ⟨front, body, rfl, rfl, hbody⟩ := lexemes_eq_append_iff.mp hback
    obtain ⟨rest, rfl, hread⟩ := ih hbody
    refine ⟨rest, rfl, ?_⟩
    simp only [Form.IsRead] at hread ⊢
    rw [atom]
    exact .bind (reads_parameters parameters) fun _ => .bind hread fun _ =>
      reads_pure.mpr ⟨rfl, rfl⟩
  | arm _ _ ihguard ihvalue =>
    obtain ⟨position, more, rfl, hmore⟩ := lexemes_eq_cons_iff.mp hls
    obtain ⟨_, hback, hguard⟩ := ihguard hmore
    obtain ⟨position', mid, rfl, hmid⟩ := lexemes_eq_cons_iff.mp hback
    obtain ⟨rest, rfl, hvalue⟩ := ihvalue hmid
    refine ⟨rest, rfl, ?_⟩
    simp only [Form.IsRead] at hguard hvalue ⊢
    rw [arm]
    exact .bind reads_keyword fun _ => .bind hguard fun _ => .bind reads_keyword fun _ =>
      .bind hvalue fun _ => reads_pure.mpr ⟨rfl, rfl⟩
  | noArms ends =>
    subst hls
    refine ⟨ts, rfl, ?_⟩
    simp only [Form.IsRead]
    rw [arms, eat?_eq_none_iff.mpr ends]
    exact reads_ok.mpr ⟨rfl, rfl⟩
  | arms h _ iharm iharms =>
    obtain ⟨_, hmid, harm⟩ := iharm hls
    obtain ⟨rest, rfl, harms⟩ := iharms hmid
    refine ⟨rest, rfl, ?_⟩
    simp only [Form.IsRead] at harm harms ⊢
    cases h with
    | arm =>
      obtain ⟨position, more, rfl, -⟩ := lexemes_eq_cons_iff.mp hls
      rw [arms, eat?_cons_self]
      exact .bind harm fun _ => .bind harms fun _ => reads_pure.mpr ⟨rfl, rfl⟩
  | noAlternative ends =>
    subst hls
    refine ⟨ts, rfl, ?_⟩
    simp only [Form.IsRead]
    rw [alternative, eat?_eq_none_iff.mpr ends]
    exact reads_ok.mpr ⟨rfl, rfl⟩
  | alternative _ ih =>
    obtain ⟨position, more, rfl, hmore⟩ := lexemes_eq_cons_iff.mp hls
    obtain ⟨rest, rfl, hread⟩ := ih hmore
    refine ⟨rest, rfl, ?_⟩
    simp only [Form.IsRead] at hread ⊢
    rw [alternative, eat?_cons_self]
    exact .bind hread fun _ => reads_pure.mpr ⟨rfl, rfl⟩

end WordPattern.Expression
