import WordPattern.Expr.Grammar

/-!
# What stands behind an expression

Of the lexemes behind a form, only the first one matters, and only if it could make the form longer.
So what stands behind a form can be replaced. A lexeme that a form does not end in front of begins
a longer expression.
-/

namespace WordPattern

/-- Some form of an expression could go on with the lexeme. -/
def Lexeme.goesOn (t : Lexeme) : Prop :=
  (∃ (l : Expression.Level) (op : BinaryOp), l.operator? t = some op) ∨
    t ∈ [.symbol .leftParen, .keyword .when, .keyword .otherwise]

/-- An expression can begin with the lexeme. -/
def Lexeme.beginsExpression : Lexeme → Bool
  | .literal _ | .number _ | .variableName _ | .word _ => true
  | .symbol s => s == .leftParen || s == .minus
  | .keyword k => [.true, .false, .upper, .lower, .case, .func, .not].contains k
  | _ => false

namespace Expression

/-- The first of the new lexemes is that of the old ones, or no form goes on with it. -/
def Replaces (old new : List Lexeme) : Prop :=
  ∀ t, new.head? = some t → old.head? = some t ∨ ¬t.goesOn

variable {old new ls rest : List Lexeme} {t : Lexeme}

theorem Replaces.nil : Replaces old [] := fun _ => nofun

theorem Replaces.cons : Replaces (t :: old) (t :: new) := fun _ => .inl

theorem Replaces.append (h : Replaces old new) (front : List Lexeme) :
    Replaces (front ++ old) (front ++ new) := by
  cases front with
  | nil => exact h
  | cons t front => exact .cons

theorem Replaces.endsAt {l : Level} (h : Replaces old new) (ends : l.EndsAt old) :
    l.EndsAt new := by
  intro t ht
  obtain hold | hinert := h t ht
  · exact ends t hold
  · cases hop : l.operator? t with
    | none => rfl
    | some op => exact absurd (.inl ⟨l, op, hop⟩) hinert

theorem Replaces.avoids (h : Replaces old new) (ends : old.head? ≠ some t)
    (ht : t ∈ [.symbol .leftParen, .keyword .when, .keyword .otherwise]) :
    new.head? ≠ some t := by
  intro hnew
  obtain hold | hinert := h t hnew
  · exact ends hold
  · exact hinert (.inr ht)

/-- What stands behind a form can be replaced. -/
theorem Derives.replace {f : Form} {v : f.Value} (h : Derives f ls v rest) :
    ∃ front, ls = front ++ rest ∧
      ∀ new, Replaces rest new → Derives f (front ++ new) v new := by
  induction h with
  | level _ ends ih =>
    obtain ⟨front, rfl, ih⟩ := ih
    exact ⟨front, rfl, fun new hnew => .level (ih new hnew) (hnew.endsAt ends)⟩
  | @compare _ _ _ t _ _ _ _ sign _ ihleft ihright =>
    obtain ⟨front, rfl, ihleft⟩ := ihleft
    obtain ⟨back, rfl, ihright⟩ := ihright
    refine ⟨front ++ t :: back, by simp, fun new hnew => ?_⟩
    rw [List.append_assoc, List.cons_append]
    exact .compare (ihleft _ .cons) sign (ihright new hnew)
  | first _ ih =>
    obtain ⟨front, rfl, ih⟩ := ih
    exact ⟨front, rfl, fun new hnew => .first (ih new hnew)⟩
  | @more _ _ _ _ t _ _ _ hl _ sign _ ihleft ihright =>
    obtain ⟨front, rfl, ihleft⟩ := ihleft
    obtain ⟨back, rfl, ihright⟩ := ihright
    refine ⟨front ++ t :: back, by simp, fun new hnew => ?_⟩
    rw [List.append_assoc, List.cons_append]
    exact .more hl (ihleft _ .cons) sign (ihright new hnew)
  | ofAnd _ ih =>
    obtain ⟨front, rfl, ih⟩ := ih
    exact ⟨front, rfl, fun new hnew => .ofAnd (ih new hnew)⟩
  | ofComparison _ ih =>
    obtain ⟨front, rfl, ih⟩ := ih
    exact ⟨front, rfl, fun new hnew => .ofComparison (ih new hnew)⟩
  | ofAdditive _ ih =>
    obtain ⟨front, rfl, ih⟩ := ih
    exact ⟨front, rfl, fun new hnew => .ofAdditive (ih new hnew)⟩
  | ofMultiplicative _ ih =>
    obtain ⟨front, rfl, ih⟩ := ih
    exact ⟨front, rfl, fun new hnew => .ofMultiplicative (ih new hnew)⟩
  | ofUnary _ ih =>
    obtain ⟨front, rfl, ih⟩ := ih
    exact ⟨front, rfl, fun new hnew => .ofUnary (ih new hnew)⟩
  | not _ ih =>
    obtain ⟨front, rfl, ih⟩ := ih
    exact ⟨_ :: front, rfl, fun new hnew => .not (ih new hnew)⟩
  | negate _ ih =>
    obtain ⟨front, rfl, ih⟩ := ih
    exact ⟨_ :: front, rfl, fun new hnew => .negate (ih new hnew)⟩
  | unsigned _ ends ih =>
    obtain ⟨front, rfl, ih⟩ := ih
    exact ⟨front, rfl, fun new hnew => .unsigned (ih new hnew) (hnew.avoids ends (by simp))⟩
  | callee _ ih =>
    obtain ⟨front, rfl, ih⟩ := ih
    exact ⟨front, rfl, fun new hnew => .callee (ih new hnew)⟩
  | apply _ _ ihcallee iharguments =>
    obtain ⟨front, rfl, ihcallee⟩ := ihcallee
    obtain ⟨back, rfl, iharguments⟩ := iharguments
    refine ⟨front ++ .symbol .leftParen :: back, by simp, fun new hnew => ?_⟩
    rw [List.append_assoc, List.cons_append]
    exact .apply (ihcallee _ .cons) (iharguments new hnew)
  | noArguments => exact ⟨[_], rfl, fun new _ => .noArguments⟩
  | arguments _ ih =>
    obtain ⟨front, rfl, ih⟩ := ih
    exact ⟨front, rfl, fun new hnew => .arguments (ih new hnew)⟩
  | lastArgument _ ih =>
    obtain ⟨front, rfl, ih⟩ := ih
    refine ⟨front ++ [.symbol .rightParen], by simp, fun new _ => ?_⟩
    rw [List.append_assoc]
    exact .lastArgument (ih _ .cons)
  | argument _ _ ihvalue ihothers =>
    obtain ⟨front, rfl, ihvalue⟩ := ihvalue
    obtain ⟨back, rfl, ihothers⟩ := ihothers
    refine ⟨front ++ .symbol .comma :: back, by simp, fun new hnew => ?_⟩
    rw [List.append_assoc, List.cons_append]
    exact .argument (ihvalue _ .cons) (ihothers new hnew)
  | text bytes => exact ⟨[_], rfl, fun new _ => .text bytes⟩
  | number n => exact ⟨[_], rfl, fun new _ => .number n⟩
  | variableValue name => exact ⟨[_], rfl, fun new _ => .variableValue name⟩
  | true => exact ⟨[_], rfl, fun new _ => .true⟩
  | false => exact ⟨[_], rfl, fun new _ => .false⟩
  | upper => exact ⟨[_], rfl, fun new _ => .upper⟩
  | lower => exact ⟨[_], rfl, fun new _ => .lower⟩
  | builtin h => exact ⟨[_], rfl, fun new _ => .builtin h⟩
  | brackets _ ih =>
    obtain ⟨front, rfl, ih⟩ := ih
    refine ⟨.symbol .leftParen :: (front ++ [.symbol .rightParen]), by simp, fun new _ => ?_⟩
    rw [List.cons_append, List.append_assoc]
    exact .brackets (ih _ .cons)
  | cases _ _ _ iharm iharms ihalternative =>
    obtain ⟨front, rfl, iharm⟩ := iharm
    obtain ⟨back, rfl, iharms⟩ := iharms
    obtain ⟨last, rfl, ihalternative⟩ := ihalternative
    refine ⟨.keyword .case :: (front ++ (back ++ (last ++ [.keyword .«end»]))), by simp,
      fun new _ => ?_⟩
    simp only [List.cons_append, List.append_assoc]
    have hend : ∀ old, Replaces (.keyword .«end» :: old) (.keyword .«end» :: new) := fun _ => .cons
    exact .cases (iharm _ (((hend _).append last).append back)) (iharms _ ((hend _).append last))
      (ihalternative _ .cons)
  | @function names _ _ _ _ parameters _ ih =>
    obtain ⟨front, rfl, ih⟩ := ih
    refine ⟨.keyword .func :: (names ++ front), by simp, fun new hnew => ?_⟩
    rw [List.cons_append, List.append_assoc]
    exact .function parameters (ih new hnew)
  | arm _ _ ihguard ihvalue =>
    obtain ⟨front, rfl, ihguard⟩ := ihguard
    obtain ⟨back, rfl, ihvalue⟩ := ihvalue
    refine ⟨.keyword .when :: (front ++ .keyword .«then» :: back), by simp, fun new hnew => ?_⟩
    rw [List.cons_append, List.append_assoc, List.cons_append]
    exact .arm (ihguard _ .cons) (ihvalue new hnew)
  | noArms ends => exact ⟨[], rfl, fun new hnew => .noArms (hnew.avoids ends (by simp))⟩
  | arms _ _ iharm iharms =>
    obtain ⟨front, rfl, iharm⟩ := iharm
    obtain ⟨back, rfl, iharms⟩ := iharms
    refine ⟨front ++ back, by simp, fun new hnew => ?_⟩
    rw [List.append_assoc]
    exact .arms (iharm _ (hnew.append back)) (iharms new hnew)
  | noAlternative ends =>
    exact ⟨[], rfl, fun new hnew => .noAlternative (hnew.avoids ends (by simp))⟩
  | alternative _ ih =>
    obtain ⟨front, rfl, ih⟩ := ih
    exact ⟨_ :: front, rfl, fun new hnew => .alternative (ih new hnew)⟩

theorem Derives.before {f : Form} {v : f.Value} {front : List Lexeme}
    (h : Derives f (front ++ old) v old) (hnew : Replaces old new) :
    Derives f (front ++ new) v new := by
  obtain ⟨front', heq, hreplace⟩ := h.replace
  obtain rfl := List.append_cancel_right heq
  exact hreplace new hnew

/-- More lexemes can follow those that are left. -/
theorem Derives.extend {f : Form} {v : f.Value} (h : Derives f ls v rest) (hrest : rest ≠ [])
    (more : List Lexeme) : Derives f (ls ++ more) v (rest ++ more) := by
  obtain ⟨front, rfl, hnew⟩ := h.replace
  rw [List.append_assoc]
  apply hnew
  cases rest with
  | nil => exact absurd rfl hrest
  | cons t rest => exact .cons

theorem Derives.left_ne_nil {f : Form} {v : f.Value} (h : Derives f ls v rest)
    (hrest : rest ≠ []) : ls ≠ [] := by
  obtain ⟨front, rfl, -⟩ := h.replace
  exact fun hnil => hrest (List.append_eq_nil_iff.mp hnil).2

/-- The forms that begin with an expression. -/
def Form.hasExpression : Form → Prop
  | .arguments | .arm | .arms | .alternative => False
  | _ => True

theorem Derives.begins {f : Form} {v : f.Value} (h : Derives f ls v rest)
    (hf : f.hasExpression) : ∃ t more, ls = t :: more ∧ t.beginsExpression = Bool.true := by
  induction h with
  | level _ _ ih | first _ ih | ofAnd _ ih | ofComparison _ ih | ofAdditive _ ih
  | ofMultiplicative _ ih | ofUnary _ ih | unsigned _ _ ih | callee _ ih | lastArgument _ ih =>
    exact ih trivial
  | compare _ _ _ ih _ | more _ _ _ _ ih _ | apply _ _ ih _ | argument _ _ ih _ => exact ih trivial
  | not | negate | text | number | variableValue | true | false | upper | lower | builtin
  | brackets | cases | function => exact ⟨_, _, rfl, rfl⟩
  | noArguments | arguments | arm | noArms | arms | noAlternative | alternative => exact hf.elim

/-! ## Longer expressions -/

/-- The shortest expression. -/
theorem derives_true (l : Level) : Derives (.operand l) [.keyword .true] (.bool true) [] := by
  have hends (l : Level) : l.EndsAt [] := fun _ => nofun
  have hunary : Derives .unary [.keyword .true] (.bool true) [] := .unsigned (.callee .true) nofun
  have hmultiplicative := Derives.ofMultiplicative (.level (.first (.ofUnary hunary)) (hends _))
  have hadditive := Derives.ofAdditive (.level (.first hmultiplicative) (hends _))
  have hcomparison := Derives.ofComparison (.level (.first hadditive) (hends _))
  cases l with
  | multiplicative => exact .ofUnary hunary
  | additive => exact hmultiplicative
  | comparison => exact hadditive
  | and => exact hcomparison
  | or => exact .ofAnd (.level (.first hcomparison) (hends _))

theorem Derives.of_comparison {e : Expr} (h : Derives (.chain .comparison) ls e rest) :
    Derives (.operand .comparison) ls e rest := by
  cases h with
  | first h => exact h
  | more hl => exact absurd rfl hl

/-- The parts of a choice between cases, which end at a keyword. -/
def Form.isArm : Form → Prop
  | .arm | .arms | .alternative => True
  | _ => False

/-- A form at the end of some lexemes either ends in front of a lexeme, whatever is behind that, or
the lexeme begins a longer form. -/
theorem Derives.ends_or_goes_on {f : Form} {v : f.Value} (h : Derives f ls v rest)
    (hf : ¬f.isArm) (hrest : rest = []) (t : Lexeme) :
    (∀ more, Derives f (ls ++ t :: more) v (t :: more)) ∨
      ∃ more v', Derives f (ls ++ t :: more) v' [] := by
  induction h with
  | @level l _ _ e _ _ ih =>
    obtain hends | ⟨more, e', hlonger⟩ := ih nofun hrest
    · cases hop : l.operator? t with
      | none =>
        refine .inl fun more => .level (hends more) ?_
        rintro _ ⟨⟩
        exact hop
      | some op =>
        refine .inr ⟨[.keyword .true], .binary op e (.bool Bool.true), ?_⟩
        by_cases hl : l = .comparison
        · subst hl
          exact .compare (hends _).of_comparison hop (derives_true _)
        · exact .level (.more hl (hends _) hop (derives_true l)) nofun
    · exact .inr ⟨more, e', .level hlonger nofun⟩
  | compare left sign _ _ ih =>
    have hleft (more : List Lexeme) := left.extend nofun (t :: more)
    obtain hends | ⟨more, e', hlonger⟩ := ih nofun hrest
    · exact .inl fun more => .compare (hleft more) sign (hends more)
    · exact .inr ⟨more, _, .compare (hleft more) sign hlonger⟩
  | first _ ih =>
    obtain hends | ⟨more, e', hlonger⟩ := ih nofun hrest
    · exact .inl fun more => .first (hends more)
    · exact .inr ⟨more, _, .first hlonger⟩
  | more hl left sign _ _ ih =>
    have hleft (more : List Lexeme) := left.extend nofun (t :: more)
    obtain hends | ⟨more, e', hlonger⟩ := ih nofun hrest
    · exact .inl fun more => .more hl (hleft more) sign (hends more)
    · exact .inr ⟨more, _, .more hl (hleft more) sign hlonger⟩
  | ofAnd _ ih =>
    obtain hends | ⟨more, e', hlonger⟩ := ih nofun hrest
    · exact .inl fun more => .ofAnd (hends more)
    · exact .inr ⟨more, _, .ofAnd hlonger⟩
  | ofComparison _ ih =>
    obtain hends | ⟨more, e', hlonger⟩ := ih nofun hrest
    · exact .inl fun more => .ofComparison (hends more)
    · exact .inr ⟨more, _, .ofComparison hlonger⟩
  | ofAdditive _ ih =>
    obtain hends | ⟨more, e', hlonger⟩ := ih nofun hrest
    · exact .inl fun more => .ofAdditive (hends more)
    · exact .inr ⟨more, _, .ofAdditive hlonger⟩
  | ofMultiplicative _ ih =>
    obtain hends | ⟨more, e', hlonger⟩ := ih nofun hrest
    · exact .inl fun more => .ofMultiplicative (hends more)
    · exact .inr ⟨more, _, .ofMultiplicative hlonger⟩
  | ofUnary _ ih =>
    obtain hends | ⟨more, e', hlonger⟩ := ih nofun hrest
    · exact .inl fun more => .ofUnary (hends more)
    · exact .inr ⟨more, _, .ofUnary hlonger⟩
  | not _ ih =>
    obtain hends | ⟨more, e', hlonger⟩ := ih nofun hrest
    · exact .inl fun more => .not (hends more)
    · exact .inr ⟨more, _, .not hlonger⟩
  | negate _ ih =>
    obtain hends | ⟨more, e', hlonger⟩ := ih nofun hrest
    · exact .inl fun more => .negate (hends more)
    · exact .inr ⟨more, _, .negate hlonger⟩
  | unsigned _ _ ih =>
    obtain hends | ⟨more, e', hlonger⟩ := ih nofun hrest
    · by_cases ht : t = .symbol .leftParen
      · subst ht
        exact .inr ⟨[.symbol .rightParen], _, .unsigned (.apply (hends _) .noArguments) nofun⟩
      · exact .inl fun more => .unsigned (hends more) fun heq => ht (Option.some.inj heq)
    · exact .inr ⟨more, e', .unsigned hlonger nofun⟩
  | callee _ ih =>
    obtain hends | ⟨more, e', hlonger⟩ := ih nofun hrest
    · exact .inl fun more => .callee (hends more)
    · exact .inr ⟨more, _, .callee hlonger⟩
  | apply callee _ _ ih =>
    have hcallee (more : List Lexeme) := callee.extend nofun (t :: more)
    obtain hends | ⟨more, values, hlonger⟩ := ih nofun hrest
    · exact .inl fun more => .apply (hcallee more) (hends more)
    · exact .inr ⟨more, _, .apply (hcallee more) hlonger⟩
  | noArguments =>
    subst hrest
    exact .inl fun more => .noArguments
  | arguments _ ih =>
    obtain hends | ⟨more, e', hlonger⟩ := ih nofun hrest
    · exact .inl fun more => .arguments (hends more)
    · exact .inr ⟨more, _, .arguments hlonger⟩
  | lastArgument value _ =>
    subst hrest
    exact .inl fun more => .lastArgument (value.extend nofun (t :: more))
  | argument value _ _ ih =>
    have hvalue (more : List Lexeme) := value.extend nofun (t :: more)
    obtain hends | ⟨more, values, hlonger⟩ := ih nofun hrest
    · exact .inl fun more => .argument (hvalue more) (hends more)
    · exact .inr ⟨more, _, .argument (hvalue more) hlonger⟩
  | text bytes =>
    subst hrest
    exact .inl fun more => .text bytes
  | number n =>
    subst hrest
    exact .inl fun more => .number n
  | variableValue name =>
    subst hrest
    exact .inl fun more => .variableValue name
  | true =>
    subst hrest
    exact .inl fun more => .true
  | false =>
    subst hrest
    exact .inl fun more => .false
  | upper =>
    subst hrest
    exact .inl fun more => .upper
  | lower =>
    subst hrest
    exact .inl fun more => .lower
  | builtin h =>
    subst hrest
    exact .inl fun more => .builtin h
  | brackets inner _ =>
    subst hrest
    exact .inl fun more => .brackets (inner.extend nofun (t :: more))
  | cases arm arms alternative =>
    subst hrest
    have hmid := alternative.left_ne_nil nofun
    have hmid' := arms.left_ne_nil hmid
    exact .inl fun more => .cases (arm.extend hmid' _) (arms.extend hmid _)
      (alternative.extend nofun (t :: more))
  | @function _ _ _ names _ parameters _ ih =>
    obtain hends | ⟨more, e', hlonger⟩ := ih nofun hrest
    · refine .inl fun more => ?_
      rw [List.cons_append, List.append_assoc]
      exact .function parameters (hends more)
    · refine .inr ⟨more, .function names e', ?_⟩
      rw [List.cons_append, List.append_assoc]
      exact .function parameters hlonger
  | arm | noArms | arms | noAlternative | alternative => exact absurd trivial hf

end Expression

end WordPattern
