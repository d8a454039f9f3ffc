import WordPattern.Proofs.Expr.Reading

/-!
# What is written is read back

Lexemes that are written for a tree with the brackets that it needs derive this tree, in front of
everything that does not make one of its parts longer.
-/

namespace WordPattern.Expression

variable {ls rest more : List Lexeme} {e : Expr}

/-! ## What stands behind -/

/-- Nothing behind an operand of the level makes it longer. -/
def Level.OperandEnds (l : Level) (rest : List Lexeme) : Prop :=
  rest.head? ≠ some (.symbol .leftParen) ∧ ∀ l' : Level, l'.rank < l.rank → l'.EndsAt rest

/-- Nothing behind an expression of the strength makes a part of it longer. -/
def Strength.PartsEnd : Strength → List Lexeme → Prop
  | .call, _ => True
  | .unary, rest => rest.head? ≠ some (.symbol .leftParen)
  | .level l, rest => l.OperandEnds rest ∧ (l = .comparison → l.EndsAt rest)

/-- Nothing behind an expression makes it longer. -/
def Ends (rest : List Lexeme) : Prop :=
  rest.head? ≠ some (.symbol .leftParen) ∧ ∀ l : Level, l.EndsAt rest

theorem ends_cons {t : Lexeme} (hoperator : ∀ l : Level, l.operator? t = none)
    (hbracket : t ≠ .symbol .leftParen) : Ends (t :: more) := by
  constructor
  · exact fun heq => hbracket (Option.some.inj heq)
  · rintro l _ ⟨⟩
    exact hoperator l

/-- What stands between expressions or behind them. -/
def delimiters : List Lexeme :=
  [.symbol .rightParen, .symbol .comma, .keyword .«then», .keyword .when, .keyword .otherwise,
    .keyword .«end»]

theorem ends_of_delimiter {t : Lexeme} (h : t ∈ delimiters) : Ends (t :: more) := by
  simp only [delimiters, List.mem_cons, List.not_mem_nil, or_false] at h
  obtain rfl | rfl | rfl | rfl | rfl | rfl := h <;>
    exact ends_cons (fun l => by cases l <;> rfl) nofun

theorem ends_nil : Ends [] := ⟨nofun, fun _ _ => nofun⟩

theorem Ends.partsEnd (h : Ends rest) (s : Strength) : s.PartsEnd rest := by
  cases s with
  | call => trivial
  | unary => exact h.1
  | level l => exact ⟨⟨h.1, fun l' _ => h.2 l'⟩, fun _ => h.2 l⟩

theorem Level.OperandEnds.tighter {l : Level} (h : l.OperandEnds rest) :
    l.tighter.PartsEnd rest := by
  have hbelow {l' : Level} (hl : l'.rank < l.rank) : l'.OperandEnds rest :=
    ⟨h.1, fun l'' hl' => h.2 l'' (hl'.trans hl)⟩
  cases l with
  | multiplicative => exact h.1
  | additive | comparison | and | or =>
    exact ⟨hbelow (by decide), fun _ => h.2 _ (by decide)⟩

/-- The operator of a level belongs to no other one. -/
theorem Level.operator?_unique {l l' : Level} {t : Lexeme} {op : BinaryOp}
    (h : l.operator? t = some op) (hl : l' ≠ l) : l'.operator? t = none := by
  unfold Level.operator? at h
  split at h
  all_goals first
    | (cases l' <;> first | rfl | exact absurd rfl hl)
    | cases h

/-- An operator of the level ends its left operand. -/
theorem Level.operandEnds_of_operator {l : Level} {t : Lexeme} {op : BinaryOp}
    (h : l.operator? t = some op) : l.OperandEnds (t :: more) := by
  constructor
  · rintro ⟨⟩
    cases l <;> cases h
  · rintro l' hl' _ ⟨⟩
    refine Level.operator?_unique h ?_
    rintro rfl
    exact hl'.false

theorem Level.left_partsEnd {l : Level} {t : Lexeme} {op : BinaryOp}
    (h : l.operator? t = some op) : l.left.PartsEnd (t :: more) := by
  have hends : l.OperandEnds (t :: more) := l.operandEnds_of_operator h
  unfold Level.left
  split
  · exact hends.tighter
  · rename_i hl
    exact ⟨hends, fun heq => absurd heq hl⟩

/-! ## What is written derives from the grammar -/

/-- What an expression of the strength derives from: its level with the end left open, so that more
operands can be joined to it. -/
def Strength.Opens : Strength → List Lexeme → Expr → List Lexeme → Prop
  | .call, ls, e, rest => Derives .call ls e rest
  | .unary, ls, e, rest => Derives .unary ls e rest
  | .level .comparison, ls, e, rest => Derives (.level .comparison) ls e rest
  | .level l, ls, e, rest => Derives (.chain l) ls e rest

theorem Level.operand_of_opens {l : Level} (h : l.tighter.Opens ls e rest)
    (hends : l.OperandEnds rest) : Derives (.operand l) ls e rest := by
  cases l with
  | or => exact .ofAnd (.level h (hends.2 .and (by decide)))
  | and => exact .ofComparison h
  | comparison => exact .ofAdditive (.level h (hends.2 .additive (by decide)))
  | additive => exact .ofMultiplicative (.level h (hends.2 .multiplicative (by decide)))
  | multiplicative => exact .ofUnary h

theorem Level.opens_of_operand {l : Level} (h : Derives (.operand l) ls e rest)
    (hends : l = .comparison → l.EndsAt rest) : (Strength.level l).Opens ls e rest := by
  cases l with
  | comparison => exact .level (.first h) (hends rfl)
  | or | and | additive | multiplicative => exact .first h

theorem Level.opens_of_binary {l : Level} {t : Lexeme} {op : BinaryOp} {a b : Expr}
    {mid : List Lexeme} (left : l.left.Opens ls a (t :: mid)) (sign : l.operator? t = some op)
    (right : Derives (.operand l) mid b rest) :
    (Strength.level l).Opens ls (.binary op a b) rest := by
  cases l with
  | comparison =>
    have hends : Level.comparison.OperandEnds (t :: mid) := Level.operandEnds_of_operator sign
    exact .compare (Level.operand_of_opens left hends) sign right
  | or | and | additive | multiplicative => exact .more (by decide) left sign right

/-- An expression of any level is whole where nothing makes it longer. -/
theorem Ends.whole (hends : Ends rest)
    (h : (Strength.level .or).PartsEnd rest → (Bool.true = Bool.true → Ends rest) →
      (Strength.level .or).Opens (ls ++ rest) e rest) : Derives (.level .or) (ls ++ rest) e rest :=
  .level (h (hends.partsEnd _) fun _ => hends) (hends.2 .or)

theorem Derives.of_arms {arms : List (Expr × Expr)} (h : Derives .arms ls arms rest)
    (hne : arms ≠ []) : ∃ first others mid, arms = first :: others ∧
      Derives .arm ls first mid ∧ Derives .arms mid others rest := by
  cases h with
  | noArms => exact absurd rfl hne
  | arms harm hothers => exact ⟨_, _, _, rfl, harm, hothers⟩

/-- The arms of a choice end at its alternative, or at the end of the choice. -/
theorem WrittenAlternative.ends {otherwise : Option Expr} (h : WrittenAlternative otherwise ls) :
    Ends (ls ++ .keyword .«end» :: rest) ∧
      (ls ++ .keyword .«end» :: rest).head? ≠ Option.some (.keyword .when) := by
  cases h <;> exact ⟨ends_of_delimiter (by simp [delimiters]), nofun⟩

mutual
theorem Written.opens {s : Strength} {last : Bool} {e : Expr} {ls : List Lexeme}
    (h : Written s last e ls) {rest : List Lexeme} (hparts : s.PartsEnd rest)
    (hlast : last = Bool.true → Ends rest) : s.Opens (ls ++ rest) e rest := by
  match h with
  | .binary sign left right =>
    rw [List.append_assoc, List.cons_append]
    refine Level.opens_of_binary (left.opens (Level.left_partsEnd sign) nofun) sign ?_
    exact Level.operand_of_opens (right.opens hparts.1.tighter hlast) hparts.1
  | .loose h =>
    refine Level.opens_of_operand ?_ hparts.2
    exact Level.operand_of_opens (h.opens hparts.1.tighter hlast) hparts.1
  | .not h => exact .not (h.opens hparts hlast)
  | .negate h => exact .negate (h.opens hparts hlast)
  | .unsigned h => exact .unsigned (h.opens trivial hlast) hparts
  | .apply callee arguments =>
    rw [List.append_assoc, List.cons_append]
    exact .apply (callee.opens trivial nofun) arguments.derives
  | .brackets h =>
    rw [List.cons_append, List.append_assoc]
    exact .callee (.brackets ((ends_of_delimiter (by simp [delimiters])).whole h.opens))
  | .text bytes => exact .callee (.text bytes)
  | .number n => exact .callee (.number n)
  | .variableValue name => exact .callee (.variableValue name)
  | .true => exact .callee .true
  | .false => exact .callee .false
  | .upper => exact .callee .upper
  | .lower => exact .callee .lower
  | .builtin h => exact .callee (.builtin h)
  | .cases harms halternative =>
    simp only [List.cons_append, List.append_assoc]
    obtain ⟨hends, hwhen⟩ := halternative.ends
    obtain ⟨harms, hne⟩ := harms.derives hends hwhen
    obtain ⟨first, others, mid, rfl, harm, hothers⟩ := harms.of_arms hne
    exact .callee (.cases harm hothers halternative.derives)
  | .function parameters body =>
    rw [List.cons_append, List.append_assoc]
    exact .callee (.function parameters ((hlast rfl).whole body.opens))

theorem WrittenArguments.derives {values : List Expr} {ls : List Lexeme}
    (h : WrittenArguments values ls) {rest : List Lexeme} :
    Derives .arguments (ls ++ rest) values rest := by
  match h with
  | .none => exact .noArguments
  | .some h => exact .arguments h.derives

theorem WrittenValues.derives {values : List Expr} {ls : List Lexeme} (h : WrittenValues values ls)
    {rest : List Lexeme} : Derives .someArguments (ls ++ rest) values rest := by
  match h with
  | .last value =>
    rw [List.append_assoc]
    exact .lastArgument ((ends_of_delimiter (by simp [delimiters])).whole value.opens)
  | .cons value others =>
    rw [List.append_assoc, List.cons_append]
    exact .argument ((ends_of_delimiter (by simp [delimiters])).whole value.opens) others.derives

theorem WrittenArms.derives {arms : List (Expr × Expr)} {ls : List Lexeme} (h : WrittenArms arms ls)
    {rest : List Lexeme} (hends : Ends rest) (hwhen : rest.head? ≠ some (.keyword .when)) :
    Derives .arms (ls ++ rest) arms rest ∧ arms ≠ [] := by
  match h with
  | @WrittenArms.last a b ls ms guard value =>
    have harm : Derives .arm (.keyword .when :: (ls ++ .keyword .«then» :: (ms ++ rest))) (a, b)
        rest :=
      .arm ((ends_of_delimiter (by simp [delimiters])).whole guard.opens) (hends.whole value.opens)
    rw [List.cons_append, List.append_assoc]
    exact ⟨.arms harm (.noArms hwhen), nofun⟩
  | @WrittenArms.cons a b others ls ms ns guard value hothers =>
    obtain ⟨hothers', hne⟩ := hothers.derives hends hwhen
    have hnext : Ends (ns ++ rest) := by
      cases hothers <;> exact ends_of_delimiter (by simp [delimiters])
    have harm : Derives .arm (.keyword .when :: (ls ++ .keyword .«then» :: (ms ++ (ns ++ rest))))
        (a, b) (ns ++ rest) :=
      .arm ((ends_of_delimiter (by simp [delimiters])).whole guard.opens) (hnext.whole value.opens)
    simp only [List.cons_append, List.append_assoc]
    exact ⟨.arms harm hothers', nofun⟩

theorem WrittenAlternative.derives {otherwise : Option Expr} {ls : List Lexeme}
    (h : WrittenAlternative otherwise ls) {rest : List Lexeme} :
    Derives .alternative (ls ++ .keyword .«end» :: rest) otherwise (.keyword .«end» :: rest) := by
  match h with
  | .none => exact .noAlternative nofun
  | .some h => exact .alternative ((ends_of_delimiter (by simp [delimiters])).whole h.opens)
end

theorem Written.forms {e : Expr} {ls : List Lexeme} (h : Written (.level .or) Bool.true e ls) :
    Forms ls e := by
  have hwhole := ends_nil.whole h.opens
  rwa [List.append_nil] at hwhole

/-! ## Every tree is written -/

theorem Written.of_unary {last : Bool} (h : Written .unary last e ls) (l : Level) :
    Written (.level l) last e ls := by
  have hmultiplicative : Written (.level .multiplicative) last e ls := .loose h
  have hadditive : Written (.level .additive) last e ls := .loose hmultiplicative
  have hcomparison : Written (.level .comparison) last e ls := .loose hadditive
  have hand : Written (.level .and) last e ls := .loose hcomparison
  cases l with
  | multiplicative => exact hmultiplicative
  | additive => exact hadditive
  | comparison => exact hcomparison
  | and => exact hand
  | or => exact .loose hand

theorem Written.of_call {last : Bool} (h : Written .call last e ls) (s : Strength) :
    Written s last e ls := by
  cases s with
  | call => exact h
  | unary => exact .unsigned h
  | level l => exact (Written.unsigned h).of_unary l

/-- An expression without brackets around it is one of the loosest level. -/
theorem Written.whole {s : Strength} {last : Bool} (h : Written s last e ls) :
    Written (.level .or) last e ls := by
  have hand (h : Written (.level .and) last e ls) : Written (.level .or) last e ls := .loose h
  have hcomparison (h : Written (.level .comparison) last e ls) := hand (.loose h)
  have hadditive (h : Written (.level .additive) last e ls) := hcomparison (.loose h)
  cases s with
  | call => exact h.of_call _
  | unary => exact h.of_unary _
  | level l =>
    cases l with
    | or => exact h
    | and => exact hand h
    | comparison => exact hcomparison h
    | additive => exact hadditive h
    | multiplicative => exact hadditive (.loose h)

/-- The tree can be written where everything else can be, with brackets if need be. -/
def Writable (e : Expr) : Prop := ∃ ls, ∀ s last, Written s last e ls

theorem Written.writable {s : Strength} (h : Written s Bool.true e ls) : Writable e :=
  ⟨_, fun s _ => (Written.brackets h.whole).of_call s⟩

/-- What a form stands for can be written. -/
def Form.CanWrite : (f : Form) → f.Value → Prop
  | .arguments, values => ∃ ls, WrittenArguments values ls
  | .someArguments, values => ∃ ls, WrittenValues values ls
  | .arm, (a, b) => Writable a ∧ Writable b
  | .arms, all => all = [] ∨ ∃ ls, WrittenArms all ls
  | .alternative, otherwise => ∃ ls, WrittenAlternative otherwise ls
  | .level _, e | .chain _, e | .operand _, e | .unary, e | .call, e | .atom, e => Writable e

theorem Derives.canWrite {f : Form} {v : f.Value} (h : Derives f ls v rest) : f.CanWrite v := by
  induction h with
  | level _ _ ih | first _ ih | ofAnd _ ih | ofComparison _ ih | ofAdditive _ ih
  | ofMultiplicative _ ih | ofUnary _ ih | unsigned _ _ ih | callee _ ih | brackets _ ih => exact ih
  | compare _ sign _ ihleft ihright | more _ _ sign _ ihleft ihright =>
    obtain ⟨ls, hleft⟩ := ihleft
    obtain ⟨ms, hright⟩ := ihright
    exact (Written.binary sign (hleft _ _) (hright _ _)).writable
  | not _ ih =>
    obtain ⟨ls, h⟩ := ih
    exact (Written.not (h _ _)).writable
  | negate _ ih =>
    obtain ⟨ls, h⟩ := ih
    exact (Written.negate (h _ _)).writable
  | apply _ _ ihcallee iharguments =>
    obtain ⟨ls, hcallee⟩ := ihcallee
    obtain ⟨ms, harguments⟩ := iharguments
    exact (Written.apply (hcallee _ _) harguments).writable
  | noArguments => exact ⟨_, .none⟩
  | arguments _ ih =>
    obtain ⟨ls, h⟩ := ih
    exact ⟨ls, .some h⟩
  | lastArgument _ ih =>
    obtain ⟨ls, h⟩ := ih
    exact ⟨_, .last (h _ _)⟩
  | argument _ _ ihvalue ihothers =>
    obtain ⟨ls, hvalue⟩ := ihvalue
    obtain ⟨ms, hothers⟩ := ihothers
    exact ⟨_, .cons (hvalue _ _) hothers⟩
  | text bytes => exact (Written.text bytes).writable
  | number n => exact (Written.number n).writable
  | variableValue name => exact (Written.variableValue name).writable
  | true => exact Written.true.writable
  | false => exact Written.false.writable
  | upper => exact Written.upper.writable
  | lower => exact Written.lower.writable
  | builtin h => exact (Written.builtin h).writable
  | cases _ _ _ iharm iharms ihalternative =>
    obtain ⟨⟨ls, hguard⟩, ⟨ms, hvalue⟩⟩ := iharm
    obtain ⟨ns, halternative⟩ := ihalternative
    obtain rfl | ⟨others, hothers⟩ := iharms
    · exact (Written.cases (.last (hguard _ _) (hvalue _ _)) halternative).writable
    · exact (Written.cases (.cons (hguard _ _) (hvalue _ _) hothers) halternative).writable
  | function parameters _ ih =>
    obtain ⟨ls, hbody⟩ := ih
    exact (Written.function parameters (hbody _ _)).writable
  | arm _ _ ihguard ihvalue => exact ⟨ihguard, ihvalue⟩
  | noArms => exact .inl rfl
  | arms _ _ iharm iharms =>
    obtain ⟨⟨ls, hguard⟩, ⟨ms, hvalue⟩⟩ := iharm
    obtain rfl | ⟨others, hothers⟩ := iharms
    · exact .inr ⟨_, .last (hguard _ _) (hvalue _ _)⟩
    · exact .inr ⟨_, .cons (hguard _ _) (hvalue _ _) hothers⟩
  | noAlternative => exact ⟨_, .none⟩
  | alternative _ ih =>
    obtain ⟨ls, h⟩ := ih
    exact ⟨_, .some (h _ _)⟩

/-- The trees that are written are those that are read. -/
theorem exists_written_iff :
    (∃ ls, Written (.level .or) Bool.true e ls) ↔ ∃ ls, Forms ls e := by
  constructor
  · rintro ⟨ls, h⟩
    exact ⟨ls, h.forms⟩
  · rintro ⟨ls, h⟩
    obtain ⟨ms, hwritten⟩ : Writable e := h.canWrite
    exact ⟨ms, hwritten _ _⟩

/-! ## Reading by the table -/

theorem reads_level_iff {finish : Position} {ts rest : List Token} :
    Reads (level finish .or ts) e rest ↔
      rest <:+ ts ∧ Derives (.level .or) (lexemes ts) e (lexemes rest) := by
  constructor
  · exact derived_level
  · rintro ⟨⟨front, rfl⟩, h⟩
    obtain ⟨rest', hrest', hread⟩ := isRead_of_derives finish h rfl
    obtain ⟨⟨front', hfront⟩, -⟩ := derived_level hread
    have hlength : rest'.length = rest.length := by
      rw [← length_lexemes, hrest', length_lexemes]
    obtain ⟨-, rfl⟩ := List.append_inj' hfront hlength
    exact hread

/-- Lexemes begin with one expression only. -/
theorem Derives.unique {e' : Expr} {rest' : List Lexeme} (h : Derives (.level .or) ls e rest)
    (h' : Derives (.level .or) ls e' rest') : e = e' ∧ rest = rest' := by
  have htokens : lexemes (ls.map fun l => ⟨l, .start⟩) = ls := by
    simp [lexemes, Function.comp_def]
  obtain ⟨ts, rfl, hread⟩ := isRead_of_derives .start h htokens
  obtain ⟨ts', rfl, hread'⟩ := isRead_of_derives .start h' htokens
  obtain ⟨rfl, rfl⟩ := Reads.unique hread hread'
  exact ⟨rfl, rfl⟩

/-- An expression ends in front of other lexemes if and only if it is one by itself and the first of
them does not make it longer. -/
theorem derives_append_iff {front : List Lexeme} :
    Derives (.level .or) (front ++ rest) e rest ↔
      Forms front e ∧ ∀ t, rest.head? = some t → ¬Continues front t := by
  constructor
  · intro h
    have hforms : Forms front e := by
      have hnil := h.before .nil
      rwa [List.append_nil] at hnil
    refine ⟨hforms, fun t ht ⟨more, e', hlonger⟩ => ?_⟩
    obtain ⟨tail, rfl⟩ : ∃ tail, rest = t :: tail := by
      cases rest with
      | nil => cases ht
      | cons t' tail => exact ⟨tail, by rw [Option.some.inj ht]⟩
    exact absurd ((h.before .cons).unique hlonger).2 nofun
  · rintro ⟨hforms, hstop⟩
    cases rest with
    | nil => rwa [List.append_nil]
    | cons t tail =>
      obtain hends | ⟨more, e', hlonger⟩ := Derives.ends_or_goes_on hforms nofun rfl t
      · exact hends tail
      · exact absurd ⟨more, e', hlonger⟩ (hstop t rfl)

/-- An expression is read off some tokens, up to the rest of them, if and only if those in front of
the rest are an expression, with each part as long as it can be, and the first token of the rest
does not make it longer. The tokens then are this expression only. Lexemes that are written for a
tree, with at least the brackets that the table of precedence asks for, are read back as it. -/
theorem expressions_follow_the_table (finish : Position) (e : Expr) (ts rest : List Token) :
    (Reads (Expr.parse finish ts) e rest ↔
      ∃ front, ts = front ++ rest ∧ (∀ e', Forms (lexemes front) e' ↔ e' = e) ∧
        ∀ t, (lexemes rest).head? = some t → ¬Continues (lexemes front) t) ∧
    ∀ front, Written (.level .or) true e (lexemes front) →
      (∀ t, (lexemes rest).head? = some t → ¬Continues (lexemes front) t) →
        Reads (Expr.parse finish (front ++ rest)) e rest := by
  have hread (front : List Token) : Reads (Expr.parse finish (front ++ rest)) e rest ↔
      Forms (lexemes front) e ∧
        ∀ t, (lexemes rest).head? = some t → ¬Continues (lexemes front) t := by
    rw [Expr.parse, reads_level_iff, lexemes_append, derives_append_iff]
    exact and_iff_right (List.suffix_append ..)
  have hunique (front : List Token) (h : Forms (lexemes front) e) (e' : Expr) :
      Forms (lexemes front) e' ↔ e' = e := by
    constructor
    · exact fun h' => (h'.unique h).1
    · rintro rfl
      exact h
  constructor
  · constructor
    · intro h
      obtain ⟨front, rfl⟩ := (reads_level_iff.mp h).1
      obtain ⟨hforms, hstop⟩ := (hread front).mp h
      exact ⟨front, rfl, hunique front hforms, hstop⟩
    · rintro ⟨front, rfl, hforms, hstop⟩
      exact (hread front).mpr ⟨(hforms e).mpr rfl, hstop⟩
  · intro front hwritten hstop
    exact (hread front).mpr ⟨hwritten.forms, hstop⟩

end WordPattern.Expression
