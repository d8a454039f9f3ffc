import WordPattern.Program.Grammar
import WordPattern.Proofs.Expr.Written
import WordPattern.Proofs.Pattern.Trees

/-!
# Programs are read by their grammar

Every parser of a statement reads the lexemes of its form off the front. Where another statement
begins, or the text ends, nothing of a statement goes on, and so the form is read back as a whole.
-/

namespace WordPattern.Statement

variable {finish : Position} {ts rest : List Token} {ls rs : List Lexeme}

/-! ## What is read as a statement spells it -/

theorem spelled_amount {a : Amount} (h : Reads (Amount.parse finish ts) a rest) :
    Spelled (AmountForm · a) ts rest := by
  unfold Amount.parse at h
  split at h
  · obtain ⟨rfl, rfl⟩ := reads_ok.mp h
    exact .token .all
  · simp only [reads_bind, reads_expectCount, reads_pure] at h
    obtain ⟨n, _, _, ⟨l, _, rfl, hcount⟩, rfl, rfl⟩ := h
    exact ⟨[_, _], rfl, .top hcount⟩
  · simp only [reads_bind, reads_expectCount, reads_pure] at h
    obtain ⟨n, _, _, ⟨l, _, rfl, hcount⟩, rfl, rfl⟩ := h
    exact ⟨[_, _], rfl, .take hcount⟩
  · simp only [reads_bind, reads_expectCount] at h
    obtain ⟨n, _, _, ⟨l, _, rfl, hcount⟩, h⟩ := h
    split at h
    · obtain ⟨rfl, rfl⟩ := reads_pure.mp h
      exact ⟨[_, _], rfl, .skip hcount⟩
    · rename_i heat
      obtain ⟨_, rfl⟩ := of_eat?_eq_some heat
      simp only [reads_bind, reads_expectCount, reads_pure] at h
      obtain ⟨most, _, _, ⟨l', _, rfl, hcount'⟩, rfl, rfl⟩ := h
      exact ⟨[_, _, _, _], rfl, .skipTake hcount hcount'⟩
  · exact absurd h not_reads_error

theorem spelled_paths {ts rest : List Token} {files : List String}
    (h : Reads (paths finish ts) files rest) : Spelled (PathsForm · files) ts rest := by
  rw [paths] at h
  simp only [reads_bind, reads_expectLiteral] at h
  obtain ⟨bytes, ts₁, h₁, ⟨_, rfl⟩, h⟩ := h
  split at h
  · obtain ⟨rfl, rfl⟩ := reads_pure.mp h
    exact .token (.last bytes)
  · rename_i ts₂ h₂ heat
    obtain ⟨_, rfl⟩ := of_eat?_eq_some heat
    simp only [reads_bind, reads_pure] at h
    obtain ⟨others, ts₃, h₃, hothers, rfl, rfl⟩ := h
    obtain ⟨front, rfl, hform⟩ := spelled_paths hothers
    exact ⟨_ :: _ :: front, rfl, .cons bytes hform⟩
termination_by ts.length

theorem derives_of_reads {e : Expr} (h : Reads (Expr.parse finish ts) e rest) :
    ∃ front, ts = front ++ rest ∧
      Expression.Derives (.level .or) (lexemes front ++ lexemes rest) e (lexemes rest) := by
  obtain ⟨⟨front, rfl⟩, hderives⟩ := Expression.reads_level_iff.mp h
  rw [lexemes_append] at hderives
  exact ⟨front, rfl, hderives⟩

theorem spelled_expression {e : Expr} (h : Reads (Expr.parse finish ts) e rest) :
    Spelled (Expression.Forms · e) ts rest := by
  obtain ⟨front, hts, hderives⟩ := derives_of_reads h
  exact ⟨front, hts, (Expression.derives_append_iff.mp hderives).1⟩

theorem begins_cons {t : Token} : Expr.begins (t :: rest) = t.lexeme.beginsExpression := by
  obtain ⟨lexeme, position⟩ := t
  cases lexeme with
  | keyword k => cases k <;> rfl
  | _ => rfl

theorem ReplacementForm.begins {values : List Expr} (h : ReplacementForm ls values) :
    ∃ l more, ls = l :: more ∧ l.beginsExpression = true := by
  cases h with
  | last value => exact value.begins trivial
  | cons first => exact first.begins trivial

theorem spelled_replacement {ts rest : List Token} {values : List Expr}
    (h : Reads (Expr.parseAll finish ts) values rest) :
    Spelled (ReplacementForm · values) ts rest := by
  rw [Expr.parseAll] at h
  simp only [reads_bind] at h
  obtain ⟨first, ts₁, h₁, hfirst, h⟩ := h
  split at h
  · simp only [reads_bind, reads_pure] at h
    obtain ⟨others, ts₂, h₂, hothers, rfl, rfl⟩ := h
    obtain ⟨back, rfl, hback⟩ := spelled_replacement hothers
    obtain ⟨front, rfl, hderives⟩ := derives_of_reads hfirst
    -- The first expression ends in front of the next one, which is still there without the rest.
    obtain ⟨l, more, hl, -⟩ := hback.begins
    refine ⟨front ++ back, (List.append_assoc ..).symm, .cons ?_ hback⟩
    rw [lexemes_append] at hderives ⊢
    rw [hl] at hderives ⊢
    exact hderives.before .cons
  · obtain ⟨rfl, rfl⟩ := reads_pure.mp h
    exact (spelled_expression hfirst).imp fun _ => .last
termination_by ts.length

theorem spelled_setting {s : Statement} (h : Reads (setting finish ts) s rest) {t : Token}
    (ht : t.lexeme = .keyword .set) : Spelled (Form · s) (t :: ts) rest := by
  unfold setting at h
  split at h
  · rename_i name position more
    simp only [reads_bind, reads_expectKeyword, reads_pure] at h
    obtain ⟨_, _, _, ⟨_, rfl⟩, e, _, _, hvalue, rfl, rfl⟩ := h
    obtain ⟨front, rfl, hform⟩ := spelled_expression hvalue
    refine ⟨t :: _ :: _ :: front, rfl, ?_⟩
    simp only [lexemes_cons, ht]
    exact .setVariable name hform
  · rename_i name position more
    simp only [reads_bind, reads_expectKeyword, reads_pure] at h
    obtain ⟨_, _, _, ⟨_, rfl⟩, _, _, _, ⟨_, rfl⟩, c, _, _, hpattern, rfl, rfl⟩ := h
    obtain ⟨⟨front, rfl, hform⟩, -⟩ := Pattern.reads_chain_iff.mp hpattern
    refine ⟨t :: _ :: _ :: _ :: front, rfl, ?_⟩
    simp only [lexemes_cons, ht]
    exact .setSubroutine name hform
  · exact absurd h not_reads_error

theorem spelled_statement {ts rest : List Token} {s : Statement}
    (h : Reads (parse finish ts) s rest) : Spelled (Form · s) ts rest := by
  rw [parse.eq_def] at h
  split at h
  · simp only [reads_bind, reads_pure] at h
    obtain ⟨amount, _, _, hamount, c, _, _, hpattern, rfl, rfl⟩ := h
    obtain ⟨hpattern, -⟩ := Pattern.reads_chain_iff.mp hpattern
    obtain ⟨front, rfl, hls⟩ := spelled_amount hamount
    obtain ⟨back, rfl, hms⟩ := hpattern
    refine ⟨⟨.keyword .find, _⟩ :: (front ++ back), by rw [List.cons_append, List.append_assoc], ?_⟩
    rw [lexemes_cons, lexemes_append]
    exact .find hls hms
  · rename_i position more
    simp only [reads_bind, reads_expectKeyword, reads_pure] at h
    obtain ⟨amount, _, _, hamount, c, _, _, hpattern, _, _, _, ⟨position', rfl⟩, values, _, _,
      hreplacement, rfl, rfl⟩ := h
    obtain ⟨hpattern, -⟩ := Pattern.reads_chain_iff.mp hpattern
    obtain ⟨front, rfl, hls⟩ := spelled_amount hamount
    obtain ⟨mid, rfl, hms⟩ := hpattern
    obtain ⟨back, rfl, hns⟩ := spelled_replacement hreplacement
    refine ⟨⟨.keyword .replace, position⟩ ::
      (front ++ (mid ++ ⟨.keyword .«with», position'⟩ :: back)), ?_, ?_⟩
    · simp only [List.cons_append, List.append_assoc]
    · simp only [lexemes_cons, lexemes_append]
      exact .replace hls hms hns
  · simp only [reads_bind, reads_pure] at h
    obtain ⟨files, _, _, hpaths, rfl, rfl⟩ := h
    exact (spelled_paths hpaths).cons fun _ => .use
  · simp only [reads_bind, reads_expectCount, reads_pure] at h
    obtain ⟨n, _, h₁, ⟨l, _, rfl, hcount⟩, body, _, _, hbody, rfl, rfl⟩ := h
    obtain ⟨front, rfl, hform⟩ := spelled_statement hbody
    exact ⟨_ :: _ :: front, rfl, .«repeat» hcount hform⟩
  · simp only [reads_bind, reads_pure] at h
    obtain ⟨_, _, _, hsetting, rfl, rfl⟩ := h
    exact spelled_setting hsetting rfl
  · exact absurd h not_reads_error
termination_by ts.length

/-! ## What spells a statement is read -/

theorem Ending.patternEnd (h : Ending rs) : Pattern.PatternEnd rs := by
  cases h with
  | finish => exact .finish
  | statement hk rest => exact .statement hk rest

/-- No part of an expression goes on with the beginning of a statement. -/
theorem Ending.replaces {old : List Lexeme} (h : Ending rs) : Expression.Replaces old rs := by
  cases h with
  | finish => exact .nil
  | statement hk rest =>
    rintro _ ⟨⟩
    refine .inr ?_
    rintro (⟨l, op, hop⟩ | hk')
    · cases hk <;> cases l <;> cases hop
    · cases hk <;> simp at hk'

theorem Ending.tokens (h : Ending (lexemes rest)) :
    rest = [] ∨ ∃ k position more, rest = ⟨.keyword k, position⟩ :: more ∧ k.BeginsStatement := by
  generalize hls : lexemes rest = ls at h
  cases h with
  | finish => exact .inl (lexemes_eq_nil_iff.mp hls)
  | @statement k hk more =>
    obtain ⟨position, more, rfl, -⟩ := lexemes_eq_cons_iff.mp hls
    exact .inr ⟨k, position, more, rfl, hk⟩

theorem Ending.avoids_comma (h : Ending (lexemes rest)) : Avoids [.symbol .comma] rest := by
  obtain rfl | ⟨k, position, more, rfl, -⟩ := h.tokens
  · exact avoids_nil
  · simp

theorem Ending.begins (h : Ending (lexemes rest)) : Expr.begins rest = false := by
  obtain rfl | ⟨k, position, more, rfl, hk⟩ := h.tokens
  · rfl
  · cases hk <;> rfl

/-- An amount does not go on with the pattern behind it. -/
theorem avoids_take {front : List Token} {c : Chain} (h : Pattern.ChainForm (lexemes front) c) :
    Avoids [.keyword .take] (front ++ rest) := by
  obtain ⟨l, more, hl, hbegins⟩ := h.begins
  obtain ⟨position, tail, rfl, -⟩ := lexemes_eq_cons_iff.mp hl
  refine avoids_cons.mpr fun hmem => ?_
  obtain rfl := List.mem_singleton.mp hmem
  cases hbegins

theorem reads_amount {a : Amount} {front : List Token} (h : AmountForm (lexemes front) a)
    (stop : Avoids [.keyword .take] rest) : Reads (Amount.parse finish (front ++ rest)) a rest := by
  generalize hls : lexemes front = ls at h
  cases h with
  | all =>
    simp only [lexemes_eq_cons_iff, lexemes_eq_nil_iff] at hls
    obtain ⟨_, _, rfl, rfl⟩ := hls
    exact reads_ok.mpr ⟨rfl, rfl⟩
  | top count | take count =>
    simp only [lexemes_eq_cons_iff, lexemes_eq_nil_iff] at hls
    obtain ⟨_, _, rfl, position, _, rfl, rfl⟩ := hls
    exact .bind (reads_expectCount.mpr ⟨_, position, rfl, count⟩) fun _ => reads_pure.mpr ⟨rfl, rfl⟩
  | skip count =>
    simp only [lexemes_eq_cons_iff, lexemes_eq_nil_iff] at hls
    obtain ⟨_, _, rfl, position, _, rfl, rfl⟩ := hls
    rw [List.cons_append, List.cons_append, List.nil_append]
    refine .bind (reads_expectCount.mpr ⟨_, position, rfl, count⟩) fun _ => ?_
    simp only [stop.eat? (l := .keyword .take) (by simp)]
    exact reads_pure.mpr ⟨rfl, rfl⟩
  | skipTake count count' =>
    simp only [lexemes_eq_cons_iff, lexemes_eq_nil_iff] at hls
    obtain ⟨_, _, rfl, position, _, rfl, _, _, rfl, position', _, rfl, rfl⟩ := hls
    refine .bind (reads_expectCount.mpr ⟨_, position, rfl, count⟩) fun _ => ?_
    refine .bind (reads_expectCount.mpr ⟨_, position', rfl, count'⟩) fun _ => ?_
    exact reads_pure.mpr ⟨rfl, rfl⟩

theorem reads_paths {ls : List Lexeme} {files : List String} (h : PathsForm ls files)
    {front : List Token} (hls : lexemes front = ls) (stop : Avoids [.symbol .comma] rest) :
    Reads (paths finish (front ++ rest)) files rest := by
  induction h generalizing front with
  | last bytes =>
    simp only [lexemes_eq_cons_iff, lexemes_eq_nil_iff] at hls
    obtain ⟨position, _, rfl, rfl⟩ := hls
    rw [List.cons_append, List.nil_append, paths]
    refine .bind (reads_expectLiteral.mpr ⟨position, rfl⟩) fun _ => ?_
    simp only [stop.eat? (l := .symbol .comma) (by simp)]
    exact reads_pure.mpr ⟨rfl, rfl⟩
  | cons bytes _ ih =>
    obtain ⟨position, _, rfl, hback⟩ := lexemes_eq_cons_iff.mp hls
    obtain ⟨position', others, rfl, hothers⟩ := lexemes_eq_cons_iff.mp hback
    rw [List.cons_append, List.cons_append, paths]
    refine .bind (reads_expectLiteral.mpr ⟨position, rfl⟩) fun _ => ?_
    exact .bind (ih hothers) fun _ => reads_pure.mpr ⟨rfl, rfl⟩

theorem reads_expression {e : Expr} {front : List Token}
    (h : Expression.Derives (.level .or) (lexemes front ++ lexemes rest) e (lexemes rest)) :
    Reads (Expr.parse finish (front ++ rest)) e rest := by
  refine Expression.reads_level_iff.mpr ⟨List.suffix_append .., ?_⟩
  rwa [lexemes_append]

theorem reads_forms {e : Expr} {front : List Token} (h : Expression.Forms (lexemes front) e)
    (stop : Ending (lexemes rest)) : Reads (Expr.parse finish (front ++ rest)) e rest := by
  have hwhole : Expression.Derives (.level .or) (lexemes front ++ []) e [] := by
    rwa [List.append_nil]
  exact reads_expression (hwhole.before stop.replaces)

theorem reads_replacement {ls : List Lexeme} {values : List Expr} (h : ReplacementForm ls values)
    {front : List Token} (hls : lexemes front = ls) (stop : Ending (lexemes rest)) :
    Reads (Expr.parseAll finish (front ++ rest)) values rest := by
  induction h generalizing front with
  | last value =>
    subst hls
    rw [Expr.parseAll]
    refine .bind (reads_forms value stop) fun _ => ?_
    simp only [stop.begins]
    exact reads_pure.mpr ⟨rfl, rfl⟩
  | @cons ls ms e others first hothers ih =>
    obtain ⟨l, more, rfl, hl⟩ := hothers.begins
    obtain ⟨ns, rfl, -⟩ := first.replace
    obtain ⟨front, back, rfl, rfl, hback⟩ := lexemes_eq_append_iff.mp hls
    have hfirst : Reads (Expr.parse finish (front ++ (back ++ rest))) e (back ++ rest) := by
      refine reads_expression ?_
      rw [lexemes_append, hback, ← List.append_assoc]
      exact first.extend nofun _
    have hgoes : Expr.begins (back ++ rest) = true := by
      obtain ⟨position, tail, rfl, -⟩ := lexemes_eq_cons_iff.mp hback
      exact begins_cons.trans hl
    rw [List.append_assoc, Expr.parseAll]
    refine .bind hfirst fun _ => ?_
    simp only [hgoes, ↓reduceIte]
    exact .bind (ih hback) fun _ => reads_pure.mpr ⟨rfl, rfl⟩

theorem reads_statement {s : Statement} {ls : List Lexeme} (h : Form ls s) {front : List Token}
    (hls : lexemes front = ls) (stop : Ending (lexemes rest)) :
    Reads (parse finish (front ++ rest)) s rest := by
  induction h generalizing front with
  | find hamount hpattern =>
    obtain ⟨position, back, rfl, hback⟩ := lexemes_eq_cons_iff.mp hls
    obtain ⟨amount, pattern, rfl, rfl, rfl⟩ := lexemes_eq_append_iff.mp hback
    have hchain : Reads (Chain.parse finish (pattern ++ rest)) _ rest :=
      Pattern.reads_chain hpattern rfl stop.patternEnd
    rw [List.cons_append, List.append_assoc, parse]
    refine .bind (reads_amount hamount (avoids_take hpattern)) fun _ => ?_
    exact .bind hchain fun _ => reads_pure.mpr ⟨rfl, rfl⟩
  | replace hamount hpattern hreplacement =>
    obtain ⟨position, back, rfl, hback⟩ := lexemes_eq_cons_iff.mp hls
    obtain ⟨amount, back, rfl, rfl, hpatterns⟩ := lexemes_eq_append_iff.mp hback
    obtain ⟨pattern, back, rfl, rfl, hwith⟩ := lexemes_eq_append_iff.mp hpatterns
    obtain ⟨position', replacement, rfl, rfl⟩ := lexemes_eq_cons_iff.mp hwith
    have hchain : Reads (Chain.parse finish (pattern ++ ⟨.keyword .«with», position'⟩ ::
        (replacement ++ rest))) _ _ :=
      Pattern.reads_chain hpattern rfl (.«with» _)
    rw [List.cons_append, List.append_assoc, List.append_assoc, List.cons_append, parse]
    refine .bind (reads_amount hamount (avoids_take hpattern)) fun _ => ?_
    refine .bind hchain fun _ => .bind reads_keyword fun _ => ?_
    exact .bind (reads_replacement hreplacement rfl stop) fun _ => reads_pure.mpr ⟨rfl, rfl⟩
  | use hpaths =>
    obtain ⟨position, back, rfl, hback⟩ := lexemes_eq_cons_iff.mp hls
    rw [List.cons_append, parse]
    exact .bind (reads_paths hpaths hback stop.avoids_comma) fun _ => reads_pure.mpr ⟨rfl, rfl⟩
  | «repeat» count _ ih =>
    obtain ⟨position, _, rfl, hback⟩ := lexemes_eq_cons_iff.mp hls
    obtain ⟨position', body, rfl, hbody⟩ := lexemes_eq_cons_iff.mp hback
    rw [List.cons_append, List.cons_append, parse]
    refine .bind (reads_expectCount.mpr ⟨_, position', rfl, count⟩) fun _ => ?_
    exact .bind (ih hbody) fun _ => reads_pure.mpr ⟨rfl, rfl⟩
  | setVariable name hvalue =>
    simp only [lexemes_eq_cons_iff] at hls
    obtain ⟨_, _, rfl, position, _, rfl, _, value, rfl, rfl⟩ := hls
    rw [List.cons_append, parse]
    refine .bind ?_ fun _ => reads_pure.mpr ⟨rfl, rfl⟩
    rw [List.cons_append, List.cons_append, setting]
    refine .bind reads_keyword fun _ => ?_
    exact .bind (reads_forms hvalue stop) fun _ => reads_pure.mpr ⟨rfl, rfl⟩
  | setSubroutine name hpattern =>
    simp only [lexemes_eq_cons_iff] at hls
    obtain ⟨_, _, rfl, position, _, rfl, _, _, rfl, _, pattern, rfl, rfl⟩ := hls
    have hchain : Reads (Chain.parse finish (pattern ++ rest)) _ rest :=
      Pattern.reads_chain hpattern rfl stop.patternEnd
    rw [List.cons_append, parse]
    refine .bind ?_ fun _ => reads_pure.mpr ⟨rfl, rfl⟩
    rw [List.cons_append, List.cons_append, List.cons_append, setting]
    refine .bind reads_keyword fun _ => .bind reads_keyword fun _ => ?_
    exact .bind hchain fun _ => reads_pure.mpr ⟨rfl, rfl⟩

theorem Form.begins {s : Statement} (h : Form ls s) :
    ∃ k more, ls = .keyword k :: more ∧ k.BeginsStatement := by
  cases h with
  | find => exact ⟨_, _, rfl, .find⟩
  | replace => exact ⟨_, _, rfl, .replace⟩
  | use => exact ⟨_, _, rfl, .use⟩
  | «repeat» => exact ⟨_, _, rfl, .«repeat»⟩
  | setVariable | setSubroutine => exact ⟨_, _, rfl, .set⟩

theorem ListForm.ending {list : List Statement} (h : ListForm ls list) : Ending ls := by
  cases h with
  | nil => exact .finish
  | cons first others =>
    obtain ⟨k, more, rfl, hk⟩ := first.begins
    exact .statement hk _

/-! ## Whole programs -/

theorem parseAll_cons {s : Statement} {list : List Statement} {more : List Token} {t : Token}
    (h : Reads (parse finish (t :: rest)) s more) :
    parseAll finish (t :: rest) = .ok list ↔
      ∃ others, parseAll finish more = .ok others ∧ list = s :: others := by
  obtain ⟨hshorter, hparse⟩ := h
  rw [parseAll, hparse]
  simp only [bind, Except.bind]
  cases parseAll finish more with
  | error e => simp
  | ok others => simp [pure, Except.pure, eq_comm]

theorem listForm_of_parseAll {ts : List Token} {list : List Statement}
    (h : parseAll finish ts = .ok list) : ListForm (lexemes ts) list := by
  match ts with
  | [] =>
    rw [parseAll] at h
    cases h
    exact .nil
  | t :: rest =>
    cases hparse : parse finish (t :: rest) with
    | error e =>
      rw [parseAll, hparse] at h
      cases h
    | ok first =>
      obtain ⟨s, more, hshorter⟩ := first
      have hread : Reads (parse finish (t :: rest)) s more := ⟨hshorter, hparse⟩
      obtain ⟨others, hothers, rfl⟩ := (parseAll_cons hread).mp h
      obtain ⟨front, hfront, hform⟩ := spelled_statement hread
      rw [hfront, lexemes_append]
      exact .cons hform (listForm_of_parseAll hothers)
termination_by ts.length
decreasing_by exact hshorter

theorem ListForm.parseAll {ts : List Token} {list : List Statement} (h : ListForm ls list)
    (hls : lexemes ts = ls) : parseAll finish ts = .ok list := by
  induction h generalizing ts with
  | nil =>
    obtain rfl := lexemes_eq_nil_iff.mp hls
    rw [Statement.parseAll]
  | cons first hothers ih =>
    obtain ⟨k, more, rfl, -⟩ := first.begins
    obtain ⟨front, back, rfl, hfront, rfl⟩ := lexemes_eq_append_iff.mp hls
    have hread : Reads (parse finish (front ++ back)) _ back :=
      reads_statement first hfront hothers.ending
    obtain ⟨position, tail, rfl, -⟩ := lexemes_eq_cons_iff.mp hfront
    exact (parseAll_cons hread).mpr ⟨_, ih rfl, rfl⟩

/-- A program is read off some tokens if and only if they spell its statements. -/
theorem parseAll_iff {ts : List Token} {list : List Statement} :
    parseAll finish ts = .ok list ↔ ListForm (lexemes ts) list :=
  ⟨listForm_of_parseAll, fun h => h.parseAll rfl⟩

end WordPattern.Statement
