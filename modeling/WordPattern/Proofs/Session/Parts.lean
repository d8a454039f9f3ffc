import Mathlib
import WordPattern.Proofs.Session.Flush
import WordPattern.Proofs.Session.Statements
import WordPattern.Proofs.Session.Stores
import WordPattern.Proofs.Session.Unrolled

/-!
# Programs in parts

A program that is made of two runs as the two do one after the other in the same session, as long as
the first one takes no files and binds no patterns. The reports of the second one only carry later
numbers.
-/

namespace WordPattern

/-- The report as it is when its program stands behind some statements. -/
def Report.behind (count : Nat) (report : Report) : Report :=
  { report with statement := count + report.statement }

/-- The run as it is when its program stands behind some statements that have reported before. -/
def Run.behind (count : Nat) (earlier : List Report) (r : Run) : Run :=
  { r with reports := r.reports.map (·.behind count) ++ earlier }

namespace Run

variable {r : Run} {count number : Nat} {earlier : List Report}

/-! ## Statements behind others -/

section

variable {amount : Amount} {pattern : Chain} {parts : List Expr}

theorem findIn_behind (i : Input) :
    (r.behind count earlier).findIn (count + number) amount pattern i =
      (r.findIn number amount pattern i).map (·.behind count) := by
  simp only [findIn, setting, environment, behind]
  split <;> rfl

theorem replaceIn_behind (i : Input) :
    (r.behind count earlier).replaceIn (count + number) amount pattern parts i =
      (r.replaceIn number amount pattern parts i).map fun (i, report) =>
        (i, report.behind count) := by
  simp only [replaceIn, setting, environment, behind]
  split <;> rfl

theorem findAll_behind (reports : List Report) (inputs : List Input) :
    (r.behind count earlier).findAll (count + number) amount pattern
        (reports.map (·.behind count) ++ earlier) inputs =
      let (reports, failure) := r.findAll number amount pattern reports inputs
      (reports.map (·.behind count) ++ earlier, failure) := by
  induction inputs generalizing reports with
  | nil => rfl
  | cons i rest ih =>
    rw [findAll, findAll, findIn_behind]
    cases r.findIn number amount pattern i with
    | error e => rfl
    | ok report => exact ih (report :: reports)

theorem replaceAll_behind (reports : List Report) (inputs : List Input) :
    (r.behind count earlier).replaceAll (count + number) amount pattern parts
        (reports.map (·.behind count) ++ earlier) inputs =
      let (inputs, reports, failure) := r.replaceAll number amount pattern parts reports inputs
      (inputs, reports.map (·.behind count) ++ earlier, failure) := by
  induction inputs generalizing reports with
  | nil => rfl
  | cons i rest ih =>
    rw [replaceAll, replaceAll, replaceIn_behind]
    cases r.replaceIn number amount pattern parts i with
    | error e => rfl
    | ok outcome =>
      obtain ⟨i', report⟩ := outcome
      simp only [Except.map]
      rw [← List.cons_append, ← List.map_cons, ih]

theorem find_behind :
    (r.behind count earlier).find (count + number) amount pattern =
      let (r, failure) := r.find number amount pattern
      (r.behind count earlier, failure) := by
  simp only [find]
  rw [show (r.behind count earlier).reports = r.reports.map (·.behind count) ++ earlier from rfl,
    findAll_behind]
  rfl

theorem replace_behind :
    (r.behind count earlier).replace (count + number) amount pattern parts =
      let (r, failure) := r.replace number amount pattern parts
      (r.behind count earlier, failure) := by
  simp only [replace]
  rw [show (r.behind count earlier).reports = r.reports.map (·.behind count) ++ earlier from rfl,
    replaceAll_behind]
  rfl

end

variable {m : Type → Type} [Monad m] [LawfulMonad m] [FileStore m]

theorem use_behind (paths : List String) :
    ((r.behind count earlier).use paths : m _) = do
      let (r, failure) ← r.use paths
      return (r.behind count earlier, failure) := by
  simp only [use, bind_assoc]
  refine bind_congr fun outcome => ?_
  obtain ⟨session, failure⟩ := outcome
  cases failure with
  | some e => rw [pure_bind]; rfl
  | none =>
    simp only [bind_assoc]
    refine bind_congr fun inputs => ?_
    cases inputs <;> (rw [pure_bind]; rfl)

theorem statement_behind {t : Statement} (hsingle : t.IsSingle) :
    (statement (count + number) t (r.behind count earlier) : m _) = do
      let (r, failure) ← statement number t r
      return (r.behind count earlier, failure) := by
  cases t with
  | find amount pattern => simp only [statement, find_behind, pure_bind]
  | replace amount pattern parts => simp only [statement, replace_behind, pure_bind]
  | use paths => exact use_behind paths
  | «repeat» n body => cases hsingle
  | setVariable name value =>
    simp only [statement, pure_bind]
    rfl
  | setSubroutine name pattern =>
    simp only [statement, pure_bind]
    rfl

theorem sequence_behind {list : List (Nat × Statement)} (hsingle : ∀ p ∈ list, p.2.IsSingle)
    (r : Run) :
    (sequence (list.map fun (number, t) => (count + number, t)) (r.behind count earlier) : m _) = do
      let (r, failure) ← sequence list r
      return (r.behind count earlier, failure) := by
  induction list generalizing r with
  | nil => rw [List.map_nil, sequence, sequence, pure_bind]
  | cons first rest ih =>
    obtain ⟨number, t⟩ := first
    obtain ⟨hfirst, hrest⟩ := List.forall_mem_cons.mp hsingle
    simp only [List.map_cons, sequence, statement_behind hfirst, bind_assoc, pure_bind]
    refine bind_congr fun outcome => ?_
    obtain ⟨r, failure⟩ := outcome
    cases failure with
    | none => exact ih hrest r
    | some e => rw [pure_bind]

/-! ## The first part -/

/-- A run that has the same patterns bound to names as another one, and inputs from the same
files. -/
structure Keeps (r r' : Run) : Prop where
  subroutines : r'.subroutines = r.subroutines
  paths : r'.session.inputs.map Input.path = r.session.inputs.map Input.path

theorem Keeps.trans {r r₁ r₂ : Run} (h : r.Keeps r₁) (h' : r₁.Keeps r₂) : r.Keeps r₂ :=
  ⟨h'.subroutines.trans h.subroutines, h'.paths.trans h.paths⟩

theorem replaceAll_paths {amount : Amount} {pattern : Chain} {parts : List Expr}
    (reports : List Report) (inputs : List Input) :
    (r.replaceAll number amount pattern parts reports inputs).1.map Input.path =
      inputs.map Input.path := by
  induction inputs generalizing reports with
  | nil => rfl
  | cons i rest ih =>
    rw [replaceAll]
    cases hi : r.replaceIn number amount pattern parts i with
    | error e => rfl
    | ok outcome =>
      obtain ⟨i', report⟩ := outcome
      have hpath : i'.path = i.path := by
        obtain ⟨found, -, rfl | ⟨contents, rfl⟩, -⟩ := replaceIn_eq_ok hi <;> rfl
      simp only [List.map_cons, ih, hpath]

omit [LawfulMonad m] in
/-- A statement that takes no files asks nothing of them, and only `set` binds patterns. -/
theorem statement_keeps {t : Statement} (hsingle : t.IsSingle) (hkeeps : t.keepsInputs = true)
    (hbinds : t.bindsNoPattern = true) (number : Nat) (r : Run) :
    ∃ r' failure, (statement number t r : m _) = pure (r', failure) ∧ r.Keeps r' := by
  cases t with
  | find amount pattern => exact ⟨_, _, rfl, rfl, rfl⟩
  | replace amount pattern parts => exact ⟨_, _, rfl, rfl, replaceAll_paths _ _⟩
  | use paths => cases hkeeps
  | «repeat» n body => cases hsingle
  | setVariable name value => exact ⟨_, _, rfl, rfl, rfl⟩
  | setSubroutine name pattern => cases hbinds

theorem sequence_keeps {list : List (Nat × Statement)} (hsingle : ∀ p ∈ list, p.2.IsSingle)
    (hkeeps : ∀ p ∈ list, p.2.keepsInputs = true) (hbinds : ∀ p ∈ list, p.2.bindsNoPattern = true)
    (r : Run) :
    ∃ r' failure, (sequence list r : m _) = pure (r', failure) ∧ r.Keeps r' := by
  induction list generalizing r with
  | nil => exact ⟨r, none, rfl, rfl, rfl⟩
  | cons first rest ih =>
    obtain ⟨number, t⟩ := first
    obtain ⟨hsingle, hsingles⟩ := List.forall_mem_cons.mp hsingle
    obtain ⟨hkeeps, hkeepss⟩ := List.forall_mem_cons.mp hkeeps
    obtain ⟨hbinds, hbindss⟩ := List.forall_mem_cons.mp hbinds
    obtain ⟨r₁, failure, hfirst, hkeeps₁⟩ := statement_keeps (m := m) hsingle hkeeps hbinds number r
    cases failure with
    | some e =>
      refine ⟨r₁, some e, ?_, hkeeps₁⟩
      rw [sequence, hfirst, pure_bind]
    | none =>
      obtain ⟨r₂, failure, hrest, hkeeps₂⟩ := ih hsingles hkeepss hbindss r₁
      refine ⟨r₂, failure, ?_, hkeeps₁.trans hkeeps₂⟩
      rw [sequence, hfirst, pure_bind]
      exact hrest

end Run

/-! ## Both parts -/

namespace Statement

theorem bindsNoPattern_of_mem_unrolled {s t : Statement} (hs : s.bindsNoPattern = true)
    (h : t ∈ s.unrolled) : t.bindsNoPattern = true := by
  induction s with
  | «repeat» n body ih =>
    obtain ⟨list, hlist, ht⟩ := List.mem_flatten.mp h
    rw [List.eq_of_mem_replicate hlist] at ht
    exact ih hs ht
  | _ =>
    obtain rfl := List.mem_singleton.mp h
    exact hs

theorem numbered_append (number : Nat) (xs ys : List Statement) :
    numbered number (xs ++ ys) = numbered number xs ++ numbered (xs.length + number) ys := by
  induction xs generalizing number with
  | nil => simp only [List.nil_append, numbered, List.length_nil, Nat.zero_add]
  | cons first rest ih =>
    rw [List.cons_append, numbered, numbered, ih, List.append_assoc, List.length_cons,
      Nat.add_right_comm, Nat.add_assoc]

theorem numbered_behind (count number : Nat) (list : List Statement) :
    numbered (count + number) list =
      (numbered number list).map fun (number, t) => (count + number, t) := by
  induction list generalizing number with
  | nil => rfl
  | cons first rest ih =>
    rw [numbered, numbered, List.map_append, List.map_map, ← ih, Nat.add_assoc]
    rfl

end Statement

theorem Program.bindsNoPattern_of_mem_unrolled {program : Program} {number : Nat} {t : Statement}
    (hbinds : program.bindsNoPattern = true) (h : (number, t) ∈ program.unrolled) :
    t.bindsNoPattern = true := by
  obtain ⟨s, hs, ht⟩ := Statement.mem_numbered h
  exact Statement.bindsNoPattern_of_mem_unrolled (List.all_eq_true.mp hbinds s hs) ht

theorem Program.unrolled_append (p q : Program) :
    (p ++ q).unrolled =
      p.unrolled ++ q.unrolled.map fun (number, t) => (p.statements.length + number, t) := by
  rw [unrolled, unrolled, unrolled, ← Statement.numbered_behind, ← Statement.numbered_append]
  rfl

/-- A program in two parts does what the parts do in one session, the first of which takes no files
and binds no patterns: it fails as the first part that fails, and otherwise gives the reports of
both. -/
theorem Session.parts_run_in_one_session {m : Type → Type} [Monad m] [LawfulMonad m] [FileStore m]
    (s : Session) (p q : Program) (htext : ∀ i ∈ s.inputs, i.path = none)
    (hkeeps : p.keepsInputs = true) (hbinds : p.bindsNoPattern = true) :
    (s.execute (p ++ q) : m (Session × Except RunError (List Report))) = do
      match ← s.execute p with
      | (s₁, .error e) => return (s₁, .error e)
      | (s₁, .ok reports) =>
        match ← s₁.execute q with
        | (s₂, .error e) => return (s₂, .error e)
        | (s₂, .ok more) =>
          return (s₂, .ok (reports ++ more.map (·.behind p.statements.length))) := by
  obtain ⟨r, failure, hrun, hr⟩ := Run.sequence_keeps (m := m)
    (fun _ hp => Program.isSingle_of_mem_unrolled hp)
    (fun _ hp => Program.keepsInputs_of_mem_unrolled hkeeps hp)
    (fun _ hp => Program.bindsNoPattern_of_mem_unrolled hbinds hp) { session := s }
  rw [execute_eq, execute_eq, Program.unrolled_append, Run.sequence_append, hrun]
  cases failure with
  | some e => simp only [pure_bind]
  | none =>
    have hsaved : ∀ i ∈ r.session.inputs, i.pending? = none := by
      intro i hi
      have hpath : i.path ∈ s.inputs.map Input.path := hr.paths ▸ List.mem_map_of_mem hi
      obtain ⟨j, hj, heq⟩ := List.mem_map.mp hpath
      exact Input.pending?_eq_none_iff.mpr (.inl (heq ▸ htext j hj))
    have hr' : r = Run.behind p.statements.length r.reports { session := r.session } := by
      obtain ⟨session, subroutines, reports⟩ := r
      obtain rfl : subroutines = .empty := hr.subroutines
      rfl
    simp only [pure_bind, flush_of_saved hsaved, execute_eq]
    conv_lhs => rw [hr', Run.sequence_behind fun _ hp => Program.isSingle_of_mem_unrolled hp]
    simp only [bind_assoc, pure_bind]
    refine bind_congr fun outcome => ?_
    obtain ⟨r₂, failure⟩ := outcome
    cases failure with
    | some e =>
      simp only [pure_bind]
      rfl
    | none =>
      simp only [bind_assoc]
      refine bind_congr fun outcome => ?_
      obtain ⟨s₂, failure⟩ := outcome
      cases failure with
      | some e => simp only [pure_bind]
      | none =>
        simp only [pure_bind, Run.behind, List.reverse_append, List.map_reverse]

theorem Session.letters_run_in_parts :
    let s : Session := { inputs := [.ofText "first" "ab", .ofText "second" "c"] }
    let p : Program := ⟨[.setVariable "x" (.text "b"),
      .replace .all (.last (.literal [97] false)) [.text "b"]]⟩
    let q : Program := ⟨[.setSubroutine "y" (.last (.variableText "x")),
      .«repeat» 2 (.find .all (.last (.call "y")))]⟩
    (∀ i ∈ s.inputs, i.path = none) ∧ p.keepsInputs = true ∧ p.bindsNoPattern = true ∧
      ∃ s₁ reports s₂ more, (s.execute p : Dialogue _).ComesTo [] (s₁, .ok reports) ∧
        (s₁.execute q : Dialogue _).ComesTo [] (s₂, .ok more) ∧
        (s.execute (p ++ q) : Dialogue _).ComesTo []
          (s₂, .ok (reports ++ more.map (·.behind 2))) ∧
        s₂.inputs.map (·.contents) = ["bb".toUTF8, "c".toUTF8] ∧
        (reports ++ more.map (·.behind 2)).map
          (fun report => (report.statement, report.input, report.found.length)) =
            [(2, "first", 1), (2, "second", 0), (4, "first", 2), (4, "second", 0),
              (4, "first", 2), (4, "second", 0)] := by
  intro s p q
  have hrun : ((s.execute (p ++ q) : Dialogue _).follow? []).map (fun (s', outcome) =>
      (s'.inputs.map (·.contents), outcome.toOption.map fun reports =>
        reports.map fun report => (report.statement, report.input, report.found.length))) =
      some (["bb".toUTF8, "c".toUTF8], some [(2, "first", 1), (2, "second", 0), (4, "first", 2),
        (4, "second", 0), (4, "first", 2), (4, "second", 0)]) := by
    change ((s.execute ⟨p.statements ++ q.statements⟩ : Dialogue _).follow? []).map _ = _
    simp only [s, p, q, execute, Run.statements, Run.statement, Run.times, Run.setVariable,
      Run.replace, Run.replaceAll, Run.replaceIn, Match.withReplacement_text, List.cons_append,
      List.nil_append, pure_bind]
    cbv
  have htext : ∀ i ∈ s.inputs, i.path = none := by simp [s, Input.ofText]
  obtain ⟨⟨s', outcome⟩, hfollow, hseen⟩ := Option.map_eq_some_iff.mp hrun
  obtain ⟨hcontents, hreports⟩ := Prod.mk.inj hseen
  have hwhole := Dialogue.follow?_eq_some_iff.mp hfollow
  have hparts := hwhole
  rw [parts_run_in_one_session s p q htext rfl rfl] at hparts
  obtain ⟨xs, ⟨s₁, first⟩, ys, hp, hrest, hxs⟩ := Dialogue.comesTo_bind.mp hparts
  obtain ⟨rfl, rfl⟩ := List.append_eq_nil_iff.mp hxs.symm
  cases first with
  | error e =>
    obtain ⟨-, heq⟩ := Dialogue.comesTo_pure.mp hrest
    cases heq
    cases hreports
  | ok reports =>
    obtain ⟨xs, ⟨s₂, second⟩, ys, hq, hlast, hxs⟩ := Dialogue.comesTo_bind.mp hrest
    obtain ⟨rfl, rfl⟩ := List.append_eq_nil_iff.mp hxs.symm
    cases second with
    | error e =>
      obtain ⟨-, heq⟩ := Dialogue.comesTo_pure.mp hlast
      cases heq
      cases hreports
    | ok more =>
      obtain ⟨-, heq⟩ := Dialogue.comesTo_pure.mp hlast
      cases heq
      exact ⟨htext, rfl, rfl, s₁, reports, s', more, hp, hq, hwhole, hcontents,
        Option.some.inj hreports⟩

end WordPattern
