import Mathlib
import WordPattern.Proofs.Session.Flush
import WordPattern.Proofs.Session.Statements
import WordPattern.Proofs.Session.Stores
import WordPattern.Proofs.Session.Unrolled

/-!
# Inputs apart from each other

A program that keeps its inputs does with each of them what it would do with that input alone. Its
reports stand in the order of the statements, and for one statement in the order of the inputs.
-/

namespace WordPattern

namespace Run

variable {r r' r₁ : Run} {i : Input} {number : Nat} {amount : Amount} {pattern : Chain}
  {parts : List Expr}

/-- A run that has nothing but one input, and all else as another run has it. -/
structure Alone (r : Run) (i : Input) (r₁ : Run) : Prop where
  limits : r₁.session.limits = r.session.limits
  globals : r₁.session.globals = r.session.globals
  subroutines : r₁.subroutines = r.subroutines
  inputs : r₁.session.inputs = [i]

namespace Alone

theorem setting (h : r.Alone i r₁) (j : Input) : r₁.setting j = r.setting j := by
  simp only [Run.setting, environment, h.limits, h.globals, h.subroutines]

theorem findIn (h : r.Alone i r₁) (j : Input) :
    r₁.findIn number amount pattern j = r.findIn number amount pattern j := by
  simp only [Run.findIn, h.setting]

theorem replaceIn (h : r.Alone i r₁) (j : Input) :
    r₁.replaceIn number amount pattern parts j = r.replaceIn number amount pattern parts j := by
  simp only [Run.replaceIn, h.setting, h.globals]

end Alone

theorem findIn_label {report : Report}
    (h : r.findIn number amount pattern i = .ok report) :
    (report.statement, report.input) = (number, i.name) := by
  obtain ⟨found, -, rfl⟩ := findIn_eq_ok_iff.mp h
  rfl

theorem replaceIn_label {outcome : Input × Report}
    (h : r.replaceIn number amount pattern parts i = .ok outcome) :
    (outcome.2.statement, outcome.2.input) = (number, i.name) ∧
      (outcome.1.name, outcome.1.path) = (i.name, i.path) := by
  obtain ⟨found, -, hinput | ⟨contents, hinput⟩, hreport⟩ := replaceIn_eq_ok h
  · rw [hinput, hreport]
    exact ⟨rfl, rfl⟩
  · rw [hinput, hreport]
    exact ⟨rfl, rfl⟩

/-! ## One statement -/

/-- What a statement reports on: its own number with the name of each input. -/
def labels (inputs : List Input) (number : Nat) (t : Statement) : List (Nat × String) :=
  if t.isPerInput then inputs.map fun i => (number, i.name) else []

/-- What an act makes of each input, and the reports on it, are what the act makes of that input
alone. -/
structure ActsApart (act : Run → Dialogue (Run × Option RunError)) (r r' : Run)
    (fresh : Nat → List Report) : Prop where
  sources : r'.session.inputs.map (fun i => (i.name, i.path)) =
    r.session.inputs.map fun i => (i.name, i.path)
  alone : ∀ j i r₁, r.session.inputs[j]? = some i → r.Alone i r₁ →
    ∃ r₁' i', act r₁ = pure (r₁', none) ∧ r'.session.inputs[j]? = some i' ∧ r'.Alone i' r₁' ∧
      r₁'.reports.reverse = r₁.reports.reverse ++ fresh j

theorem find_apart {block : List Report}
    (hblock : List.Forall₂ (fun i report => r.findIn number amount pattern i = .ok report)
      r.session.inputs block) :
    ActsApart (statement number (.find amount pattern)) r
      { r with reports := block.reverse ++ r.reports } fun j => block[j]?.toList := by
  refine ⟨rfl, fun j i r₁ hi halone => ?_⟩
  obtain ⟨report, hreport, hfind⟩ := hblock.exists_getElem? hi
  have hok : r₁.find number amount pattern =
      ({ r₁ with reports := [report].reverse ++ r₁.reports }, none) := by
    refine find_eq_ok_iff.mpr ⟨[report], ?_, rfl⟩
    rw [halone.inputs]
    exact .cons ((halone.findIn i).trans hfind) .nil
  refine ⟨_, i, congrArg pure hok, hi, ⟨halone.limits, halone.globals, halone.subroutines,
    halone.inputs⟩, ?_⟩
  simp [hreport]

theorem replace_apart {block : List (Input × Report)}
    (hblock : List.Forall₂
      (fun i outcome => r.replaceIn number amount pattern parts i = .ok outcome)
      r.session.inputs block) :
    ActsApart (statement number (.replace amount pattern parts)) r
      { r with
        session := { r.session with inputs := block.map Prod.fst }
        reports := (block.map Prod.snd).reverse ++ r.reports }
      fun j => (block.map Prod.snd)[j]?.toList := by
  refine ⟨?_, fun j i r₁ hi halone => ?_⟩
  · rw [List.map_map]
    exact hblock.map_eq fun i outcome h => (replaceIn_label h).2
  · obtain ⟨⟨i', report⟩, houtcome, hreplace⟩ := hblock.exists_getElem? hi
    have hok : r₁.replace number amount pattern parts =
        ({ r₁ with
          session := { r₁.session with inputs := [i'] }
          reports := [report].reverse ++ r₁.reports }, none) := by
      refine replace_eq_ok_iff.mpr ⟨[(i', report)], ?_, rfl⟩
      rw [halone.inputs]
      exact .cons ((halone.replaceIn i).trans hreplace) .nil
    refine ⟨_, i', congrArg pure hok, ?_, ⟨halone.limits, halone.globals, halone.subroutines,
      rfl⟩, ?_⟩
    · simp [houtcome]
    · simp [houtcome]

/-- A statement that keeps the inputs asks nothing of the files. -/
theorem statement_apart {t : Statement} {xs : List Exchange} (hsingle : t.IsSingle)
    (hkeeps : t.keepsInputs = true)
    (h : (statement number t r : Dialogue _).ComesTo xs (r', none)) :
    xs = [] ∧ ∃ block : List Report, r'.reports.reverse = r.reports.reverse ++ block ∧
      block.map (fun report => (report.statement, report.input)) =
        labels r.session.inputs number t ∧
      ActsApart (statement number t) r r' fun j => block[j]?.toList := by
  cases t with
  | find amount pattern =>
    obtain ⟨rfl, hok⟩ := Dialogue.comesTo_pure.mp h
    obtain ⟨block, hblock, rfl⟩ := find_eq_ok_iff.mp hok.symm
    refine ⟨rfl, block, by simp, ?_, find_apart hblock⟩
    exact hblock.map_eq fun i report hreport => findIn_label hreport
  | replace amount pattern parts =>
    obtain ⟨rfl, hok⟩ := Dialogue.comesTo_pure.mp h
    obtain ⟨block, hblock, rfl⟩ := replace_eq_ok_iff.mp hok.symm
    refine ⟨rfl, block.map Prod.snd, by simp, ?_, replace_apart hblock⟩
    rw [List.map_map]
    exact hblock.map_eq fun i outcome houtcome => (replaceIn_label houtcome).1
  | use paths => cases hkeeps
  | «repeat» n body => cases hsingle
  | setVariable name value =>
    obtain ⟨rfl, hok⟩ := Dialogue.comesTo_pure.mp h
    cases hok
    refine ⟨rfl, [], (List.append_nil _).symm, rfl, rfl, fun j i r₁ hi halone => ?_⟩
    refine ⟨_, i, rfl, hi, ⟨halone.limits, ?_, halone.subroutines, halone.inputs⟩,
      (List.append_nil _).symm⟩
    simp only [setVariable, halone.globals]
  | setSubroutine name pattern =>
    obtain ⟨rfl, hok⟩ := Dialogue.comesTo_pure.mp h
    cases hok
    refine ⟨rfl, [], (List.append_nil _).symm, rfl, rfl, fun j i r₁ hi halone => ?_⟩
    refine ⟨_, i, rfl, hi, ⟨halone.limits, halone.globals, ?_, halone.inputs⟩,
      (List.append_nil _).symm⟩
    simp only [setSubroutine, halone.subroutines]

/-! ## Statements in order -/

theorem labels_congr {inputs inputs' : List Input}
    (h : inputs'.map (fun i => (i.name, i.path)) = inputs.map fun i => (i.name, i.path))
    (number : Nat) (t : Statement) : labels inputs' number t = labels inputs number t := by
  have hnames := congrArg (List.map fun source => (number, source.1)) h
  simp only [List.map_map] at hnames
  simp only [labels]
  split
  · exact hnames
  · rfl

theorem ActsApart.cons {t : Statement} {rest : List (Nat × Statement)} {s : Run}
    {f g : Nat → List Report} (hfirst : ActsApart (statement number t) r s f)
    (hrest : ActsApart (sequence rest) s r' g) :
    ActsApart (sequence ((number, t) :: rest)) r r' fun j => f j ++ g j := by
  refine ⟨hrest.sources.trans hfirst.sources, fun j i r₁ hi halone => ?_⟩
  obtain ⟨s₁, i₁, hact, hi₁, halone₁, hreports₁⟩ := hfirst.alone j i r₁ hi halone
  obtain ⟨r₂, i₂, hact₂, hi₂, halone₂, hreports₂⟩ := hrest.alone j i₁ s₁ hi₁ halone₁
  refine ⟨r₂, i₂, ?_, hi₂, halone₂, ?_⟩
  · rw [sequence, hact, pure_bind]
    exact hact₂
  · rw [hreports₂, hreports₁, List.append_assoc]

theorem sequence_apart {list : List (Nat × Statement)} {xs : List Exchange}
    (hsingle : ∀ p ∈ list, p.2.IsSingle) (hkeeps : ∀ p ∈ list, p.2.keepsInputs = true)
    (h : (sequence list r : Dialogue _).ComesTo xs (r', none)) :
    xs = [] ∧ ∃ blocks : List (List Report),
      r'.reports.reverse = r.reports.reverse ++ blocks.flatten ∧
      List.Forall₂ (fun p block => block.map (fun report => (report.statement, report.input)) =
        labels r.session.inputs p.1 p.2) list blocks ∧
      ActsApart (sequence list) r r' fun j => blocks.filterMap (·[j]?) := by
  -- A statement may change the inputs but not their names, so all blocks have the same labels.
  induction list generalizing r xs with
  | nil =>
    obtain ⟨rfl, hok⟩ := Dialogue.comesTo_pure.mp h
    cases hok
    exact ⟨rfl, [], (List.append_nil _).symm, .nil, rfl, fun j i r₁ hi halone =>
      ⟨r₁, i, rfl, hi, halone, (List.append_nil _).symm⟩⟩
  | cons p rest ih =>
    obtain ⟨number, t⟩ := p
    obtain ⟨hsingle, hsingles⟩ := List.forall_mem_cons.mp hsingle
    obtain ⟨hkeeps, hkeepss⟩ := List.forall_mem_cons.mp hkeeps
    obtain ⟨e, -, hfail⟩ | ⟨ys, s, zs, hfirst, hrest, rfl⟩ := sequence_cons_comesTo h
    · cases hfail
    · obtain ⟨rfl, block, hreports, hlabels, hapart⟩ := statement_apart hsingle hkeeps hfirst
      obtain ⟨rfl, blocks, hreports', hblocks, haparts⟩ := ih hsingles hkeepss hrest
      refine ⟨rfl, block :: blocks, ?_, .cons hlabels ?_, ?_⟩
      · rw [hreports', hreports, List.append_assoc, List.flatten_cons]
      · refine hblocks.imp fun p block hblock => hblock.trans ?_
        exact labels_congr hapart.sources p.1 p.2
      · convert hapart.cons haparts using 2 with j
        cases hj : block[j]? <;> simp [hj]

theorem ActsApart.saved {act : Run → Dialogue (Run × Option RunError)} {f : Nat → List Report}
    (h : ActsApart act r r' f) (htext : ∀ i ∈ r.session.inputs, i.path = none) :
    ∀ i ∈ r'.session.inputs, i.pending? = none := by
  intro i hi
  have hsource : (i.name, i.path) ∈ r.session.inputs.map fun i => (i.name, i.path) := by
    rw [← h.sources]
    exact List.mem_map_of_mem hi
  obtain ⟨e, he, heq⟩ := List.mem_map.mp hsource
  obtain ⟨-, hpath⟩ := Prod.mk.inj heq
  exact Input.pending?_eq_none_iff.mpr (.inl (hpath.symm.trans (htext e he)))

end Run

/-- Inputs do not see each other: whatever a program makes of one among many, and reports on it, is
what it makes of it alone. -/
theorem inputs_do_not_interfere (s s' : Session) (program : Program) (xs : List Exchange)
    (reports : List Report) (hkeeps : program.keepsInputs = true)
    (htext : ∀ i ∈ s.inputs, i.path = none)
    (h : (s.execute program : Dialogue _).ComesTo xs (s', .ok reports)) :
    xs = [] ∧ ∃ blocks : List (List Report), reports = blocks.flatten ∧
      List.Forall₂ (fun p block => block.map (fun report => (report.statement, report.input)) =
        Run.labels s.inputs p.1 p.2) program.unrolled blocks ∧
      ∀ (j : Nat) (i : Input) (s₁ : Session), s.inputs[j]? = some i → s₁.limits = s.limits →
        s₁.globals = s.globals → s₁.inputs = [i] →
          ∃ (s₁' : Session) (i' : Input), s'.inputs[j]? = some i' ∧ s₁'.inputs = [i'] ∧
            s₁'.globals = s'.globals ∧ ∀ {m : Type → Type} [Monad m] [LawfulMonad m] [FileStore m],
              (s₁.execute program : m _) = pure (s₁', .ok (blocks.filterMap (·[j]?))) := by
  obtain ⟨ys, r, failure, zs, hrun, rfl, hend⟩ := Session.execute_comesTo h
  cases hend with
  | written hflush =>
    obtain ⟨rfl, blocks, hreports, hlabels, hapart⟩ := Run.sequence_apart
      (fun _ hp => Program.isSingle_of_mem_unrolled hp)
      (fun _ hp => Program.keepsInputs_of_mem_unrolled hkeeps hp) hrun
    rw [Session.flush_of_saved (hapart.saved htext)] at hflush
    obtain ⟨rfl, heq⟩ := Dialogue.comesTo_pure.mp hflush
    cases heq
    refine ⟨rfl, blocks, hreports, hlabels, fun j i s₁ hi hlimits hglobals hinputs => ?_⟩
    obtain ⟨r₁, i', hrun₁, hi', halone, hreports₁⟩ :=
      hapart.alone j i { session := s₁ } hi ⟨hlimits, hglobals, rfl, hinputs⟩
    have hsaved : ∀ e ∈ r₁.session.inputs, e.pending? = none := by
      rw [halone.inputs]
      intro e he
      obtain rfl := List.mem_singleton.mp he
      exact hapart.saved htext e (List.mem_of_getElem? hi')
    have hexecute : (s₁.execute program : Dialogue _) =
        pure (r₁.session, .ok (blocks.filterMap (·[j]?))) := by
      rw [Session.execute_eq, hrun₁, pure_bind]
      simp only [Session.flush_of_saved hsaved, pure_bind]
      rw [hreports₁]
      rfl
    refine ⟨r₁.session, i', hi', halone.inputs, halone.globals, ?_⟩
    intro m _ _ _
    rw [← Session.perform_execute, hexecute, Dialogue.perform_pure]

theorem letters_do_not_interfere :
    let s : Session := { inputs := [.ofText "first" "a", .ofText "second" "ba"] }
    let program : Program := ⟨[.replace .all (.last (.literal [97] false)) [.text "b"],
      .«repeat» 2 (.find .all (.last (.literal [98] false)))]⟩
    ∃ s' reports, program.keepsInputs = true ∧ (∀ i ∈ s.inputs, i.path = none) ∧
      (s.execute program : Dialogue _).ComesTo [] (s', .ok reports) ∧
      reports.map (fun report => (report.statement, report.input, report.found.length)) =
        [(1, "first", 1), (1, "second", 1), (2, "first", 1), (2, "second", 2), (2, "first", 1),
          (2, "second", 2)] ∧
      ∃ s₁ i' alone, s'.inputs[1]? = some i' ∧ i'.contents = "bb".toUTF8 ∧ s₁.inputs = [i'] ∧
        (({ inputs := [.ofText "second" "ba"] } : Session).execute program : Dialogue _) =
          pure (s₁, .ok alone) := by
  intro s program
  have hrun : ((s.execute program : Dialogue _).follow? []).map (fun (s', outcome) =>
      (s'.inputs.map (·.contents), outcome.toOption.map fun reports =>
        reports.map fun report => (report.statement, report.input, report.found.length))) =
      some (["b".toUTF8, "bb".toUTF8], some [(1, "first", 1), (1, "second", 1), (2, "first", 1),
        (2, "second", 2), (2, "first", 1), (2, "second", 2)]) := by
    simp only [s, program, Session.execute, Run.statements, Run.statement, Run.times, Run.replace,
      Run.replaceAll, Run.replaceIn, Match.withReplacement_text]
    cbv
  obtain ⟨⟨s', outcome⟩, hfollow, hseen⟩ := Option.map_eq_some_iff.mp hrun
  cases outcome with
  | error e => cases (Prod.mk.inj hseen).2
  | ok reports =>
    obtain ⟨hcontents, hreports⟩ := Prod.mk.inj hseen
    have htext : ∀ i ∈ s.inputs, i.path = none := by simp [s, Input.ofText]
    have hcomes := Dialogue.follow?_eq_some_iff.mp hfollow
    obtain ⟨-, blocks, -, -, halone⟩ :=
      inputs_do_not_interfere s s' program [] reports rfl htext hcomes
    obtain ⟨s₁, i', hi', hinputs, -, hexecute⟩ :=
      halone 1 _ { inputs := [.ofText "second" "ba"] } rfl rfl rfl rfl
    have hb := congrArg (·[1]?) hcontents
    simp only [List.getElem?_map, hi'] at hb
    exact ⟨s', reports, rfl, htext, hcomes, Option.some.inj hreports, s₁, i', _, hi',
      Option.some.inj hb, hinputs, hexecute⟩

end WordPattern
