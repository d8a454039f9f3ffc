import WordPattern.Proofs.Session.History
import WordPattern.Proofs.Session.Statements

/-!
# Recorded runs are runs

A recorded run comes to what the run comes to, with the same exchanges, and its record is a history
of the session. Where the record says that files have been taken, the flush before has left nothing
to be written.
-/

namespace WordPattern

namespace Recorded

/-- From a session on, a recorded run comes to what a dialogue comes to, and what it adds to the
record leads to the session that it comes to. -/
structure Tracks {α : Type} (s : Session) (x : Recorded α) (d : Dialogue α)
    (session : α → Session) : Prop where
  complete : ∀ {xs a}, d.ComesTo xs a → ∀ history, ∃ history',
    (x.run history).ComesTo xs (a, history')
  sound : ∀ {history xs a history'}, (x.run history).ComesTo xs (a, history') →
    d.ComesTo xs a ∧
      ∃ changes, history' = changes ++ history ∧ s.LeadsSafely changes xs (session a)

namespace Tracks

variable {α β : Type} {s : Session} {x : Recorded α} {d : Dialogue α} {session : α → Session}

protected theorem pure {a : α} (h : session a = s) : Tracks s (pure a) (pure a) session where
  complete hd history := by
    obtain ⟨rfl, rfl⟩ := Dialogue.comesTo_pure.mp hd
    exact ⟨history, .done _⟩
  sound hx := by
    obtain ⟨rfl, heq⟩ := Dialogue.comesTo_pure.mp hx
    cases heq
    exact ⟨.done a, [], rfl, h ▸ .refl s⟩

protected theorem bind {f : α → Recorded β} {g : α → Dialogue β} {session' : β → Session}
    (hx : Tracks s x d session)
    (hf : ∀ xs a, d.ComesTo xs a → Tracks (session a) (f a) (g a) session') :
    Tracks s (x >>= f) (d >>= g) session' where
  complete hd history := by
    obtain ⟨ys, a, zs, hfirst, hrest, rfl⟩ := Dialogue.comesTo_bind.mp hd
    obtain ⟨between, hfirst'⟩ := hx.complete hfirst history
    obtain ⟨history', hrest'⟩ := (hf ys a hfirst).complete hrest between
    refine ⟨history', ?_⟩
    rw [StateT.run_bind, Dialogue.comesTo_bind]
    exact ⟨ys, (a, between), zs, hfirst', hrest', rfl⟩
  sound hrun := by
    rw [StateT.run_bind, Dialogue.comesTo_bind] at hrun
    obtain ⟨ys, ⟨a, between⟩, zs, hfirst', hrest', rfl⟩ := hrun
    obtain ⟨hfirst, earlier, rfl, hleads⟩ := hx.sound hfirst'
    obtain ⟨hrest, later, rfl, hleads'⟩ := (hf ys a hfirst).sound hrest'
    exact ⟨Dialogue.comesTo_bind.mpr ⟨ys, a, zs, hfirst, hrest, rfl⟩, later ++ earlier,
      (List.append_assoc ..).symm, hleads.trans hleads'⟩

theorem noting {changes : α → List Exchange → List Change}
    (h : ∀ xs a, d.ComesTo xs a → s.LeadsSafely (changes a xs).reverse xs (session a)) :
    Tracks s (noting d changes) d session where
  complete hd history :=
    ⟨_, Dialogue.comesTo_bind_pure.mpr ⟨(_, _), Dialogue.comesTo_overheard.mpr ⟨rfl, hd⟩, rfl⟩⟩
  sound hx := by
    obtain ⟨⟨a, ys⟩, hover, heq⟩ := Dialogue.comesTo_bind_pure.mp hx
    obtain ⟨rfl, hd⟩ := Dialogue.comesTo_overheard.mp hover
    cases heq
    exact ⟨hd, _, rfl, h _ _ hd⟩

/-- Runs are put in a row, up to the first failure. -/
theorem andThen {x : Recorded (Run × Option RunError)} {d : Dialogue (Run × Option RunError)}
    {f : Run → Recorded (Run × Option RunError)} {g : Run → Dialogue (Run × Option RunError)}
    (hx : Tracks s x d (·.1.session)) (hf : ∀ r, Tracks r.session (f r) (g r) (·.1.session)) :
    Tracks s
      (do
        match ← x with
        | (r, none) => f r
        | (r, some e) => return (r, some e))
      (do
        match ← d with
        | (r, none) => g r
        | (r, some e) => return (r, some e)) (·.1.session) :=
  hx.bind fun _ outcome _ => by
    obtain ⟨r, _ | e⟩ := outcome
    · exact hf r
    · exact .pure rfl

end Tracks

/-! ## Files -/

variable {s : Session} {r : Run} {number : Nat} {amount : Amount} {pattern : Chain}
  {parts : List Expr}

theorem addFile_tracks (s : Session) (path : String) :
    Tracks s (addFile s path) (s.addFile path) Prod.fst :=
  .noting fun xs outcome h => by
    obtain ⟨s', failure⟩ := outcome
    rcases Session.addFile_comesTo h with ⟨contents, rfl, rfl, -⟩ | ⟨fault, rfl, rfl, -⟩
    · exact .of_change (c := .addFile s.inputs.length (path, contents)) rfl
        fun _ => Change.noConfusion
    · exact .of_idle (List.forall_mem_singleton.mpr rfl)

theorem modify_middle (front rest : List Input) (i : Input) (f : Input → Input) :
    (front ++ i :: rest).modify front.length f = front ++ f i :: rest := by
  simp [List.modify_eq_take_drop]

/-- One input is written, with others in front of it and behind it. -/
theorem flushInput_tracks {front rest : List Input} {i : Input}
    (hinputs : s.inputs = front ++ i :: rest) :
    Tracks s (noting (Session.flushInputs [i]) fun _ xs => xs.map (.of front.length))
      (Session.flushInputs [i]) fun outcome => { s with
        inputs := front ++ (outcome.1 ++ rest)
        written := s.written ++ outcome.2.1 } :=
  .noting fun xs outcome h => by
    rcases Session.flushInputs_singleton_comesTo h with
      ⟨rfl, rfl⟩ | ⟨file, hpending, rfl, rfl⟩ | ⟨target, contents, fault, rfl, rfl⟩
    · simpa [← hinputs] using Session.LeadsSafely.refl s
    · have hat : s.inputs[front.length]? = some i := by simp [hinputs]
      have hsave := Session.LeadsSafely.of_change (c := .save front.length file)
        ⟨i, hat, hpending⟩ fun _ => Change.noConfusion
      simpa [Session.after, Change.exchanges, hinputs, modify_middle] using hsave
    · have hask : s.LeadsSafely [.ask (.write target contents (.error fault))]
          [.write target contents (.error fault)] s :=
        .of_idle (List.forall_mem_singleton.mpr rfl)
      simpa [← hinputs, Change.of] using hask

/-- Inputs behind some others are written one by one. -/
theorem flushInputs_tracks (front inputs : List Input) (hinputs : s.inputs = front ++ inputs) :
    Tracks s (flushInputs front.length inputs) (Session.flushInputs inputs)
      fun outcome => { s with
        inputs := front ++ outcome.1
        written := s.written ++ outcome.2.1 } := by
  -- `front` holds the inputs that have been gone over, so its length is the place of the next one.
  induction inputs generalizing front s with
  | nil => exact .pure (by simp [← hinputs])
  | cons i rest ih =>
    rw [Session.flushInputs_cons]
    refine (flushInput_tracks hinputs).bind fun xs outcome h => ?_
    obtain ⟨first, targets, _ | e⟩ := outcome
    · obtain ⟨i', rfl⟩ : ∃ i', first = [i'] := by
        rcases Session.flushInputs_singleton_comesTo h with
          ⟨-, heq⟩ | ⟨_, -, -, heq⟩ | ⟨_, _, _, -, heq⟩ <;> cases heq <;> exact ⟨_, rfl⟩
      have hrest := ih (s := { s with
        inputs := front ++ ([i'] ++ rest)
        written := s.written ++ targets }) (front ++ [i']) (by simp)
      simp only [List.length_append, List.length_singleton] at hrest
      exact hrest.bind fun _ _ _ => .pure (by simp)
    · exact .pure rfl

theorem flush_tracks (s : Session) : Tracks s (flush s) s.flush Prod.fst :=
  (flushInputs_tracks [] s.inputs rfl).bind fun _ _ _ => .pure rfl

/-! ## Statements -/

theorem openFiles_leads {paths : List String} {xs : List Exchange}
    {outcome : Except RunError (List Input)} (hs : s.IsSaved)
    (h : (Session.openFiles paths : Dialogue _).ComesTo xs outcome) :
    s.LeadsSafely (Change.ofOpening outcome xs).reverse xs
      { s with inputs := outcome.toOption.getD s.inputs } := by
  cases Session.openFiles_comesTo h with
  | opened files hpaths =>
    have hfiles : (files.map Exchange.given).filterMap Exchange.given? = files := by
      rw [List.filterMap_map]
      exact List.filterMap_some
    rw [Change.ofOpening, hfiles]
    exact .of_take files hs
  | unreadable files path fault =>
    refine .of_idle (List.forall_mem_append.mpr ⟨fun x hx => ?_, ?_⟩)
    · exact Exchange.isIdle_of_mem_given hx
    · exact List.forall_mem_singleton.mpr rfl

/-- Files are taken behind a flush that has left nothing to be written. -/
theorem use_tracks (r : Run) (paths : List String) :
    Tracks r.session (use r paths) (r.use paths) (·.1.session) :=
  (flush_tracks r.session).bind fun xs outcome hflush => by
    obtain ⟨session, _ | e⟩ := outcome
    · have hsaved := Session.isSaved_of_flush_ok hflush
      refine (Tracks.noting fun _ _ => openFiles_leads hsaved).bind fun _ outcome _ => ?_
      cases outcome with
      | ok inputs => exact .pure rfl
      | error e => exact .pure rfl
    · exact .pure rfl

/-- Inputs behind some others are replaced one by one. -/
theorem rewrites_lead (front : List Input) {inputs inputs' : List Input}
    {reports reports' : List Report} {failure : Option RunError}
    (hinputs : s.inputs = front ++ inputs)
    (h : r.replaceAll number amount pattern parts reports inputs = (inputs', reports', failure)) :
    s.LeadsSafely (r.rewrites number amount pattern parts front.length inputs).reverse []
      { s with inputs := front ++ inputs' } := by
  induction inputs generalizing front s reports inputs' with
  | nil =>
    cases h
    rw [← hinputs]
    exact .refl s
  | cons i rest ih =>
    rw [Run.replaceAll] at h
    rw [Run.rewrites]
    cases hi : r.replaceIn number amount pattern parts i with
    | error e =>
      rw [hi] at h
      cases h
      rw [← hinputs]
      exact .refl s
    | ok outcome =>
      obtain ⟨i', report⟩ := outcome
      have hinput := Run.replaceIn_input hi
      rw [hi] at h
      cases h
      by_cases hfound : report.found.isEmpty
      · rw [if_pos hfound] at hinput
        cases hinput
        simpa [hfound] using ih (s := s) (front ++ [i']) (by simpa using hinputs) rfl
      · rw [if_neg hfound] at hinput
        have hrewrite := Session.LeadsSafely.of_change (s := s)
          (c := .rewrite front.length i'.contents) (by simp [Session.Admits, hinputs])
          fun _ => Change.noConfusion
        have hrest := ih (s := s.after (.rewrite front.length i'.contents)) (front ++ [i'])
          (by simp [Session.after, hinputs, modify_middle, ← hinput]) rfl
        simpa [Session.after, Change.exchanges, hfound] using hrewrite.trans hrest

theorem times_tracks {act : Run → Recorded (Run × Option RunError)}
    {act' : Run → Dialogue (Run × Option RunError)}
    (h : ∀ r, Tracks r.session (act r) (act' r) (·.1.session)) (n : Nat) (r : Run) :
    Tracks r.session (Run.times act n r) (Run.times act' n r) (·.1.session) := by
  induction n generalizing r with
  | zero => exact .pure rfl
  | succ n ih => exact (h r).andThen ih

theorem statement_tracks (number : Nat) (t : Statement) (r : Run) :
    Tracks r.session (statement number t r) (Run.statement number t r) (·.1.session) := by
  induction t generalizing r with
  | find amount pattern => exact .pure rfl
  | replace amount pattern parts =>
    refine .noting fun xs outcome h => ?_
    obtain ⟨rfl, rfl⟩ := Dialogue.comesTo_pure.mp h
    exact rewrites_lead [] rfl rfl
  | use paths => exact use_tracks r paths
  | «repeat» n body ih => exact times_tracks ih n r
  | setVariable name value =>
    refine .noting fun xs outcome h => ?_
    obtain ⟨rfl, rfl⟩ := Dialogue.comesTo_pure.mp h
    exact .of_change (c := .assign _) trivial fun _ => Change.noConfusion
  | setSubroutine name pattern => exact .pure rfl

theorem statements_tracks (number : Nat) (list : List Statement) (r : Run) :
    Tracks r.session (statements number list r) (Run.statements number list r) (·.1.session) := by
  induction list generalizing number r with
  | nil => exact .pure rfl
  | cons first rest ih => exact (statement_tracks number first r).andThen (ih (number + 1))

/-! ## Operations -/

theorem execute_tracks (s : Session) (program : Program) :
    Tracks s (execute s program) (s.execute program) Prod.fst :=
  (statements_tracks 1 program.statements { session := s }).bind fun _ outcome _ => by
    obtain ⟨r, _ | e⟩ := outcome
    · refine (flush_tracks r.session).bind fun _ outcome _ => ?_
      obtain ⟨session, _ | e⟩ := outcome <;> exact .pure rfl
    · exact .pure rfl

theorem operate_tracks (s : Session) (op : Operation) :
    Tracks s (operate s op) (s.operate op) id := by
  cases op with
  | addText name text =>
    rw [operate, Session.operate]
    refine .noting fun xs outcome h => ?_
    obtain ⟨rfl, rfl⟩ := Dialogue.comesTo_pure.mp h
    exact .of_change (c := .addText name text) trivial fun _ => Change.noConfusion
  | addFile path => exact (addFile_tracks s path).bind fun _ _ _ => .pure rfl
  | execute program => exact (execute_tracks s program).bind fun _ _ _ => .pure rfl
  | flush => exact (flush_tracks s).bind fun _ _ _ => .pure rfl

theorem operations_track (s : Session) (ops : List Operation) :
    Tracks s (ops.foldlM operate s) (ops.foldlM Session.operate s) id := by
  induction ops generalizing s with
  | nil => exact .pure rfl
  | cons op rest ih => exact (operate_tracks s op).bind fun _ s _ => ih s

end Recorded

namespace Session

variable {s s' : Session} {ops : List Operation} {xs : List Exchange}

/-- A course of operations has exactly one record. -/
theorem exists_unique_record (h : (ops.foldlM operate s : Dialogue _).ComesTo xs s') :
    ∃! history, s.Records ops history xs s' := by
  obtain ⟨history, hrecord⟩ := (Recorded.operations_track s ops).complete h []
  refine ⟨history, hrecord, fun other hother => ?_⟩
  exact congrArg Prod.snd (hother.unique hrecord)

/-- A record is a history, in which inputs are given up only where they are saved. -/
theorem Records.leadsSafely {history : List Change} (h : s.Records ops history xs s') :
    s.LeadsSafely history xs s' := by
  obtain ⟨-, changes, rfl, hleads⟩ := (Recorded.operations_track s ops).sound h
  rwa [List.append_nil]

end Session

end WordPattern
