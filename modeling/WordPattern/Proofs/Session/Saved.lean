import Mathlib
import WordPattern.Proofs.Session.Recorded
import WordPattern.Proofs.Session.Unrolled

/-!
# Replaced contents are saved

An input that has a file and is not dirty has either never been replaced, or its contents are those
that were last written beside the file. Inputs are given up once all that was pending of them has
been written, and each flush that succeeds leaves nothing pending.
-/

namespace WordPattern

namespace Change

variable {k : Nat} {c : Change} {history : List Change}

theorem isReplaced_cons (h : c.begins k = false) :
    isReplaced k (c :: history) = (c.rewrites k || isReplaced k history) := by
  rw [isReplaced, since_cons h]
  rfl

theorem lastSaved?_cons (h : c.begins k = false) :
    lastSaved? k (c :: history) = (c.saved? k).or (lastSaved? k history) := by
  rw [lastSaved?, since_cons h, List.findSome?_cons]
  cases c.saved? k <;> rfl

/-- The input at a place, if it has been replaced and has a file, is dirty or has its contents
written beside that file. -/
def SavedAt (k : Nat) (history : List Change) (s : Session) : Prop :=
  isReplaced k history = true → ∃ i, s.inputs[k]? = some i ∧
    ∀ path, i.path = some path → i.dirty = false →
      lastSaved? k history = some (siblingPath path, i.contents) ∧ siblingPath path ∈ s.written

variable {s s' : Session}

theorem SavedAt.of_begins (h : c.begins k = true) : SavedAt k (c :: history) s := by
  intro hreplaced
  rw [isReplaced, since_of_begins h] at hreplaced
  cases hreplaced

/-- A change that is about something else keeps an input and what is known of it. -/
theorem SavedAt.of_other (h : SavedAt k history s) (hbegins : c.begins k = false)
    (hrewrites : c.rewrites k = false) (hsaved : c.saved? k = none)
    (hinput : ∀ i, s.inputs[k]? = some i → s'.inputs[k]? = some i)
    (hwritten : s.written ⊆ s'.written) : SavedAt k (c :: history) s' := by
  intro hreplaced
  rw [isReplaced_cons hbegins, hrewrites] at hreplaced
  obtain ⟨i, hi, hlast⟩ := h hreplaced
  refine ⟨i, hinput i hi, fun path hpath hclean => ?_⟩
  obtain ⟨hlast, hmem⟩ := hlast path hpath hclean
  rw [lastSaved?_cons hbegins, hsaved, Option.none_or]
  exact ⟨hlast, hwritten hmem⟩

theorem SavedAt.rewrite {place : Nat} {contents : ByteArray} (h : SavedAt k history s)
    (hc : s.Admits (.rewrite place contents)) :
    SavedAt k (.rewrite place contents :: history) (s.after (.rewrite place contents)) := by
  by_cases hplace : place = k
  · subst hplace
    have hi : s.inputs[place]? = some s.inputs[place] := List.getElem?_eq_getElem hc
    refine fun _ => ⟨s.inputs[place].replace contents, ?_, fun path _ hclean => ?_⟩
    · simp [Session.after, hi]
    · cases hclean
  · refine h.of_other rfl (beq_eq_false_iff_ne.mpr hplace) rfl (fun i hi => ?_) (List.Subset.refl _)
    simp [Session.after, hplace, hi]

theorem SavedAt.save {place : Nat} {file : String × ByteArray} (h : SavedAt k history s)
    (hc : s.Admits (.save place file)) :
    SavedAt k (.save place file :: history) (s.after (.save place file)) := by
  by_cases hplace : place = k
  · subst hplace
    obtain ⟨i, hi, hpending⟩ := hc
    refine fun _ => ⟨i.saved, ?_, fun path hpath _ => ?_⟩
    · simp [Session.after, hi]
    · rw [Input.saved_path] at hpath
      obtain ⟨-, path', hpath', rfl⟩ := Input.pending?_eq_some_iff.mp hpending
      cases hpath.symm.trans hpath'
      rw [lastSaved?_cons rfl, Input.saved_of_pending hpending]
      exact ⟨by simp [saved?, Input.contents], by simp [Session.after]⟩
  · refine h.of_other rfl rfl (if_neg hplace) (fun i hi => ?_) (List.subset_append_left _ _)
    simp [Session.after, hplace, hi]

theorem getElem?_further {inputs others : List Input} {i : Input} (h : inputs[k]? = some i) :
    (inputs ++ others)[k]? = some i := by
  rw [List.getElem?_append_left (List.getElem?_eq_some_iff.mp h).1, h]

/-- Each change keeps account of the input at any place. -/
theorem SavedAt.after (h : SavedAt k history s) (hc : s.Admits c) :
    SavedAt k (c :: history) (s.after c) := by
  cases c with
  | addText name text =>
    exact h.of_other rfl rfl rfl (fun _ => getElem?_further) (List.Subset.refl _)
  | addFile place file =>
    by_cases hplace : place = k
    · exact .of_begins (beq_iff_eq.mpr hplace)
    · exact h.of_other (beq_eq_false_iff_ne.mpr hplace) rfl rfl
        (fun _ => getElem?_further) (List.Subset.refl _)
  | rewrite place contents => exact h.rewrite hc
  | save place file => exact h.save hc
  | take files => exact .of_begins rfl
  | assign globals => exact h.of_other rfl rfl rfl (fun _ => id) (List.Subset.refl _)
  | ask x => exact h.of_other rfl rfl rfl (fun _ => id) (List.Subset.refl _)

theorem savedAt_of_leads {xs : List Exchange} (h : s.Leads history xs s') (k : Nat) :
    SavedAt k history s' := by
  induction h with
  | start =>
    intro hreplaced
    cases hreplaced
  | change _ hc ih => exact ih.after hc

end Change

namespace Session

variable {s s' : Session} {xs : List Exchange}

/-- A session accounts for its inputs: one that has a file, has been replaced since it was opened
and is not dirty has last been written beside that file, with the contents that it has. -/
def Accounts (s : Session) (history : List Change) : Prop :=
  ∀ k i path, s.inputs[k]? = some i → i.path = some path →
    Change.isReplaced k history = true → i.dirty = false →
      Change.lastSaved? k history = some (siblingPath path, i.contents) ∧
        siblingPath path ∈ s.written

theorem Leads.accounts {history : List Change} (h : s.Leads history xs s') :
    s'.Accounts history := by
  intro k i path hi hpath hreplaced hclean
  obtain ⟨j, hj, hsaved⟩ := Change.savedAt_of_leads h k hreplaced
  cases hi.symm.trans hj
  exact hsaved path hpath hclean

theorem flush_of_isSaved (h : s.IsSaved) : (s.flush : Dialogue _) = pure (s, none) :=
  flush_of_saved fun i hi => Input.pending?_eq_none_iff.mpr (h i hi)

theorem isSaved_of_execute_ok {program : Program} {reports : List Report}
    (h : (s.execute program : Dialogue _).ComesTo xs (s', .ok reports)) : s'.IsSaved := by
  obtain ⟨ys, r, failure, zs, -, rfl, hend⟩ := execute_comesTo h
  cases hend with
  | written hflush => exact isSaved_of_flush_ok hflush

/-- A flush that fails stops at some place: the inputs before it are saved, the input there could
not be written, and from there on all inputs are as before. -/
structure StopsAt (s s' : Session) (e : RunError) (k : Nat) : Prop where
  failing : ∃ i target contents fault, s.inputs[k]? = some i ∧
    i.pending? = some (target, contents) ∧ e = .unwritable target fault
  saved : ∀ j < k, ∀ i : Input, s'.inputs[j]? = some i → i.path = none ∨ i.dirty = false
  later : ∀ j, k ≤ j → s'.inputs[j]? = s.inputs[j]?

theorem flush_stopsAt {e : RunError} (h : (s.flush : Dialogue _).ComesTo xs (s', some e)) :
    ∃ k, s.StopsAt s' e k := by
  obtain ⟨before, after, _, hinputs, rfl, -, hend⟩ := flush_comesTo h
  cases hend with
  | @unwritable i target contents rest fault hpending =>
    refine ⟨before.length, ⟨i, target, contents, fault, by simp [hinputs], hpending, rfl⟩,
      fun j hj i' hi' => ?_, fun j hj => ?_⟩
    · rw [List.getElem?_append_left (by simpa using hj)] at hi'
      obtain ⟨i, -, rfl⟩ := List.mem_map.mp (List.mem_of_getElem? hi')
      exact Input.pending?_eq_none_iff.mp i.pending?_saved
    · rw [hinputs, List.getElem?_append_right (by simpa using hj),
        List.getElem?_append_right hj, List.length_map]

end Session

/-! ## Taken files -/

/-- Files are taken once all that was pending has been written. -/
theorem Run.use_ok_comesTo {r r' : Run} {paths : List String} {xs : List Exchange}
    (h : (r.use paths : Dialogue _).ComesTo xs (r', none)) :
    ∃ files : List (String × ByteArray), paths = files.map Prod.fst ∧
      xs = (r.session.inputs.filterMap Input.pending?).map Exchange.written ++
        files.map Exchange.given ∧
      r' = { r with session := { r.session with
        inputs := files.map fun file => .ofFile file.1 file.2
        written := r.session.written ++
          (r.session.inputs.filterMap Input.pending?).map Prod.fst } } := by
  obtain ⟨ys, s, flushed, zs, hflush, rfl, hend⟩ := use_comesTo h
  cases hend with
  | taken files hpaths =>
    obtain ⟨rfl, rfl⟩ := Session.flush_ok_comesTo hflush
    exact ⟨files, hpaths, rfl, rfl⟩

/-- An input has stayed as it was, or what was pending of it has been written. -/
def Input.Survives (xs : List Exchange) (written : List String) (i i' : Input) : Prop :=
  i' = i ∨ ∃ file, i.pending? = some file ∧ i' = i.saved ∧ .written file ∈ xs ∧ file.1 ∈ written

theorem Input.Survives.append {xs : List Exchange} {written : List String} {i i' : Input}
    (h : i.Survives xs written i') (ys : List Exchange) : i.Survives (xs ++ ys) written i' :=
  h.imp_right fun ⟨file, hpending, hsaved, hxs, hwritten⟩ =>
    ⟨file, hpending, hsaved, List.mem_append_left ys hxs, hwritten⟩

theorem Session.flush_survives {s s' : Session} {xs : List Exchange} {failure : Option RunError}
    (h : (s.flush : Dialogue _).ComesTo xs (s', failure)) :
    List.Forall₂ (Input.Survives xs s'.written) s.inputs s'.inputs := by
  obtain ⟨before, after, tail, hinputs, rfl, rfl, -⟩ := flush_comesTo h
  rw [hinputs]
  refine List.rel_append (List.forall₂_map_right_iff.mpr (List.forall₂_same.mpr fun i hi => ?_))
    (List.forall₂_same.mpr fun i _ => .inl rfl)
  cases hpending : i.pending? with
  | none => exact .inl (Input.saved_of_not_pending hpending)
  | some file =>
    have hfile : file ∈ before.filterMap Input.pending? := List.mem_filterMap.mpr ⟨i, hi, hpending⟩
    exact .inr ⟨file, hpending, rfl, List.mem_append_left tail (List.mem_map_of_mem hfile),
      List.mem_append_right _ (List.mem_map_of_mem hfile)⟩

/-- Unless files are taken, the inputs stay. -/
theorem Run.use_error_survives {r r' : Run} {paths : List String} {xs : List Exchange}
    {e : RunError} (h : (r.use paths : Dialogue _).ComesTo xs (r', some e)) :
    List.Forall₂ (Input.Survives xs r'.session.written) r.session.inputs r'.session.inputs := by
  obtain ⟨ys, s, flushed, zs, hflush, rfl, hend⟩ := use_comesTo h
  have hsurvives := (Session.flush_survives hflush).imp fun _ _ hi => hi.append zs
  cases hend <;> exact hsurvives

/-- Whatever is done with a session, and whichever files cannot be read or written, no contents are
lost that have been replaced in a file. A course of operations has one record, which accounts for
the inputs in the end, and wherever inputs were given up, nothing of them was left to be written. -/
theorem replaced_contents_are_never_lost (limits : Limits) (ops : List Operation)
    (xs : List Exchange) (s : Session)
    (h : (ops.foldlM Session.operate { limits } : Dialogue _).ComesTo xs s) :
    ((∃! history, Session.Records { limits } ops history xs s) ∧
      ∀ history, Session.Records { limits } ops history xs s →
        Session.Leads { limits } history xs s ∧ s.Accounts history ∧
        ∀ later files earlier, history = later ++ .take files :: earlier →
          ∃ ys s₀, Session.Leads { limits } earlier ys s₀ ∧ s₀.IsSaved ∧ s₀.Accounts earlier) ∧
    (∀ (r : Run) paths ys r', (r.use paths : Dialogue _).ComesTo ys (r', none) →
      ∃ files : List (String × ByteArray), paths = files.map Prod.fst ∧
        ys = (r.session.inputs.filterMap Input.pending?).map Exchange.written ++
          files.map Exchange.given ∧
        r' = { r with session := { r.session with
          inputs := files.map fun file => .ofFile file.1 file.2
          written := r.session.written ++
            (r.session.inputs.filterMap Input.pending?).map Prod.fst } }) ∧
    (∀ (r : Run) paths ys r' e, (r.use paths : Dialogue _).ComesTo ys (r', some e) →
      List.Forall₂ (Input.Survives ys r'.session.written) r.session.inputs r'.session.inputs) ∧
    (∀ program ys s' reports, (s.execute program : Dialogue _).ComesTo ys (s', .ok reports) →
      s'.IsSaved) ∧
    (∀ ys s', (s.flush : Dialogue _).ComesTo ys (s', none) →
      s'.IsSaved ∧ (s'.flush : Dialogue _) = pure (s', none)) ∧
    ∀ ys s' e, (s.flush : Dialogue _).ComesTo ys (s', some e) → ∃ k, s.StopsAt s' e k := by
  refine ⟨⟨Session.exists_unique_record h, fun history hrecord => ?_⟩, ?_, ?_, ?_, ?_, ?_⟩
  · have hsafely := hrecord.leadsSafely
    refine ⟨hsafely.leads, hsafely.leads.accounts, fun later files earlier heq => ?_⟩
    obtain ⟨ys, s₀, hleads, hsaved⟩ := hsafely.takes later files earlier heq
    exact ⟨ys, s₀, hleads, hsaved, hleads.accounts⟩
  · exact fun r paths ys r' huse => Run.use_ok_comesTo huse
  · exact fun r paths ys r' e huse => Run.use_error_survives huse
  · exact fun program ys s' reports hexecute => Session.isSaved_of_execute_ok hexecute
  · intro ys s' hflush
    have hsaved := Session.isSaved_of_flush_ok hflush
    exact ⟨hsaved, Session.flush_of_isSaved hsaved⟩
  · exact fun ys s' e hflush => Session.flush_stopsAt hflush

theorem letter_is_saved_in_the_end :
    let ops : List Operation := [.addFile "a",
      .execute ⟨[.replace .all (.last (.literal [120] false)) [.text "y"]]⟩, .flush]
    let file := ("a.vore", "y".toUTF8)
    let failing : Exchange := .write file.1 file.2 (.error .notDirectory)
    let xs : List Exchange := [.given ("a", "x".toUTF8), failing, .written file]
    let history : List Change :=
      [.save 0 file, .ask failing, .rewrite 0 "y".toUTF8, .addFile 0 ("a", "x".toUTF8)]
    ∃ s, (ops.foldlM Session.operate {} : Dialogue _).ComesTo xs s ∧
      Session.Records {} ops history xs s ∧ Change.isReplaced 0 history = true ∧
      Change.lastSaved? 0 history = some file ∧ s.written = ["a.vore"] := by
  intro ops file failing xs history
  let opened : Input := .ofFile "a" "x".toUTF8
  let replaced := opened.replace "y".toUTF8
  let s : Session := { inputs := [replaced.saved], written := ["a.vore"] }
  have hopen : ((Recorded.operate {} (.addFile "a")).run []).follow? [.given ("a", "x".toUTF8)] =
      some ({ inputs := [opened] }, history.drop 3) := by cbv
  have hexecute : ((Recorded.operate { inputs := [opened] }
      (.execute ⟨[.replace .all (.last (.literal [120] false)) [.text "y"]]⟩)).run
        (history.drop 3)).follow? [failing] =
      some ({ inputs := [replaced] }, history.drop 1) := by
    simp only [Recorded.operate, Recorded.execute, Recorded.statements, Recorded.statement,
      Run.replace, Run.replaceAll, Run.rewrites, Run.replaceIn, Match.withReplacement_text]
    cbv
  have hflush : ((Recorded.operate { inputs := [replaced] } .flush).run (history.drop 1)).follow?
      [.written file] = some (s, history) := by cbv
  have hrecord : Session.Records {} ops history xs s := by
    simp only [Session.Records, ops, List.foldlM_cons, List.foldlM_nil, bind_pure,
      StateT.run_bind, Dialogue.comesTo_bind]
    exact ⟨_, _, _, Dialogue.follow?_eq_some_iff.mp hopen, ⟨_, _, _,
      Dialogue.follow?_eq_some_iff.mp hexecute, Dialogue.follow?_eq_some_iff.mp hflush, rfl⟩, rfl⟩
  have hcomes : (ops.foldlM Session.operate {} : Dialogue _).ComesTo xs s :=
    ((Recorded.operations_track {} ops).sound hrecord).1
  have hreplaced : Change.isReplaced 0 history = true := rfl
  obtain ⟨⟨-, haccount⟩, -⟩ := replaced_contents_are_never_lost {} ops xs s hcomes
  obtain ⟨-, haccounts, -⟩ := haccount history hrecord
  obtain ⟨hlast, -⟩ := haccounts 0 replaced.saved "a" rfl rfl hreplaced rfl
  refine ⟨s, hcomes, hrecord, hreplaced, hlast.trans ?_, rfl⟩
  cbv

end WordPattern
