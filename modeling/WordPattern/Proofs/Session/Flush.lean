import WordPattern.Proofs.Files.Dialogue
import WordPattern.Session.Run

/-!
# Flushes and opened files

A flush writes what is pending, input by input, and stops at the first fault. Files are opened in
the same way.
-/

namespace WordPattern

/-- What a flush has to write of an input: where, and what. -/
def Input.pending? (i : Input) : Option (String × ByteArray) :=
  if i.dirty then i.path.map (siblingPath ·, i.contents) else none

/-- An input after a flush. A text is never written, so it stays as it is. -/
def Input.saved (i : Input) : Input :=
  if i.path.isSome then { i with dirty := false } else i

namespace Input

variable {i : Input} {file : String × ByteArray}

theorem pending?_eq_some_iff :
    i.pending? = some file ↔
      i.dirty = true ∧ ∃ path, i.path = some path ∧ file = (siblingPath path, i.contents) := by
  unfold pending?
  constructor
  · intro h
    split at h
    · rename_i hdirty
      obtain ⟨path, hpath, rfl⟩ := Option.map_eq_some_iff.mp h
      exact ⟨hdirty, path, hpath, rfl⟩
    · cases h
  · rintro ⟨hdirty, path, hpath, rfl⟩
    rw [if_pos hdirty, hpath]
    rfl

theorem pending?_eq_none_iff : i.pending? = none ↔ i.path = none ∨ i.dirty = false := by
  unfold pending?
  split <;> simp_all

theorem saved_of_not_pending (h : i.pending? = none) : i.saved = i := by
  rw [pending?_eq_none_iff] at h
  obtain ⟨name, path, buffer, dirty⟩ := i
  cases path <;> cases dirty <;> simp_all [saved]

theorem saved_of_pending (h : i.pending? = some file) : i.saved = { i with dirty := false } := by
  obtain ⟨-, path, hpath, -⟩ := pending?_eq_some_iff.mp h
  simp [saved, hpath]

theorem pending?_saved (i : Input) : i.saved.pending? = none := by
  rw [pending?_eq_none_iff]
  unfold saved
  split <;> simp_all

@[simp] theorem saved_path (i : Input) : i.saved.path = i.path := by
  unfold saved
  split <;> rfl

theorem clean_saved (i : Input) : { i.saved with dirty := false } = { i with dirty := false } := by
  unfold saved
  split <;> rfl

end Input

namespace Session

variable {inputs inputs' : List Input} {targets : List String} {xs : List Exchange}
  {failure : Option RunError}

/-! ## Flushes -/

theorem flushInputs_cons_skip {m : Type → Type} [Monad m] [FileStore m] {i : Input}
    (h : i.pending? = none) :
    (flushInputs (i :: inputs) : m _) = do
      let (others, targets, failure) ← flushInputs inputs
      return (i :: others, targets, failure) := by
  rw [Input.pending?_eq_none_iff] at h
  rw [flushInputs]
  split
  · rename_i hdirty hpath
    simp [hdirty, hpath] at h
  · rfl

theorem flushInputs_cons_write {m : Type → Type} [Monad m] [LawfulMonad m] [FileStore m] {i : Input}
    {target : String} {contents : ByteArray} (h : i.pending? = some (target, contents)) :
    (flushInputs (i :: inputs) : m _) = do
      match ← FileStore.write target contents with
      | .error fault => return (i :: inputs, [], some (.unwritable target fault))
      | .ok () =>
        let (others, targets, failure) ← flushInputs inputs
        return (i.saved :: others, target :: targets, failure) := by
  rw [Input.saved_of_pending h]
  obtain ⟨hdirty, path, hpath, hfile⟩ := Input.pending?_eq_some_iff.mp h
  cases hfile
  rw [flushInputs, hdirty, hpath]
  simp only [writeSibling, bind_assoc]
  refine bind_congr fun answer => ?_
  cases answer <;> simp only [pure_bind]

/-- Inputs are written one by one. -/
theorem flushInputs_cons {m : Type → Type} [Monad m] [LawfulMonad m] [FileStore m] (i : Input) :
    (flushInputs (i :: inputs) : m _) = do
      match ← flushInputs [i] with
      | (first, targets, some e) => return (first ++ inputs, targets, some e)
      | (first, targets, none) =>
        let (others, more, failure) ← flushInputs inputs
        return (first ++ others, targets ++ more, failure) := by
  cases hi : i.pending? with
  | none =>
    rw [flushInputs_cons_skip hi, flushInputs_cons_skip hi, flushInputs]
    simp only [pure_bind, List.singleton_append, List.nil_append]
  | some file =>
    rw [flushInputs_cons_write hi, flushInputs_cons_write hi, bind_assoc]
    refine bind_congr fun answer => ?_
    cases answer <;> simp only [flushInputs, pure_bind, List.singleton_append]

/-- Where nothing is pending, a flush asks nothing and changes nothing. -/
theorem flushInputs_of_saved {m : Type → Type} [Monad m] [LawfulMonad m] [FileStore m]
    (h : ∀ i ∈ inputs, i.pending? = none) :
    (flushInputs inputs : m _) = pure (inputs, [], none) := by
  induction inputs with
  | nil => rfl
  | cons i rest ih =>
    obtain ⟨hi, hrest⟩ := List.forall_mem_cons.mp h
    rw [flushInputs_cons_skip hi, ih hrest, pure_bind]

/-- How a flush ends: no input is left, or the first that is left cannot be written. -/
inductive FlushEnd : List Input → List Exchange → Option RunError → Prop
  | complete : FlushEnd [] [] none
  | unwritable {i : Input} {target : String} {contents : ByteArray} (rest : List Input)
    (fault : Fault) (h : i.pending? = some (target, contents)) :
    FlushEnd (i :: rest) [.write target contents (.error fault)] (some (.unwritable target fault))

theorem flushInputs_comesTo
    (h : (flushInputs inputs : Dialogue _).ComesTo xs (inputs', targets, failure)) :
    ∃ before after tail, inputs = before ++ after ∧ inputs' = before.map Input.saved ++ after ∧
      targets = (before.filterMap Input.pending?).map Prod.fst ∧
      xs = (before.filterMap Input.pending?).map Exchange.written ++ tail ∧
      FlushEnd after tail failure := by
  induction inputs generalizing xs inputs' targets failure with
  | nil =>
    obtain ⟨rfl, heq⟩ := Dialogue.comesTo_pure.mp h
    cases heq
    exact ⟨[], [], [], rfl, rfl, rfl, rfl, .complete⟩
  | cons i rest ih =>
    cases hpending : i.pending? with
    | none =>
      rw [flushInputs_cons_skip hpending, Dialogue.comesTo_bind_pure] at h
      obtain ⟨⟨others, targets', failure'⟩, hrest, heq⟩ := h
      cases heq
      obtain ⟨before, after, tail, rfl, rfl, rfl, rfl, hend⟩ := ih hrest
      refine ⟨i :: before, after, tail, rfl, ?_, ?_, ?_, hend⟩
      · rw [List.map_cons, Input.saved_of_not_pending hpending, List.cons_append]
      · rw [List.filterMap_cons_none hpending]
      · rw [List.filterMap_cons_none hpending]
    | some file =>
      obtain ⟨target, contents⟩ := file
      rw [flushInputs_cons_write hpending, Dialogue.comesTo_bind] at h
      obtain ⟨ys, answer, zs, hwrite, h, rfl⟩ := h
      obtain rfl := Dialogue.comesTo_write.mp hwrite
      cases answer with
      | error fault =>
        obtain ⟨rfl, heq⟩ := Dialogue.comesTo_pure.mp h
        cases heq
        exact ⟨[], i :: rest, _, rfl, rfl, rfl, rfl, .unwritable rest fault hpending⟩
      | ok _ =>
        obtain ⟨⟨others, targets', failure'⟩, hrest, heq⟩ := Dialogue.comesTo_bind_pure.mp h
        cases heq
        obtain ⟨before, after, tail, rfl, rfl, rfl, rfl, hend⟩ := ih hrest
        refine ⟨i :: before, after, tail, rfl, rfl, ?_, ?_, hend⟩
        · rw [List.filterMap_cons_some hpending, List.map_cons]
        · rw [List.filterMap_cons_some hpending, List.map_cons]
          rfl

/-- What happens when one input is written: nothing, if nothing is pending; else what is pending has
been written, or could not be. -/
theorem flushInputs_singleton_comesTo {i : Input}
    {outcome : List Input × List String × Option RunError}
    (h : (flushInputs [i] : Dialogue _).ComesTo xs outcome) :
    (xs = [] ∧ outcome = ([i], [], none)) ∨
    (∃ file, i.pending? = some file ∧ xs = [.written file] ∧
      outcome = ([i.saved], [file.1], none)) ∨
    ∃ target contents fault, xs = [.write target contents (.error fault)] ∧
      outcome = ([i], [], some (.unwritable target fault)) := by
  obtain ⟨inputs', targets, failure⟩ := outcome
  obtain ⟨before, after, tail, hi, rfl, rfl, rfl, hend⟩ := flushInputs_comesTo h
  cases hend with
  | complete =>
    obtain rfl : before = [i] := by simpa using hi.symm
    cases hi : i.pending? with
    | none =>
      rw [List.filterMap_cons_none hi, List.map_singleton, Input.saved_of_not_pending hi]
      exact .inl ⟨rfl, rfl⟩
    | some file =>
      rw [List.filterMap_cons_some hi]
      exact .inr (.inl ⟨file, rfl, rfl, rfl⟩)
  | @unwritable j target contents rest fault hpending =>
    obtain ⟨rfl, rfl, rfl⟩ : before = [] ∧ i = j ∧ rest = [] := by
      cases before <;> simp_all
    exact .inr (.inr ⟨target, contents, fault, rfl, rfl⟩)

/-- A flush writes what is pending of the inputs up to some place, where it ends or meets the first
fault. -/
theorem flush_comesTo {s s' : Session}
    (h : (s.flush : Dialogue _).ComesTo xs (s', failure)) :
    ∃ before after tail, s.inputs = before ++ after ∧
      s' = { s with
        inputs := before.map Input.saved ++ after
        written := s.written ++ (before.filterMap Input.pending?).map Prod.fst } ∧
      xs = (before.filterMap Input.pending?).map Exchange.written ++ tail ∧
      FlushEnd after tail failure := by
  obtain ⟨⟨inputs', targets, failure'⟩, hflush, heq⟩ := Dialogue.comesTo_bind_pure.mp h
  cases heq
  obtain ⟨before, after, tail, hinputs, rfl, rfl, rfl, hend⟩ := flushInputs_comesTo hflush
  exact ⟨before, after, tail, hinputs, rfl, rfl, hend⟩

/-- A flush that succeeds has written all that was pending. -/
theorem flush_ok_comesTo {s s' : Session} (h : (s.flush : Dialogue _).ComesTo xs (s', none)) :
    s' = { s with
      inputs := s.inputs.map Input.saved
      written := s.written ++ (s.inputs.filterMap Input.pending?).map Prod.fst } ∧
    xs = (s.inputs.filterMap Input.pending?).map Exchange.written := by
  obtain ⟨before, after, tail, hinputs, rfl, rfl, hend⟩ := flush_comesTo h
  cases hend
  rw [List.append_nil] at hinputs
  rw [hinputs, List.append_nil, List.append_nil]
  exact ⟨rfl, rfl⟩

theorem pending?_of_flush_ok {s s' : Session}
    (h : (s.flush : Dialogue _).ComesTo xs (s', none)) : ∀ i ∈ s'.inputs, i.pending? = none := by
  obtain ⟨rfl, -⟩ := flush_ok_comesTo h
  intro i hi
  obtain ⟨j, -, rfl⟩ := List.mem_map.mp hi
  exact j.pending?_saved

theorem flush_of_saved {m : Type → Type} [Monad m] [LawfulMonad m] [FileStore m] {s : Session}
    (h : ∀ i ∈ s.inputs, i.pending? = none) : (s.flush : m _) = pure (s, none) := by
  rw [flush, flushInputs_of_saved h, pure_bind]
  simp only [List.append_nil]

/-! ## Opened files -/

theorem openFile_comesTo {path : String} {outcome : Except RunError Input} :
    (openFile path : Dialogue _).ComesTo xs outcome ↔
      (∃ contents, xs = [.given (path, contents)] ∧ outcome = .ok (.ofFile path contents)) ∨
        ∃ fault, xs = [.read path (.error fault)] ∧ outcome = .error (.unreadable path fault) := by
  rw [openFile, Dialogue.comesTo_bind]
  constructor
  · rintro ⟨ys, answer, zs, hread, hlast, rfl⟩
    rw [Dialogue.comesTo_read] at hread
    subst hread
    cases answer with
    | ok contents =>
      obtain ⟨rfl, rfl⟩ := Dialogue.comesTo_pure.mp hlast
      exact .inl ⟨contents, rfl, rfl⟩
    | error fault =>
      obtain ⟨rfl, rfl⟩ := Dialogue.comesTo_pure.mp hlast
      exact .inr ⟨fault, rfl, rfl⟩
  · rintro (⟨contents, rfl, rfl⟩ | ⟨fault, rfl, rfl⟩)
    · exact ⟨_, .ok contents, [], Dialogue.comesTo_read.mpr rfl,
        Dialogue.comesTo_pure.mpr ⟨rfl, rfl⟩, rfl⟩
    · exact ⟨_, .error fault, [], Dialogue.comesTo_read.mpr rfl,
        Dialogue.comesTo_pure.mpr ⟨rfl, rfl⟩, rfl⟩

/-- How the opening of files ends: all of them have been read, or one of them cannot be read. -/
inductive OpenEnd (paths : List String) : List Exchange → Except RunError (List Input) → Prop
  | opened (files : List (String × ByteArray)) (h : paths = files.map Prod.fst) :
    OpenEnd paths (files.map .given) (.ok (files.map fun file => .ofFile file.1 file.2))
  | unreadable (files : List (String × ByteArray)) (path : String) (fault : Fault) :
    OpenEnd paths (files.map .given ++ [.read path (.error fault)])
      (.error (.unreadable path fault))

/-- Files are opened up to the first that cannot be read. -/
theorem openFiles_comesTo {paths : List String} {outcome : Except RunError (List Input)}
    (h : (openFiles paths : Dialogue _).ComesTo xs outcome) : OpenEnd paths xs outcome := by
  induction paths generalizing xs outcome with
  | nil =>
    obtain ⟨rfl, rfl⟩ := Dialogue.comesTo_pure.mp h
    exact .opened [] rfl
  | cons path rest ih =>
    rw [openFiles, Dialogue.comesTo_bind] at h
    obtain ⟨ys, first, zs, hfirst, h, rfl⟩ := h
    rcases openFile_comesTo.mp hfirst with ⟨contents, rfl, rfl⟩ | ⟨fault, rfl, rfl⟩
    · obtain ⟨ys, others, zs, hothers, h, rfl⟩ := Dialogue.comesTo_bind.mp h
      cases ih hothers with
      | opened files hpaths =>
        obtain ⟨rfl, rfl⟩ := Dialogue.comesTo_pure.mp h
        rw [List.append_nil]
        exact .opened ((path, contents) :: files) (congrArg _ hpaths)
      | unreadable files missing fault =>
        obtain ⟨rfl, rfl⟩ := Dialogue.comesTo_pure.mp h
        rw [List.append_nil]
        exact .unreadable ((path, contents) :: files) missing fault
    · obtain ⟨rfl, rfl⟩ := Dialogue.comesTo_pure.mp h
      exact .unreadable [] path fault

theorem addFile_comesTo {s s' : Session} {path : String}
    (h : (s.addFile path : Dialogue _).ComesTo xs (s', failure)) :
    (∃ contents, xs = [.given (path, contents)] ∧
      s' = { s with inputs := s.inputs ++ [.ofFile path contents] } ∧ failure = none) ∨
      ∃ fault, xs = [.read path (.error fault)] ∧ s' = s ∧
        failure = some (.unreadable path fault) := by
  rw [addFile, Dialogue.comesTo_bind] at h
  obtain ⟨ys, outcome, zs, hopen, h, rfl⟩ := h
  rcases openFile_comesTo.mp hopen with ⟨contents, rfl, rfl⟩ | ⟨fault, rfl, rfl⟩
  · obtain ⟨rfl, heq⟩ := Dialogue.comesTo_pure.mp h
    cases heq
    exact .inl ⟨contents, rfl, rfl, rfl⟩
  · obtain ⟨rfl, heq⟩ := Dialogue.comesTo_pure.mp h
    cases heq
    exact .inr ⟨fault, rfl, rfl, rfl⟩

end Session

/-- How taking files goes on after the flush: it ends there if the flush has failed; else the files
are opened, and taken if all of them can be read. -/
inductive Run.UseEnd (r : Run) (paths : List String) (s : Session) :
    Option RunError → List Exchange → Run → Option RunError → Prop
  | unwritten (e : RunError) : UseEnd r paths s (some e) [] { r with session := s } (some e)
  | taken (files : List (String × ByteArray)) (h : paths = files.map Prod.fst) :
    UseEnd r paths s none (files.map .given)
      { r with session := { s with inputs := files.map fun file => .ofFile file.1 file.2 } } none
  | unreadable (files : List (String × ByteArray)) (path : String) (fault : Fault) :
    UseEnd r paths s none (files.map .given ++ [.read path (.error fault)])
      { r with session := s } (some (.unreadable path fault))

theorem Run.use_comesTo {r r' : Run} {paths : List String} {xs : List Exchange}
    {failure : Option RunError} (h : (r.use paths : Dialogue _).ComesTo xs (r', failure)) :
    ∃ ys s flushed zs, (r.session.flush : Dialogue _).ComesTo ys (s, flushed) ∧ xs = ys ++ zs ∧
      r.UseEnd paths s flushed zs r' failure := by
  rw [Run.use, Dialogue.comesTo_bind] at h
  obtain ⟨ys, ⟨s, flushed⟩, zs, hflush, h, rfl⟩ := h
  refine ⟨ys, s, flushed, zs, hflush, rfl, ?_⟩
  cases flushed with
  | some e =>
    obtain ⟨rfl, heq⟩ := Dialogue.comesTo_pure.mp h
    cases heq
    exact .unwritten e
  | none =>
    obtain ⟨ys, outcome, zs, hopen, h, rfl⟩ := Dialogue.comesTo_bind.mp h
    cases Session.openFiles_comesTo hopen with
    | opened files hpaths =>
      obtain ⟨rfl, heq⟩ := Dialogue.comesTo_pure.mp h
      cases heq
      rw [List.append_nil]
      exact .taken files hpaths
    | unreadable files path fault =>
      obtain ⟨rfl, heq⟩ := Dialogue.comesTo_pure.mp h
      cases heq
      rw [List.append_nil]
      exact .unreadable files path fault

end WordPattern
