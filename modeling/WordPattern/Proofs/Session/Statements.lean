import Mathlib.Data.List.Forall2
import WordPattern.Session.Run

/-!
# Statements that go over the inputs

Finding and replacing treat the inputs one after the other, up to the first whose scan is
interrupted. What they do with an input depends on the variables, the bound patterns, the limits and
the input alone.
-/

theorem List.Forall₂.exists_getElem? {α β : Type} {R : α → β → Prop} {as : List α} {bs : List β}
    (h : List.Forall₂ R as bs) {j : Nat} {a : α} (ha : as[j]? = some a) :
    ∃ b, bs[j]? = some b ∧ R a b := by
  induction h generalizing j with
  | nil => cases ha
  | cons hfirst _ ih =>
    cases j with
    | zero =>
      cases ha
      exact ⟨_, rfl, hfirst⟩
    | succ j => exact ih ha

theorem List.Forall₂.map_eq {α β γ : Type} {R : α → β → Prop} {as : List α} {bs : List β}
    (h : List.Forall₂ R as bs) {f : α → γ} {g : β → γ} (hfg : ∀ a b, R a b → g b = f a) :
    bs.map g = as.map f := by
  induction h with
  | nil => rfl
  | cons hfirst _ ih => rw [List.map_cons, List.map_cons, ih, hfg _ _ hfirst]

namespace WordPattern

theorem Match.withReplacement_text (globals : Bindings Value) (text : String) (m : Match) :
    m.withReplacement globals [.text text] = { m with replacement := some text } := by
  simp [withReplacement, Expr.evalText, Expr.eval, Expr.evalWithin, Value.display, String.join]

namespace Run

variable {r : Run} {number : Nat} {amount : Amount} {pattern : Chain} {parts : List Expr}
  {inputs inputs' : List Input} {reports reports' : List Report}

/-! ## One input -/

section

variable {i : Input} {report : Report} {outcome : Input × Report} {e : RunError}

theorem findIn_eq_ok_iff :
    r.findIn number amount pattern i = .ok report ↔
      ∃ found, (r.setting i).scan pattern amount = .ok found ∧
        report = ⟨i.name, number, found⟩ := by
  rw [findIn]
  cases (r.setting i).scan pattern amount <;> simp [eq_comm]

theorem findIn_eq_error_iff :
    r.findIn number amount pattern i = .error e ↔
      ∃ cause, (r.setting i).scan pattern amount = .error cause ∧ e = .interrupted cause := by
  rw [findIn]
  cases (r.setting i).scan pattern amount <;> simp [eq_comm]

theorem replaceIn_eq_ok (h : r.replaceIn number amount pattern parts i = .ok outcome) :
    ∃ found, (r.setting i).scan pattern amount = .ok found ∧
      (outcome.1 = i ∨ ∃ contents, outcome.1 = i.replace contents) ∧
        outcome.2 = ⟨i.name, number, found.map (·.withReplacement r.session.globals parts)⟩ := by
  rw [replaceIn] at h
  split at h
  · rename_i found hscan
    cases h
    refine ⟨found, hscan, ?_, rfl⟩
    split
    · exact .inl rfl
    · exact .inr ⟨_, rfl⟩
  · cases h

/-- An input is replaced if something has been found in it, and stays as it is if not. -/
theorem replaceIn_input (h : r.replaceIn number amount pattern parts i = .ok outcome) :
    outcome.1 =
      if outcome.2.found.isEmpty then i else i.replace outcome.1.contents := by
  rw [replaceIn] at h
  split at h
  · cases h
    split
    · rfl
    · exact congrArg i.replace (Buffer.bytes_withContents i.buffer _).symm
  · cases h

theorem replaceIn_eq_error_iff :
    r.replaceIn number amount pattern parts i = .error e ↔
      ∃ cause, (r.setting i).scan pattern amount = .error cause ∧ e = .interrupted cause := by
  rw [replaceIn]
  cases (r.setting i).scan pattern amount <;>
    simp only [reduceCtorEq, Except.error.injEq, exists_eq_left', false_and, exists_false, eq_comm]

end

/-! ## Finding -/

/-- Finding succeeds if it does in every input; the reports stand in the order of the inputs. -/
theorem findAll_eq_ok_iff :
    r.findAll number amount pattern reports inputs = (reports', none) ↔
      ∃ block, List.Forall₂ (fun i report => r.findIn number amount pattern i = .ok report)
        inputs block ∧ reports' = block.reverse ++ reports := by
  induction inputs generalizing reports with
  | nil => simp [findAll, eq_comm]
  | cons i rest ih =>
    rw [findAll]
    cases hi : r.findIn number amount pattern i with
    | error e => simp [List.forall₂_cons_left_iff, hi]
    | ok report =>
      simp only [ih, List.forall₂_cons_left_iff, hi]
      constructor
      · rintro ⟨block, hblock, rfl⟩
        exact ⟨report :: block, ⟨report, block, rfl, hblock, rfl⟩, by simp⟩
      · rintro ⟨block, ⟨report', block', heq, hblock, rfl⟩, rfl⟩
        cases heq
        exact ⟨block', hblock, by simp⟩

theorem findAll_error {e : RunError}
    (h : r.findAll number amount pattern reports inputs = (reports', some e)) :
    ∃ before i after, inputs = before ++ i :: after ∧
      (∀ j ∈ before, ∃ report, r.findIn number amount pattern j = .ok report) ∧
        r.findIn number amount pattern i = .error e := by
  induction inputs generalizing reports with
  | nil => cases h
  | cons i rest ih =>
    rw [findAll] at h
    cases hi : r.findIn number amount pattern i with
    | error e' =>
      rw [hi] at h
      cases h
      exact ⟨[], i, rest, rfl, fun _ hj => absurd hj List.not_mem_nil, hi⟩
    | ok report =>
      rw [hi] at h
      obtain ⟨before, i', after, rfl, hbefore, herror⟩ := ih h
      exact ⟨i :: before, i', after, rfl, List.forall_mem_cons.mpr ⟨⟨report, hi⟩, hbefore⟩, herror⟩

theorem find_eq_ok_iff {r' : Run} :
    r.find number amount pattern = (r', none) ↔
      ∃ block, List.Forall₂ (fun i report => r.findIn number amount pattern i = .ok report)
        r.session.inputs block ∧ r' = { r with reports := block.reverse ++ r.reports } := by
  rw [find]
  constructor
  · intro h
    cases hall : r.findAll number amount pattern r.reports r.session.inputs with
    | mk reports failure =>
      rw [hall] at h
      cases h
      obtain ⟨block, hblock, rfl⟩ := findAll_eq_ok_iff.mp hall
      exact ⟨block, hblock, rfl⟩
  · rintro ⟨block, hblock, rfl⟩
    rw [findAll_eq_ok_iff.mpr ⟨block, hblock, rfl⟩]

theorem find_error {r' : Run} {e : RunError}
    (h : r.find number amount pattern = (r', some e)) :
    (∃ before i after, r.session.inputs = before ++ i :: after ∧
      (∀ j ∈ before, ∃ report, r.findIn number amount pattern j = .ok report) ∧
        r.findIn number amount pattern i = .error e) ∧
      ∃ reports, r' = { r with reports } := by
  rw [find] at h
  cases hall : r.findAll number amount pattern r.reports r.session.inputs with
  | mk reports failure =>
    rw [hall] at h
    cases h
    exact ⟨findAll_error hall, reports, rfl⟩

/-! ## Replacing -/

/-- Replacing succeeds if it does in every input, and each input is what it has become. -/
theorem replaceAll_eq_ok_iff :
    r.replaceAll number amount pattern parts reports inputs = (inputs', reports', none) ↔
      ∃ block, List.Forall₂
        (fun i outcome => r.replaceIn number amount pattern parts i = .ok outcome) inputs block ∧
          inputs' = block.map Prod.fst ∧ reports' = (block.map Prod.snd).reverse ++ reports := by
  induction inputs generalizing inputs' reports reports' with
  | nil => simp [replaceAll, eq_comm]
  | cons i rest ih =>
    rw [replaceAll]
    cases hi : r.replaceIn number amount pattern parts i with
    | error e => simp [List.forall₂_cons_left_iff, hi]
    | ok outcome =>
      obtain ⟨i', report⟩ := outcome
      constructor
      · intro h
        cases hall : r.replaceAll number amount pattern parts (report :: reports) rest with
        | mk others outcome =>
          obtain ⟨fresh, failure⟩ := outcome
          simp only [hall, Prod.mk.injEq] at h
          obtain ⟨rfl, rfl, rfl⟩ := h
          obtain ⟨block, hblock, rfl, rfl⟩ := ih.mp hall
          exact ⟨(i', report) :: block, .cons hi hblock, rfl, by simp⟩
      · rintro ⟨block, hblock, rfl, rfl⟩
        obtain ⟨outcome, block, hfirst, hrest, rfl⟩ := List.forall₂_cons_left_iff.mp hblock
        cases hi.symm.trans hfirst
        simp only [ih.mpr ⟨block, hrest, rfl, rfl⟩, List.map_cons, List.reverse_cons,
          List.append_assoc, List.singleton_append]

theorem replaceAll_error {e : RunError}
    (h : r.replaceAll number amount pattern parts reports inputs = (inputs', reports', some e)) :
    ∃ before i after block, inputs = before ++ i :: after ∧
      List.Forall₂ (fun i outcome => r.replaceIn number amount pattern parts i = .ok outcome)
        before block ∧
      r.replaceIn number amount pattern parts i = .error e ∧
        inputs' = block.map Prod.fst ++ i :: after := by
  induction inputs generalizing inputs' reports with
  | nil => cases h
  | cons i rest ih =>
    rw [replaceAll] at h
    cases hi : r.replaceIn number amount pattern parts i with
    | error e' =>
      rw [hi] at h
      cases h
      exact ⟨[], i, rest, [], rfl, .nil, hi, rfl⟩
    | ok outcome =>
      obtain ⟨i', report⟩ := outcome
      cases hall : r.replaceAll number amount pattern parts (report :: reports) rest with
      | mk others outcome =>
        obtain ⟨fresh, failure⟩ := outcome
        simp only [hi, hall, Prod.mk.injEq] at h
        obtain ⟨rfl, rfl, rfl⟩ := h
        obtain ⟨before, j, after, block, rfl, hblock, herror, rfl⟩ := ih hall
        exact ⟨i :: before, j, after, (i', report) :: block, rfl, .cons hi hblock, herror, rfl⟩

theorem replace_eq_ok_iff {r' : Run} :
    r.replace number amount pattern parts = (r', none) ↔
      ∃ block, List.Forall₂
        (fun i outcome => r.replaceIn number amount pattern parts i = .ok outcome)
        r.session.inputs block ∧
          r' = { r with
            session := { r.session with inputs := block.map Prod.fst }
            reports := (block.map Prod.snd).reverse ++ r.reports } := by
  rw [replace]
  constructor
  · intro h
    cases hall : r.replaceAll number amount pattern parts r.reports r.session.inputs with
    | mk inputs outcome =>
      obtain ⟨reports, failure⟩ := outcome
      rw [hall] at h
      cases h
      obtain ⟨block, hblock, rfl, rfl⟩ := replaceAll_eq_ok_iff.mp hall
      exact ⟨block, hblock, rfl⟩
  · rintro ⟨block, hblock, rfl⟩
    rw [replaceAll_eq_ok_iff.mpr ⟨block, hblock, rfl, rfl⟩]

theorem replace_error {r' : Run} {e : RunError}
    (h : r.replace number amount pattern parts = (r', some e)) :
    ∃ before i after block reports, r.session.inputs = before ++ i :: after ∧
      List.Forall₂ (fun i outcome => r.replaceIn number amount pattern parts i = .ok outcome)
        before block ∧
      r.replaceIn number amount pattern parts i = .error e ∧
        r' = { r with
          session := { r.session with inputs := block.map Prod.fst ++ i :: after }
          reports } := by
  rw [replace] at h
  cases hall : r.replaceAll number amount pattern parts r.reports r.session.inputs with
  | mk inputs outcome =>
    obtain ⟨reports, failure⟩ := outcome
    rw [hall] at h
    cases h
    obtain ⟨before, i, after, block, hinputs, hblock, herror, rfl⟩ := replaceAll_error hall
    exact ⟨before, i, after, block, reports, hinputs, hblock, herror, rfl⟩

end Run

end WordPattern
