import Mathlib
import WordPattern.Proofs.Replace.Spans
import WordPattern.Proofs.Session.Flush
import WordPattern.Proofs.Session.Statements
import WordPattern.Proofs.Session.Unrolled

/-!
# Runs that fail

A run that fails has done all that comes before the statement that fails, and leaves the session as
that statement does. The inputs that a statement has not come to are as they were.
-/

namespace WordPattern

/-- Nothing is done to a session but to write what is pending in it. -/
structure Session.OnlySaves (s : Session) (xs : List Exchange) (s' : Session) : Prop where
  inputs : s'.inputs.map ({ · with dirty := false }) = s.inputs.map ({ · with dirty := false })
  rest : s' = { s with inputs := s'.inputs, written := s'.written }
  writes : ∀ target contents answer, .write target contents answer ∈ xs →
    ∃ i ∈ s.inputs, i.pending? = some (target, contents)
  written : ∃ targets, s'.written = s.written ++ targets ∧
    ∀ target ∈ targets, ∃ contents, .write target contents (.ok ()) ∈ xs

/-- The scan of an input is interrupted, and the scans of those before it are not. -/
structure Run.InterruptedAt (r : Run) (amount : Amount) (pattern : Chain) (before : List Input)
    (i : Input) (after : List Input) (e : RunError) : Prop where
  inputs : r.session.inputs = before ++ i :: after
  scanned : ∀ j ∈ before, ∃ found, (r.setting j).scan pattern amount = .ok found
  interrupted : ∃ cause, (r.setting i).scan pattern amount = .error cause ∧ e = .interrupted cause

/-- What a statement has asked, and the session that it leaves, when it fails. -/
def Run.StopsWith (r : Run) (number : Nat) (xs : List Exchange) (s' : Session) (e : RunError) :
    Statement → Prop
  | .find amount pattern =>
    xs = [] ∧ s' = r.session ∧ ∃ before i after, r.InterruptedAt amount pattern before i after e
  | .replace amount pattern parts =>
    xs = [] ∧ ∃ before i after replaced, r.InterruptedAt amount pattern before i after e ∧
      List.Forall₂ (fun j j' => ∃ found report, (r.setting j).scan pattern amount = .ok found ∧
        r.Rewrites number parts found j j' report) before replaced ∧
      s' = { r.session with inputs := replaced ++ i :: after }
  | .use _ => r.session.OnlySaves xs s'
  | _ => False

/-! ## Flushes -/

namespace Session

variable {s s' : Session} {xs ys : List Exchange} {failure : Option RunError}

theorem onlySaves_of_flush (h : (s.flush : Dialogue _).ComesTo xs (s', failure)) :
    s.OnlySaves xs s' := by
  obtain ⟨before, after, tail, hinputs, rfl, rfl, hend⟩ := flush_comesTo h
  refine ⟨?_, rfl, fun target contents answer hx => ?_, _, rfl, fun target htarget => ?_⟩
  · rw [hinputs, List.map_append, List.map_append, List.map_map]
    congr 1
    exact List.map_congr_left fun i _ => i.clean_saved
  · rw [hinputs]
    rcases List.mem_append.mp hx with hx | hx
    · obtain ⟨file, hfile, heq⟩ := List.mem_map.mp hx
      obtain ⟨i, hi, hpending⟩ := List.mem_filterMap.mp hfile
      cases heq
      exact ⟨i, List.mem_append_left _ hi, hpending⟩
    · cases hend with
      | complete => cases hx
      | @unwritable i target contents rest fault hpending =>
        cases List.mem_singleton.mp hx
        exact ⟨i, List.mem_append_right _ List.mem_cons_self, hpending⟩
  · obtain ⟨file, hfile, rfl⟩ := List.mem_map.mp htarget
    exact ⟨file.2, List.mem_append_left _ (List.mem_map.mpr ⟨file, hfile, rfl⟩)⟩

/-- Reading files besides changes nothing. -/
theorem OnlySaves.append_reads (h : s.OnlySaves xs s')
    (hreads : ∀ x ∈ ys, ∃ path answer, x = .read path answer) : s.OnlySaves (xs ++ ys) s' := by
  refine ⟨h.inputs, h.rest, fun target contents answer hx => ?_, ?_⟩
  · rcases List.mem_append.mp hx with hx | hx
    · exact h.writes target contents answer hx
    · obtain ⟨path, answer, heq⟩ := hreads _ hx
      cases heq
  · obtain ⟨targets, hwritten, htargets⟩ := h.written
    refine ⟨targets, hwritten, fun target htarget => ?_⟩
    obtain ⟨contents, hx⟩ := htargets target htarget
    exact ⟨contents, List.mem_append_left _ hx⟩

end Session

/-! ## Statements -/

namespace Run

variable {r r' : Run} {number : Nat} {amount : Amount} {pattern : Chain} {parts : List Expr}
  {i i' : Input} {report : Report} {xs : List Exchange} {e : RunError}

theorem rewrites_of_replaceIn
    (h : r.replaceIn number amount pattern parts i = .ok (i', report)) :
    ∃ found, (r.setting i).scan pattern amount = .ok found ∧
      r.Rewrites number parts found i i' report := by
  cases hscan : (r.setting i).scan pattern amount with
  | error cause =>
    rw [replaceIn_eq_error_iff.mpr ⟨cause, hscan, rfl⟩] at h
    cases h
  | ok found =>
    obtain ⟨j, report', hreplace, hrewrites⟩ := replaceIn_rewrites number parts hscan
    cases hreplace.symm.trans h
    exact ⟨found, rfl, hrewrites⟩

theorem find_stops (h : r.find number amount pattern = (r', some e)) :
    r.StopsWith number [] r'.session e (.find amount pattern) := by
  obtain ⟨⟨before, i, after, hinputs, hbefore, herror⟩, reports, rfl⟩ := find_error h
  refine ⟨rfl, rfl, before, i, after, hinputs, fun j hj => ?_, findIn_eq_error_iff.mp herror⟩
  obtain ⟨report, hreport⟩ := hbefore j hj
  obtain ⟨found, hscan, -⟩ := findIn_eq_ok_iff.mp hreport
  exact ⟨found, hscan⟩

theorem replace_stops (h : r.replace number amount pattern parts = (r', some e)) :
    r.StopsWith number [] r'.session e (.replace amount pattern parts) := by
  obtain ⟨before, i, after, block, reports, hinputs, hblock, herror, rfl⟩ := replace_error h
  have hrewrites : List.Forall₂ (fun j j' => ∃ found report,
      (r.setting j).scan pattern amount = .ok found ∧ r.Rewrites number parts found j j' report)
      before (block.map Prod.fst) := by
    refine List.forall₂_map_right_iff.mpr (hblock.imp fun j outcome houtcome => ?_)
    obtain ⟨found, hscan, hrewrites⟩ := rewrites_of_replaceIn houtcome
    exact ⟨found, outcome.2, hscan, hrewrites⟩
  refine ⟨rfl, before, i, after, block.map Prod.fst, ⟨hinputs, fun j hj => ?_,
    replaceIn_eq_error_iff.mp herror⟩, hrewrites, rfl⟩
  obtain ⟨k, hk⟩ := List.getElem?_of_mem hj
  obtain ⟨j', -, found, report, hscan, -⟩ := hrewrites.exists_getElem? hk
  exact ⟨found, hscan⟩

theorem use_stops {paths : List String}
    (h : (r.use paths : Dialogue _).ComesTo xs (r', some e)) :
    r.StopsWith number xs r'.session e (.use paths) := by
  obtain ⟨ys, s, flushed, zs, hflush, rfl, hend⟩ := use_comesTo h
  have hsaves := Session.onlySaves_of_flush hflush
  cases hend with
  | unwritten =>
    rw [List.append_nil]
    exact hsaves
  | unreadable files path fault =>
    refine hsaves.append_reads fun x hx => ?_
    rcases List.mem_append.mp hx with hx | hx
    · obtain ⟨file, -, rfl⟩ := List.mem_map.mp hx
      exact ⟨_, _, rfl⟩
    · cases List.mem_singleton.mp hx
      exact ⟨_, _, rfl⟩

theorem statement_stops {t : Statement} (hsingle : t.IsSingle)
    (h : (statement number t r : Dialogue _).ComesTo xs (r', some e)) :
    r.StopsWith number xs r'.session e t := by
  cases t with
  | find amount pattern =>
    obtain ⟨rfl, herror⟩ := Dialogue.comesTo_pure.mp h
    exact find_stops herror.symm
  | replace amount pattern parts =>
    obtain ⟨rfl, herror⟩ := Dialogue.comesTo_pure.mp h
    exact replace_stops herror.symm
  | use paths => exact use_stops h
  | «repeat» n body => cases hsingle
  | setVariable name value =>
    obtain ⟨-, herror⟩ := Dialogue.comesTo_pure.mp h
    cases herror
  | setSubroutine name pattern =>
    obtain ⟨-, herror⟩ := Dialogue.comesTo_pure.mp h
    cases herror

/-! ## Statements in order -/

/-- A sequence fails in one statement, once all before it have been run completely. -/
theorem sequence_error {list : List (Nat × Statement)}
    (h : (sequence list r : Dialogue _).ComesTo xs (r', some e)) :
    ∃ before number t after ys r₁ zs, list = before ++ (number, t) :: after ∧
      (sequence before r : Dialogue _).ComesTo ys (r₁, none) ∧
      (statement number t r₁ : Dialogue _).ComesTo zs (r', some e) ∧ xs = ys ++ zs := by
  induction list generalizing r xs with
  | nil =>
    obtain ⟨-, hok⟩ := Dialogue.comesTo_pure.mp h
    cases hok
  | cons p rest ih =>
    obtain ⟨number, t⟩ := p
    obtain ⟨e', hfirst, heq⟩ | ⟨ys, r₁, zs, hfirst, hrest, rfl⟩ := sequence_cons_comesTo h
    · cases heq
      exact ⟨[], number, t, rest, [], r, xs, rfl, .done _, hfirst, rfl⟩
    · obtain ⟨before, k, t', after, ws, r₂, vs, rfl, hbefore, hfail, rfl⟩ := ih hrest
      refine ⟨(number, t) :: before, k, t', after, ys ++ ws, r₂, vs, rfl, ?_, hfail,
        (List.append_assoc ..).symm⟩
      exact Dialogue.comesTo_bind.mpr ⟨ys, (r₁, none), ws, hfirst, hbefore, rfl⟩

end Run

/-- A program that fails has run all statements before the one that fails, of which it has done
what can be done, or it has run all statements and fails when it writes what they have replaced. -/
theorem failing_run_stops_cleanly (s s' : Session) (program : Program) (xs : List Exchange)
    (e : RunError) (h : (s.execute program : Dialogue _).ComesTo xs (s', .error e)) :
    (∃ before number t after ys r zs, program.unrolled = before ++ (number, t) :: after ∧
      (Run.sequence before { session := s } : Dialogue _).ComesTo ys (r, none) ∧
      xs = ys ++ zs ∧ r.StopsWith number zs s' e t) ∨
    ∃ ys r zs, (Run.sequence program.unrolled { session := s } : Dialogue _).ComesTo ys (r, none) ∧
      (r.session.flush : Dialogue _).ComesTo zs (s', some e) ∧ xs = ys ++ zs ∧
      r.session.OnlySaves zs s' := by
  obtain ⟨ys, r, failure, zs, hrun, rfl, hend⟩ := Session.execute_comesTo h
  cases hend with
  | stopped =>
    obtain ⟨before, number, t, after, ys, r₁, zs, hunrolled, hbefore, hfail, rfl⟩ :=
      Run.sequence_error hrun
    have hmem : (number, t) ∈ program.unrolled := by
      rw [hunrolled]
      exact List.mem_append_right _ List.mem_cons_self
    exact .inl ⟨before, number, t, after, ys, r₁, zs, hunrolled, hbefore, List.append_nil _,
      Run.statement_stops (Program.isSingle_of_mem_unrolled hmem) hfail⟩
  | unwritten e hflush =>
    exact .inr ⟨ys, r, zs, hrun, hflush, rfl, Session.onlySaves_of_flush hflush⟩

theorem second_input_stops_run :
    let s : Session :=
      { limits := { steps := 4 }
        inputs := [.ofText "first" "b", .ofText "second" "aa", .ofText "third" "b"] }
    let program : Program :=
      ⟨[.«repeat» 2 (.setVariable "x" (.text "y")),
        .replace .all (.last (.or (.literal [98] false)
          (.group (.cons (.literal [97] false) (.last (.literal [97] false)))))) [.text "c"],
        .setVariable "x" (.text "z")]⟩
    ∃ s' e, (s.execute program : Dialogue _).ComesTo [] (s', .error e) ∧
      s'.inputs.map (·.contents) = ["c".toUTF8, "aa".toUTF8, "b".toUTF8] ∧
      s'.global? "x" = some (.text "y") ∧
      ∃ before number t after r, program.unrolled = before ++ (number, t) :: after ∧
        (Run.sequence before { session := s } : Dialogue _).ComesTo [] (r, none) ∧
        r.StopsWith number [] s' e t := by
  intro s program
  have hrun : ((s.execute program : Dialogue _).follow? []).map (fun (s', outcome) =>
      (outcome.toOption.isSome, s'.inputs.map (·.contents), s'.global? "x")) =
      some (false, ["c".toUTF8, "aa".toUTF8, "b".toUTF8], some (.text "y")) := by
    simp only [s, program, Session.execute, Run.statements, Run.statement, Run.times, Run.replace,
      Run.setVariable, Run.replaceAll, Run.replaceIn, Match.withReplacement_text, pure_bind]
    cbv
  obtain ⟨⟨s', outcome⟩, hfollow, hseen⟩ := Option.map_eq_some_iff.mp hrun
  obtain ⟨hfails, hcontents, hglobal⟩ := by simpa only [Prod.mk.injEq] using hseen
  cases outcome with
  | ok reports => cases hfails
  | error e =>
    have hcomes := Dialogue.follow?_eq_some_iff.mp hfollow
    refine ⟨s', e, hcomes, hcontents, hglobal, ?_⟩
    rcases failing_run_stops_cleanly s s' program [] e hcomes with
      ⟨before, number, t, after, ys, r, zs, hunrolled, hbefore, hxs, hstops⟩ |
      ⟨ys, r, zs, -, hflush, hxs, -⟩
    all_goals obtain ⟨rfl, rfl⟩ := List.append_eq_nil_iff.mp hxs.symm
    · exact ⟨before, number, t, after, r, hunrolled, hbefore, hstops⟩
    · obtain ⟨before, rest, tail, -, -, hxs, hend⟩ := Session.flush_comesTo hflush
      cases hend
      simp at hxs

end WordPattern
