import WordPattern.Proofs.Scan.Leftmost
import WordPattern.Session.Run

/-!
# Replaced spans

A replacement changes the spans of the matches that are kept and nothing else: what stands between
them is copied byte for byte.
-/

namespace WordPattern

/-! ## Pieces of the contents -/

namespace Splice

/-- The contents from a place on, with a text in the place of each match. -/
def pieces (contents : ByteArray) (text : Match → String) (place : Nat) : List Match → ByteArray
  | [] => contents.extract place contents.size
  | m :: rest =>
    contents.extract place m.offset ++ (text m).toUTF8 ++
      pieces contents text (m.offset + m.length) rest

/-- No span changes when it is brought between its bounds. -/
def Unclamped (contents : ByteArray) (copied : Nat) : List Match → Prop
  | [] => True
  | m :: rest =>
    clamp copied contents.size m.offset = m.offset ∧
      clamp m.offset contents.size (m.offset + m.length) = m.offset + m.length ∧
        Unclamped contents (m.offset + m.length) rest

variable {contents : ByteArray} {copied : Nat} {found : List Match}

theorem clamp_eq_iff {low high n : Nat} (h : low ≤ high) :
    clamp low high n = n ↔ low ≤ n ∧ n ≤ high := by
  unfold clamp
  omega

theorem unclamped_cons {m : Match} {rest : List Match} (hcopied : copied ≤ contents.size) :
    Unclamped contents copied (m :: rest) ↔
      copied ≤ m.offset ∧ m.offset + m.length ≤ contents.size ∧
        Unclamped contents (m.offset + m.length) rest := by
  rw [Unclamped, clamp_eq_iff hcopied]
  constructor
  · rintro ⟨⟨hstart, hin⟩, hend, hrest⟩
    exact ⟨hstart, ((clamp_eq_iff hin).mp hend).2, hrest⟩
  · rintro ⟨hstart, hend, hrest⟩
    have hin := Nat.le_of_add_right_le hend
    exact ⟨⟨hstart, hin⟩, (clamp_eq_iff hin).mpr ⟨Nat.le_add_right _ _, hend⟩, hrest⟩

theorem unclamped_of_pairwise (hcopied : copied ≤ contents.size)
    (hbefore : found.Pairwise Match.Before)
    (hinside : ∀ m ∈ found, copied ≤ m.offset ∧ m.offset + m.length ≤ contents.size) :
    Unclamped contents copied found := by
  induction found generalizing copied with
  | nil => trivial
  | cons m rest ih =>
    obtain ⟨hfirst, hrest⟩ := List.pairwise_cons.mp hbefore
    obtain ⟨⟨hstart, hend⟩, hinside⟩ := List.forall_mem_cons.mp hinside
    refine (unclamped_cons hcopied).mpr ⟨hstart, hend, ?_⟩
    exact ih hend hrest fun n hn => ⟨(hfirst n hn).2, (hinside n hn).2⟩

end Splice

/-! ## What a replacement sees -/

/-- What a replacement knows of its match, by the name it has there. -/
def Match.fact? (m : Match) (name : String) : Option Value :=
  if name = "match" then some (.text m.value)
  else if name = "matchLength" then some (.number (Float.ofNat m.length))
  else if name = "matchNumber" then some (.number (Float.ofNat m.number))
  else if name = "fileOffset" then some (.number (Float.ofNat m.offset))
  else if name = "lineNumber" then some (.number (Float.ofNat m.line))
  else none

theorem Match.get?_frame (m : Match) (name : String) :
    m.frame.get? name = (m.fact? name).or ((m.captures.get? name).map .text) := by
  unfold Match.frame Match.fact?
  simp only [Bindings.get?_insert, Bindings.get?_map]
  by_cases hmatch : name = "match"
  · simp [hmatch]
  by_cases hlength : name = "matchLength"
  · simp [hlength]
  by_cases hnumber : name = "matchNumber"
  · simp [hnumber]
  by_cases hoffset : name = "fileOffset"
  · simp [hoffset]
  by_cases hline : name = "lineNumber"
  · simp [hline]
  simp [hmatch, hlength, hnumber, hoffset, hline]

theorem Scope.lookup?_frame (globals frame : Bindings Value) (name : String) :
    (Scope.mk globals [frame]).lookup? name = (frame.get? name).or (globals.get? name) := by
  unfold Scope.lookup?
  rw [List.findSome?_singleton]
  cases frame.get? name <;> rfl

theorem Scope.lookup?_match (globals : Bindings Value) (m : Match) :
    (Scope.mk globals [m.frame]).lookup? "match" = some (.text m.value) := by
  rw [Scope.lookup?_frame, Match.get?_frame]
  rfl

/-- The text that a match is replaced with. -/
def Match.text (globals : Bindings Value) (parts : List Expr) (m : Match) : String :=
  Expr.evalText ⟨globals, [m.frame]⟩ parts

theorem Splice.run_withReplacement (contents : ByteArray) (copied : Nat) (done : ByteArray)
    (globals : Bindings Value) (parts : List Expr) (m : Match) (rest : List Match) :
    run contents copied done (m.withReplacement globals parts :: rest) =
      run contents (clamp (clamp copied contents.size m.offset) contents.size (m.offset + m.length))
        (done ++ contents.extract copied (clamp copied contents.size m.offset) ++
          (m.text globals parts).toUTF8) rest := rfl

theorem Splice.run_eq_pieces {contents : ByteArray} {copied : Nat} {found : List Match}
    (globals : Bindings Value) (parts : List Expr) (done : ByteArray)
    (h : Unclamped contents copied found) :
    run contents copied done (found.map (·.withReplacement globals parts)) =
      done ++ pieces contents (Match.text globals parts) copied found := by
  induction found generalizing copied done with
  | nil => rfl
  | cons m rest ih =>
    obtain ⟨hstart, hend, hrest⟩ := h
    rw [List.map_cons, run_withReplacement, hstart, hend, ih _ hrest, pieces]
    simp only [ByteArray.append_assoc]

namespace Run

variable {r : Run} {amount : Amount} {pattern : Chain} {found : List Match} {i : Input}

/-! ## One input -/

/-- An input in which the matches found have been replaced, and the report on it. -/
structure Rewrites (r : Run) (statement : Nat) (parts : List Expr) (found : List Match)
    (i i' : Input) (report : Report) : Prop where
  contents : i'.contents =
    Splice.pieces i.contents (Match.text r.session.globals parts) 0 found
  reported : report = ⟨i.name, statement,
    found.map fun m => { m with replacement := some (m.text r.session.globals parts) }⟩
  unclamped : Splice.Unclamped i.contents 0 found
  untouched : found = [] → i' = i
  dirty : found ≠ [] → i'.dirty = true
  source : i'.name = i.name ∧ i'.path = i.path

theorem fits_setting (r : Run) (i : Input) : (r.setting i).Fits := Setting.fits_of rfl

theorem unclamped_of_scan (hscan : (r.setting i).scan pattern amount = .ok found) :
    Splice.Unclamped i.contents 0 found :=
  Splice.unclamped_of_pairwise (Nat.zero_le _) (Setting.scan_pairwise (r.fits_setting i) hscan)
    fun m hm => ⟨Nat.zero_le _, (Setting.scan_stands (r.fits_setting i) hscan m hm).inside⟩

theorem replaceIn_rewrites (statement : Nat) (parts : List Expr)
    (hscan : (r.setting i).scan pattern amount = .ok found) :
    ∃ i' report, r.replaceIn statement amount pattern parts i = .ok (i', report) ∧
      r.Rewrites statement parts found i i' report := by
  have hunclamped := unclamped_of_scan hscan
  have hsplice : splice i.contents (found.map (·.withReplacement r.session.globals parts)) =
      Splice.pieces i.contents (Match.text r.session.globals parts) 0 found := by
    rw [splice, Splice.run_eq_pieces _ _ _ hunclamped, ByteArray.empty_append]
  rw [replaceIn, hscan]
  cases found with
  | nil =>
    refine ⟨i, _, rfl, ?_, rfl, hunclamped, fun _ => rfl, fun h => absurd rfl h, rfl, rfl⟩
    exact (splice_nil _).symm.trans hsplice
  | cons m rest =>
    refine ⟨_, _, rfl, ?_, rfl, hunclamped, fun h => absurd h (List.cons_ne_nil _ _),
      fun _ => rfl, rfl, rfl⟩
    exact (Buffer.bytes_withContents _ _).trans hsplice

/-! ## All inputs -/

theorem replaceAll_reports (r : Run) (statement : Nat) (amount : Amount) (pattern : Chain)
    (parts : List Expr) (inputs : List Input) (reports : List Report) :
    ∃ fresh, (r.replaceAll statement amount pattern parts reports inputs).2.1 =
      fresh ++ reports := by
  induction inputs generalizing reports with
  | nil => exact ⟨[], rfl⟩
  | cons i rest ih =>
    rw [replaceAll]
    split
    · exact ⟨[], rfl⟩
    · rename_i i' report _
      obtain ⟨fresh, hfresh⟩ := ih (report :: reports)
      exact ⟨fresh ++ [report], hfresh.trans (List.append_cons ..)⟩

theorem replaceAll_at {statement : Nat} {parts : List Expr} {i' : Input} {report : Report}
    (hin : r.replaceIn statement amount pattern parts i = .ok (i', report)) (inputs : List Input)
    (reports : List Report) (k : Nat) (hi : inputs[k]? = some i)
    (hbefore : ∀ j < k, ∀ e, inputs[j]? = some e →
      ∃ found, (r.setting e).scan pattern amount = .ok found) :
    (r.replaceAll statement amount pattern parts reports inputs).1[k]? = some i' ∧
      (r.replaceAll statement amount pattern parts reports inputs).2.1.reverse[
        reports.length + k]? = some report := by
  induction inputs generalizing reports k with
  | nil => cases hi
  | cons e rest ih =>
    cases k with
    | zero =>
      cases hi
      rw [replaceAll, hin]
      obtain ⟨fresh, hfresh⟩ :=
        r.replaceAll_reports statement amount pattern parts rest (report :: reports)
      refine ⟨rfl, ?_⟩
      dsimp only
      rw [hfresh]
      simp
    | succ k =>
      obtain ⟨found, hscan⟩ := hbefore 0 (Nat.succ_pos _) e rfl
      obtain ⟨e', report', hfirst, -⟩ := replaceIn_rewrites statement parts hscan
      obtain ⟨hinput, hreport⟩ := ih (report' :: reports) k hi fun j hj e he =>
        hbefore (j + 1) (Nat.succ_lt_succ hj) e he
      rw [replaceAll, hfirst]
      refine ⟨hinput, ?_⟩
      rw [← Nat.add_assoc, Nat.add_right_comm]
      exact hreport

end Run

/-- Replacing rewrites exactly the spans of the matches that are kept. The replacement of a match
is evaluated with what is known of the match, then its captures, then the globals. -/
theorem replace_rewrites_kept_spans (r : Run) (statement : Nat) (amount : Amount)
    (pattern : Chain) (parts : List Expr) (k : Nat) (i : Input) (found : List Match)
    (hi : r.session.inputs[k]? = some i)
    (hbefore : ∀ j < k, ∀ e, r.session.inputs[j]? = some e →
      ∃ found, (r.setting e).scan pattern amount = .ok found)
    (hscan : (r.setting i).scan pattern amount = .ok found) :
    (∃ i' report,
      (r.replace statement amount pattern parts).1.session.inputs[k]? = some i' ∧
      (r.replace statement amount pattern parts).1.reports.reverse[r.reports.length + k]? =
        some report ∧
      r.Rewrites statement parts found i i' report) ∧
    ∀ (m : Match) name, (Scope.mk r.session.globals [m.frame]).lookup? name =
      ((m.fact? name).or ((m.captures.get? name).map .text)).or (r.session.globals.get? name) := by
  obtain ⟨i', report, hin, hrewrites⟩ := Run.replaceIn_rewrites statement parts hscan
  obtain ⟨hinput, hreport⟩ := Run.replaceAll_at hin r.session.inputs r.reports k hi hbefore
  refine ⟨⟨i', report, hinput, hreport, hrewrites⟩, fun m name => ?_⟩
  rw [Scope.lookup?_frame, Match.get?_frame]

theorem digits_are_rewritten :
    let i := Input.ofText "second" "1é2"
    let r : Run := { session := { inputs := [.ofText "first" "x", i] } }
    let pattern := Chain.last (.byteClass .digit false)
    let parts : List Expr := [.text "<", .variableValue "match", .text ">"]
    let found : List Match := [⟨0, 1, "1", .empty, 1, 1, none⟩, ⟨3, 1, "2", .empty, 1, 2, none⟩]
    r.session.inputs[1]? = some i ∧
      (∀ j < 1, ∀ e, r.session.inputs[j]? = some e →
        ∃ found, (r.setting e).scan pattern .all = .ok found) ∧
      (r.setting i).scan pattern .all = .ok found ∧
      ∃ i', (r.replace 1 .all pattern parts).1.session.inputs[1]? = some i' ∧
        i'.contents = "<1>é<2>".toUTF8 ∧ i'.dirty = true := by
  intro i r pattern parts found
  have hbefore : ∀ j < 1, ∀ e, r.session.inputs[j]? = some e →
      ∃ found, (r.setting e).scan pattern .all = .ok found := by
    intro j hj e he
    obtain rfl := Nat.lt_one_iff.mp hj
    cases he
    exact ⟨[], by cbv⟩
  have hscan : (r.setting i).scan pattern .all = .ok found := by cbv
  obtain ⟨⟨i', report, hinput, -, hrewrites⟩, -⟩ :=
    replace_rewrites_kept_spans r 1 .all pattern parts 1 i found rfl hbefore hscan
  have htext : Match.text r.session.globals parts = fun m => "<" ++ m.value ++ ">" := by
    funext m
    simp [parts, Match.text, Expr.evalText, Expr.eval, Expr.evalWithin, Scope.lookup?_match,
      Value.display, String.join]
  refine ⟨rfl, hbefore, hscan, i', hinput, ?_, hrewrites.dirty (by simp [found])⟩
  rw [hrewrites.contents, htext]
  cbv

end WordPattern
