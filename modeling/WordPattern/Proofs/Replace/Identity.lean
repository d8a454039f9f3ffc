import WordPattern.Proofs.Replace.Spans
import WordPattern.Proofs.Text.Lossy

/-!
# Matches that replace themselves

A match that is replaced with its own text is written as that text is encoded. Where its bytes are
no UTF-8, the text is not what they encode, and the contents change.
-/

namespace WordPattern

namespace Splice

variable {contents : ByteArray} {text : Match → String} {copied : Nat} {found : List Match}

/-- The contents around the first of some spans. -/
theorem extract_around {m : Match} (hstart : copied ≤ m.offset)
    (hend : m.offset + m.length ≤ contents.size) :
    contents.extract copied contents.size =
      contents.extract copied m.offset ++ contents.extract m.offset (m.offset + m.length) ++
        contents.extract (m.offset + m.length) contents.size := by
  rw [← ByteArray.extract_eq_extract_append_extract m.offset hstart (Nat.le_add_right _ _),
    ← ByteArray.extract_eq_extract_append_extract _ (Nat.le_add_right_of_le hstart) hend]

theorem size_le_pieces (hcopied : copied ≤ contents.size) (h : Unclamped contents copied found)
    (hlong : ∀ m ∈ found,
      (contents.extract m.offset (m.offset + m.length)).size ≤ (text m).toUTF8.size) :
    (contents.extract copied contents.size).size ≤ (pieces contents text copied found).size := by
  induction found generalizing copied with
  | nil => exact Nat.le_refl _
  | cons m rest ih =>
    obtain ⟨hstart, hend, hrest⟩ := (unclamped_cons hcopied).mp h
    obtain ⟨hfirst, hlong⟩ := List.forall_mem_cons.mp hlong
    have hsize := ih hend hrest hlong
    rw [extract_around hstart hend, pieces]
    simp only [ByteArray.size_append]
    omega

theorem pieces_eq_iff (hcopied : copied ≤ contents.size) (h : Unclamped contents copied found)
    (hlong : ∀ m ∈ found,
      (contents.extract m.offset (m.offset + m.length)).size ≤ (text m).toUTF8.size) :
    pieces contents text copied found = contents.extract copied contents.size ↔
      ∀ m ∈ found, (text m).toUTF8 = contents.extract m.offset (m.offset + m.length) := by
  induction found generalizing copied with
  | nil => simp [pieces]
  | cons m rest ih =>
    obtain ⟨hstart, hend, hrest⟩ := (unclamped_cons hcopied).mp h
    obtain ⟨hfirst, hlong⟩ := List.forall_mem_cons.mp hlong
    have hsize := size_le_pieces hend hrest hlong
    rw [List.forall_mem_cons, ← ih hend hrest hlong, extract_around hstart hend, pieces,
      ByteArray.append_assoc, ByteArray.append_assoc, ByteArray.append_right_inj]
    constructor
    · -- Neither the text nor what follows is shorter than before, so both are as long as before.
      intro heq
      have htotal := congrArg ByteArray.size heq
      simp only [ByteArray.size_append] at htotal
      exact (ByteArray.append_eq_append_iff_of_size_eq_left (by omega)).mp heq
    · rintro ⟨htext, hpieces⟩
      rw [htext, hpieces]

end Splice

theorem Match.text_match (globals : Bindings Value) (m : Match) :
    m.text globals [.variableValue "match"] = m.value := by
  simp [Match.text, Expr.evalText, Expr.eval, Expr.evalWithin, Scope.lookup?_match, Value.display,
    String.join]

namespace Run

variable {r : Run} {statement : Nat} {amount : Amount} {pattern : Chain} {parts : List Expr}
  {found : List Match} {i i' : Input} {report : Report}

/-- Replacing succeeds exactly if no scan is interrupted. -/
theorem replaceAll_ok_iff (inputs : List Input) (reports : List Report) :
    (r.replaceAll statement amount pattern parts reports inputs).2.2 = none ↔
      ∀ e ∈ inputs, ∃ found, (r.setting e).scan pattern amount = .ok found := by
  induction inputs generalizing reports with
  | nil => simp [replaceAll]
  | cons i rest ih =>
    rw [replaceAll, replaceIn, List.forall_mem_cons]
    cases hscan : (r.setting i).scan pattern amount with
    | error e => simp
    | ok found => simpa using ih _

theorem Rewrites.restores_iff
    (h : r.Rewrites statement [.variableValue "match"] found i i' report)
    (hscan : (r.setting i).scan pattern amount = .ok found) :
    i'.contents = i.contents ↔
      ∀ m ∈ found, (i.contents.extract m.offset (m.offset + m.length)).IsValidUTF8 := by
  have hvalue : ∀ m ∈ found, m.text r.session.globals [.variableValue "match"] =
      Text.decode (i.contents.extract m.offset (m.offset + m.length)) := fun m hm =>
    (m.text_match _).trans (Setting.scan_stands (r.fits_setting i) hscan m hm).value
  have hwhole : i.contents = i.contents.extract 0 i.contents.size := by simp
  have hlong : ∀ m ∈ found, (i.contents.extract m.offset (m.offset + m.length)).size ≤
      (m.text r.session.globals [.variableValue "match"]).toUTF8.size := by
    intro m hm
    rw [hvalue m hm]
    exact Text.size_le_decode _
  have hpieces := Splice.pieces_eq_iff (Nat.zero_le _) h.unclamped hlong
  rw [← hwhole, ← h.contents] at hpieces
  refine hpieces.trans (forall₂_congr fun m hm => ?_)
  rw [hvalue m hm]
  exact Text.toUTF8_decode_iff

end Run

/-- Replacing matches with themselves restores an input exactly if each of them is UTF-8. -/
theorem matches_restore_iff_valid (r : Run) (statement : Nat) (amount : Amount) (pattern : Chain)
    (hok : (r.replace statement amount pattern [.variableValue "match"]).2 = none) (k : Nat)
    (i : Input) (hi : r.session.inputs[k]? = some i) :
    ∃ found i', (r.setting i).scan pattern amount = .ok found ∧
      (r.replace statement amount pattern [.variableValue "match"]).1.session.inputs[k]? =
        some i' ∧
      (i'.contents = i.contents ↔
        ∀ m ∈ found, (i.contents.extract m.offset (m.offset + m.length)).IsValidUTF8) := by
  have hscans := (Run.replaceAll_ok_iff r.session.inputs r.reports).mp hok
  obtain ⟨found, hscan⟩ := hscans i (List.mem_of_getElem? hi)
  obtain ⟨i', report, hin, hrewrites⟩ :=
    Run.replaceIn_rewrites statement [.variableValue "match"] hscan
  obtain ⟨hinput, -⟩ := Run.replaceAll_at hin r.session.inputs r.reports k hi
    fun j _ e he => hscans e (List.mem_of_getElem? he)
  exact ⟨found, i', hscan, hinput, hrewrites.restores_iff hscan⟩

theorem split_character_is_not_restored :
    let i := Input.ofText "split" "é"
    let r : Run := { session := { inputs := [i] } }
    let pattern := Chain.last (.byteClass .any false)
    (r.replace 1 .all pattern [.variableValue "match"]).2 = none ∧
      r.session.inputs[0]? = some i ∧
      ∃ i', (r.replace 1 .all pattern [.variableValue "match"]).1.session.inputs[0]? = some i' ∧
        i'.contents ≠ i.contents := by
  intro i r pattern
  have hscan : (r.setting i).scan pattern .all = .ok
      [⟨0, 1, Text.decode ⟨#[0xc3]⟩, .empty, 1, 1, none⟩,
        ⟨1, 1, Text.decode ⟨#[0xa9]⟩, .empty, 1, 2, none⟩] := by cbv
  have hok : (r.replace 1 .all pattern [.variableValue "match"]).2 = none :=
    (Run.replaceAll_ok_iff [i] []).mpr (List.forall_mem_singleton.mpr ⟨_, hscan⟩)
  obtain ⟨found, i', hfound, hinput, hrestores⟩ :=
    matches_restore_iff_valid r 1 .all pattern hok 0 i rfl
  cases hscan.symm.trans hfound
  refine ⟨hok, rfl, i', hinput, fun heq => ?_⟩
  -- The first byte of the character is no UTF-8.
  have hvalid := hrestores.mp heq _ List.mem_cons_self
  rw [← ByteArray.validateUTF8_eq_true_iff] at hvalid
  revert hvalid
  decide

end WordPattern
