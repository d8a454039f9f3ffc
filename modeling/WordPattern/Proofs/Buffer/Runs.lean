import Mathlib
import WordPattern.Buffer.Operation
import WordPattern.Proofs.Text.Bytes

/-!
# Runs of operations on buffers

A kind of buffer simulates lists of bytes with a cursor if each operation comes to what it comes to
on the list. Then so does every run of operations on several buffers, and what holds of lists at
every time holds of the buffers.
-/

namespace WordPattern.Buffer

variable {β : Type} {act : Performer β} {buffers last : List β} {answers : List Answer}

/-! ## Buffers put back -/

theorem getElem?_putBack_self {i : Nat} {b : β} (e : Effect β) (hb : buffers[i]? = some b) :
    (e.putBack i buffers)[i]? = some e.buffer := by
  have hi : i < buffers.length := (List.getElem?_eq_some_iff.mp hb).1
  rw [Effect.putBack, List.getElem?_append_left (by simpa using hi), List.getElem?_set_self hi]

theorem getElem?_putBack_ne {i j : Nat} {b : β} (e : Effect β) (hij : i ≠ j)
    (hb : buffers[j]? = some b) : (e.putBack i buffers)[j]? = some b := by
  have hj : j < buffers.length := (List.getElem?_eq_some_iff.mp hb).1
  rw [Effect.putBack, List.getElem?_append_left (by simpa using hj), List.getElem?_set_ne hij, hb]

theorem set_of_getElem? {i : Nat} {b : β} (hb : buffers[i]? = some b) :
    buffers.set i b = buffers := by
  obtain ⟨hi, rfl⟩ := List.getElem?_eq_some_iff.mp hb
  exact List.set_getElem_self hi

theorem map_putBack {α : Type} (f : α → β) (e : Effect α) (i : Nat) (buffers : List α) :
    (e.putBack i buffers).map f = (e.map f).putBack i (buffers.map f) := by
  rw [Effect.putBack, List.map_append, List.map_set]
  cases h : e.made <;> simp [Effect.putBack, Effect.map, h]

/-! ## Runs -/

theorem run_cons {r : Request} {rest : List Request} {b : β} {e : Effect β}
    (hb : buffers[r.index]? = some b) (he : act b r.operation = some e) :
    run act (r :: rest) buffers =
      (run act rest (e.putBack r.index buffers)).map fun x => (e.answer :: x.1, x.2) := by
  rw [run, hb, Option.bind_eq_bind, Option.bind_some, he, Option.bind_eq_bind, Option.bind_some]
  cases run act rest (e.putBack r.index buffers) <;> rfl

/-- How a run begins. -/
theorem run_cons_eq_some {r : Request} {rest : List Request}
    (h : run act (r :: rest) buffers = some (answers, last)) :
    ∃ b e more, buffers[r.index]? = some b ∧ act b r.operation = some e ∧
      run act rest (e.putBack r.index buffers) = some (more, last) ∧
      answers = e.answer :: more := by
  cases hb : buffers[r.index]? with
  | none => simp [run, hb] at h
  | some b =>
    cases he : act b r.operation with
    | none => simp [run, hb, he] at h
    | some e =>
      rw [run_cons hb he, Option.map_eq_some_iff] at h
      obtain ⟨⟨more, final⟩, hrest, heq⟩ := h
      cases heq
      exact ⟨b, e, more, rfl, he, hrest, rfl⟩

/-- The requests to one of several buffers come to the same when they are made to it alone. -/
theorem run_alone {requests : List Request} {i : Nat} {b : β} {own : List β}
    (h : run act requests buffers = some (answers, last)) (hb : buffers[i]? = some b)
    (hown : own[0]? = some b) :
    ∃ final, run act (alone i requests) own = some (answersOf i requests answers, final) ∧
      final[0]? = last[i]? := by
  induction requests generalizing buffers answers b own with
  | nil =>
    cases h
    exact ⟨own, rfl, by rw [hown, hb]⟩
  | cons r rest ih =>
    obtain ⟨c, e, more, hc, he, hrest, rfl⟩ := run_cons_eq_some h
    -- a request to another buffer is left out and gives no answer
    by_cases hr : r.index = i
    · subst hr
      obtain rfl : c = b := Option.some.inj (hc.symm.trans hb)
      obtain ⟨final, hfinal, hlast⟩ := ih hrest (getElem?_putBack_self e hb)
        (getElem?_putBack_self (i := 0) e hown)
      have halone : alone r.index (r :: rest) = ⟨0, r.operation⟩ :: alone r.index rest := by
        simp [alone]
      refine ⟨final, ?_, hlast⟩
      rw [halone, run_cons (r := ⟨0, r.operation⟩) hown he, hfinal]
      simp [answersOf]
    · obtain ⟨final, hfinal, hlast⟩ := ih hrest (getElem?_putBack_ne e hr hb) hown
      exact ⟨final, by simpa [alone, answersOf, hr] using hfinal, hlast⟩

/-! ## Lists with a cursor -/

namespace Plain

/-- The cursor lies in the list, whose length is a word. -/
structure Fits (p : Plain) : Prop where
  position_le : p.position ≤ p.bytes.length
  length_lt : p.bytes.length < UInt64.size

variable {p : Plain} {o : Operation} {e : Effect Plain} {lists final : List Plain} {i : Nat}

theorem perform?_of_allowed (h : o.isAllowed p.bytes.length p.position = true) :
    p.perform? o = some (p.perform o) := if_pos h

theorem perform?_demand {o : Operation} {demand : Prop} [Decidable demand]
    (h : o.isAllowed p.bytes.length p.position = decide demand) :
    p.perform? o = if demand then some (p.perform o) else none := by
  rw [perform?, h]
  exact if_congr decide_eq_true_iff rfl rfl

theorem length_take_ahead (p : Plain) (length : Nat) :
    (p.ahead.take length).length = min length (p.bytes.length - p.position) := by
  rw [ahead, List.length_take, List.length_drop]

theorem Fits.moveTo (h : p.Fits) {place : Nat} (hplace : place ≤ p.bytes.length) :
    (p.moveTo place).Fits := ⟨hplace, h.length_lt⟩

theorem Fits.forward (h : p.Fits) (length : Nat) :
    (p.moveTo (p.position + (p.ahead.take length).length)).Fits := by
  have hle := h.position_le
  rw [length_take_ahead]
  exact h.moveTo (by omega)

/-- An operation keeps the cursor in its list, and makes lists with cursors in them. -/
theorem Fits.after (h : p.Fits) (he : p.perform? o = some e) :
    e.buffer.Fits ∧ ∀ q ∈ e.made, q.Fits := by
  obtain ⟨hallowed, rfl⟩ : o.isAllowed p.bytes.length p.position = true ∧ p.perform o = e := by
    simpa [perform?] using he
  cases o with
  | readByte => exact ⟨h.forward 1, by simp [perform]⟩
  | read length => exact ⟨h.forward length.toNat, by simp [perform]⟩
  | unread length => exact ⟨h.moveTo ((Nat.sub_le ..).trans h.position_le), by simp [perform]⟩
  | seek place => exact ⟨h.moveTo (of_decide_eq_true hallowed), by simp [perform]⟩
  | rewindTo place =>
    have hle : place.toNat ≤ p.position := of_decide_eq_true hallowed
    exact ⟨h.moveTo (hle.trans h.position_le), by simp [perform]⟩
  | withContents contents =>
    refine ⟨h, ?_⟩
    rintro q ⟨⟩
    exact ⟨Nat.zero_le _, by simpa using contents.size_lt⟩
  | rewound =>
    refine ⟨h, ?_⟩
    rintro q ⟨⟩
    exact h.moveTo (Nat.zero_le _)
  | clone =>
    refine ⟨h, ?_⟩
    rintro q ⟨⟩
    exact h
  | _ => exact ⟨h, by simp [perform]⟩

theorem Fits.putBack (hfits : ∀ p ∈ lists, p.Fits) (hbuffer : e.buffer.Fits)
    (hmade : ∀ q ∈ e.made, q.Fits) (i : Nat) : ∀ p ∈ e.putBack i lists, p.Fits := by
  intro p hp
  rcases List.mem_append.mp hp with hp | hp
  · rcases List.mem_or_eq_of_mem_set hp with hp | rfl
    · exact hfits p hp
    · exact hbuffer
  · exact hmade p (by simpa using hp)

/-- A run keeps all cursors in their lists. -/
theorem fits_of_run {requests : List Request} (hfits : ∀ p ∈ lists, p.Fits)
    (h : run perform? requests lists = some (answers, final)) : ∀ p ∈ final, p.Fits := by
  induction requests generalizing lists answers with
  | nil =>
    cases h
    exact hfits
  | cons r rest ih =>
    obtain ⟨p, e, more, hp, he, hrest, -⟩ := run_cons_eq_some h
    obtain ⟨hbuffer, hmade⟩ := (hfits p (List.mem_of_getElem? hp)).after he
    exact ih (Fits.putBack hfits hbuffer hmade r.index) hrest

/-- What has been read is taken back. -/
theorem run_read_unread (hp : lists[i]? = some p) (hfits : p.Fits) (length : UInt64) :
    ∃ (bytes : List UInt8) (back : UInt64), back.toNat = bytes.length ∧
      run perform? [⟨i, .read length⟩, ⟨i, .unread back⟩] lists =
        some ([.bytes bytes, .nothing], lists) := by
  have hlt : (p.ahead.take length.toNat).length < UInt64.size := by
    have := hfits.length_lt
    rw [length_take_ahead]
    omega
  have hback := UInt64.toNat_ofNat_of_lt' hlt
  have hread := getElem?_putBack_self (p.perform (.read length)) hp
  have hunread : (p.perform (.read length)).buffer.perform
      (.unread (.ofNat (p.ahead.take length.toNat).length)) = { buffer := p } := by
    simp only [perform, moveTo, hback, Nat.add_sub_cancel]
  refine ⟨_, _, hback, ?_⟩
  rw [run_cons (r := ⟨i, .read length⟩) hp (perform?_of_allowed rfl),
    run_cons (r := ⟨i, .unread _⟩) hread (perform?_of_allowed ?allowed), hunread]
  case allowed =>
    refine decide_eq_true ?_
    rw [hback]
    exact Nat.le_add_left ..
  simp [run, Effect.putBack, perform, set_of_getElem? hp]

theorem run_clone (hp : lists[i]? = some p) :
    run perform? [⟨i, .clone⟩] lists = some ([.nothing], lists ++ [p]) := by
  rw [run_cons (r := ⟨i, .clone⟩) hp (perform?_of_allowed rfl)]
  simp [run, Effect.putBack, perform, set_of_getElem? hp]

theorem run_withContents (hp : lists[i]? = some p) (contents : Contents) :
    run perform? [⟨i, .withContents contents⟩, ⟨lists.length, .toBytes⟩] lists =
      some ([.nothing, .bytes contents.bytes.toList], lists ++ [⟨contents.bytes.toList, 0⟩]) := by
  have hfresh : ((p.perform (.withContents contents)).putBack i lists)[lists.length]? =
      some ⟨contents.bytes.toList, 0⟩ := by
    simp [Effect.putBack, perform]
  rw [run_cons (r := ⟨i, .withContents contents⟩) hp (perform?_of_allowed rfl),
    run_cons (r := ⟨lists.length, .toBytes⟩) hfresh (perform?_of_allowed rfl)]
  simp [run, Effect.putBack, perform, set_of_getElem? hp]

end Plain

/-! ## Simulation -/

/-- Every operation comes to what it comes to on the list that a buffer stands for, and goes wrong
where that is not allowed. -/
def Simulates (act : Performer β) (plain : β → Plain) : Prop :=
  ∀ b o, (plain b).Fits → (act b o).map (Effect.map plain) = (plain b).perform? o

namespace Simulates

variable {plain : β → Plain} {requests : List Request} {lists : List Plain}

/-- Runs come to the same as on lists. -/
theorem run_map (h : Simulates act plain) (hfits : ∀ p ∈ buffers.map plain, p.Fits) :
    (run act requests buffers).map (Prod.map id (List.map plain)) =
      run Plain.perform? requests (buffers.map plain) := by
  induction requests generalizing buffers with
  | nil => rfl
  | cons r rest ih =>
    cases hb : buffers[r.index]? with
    | none => simp [run, hb]
    | some b =>
      have hp : (buffers.map plain)[r.index]? = some (plain b) := by rw [List.getElem?_map, hb]; rfl
      have hfit := hfits _ (List.mem_of_getElem? hp)
      have hsame := h b r.operation hfit
      cases he : act b r.operation with
      | none =>
        rw [he, Option.map_none] at hsame
        simp [run, hb, he, ← hsame]
      | some e =>
        rw [he, Option.map_some] at hsame
        obtain ⟨hbuffer, hmade⟩ := hfit.after hsame.symm
        have hnext := Plain.Fits.putBack hfits hbuffer hmade r.index
        rw [← map_putBack] at hnext
        rw [run_cons hb he, run_cons hp hsame.symm, ← map_putBack, ← ih hnext]
        cases run act rest (e.putBack r.index buffers) <;> rfl

theorem run_of_plain (h : Simulates act plain) (hfits : ∀ p ∈ buffers.map plain, p.Fits)
    (hrun : run Plain.perform? requests (buffers.map plain) = some (answers, lists)) :
    ∃ last, run act requests buffers = some (answers, last) ∧ last.map plain = lists := by
  rw [← h.run_map hfits, Option.map_eq_some_iff] at hrun
  obtain ⟨⟨given, last⟩, hlast, heq⟩ := hrun
  cases heq
  exact ⟨last, hlast, rfl⟩

theorem orderly (h : Simulates act plain) (hfits : ∀ p ∈ buffers.map plain, p.Fits) :
    Orderly act plain buffers := by
  have hplain {i : Nat} {b : β} (hb : buffers[i]? = some b) :
      (buffers.map plain)[i]? = some (plain b) := by rw [List.getElem?_map, hb]; rfl
  refine ⟨?_, ?_, ?_, ?_, ?_⟩
  · intro b hb
    exact (hfits _ (List.mem_map_of_mem hb)).position_le
  · intro i hi length
    have hp := hplain (List.getElem?_eq_getElem hi)
    obtain ⟨bytes, back, hback, hrun⟩ :=
      Plain.run_read_unread hp (hfits _ (List.mem_of_getElem? hp)) length
    obtain ⟨last, hlast, hmap⟩ := h.run_of_plain hfits hrun
    exact ⟨bytes, back, last, hback, hlast, hmap⟩
  · intro i b hb
    exact h.run_of_plain hfits (Plain.run_clone (hplain hb))
  · intro i b requests answers last hb hrun
    exact run_alone hrun hb rfl
  · intro i hi contents
    have hrun := Plain.run_withContents (hplain (List.getElem?_eq_getElem hi)) contents
    rw [List.length_map] at hrun
    obtain ⟨last, hlast, -⟩ := h.run_of_plain hfits hrun
    exact ⟨last, hlast⟩

/-- Whatever requests to a list with a cursor come to, they come to it with a buffer that stands for
the list. -/
theorem comesTo (h : Simulates act plain) {start : β} (hfits : (plain start).Fits)
    (hrun : run Plain.perform? requests [plain start] = some (answers, lists)) :
    ComesTo act plain start requests answers lists := by
  have hstart : ∀ p ∈ [start].map plain, p.Fits := by simpa using hfits
  obtain ⟨last, hlast, hmap⟩ := h.run_of_plain hstart hrun
  refine ⟨last, hlast, hmap, h.orderly ?_⟩
  rw [hmap]
  exact Plain.fits_of_run hstart hrun

end Simulates

end WordPattern.Buffer
