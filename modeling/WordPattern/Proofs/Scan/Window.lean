import WordPattern.Proofs.Scan.Leftmost

/-!
# Amounts as windows

A scan with an amount finds what a scan for all matches finds, and shows a window of it. It stops
once the window is filled, so it may miss an interruption that lies behind.
-/

namespace WordPattern

/-- The part of some matches that an amount keeps: the first ones are dropped, and of the others no
more are left than are wanted. -/
def Amount.window (a : Amount) (found : List Match) : List Match :=
  match a.take with
  | none => found.drop a.skip
  | some most => (found.drop a.skip).take most

/-- A scan for all matches is interrupted once it has found some of them. -/
def Setting.StopsAfter (c : Setting) (pattern : Chain) (found : List Match) (i : Interruption) :
    Prop :=
  ∃ t cause, Scan.Turns c pattern .all {} t ∧ t.position ≤ c.text.size ∧
    (c.attempt pattern t.position).outcome = .cutOff cause ∧ found = t.kept.reverse ∧
      i = ⟨cause, c.limits, t.position⟩

/-! ## Windows of growing lists -/

namespace Amount

variable (a : Amount) (found : List Match) (m : Match)

theorem window_append_singleton :
    a.window (found ++ [m]) =
      if a.retains (found.length + 1) then a.window found ++ [m] else a.window found := by
  obtain ⟨skip, take⟩ := a
  by_cases hskip : skip ≤ found.length
  · have hdrop : (found ++ [m]).drop skip = found.drop skip ++ [m] :=
      List.drop_append_of_le_length hskip
    have hlength : (found.drop skip).length = found.length - skip := List.length_drop
    cases take with
    | none => simp [window, retains, hdrop, Nat.lt_succ_of_le hskip]
    | some most =>
      by_cases hmost : found.length + 1 - skip ≤ most
      · have hall : (found.drop skip).take most = found.drop skip :=
          List.take_of_length_le (by omega)
        have hall' : (found.drop skip ++ [m]).take most = found.drop skip ++ [m] :=
          List.take_of_length_le (by rw [List.length_append, hlength, List.length_singleton]; omega)
        simp [window, retains, hdrop, hall, hall', hmost, Nat.lt_succ_of_le hskip]
      · have htake : (found.drop skip ++ [m]).take most = (found.drop skip).take most :=
          List.take_append_of_le_length (by omega)
        simp [window, retains, hdrop, htake, hmost]
  · have hnone : (found ++ [m]).drop skip = [] :=
      List.drop_eq_nil_of_le (by rw [List.length_append, List.length_singleton]; omega)
    have hnone' : found.drop skip = [] := List.drop_eq_nil_of_le (by omega)
    have hretains : ¬skip < found.length + 1 := by omega
    cases take <;> simp [window, retains, hnone, hnone', hretains]

theorem isFull_window_iff :
    a.isFull (a.window found).length = true ↔
      ∃ most, a.take = some most ∧ (most = 0 ∨ a.skip + most ≤ found.length) := by
  obtain ⟨skip, take⟩ := a
  cases take with
  | none => simp [isFull]
  | some most =>
    simp only [isFull, window, List.length_take, List.length_drop, decide_eq_true_eq,
      Option.some.injEq, exists_eq_left']
    omega

theorem not_retains_of_full (h : a.isFull (a.window found).length = true) :
    a.retains (found.length + 1) = false := by
  obtain ⟨most, htake, hfull⟩ := (a.isFull_window_iff found).mp h
  simp only [retains, htake, Bool.and_eq_false_iff, decide_eq_false_iff_not]
  omega

end Amount

namespace Scan

variable {c : Setting} {pattern : Chain} {amount : Amount} {s s' w : State}

/-! ## Two scans side by side -/

/-- A scan with an amount has kept the window of what a scan for all matches has kept. It stands at
the same place, or it is over and stands at an earlier one. -/
structure Shows (amount : Amount) (s w : State) : Prop where
  kept : w.kept.reverse = amount.window s.kept.reverse
  count : w.count = w.kept.length
  found : s.found = s.kept.length
  place : amount.isFull w.count = true ∨
    w.position = s.position ∧ w.line = s.line ∧ w.found = s.found

theorem Shows.start (amount : Amount) : Shows amount {} {} := by
  refine ⟨?_, rfl, rfl, .inr ⟨rfl, rfl, rfl⟩⟩
  obtain ⟨skip, take⟩ := amount
  cases take <;> simp [Amount.window]

theorem Shows.turn_full (h : Shows amount s w) (hfull : amount.isFull w.count = true)
    (hturn : Turn c pattern .all s s') : Shows amount s' w := by
  cases hturn with
  | missed => exact ⟨h.kept, h.count, h.found, .inl hfull⟩
  | @found finish captures =>
    have hkept := State.record_all c.text s finish captures
    have hretains : amount.retains (s.kept.reverse.length + 1) = false := by
      refine amount.not_retains_of_full _ ?_
      rw [← h.kept, List.length_reverse, ← h.count]
      exact hfull
    refine ⟨?_, h.count, ?_, .inl hfull⟩
    · rw [State.move_kept, hkept, List.reverse_cons, Amount.window_append_singleton, hretains]
      exact h.kept
    · rw [State.move_found, State.record_found, State.move_kept, hkept, h.found]
      rfl

theorem Shows.record (h : Shows amount s w) (hposition : w.position = s.position)
    (hline : w.line = s.line) (hfound : w.found = s.found) (finish : Nat)
    (captures : Bindings String) :
    (w.record amount c.text finish captures).kept.reverse =
        amount.window (s.record .all c.text finish captures).kept.reverse ∧
      (w.record amount c.text finish captures).count =
        (w.record amount c.text finish captures).kept.length := by
  have hsame : w.match c.text finish captures = s.match c.text finish captures := by
    unfold State.match
    rw [hposition, hline, hfound]
  rw [State.record_all, List.reverse_cons, Amount.window_append_singleton, List.length_reverse,
    ← h.found, ← hfound, State.record_kept, State.record_count, hsame, ← h.kept]
  split
  · exact ⟨List.reverse_cons, congrArg (· + 1) h.count⟩
  · exact ⟨rfl, h.count⟩

theorem Shows.turn (h : Shows amount s w) (hturn : Turn c pattern .all s s') :
    ∃ w', Turns c pattern amount w w' ∧ Shows amount s' w' := by
  by_cases hfull : amount.isFull w.count = true
  · -- The scan with the amount is over and waits where it is.
    exact ⟨w, .refl, h.turn_full hfull hturn⟩
  · obtain ⟨hposition, hline, hfound⟩ := h.place.resolve_left hfull
    have hin := (State.not_over_iff.mp hturn.not_over).2
    have hopen : ¬w.Over c amount :=
      State.not_over_iff.mpr ⟨Bool.eq_false_iff.mpr hfull, hposition ▸ hin⟩
    cases hturn with
    | missed _ hmissed =>
      rw [← hposition] at hmissed
      refine ⟨_, .single (.missed hopen hmissed), h.kept, h.count, h.found, .inr ⟨?_, ?_, hfound⟩⟩
      · rw [State.move_position, State.move_position, hposition]
      · unfold State.move
        rw [hposition, hline]
    | @found finish captures _ hmatch =>
      rw [← hposition] at hmatch
      obtain ⟨hkept, hcount⟩ := h.record (c := c) hposition hline hfound finish captures
      have hbehind : w.behind finish = s.behind finish := by
        unfold State.behind
        rw [hposition]
      refine ⟨_, .single (.found hopen hmatch), hkept, hcount, ?_, .inr ⟨?_, ?_, ?_⟩⟩
      · rw [State.move_found, State.record_found, State.move_kept, State.record_all, h.found]
        rfl
      · rw [State.move_position, State.move_position, hbehind]
      · unfold State.move
        simp only [State.record_line, State.record_position]
        rw [hposition, hline, hbehind]
      · rw [State.move_found, State.move_found, State.record_found, State.record_found, hfound]

theorem Turns.shows {t : State} (h : Turns c pattern .all {} t) (amount : Amount) :
    ∃ w, Turns c pattern amount {} w ∧ Shows amount t w := by
  induction h with
  | refl => exact ⟨{}, .refl, .start amount⟩
  | tail _ hturn ih =>
    obtain ⟨w, hturns, hshows⟩ := ih
    obtain ⟨w', hturns', hshows'⟩ := hshows.turn hturn
    exact ⟨w', hturns.trans hturns', hshows'⟩

end Scan

/-! ## The window of a scan -/

theorem Setting.scan_window_of_ok {c : Setting} {pattern : Chain} {found : List Match}
    (amount : Amount) (h : c.scan pattern .all = .ok found) :
    c.scan pattern amount = .ok (amount.window found) := by
  obtain ⟨t, hturns, hover, rfl⟩ := Scan.scan_ok_iff.mp h
  obtain ⟨w, hturns', hshows⟩ := hturns.shows amount
  refine Scan.scan_ok_iff.mpr ⟨w, hturns', ?_, hshows.kept.symm⟩
  rcases hshows.place with hfull | ⟨hposition, -, -⟩
  · exact .inl hfull
  · exact .inr (hposition ▸ Scan.State.over_all_iff.mp hover)

theorem Setting.scan_window_of_stops {c : Setting} {pattern : Chain} {found : List Match}
    {i : Interruption} (amount : Amount) (h : c.StopsAfter pattern found i) :
    c.scan pattern amount =
      if amount.isFull (amount.window found).length then .ok (amount.window found)
      else .error i := by
  obtain ⟨t, cause, hturns, hin, hcut, rfl, rfl⟩ := h
  obtain ⟨w, hturns', hshows⟩ := hturns.shows amount
  rw [← hshows.kept, List.length_reverse, ← hshows.count]
  split
  · rename_i hfull
    exact Scan.scan_ok_iff.mpr ⟨w, hturns', .inl hfull, rfl⟩
  · rename_i hfull
    obtain ⟨hposition, -, -⟩ := hshows.place.resolve_left hfull
    rw [← hposition] at hin hcut ⊢
    exact Scan.scan_error_iff.mpr ⟨w, cause, hturns',
      Scan.State.not_over_iff.mpr ⟨Bool.eq_false_iff.mpr hfull, hin⟩, hcut, rfl⟩

theorem Setting.scan_error_iff_stops {c : Setting} {pattern : Chain} {i : Interruption} :
    c.scan pattern .all = .error i ↔ ∃ found, c.StopsAfter pattern found i := by
  rw [Scan.scan_error_iff]
  constructor
  · rintro ⟨t, cause, hturns, hopen, hcut, rfl⟩
    exact ⟨_, t, cause, hturns, (Scan.State.not_over_iff.mp hopen).2, hcut, rfl, rfl⟩
  · rintro ⟨found, t, cause, hturns, hin, hcut, -, rfl⟩
    exact ⟨t, cause, hturns, Scan.State.not_over_iff.mpr ⟨rfl, hin⟩, hcut, rfl⟩

/-- A scan with an amount shows the window of what a scan for all matches finds. Where the latter is
interrupted, the former comes to the same interruption, unless its window is filled before. -/
theorem amount_is_window (text : ByteArray) (environment : Environment) (limits : Limits)
    (pattern : Chain) (amount : Amount) :
    let c : Setting := { text, environment, limits }
    (∀ found, c.scan pattern .all = .ok found →
      c.scan pattern amount = .ok (amount.window found)) ∧
    (∀ i, c.scan pattern .all = .error i ↔ ∃ found, c.StopsAfter pattern found i) ∧
    ∀ found i, c.StopsAfter pattern found i →
      ((∃ most, amount.take = some most ∧ (most = 0 ∨ amount.skip + most ≤ found.length)) →
        c.scan pattern amount = .ok (amount.window found)) ∧
      ((¬∃ most, amount.take = some most ∧ (most = 0 ∨ amount.skip + most ≤ found.length)) →
        c.scan pattern amount = .error i) := by
  intro c
  refine ⟨fun found h => Setting.scan_window_of_ok amount h,
    fun i => Setting.scan_error_iff_stops, fun found i h => ?_⟩
  have hscan := Setting.scan_window_of_stops amount h
  rw [← amount.isFull_window_iff found]
  exact ⟨fun hfull => hscan.trans (if_pos hfull), fun hfull => hscan.trans (if_neg hfull)⟩

theorem window_filled_before_interruption :
    let c : Setting := { text := ⟨#[98, 97]⟩, limits := ⟨2, 10⟩ }
    let pattern := Chain.last (.«repeat» (.atLeast 0) false (.literal [97] false))
    let found : List Match := [⟨0, 0, "", .empty, 1, 1, none⟩]
    c.StopsAfter pattern found ⟨.steps, ⟨2, 10⟩, 1⟩ ∧
      c.scan pattern (.top 1) = .ok found ∧
      c.scan pattern { skip := 1, take := some 1 } = .error ⟨.steps, ⟨2, 10⟩, 1⟩ := by
  intro c pattern found
  have hopen : ¬Scan.State.Over c .all {} := by
    rw [Scan.State.not_over_iff]
    exact ⟨rfl, Nat.zero_le _⟩
  have hfound : (c.attempt pattern 0).outcome = .found 0 .empty := by cbv
  have hcut : (c.attempt pattern 1).outcome = .cutOff .steps := by cbv
  have hstops : c.StopsAfter pattern found ⟨.steps, ⟨2, 10⟩, 1⟩ :=
    ⟨_, .steps, .single (.found hopen hfound), by decide, hcut, by cbv, rfl⟩
  refine ⟨hstops, ?_, ?_⟩
  · exact ((amount_is_window c.text {} ⟨2, 10⟩ pattern (.top 1)).2.2 found _ hstops).1
      ⟨1, rfl, .inr (by decide)⟩
  · exact ((amount_is_window c.text {} ⟨2, 10⟩ pattern { skip := 1, take := some 1 }).2.2 found _
      hstops).2 (by simp [found])

end WordPattern
