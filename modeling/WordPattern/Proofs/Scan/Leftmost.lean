import Mathlib
import WordPattern.Proofs.Scan.Turns
import WordPattern.Proofs.Walk.Outcomes

/-!
# Scans from left to right

The matches that a scan keeps stand in the text one behind the other, and each is what an attempt
made at its offset comes to. A scan for all matches leaves out no position at which the pattern
matches, unless a match reported before reaches over it.
-/

namespace WordPattern

/-- An attempt made at the position of the buffer matches up to a place. -/
def Buffer.Matches (b : Buffer) (c : Setting) (pattern : Chain) (finish : Nat)
    (captures : Bindings String) : Prop :=
  ∃ trail t, b.tryMatch c pattern = some (some trail, t) ∧ t.position = finish ∧
    trail.captures = captures

/-- The match is what an attempt made at its offset comes to. -/
structure Match.Stands (c : Setting) (pattern : Chain) (m : Match) : Prop where
  inside : m.offset + m.length ≤ c.text.size
  attempt : (c.attempt pattern m.offset).outcome = .found (m.offset + m.length) m.captures
  value : m.value = Text.decode (c.text.extract m.offset (m.offset + m.length))

/-- The match begins at a position, or reaches over it. -/
def Match.Meets (m : Match) (p : Nat) : Prop :=
  m.offset = p ∨ m.offset < p ∧ p < m.offset + m.length

/-- The match ends before another one begins, and they do not begin at the same position. -/
def Match.Before (m n : Match) : Prop :=
  m.offset < n.offset ∧ m.offset + m.length ≤ n.offset

variable {c : Setting} {pattern : Chain}

/-! ## Attempts that match -/

section

variable {b : Buffer} {finish : Nat} {captures : Bindings String}

theorem Buffer.matches_iff (hc : c.Fits) (htext : b.bytes = c.text) (hb : b.position ≤ b.size) :
    b.Matches c pattern finish captures ↔
      (c.attempt pattern b.position).outcome = .found finish captures := by
  obtain ⟨found, t, hmatch, hattempt⟩ := b.tryMatch_attempt hc htext hb pattern
  rw [hattempt]
  constructor
  · rintro ⟨trail, u, hu, rfl, rfl⟩
    cases hmatch.symm.trans hu
    rw [Walk.ending, Buffer.tryMatch_running hb hu]
  · intro h
    unfold Walk.ending at h
    dsimp only at h
    split at h
    · cases h
    · split at h
      · cases h
        exact ⟨_, t, hmatch, rfl, rfl⟩
      · cases h

theorem Setting.attempt_bounds (hc : c.Fits) {start : Nat} (hs : start ≤ c.text.size)
    (h : (c.attempt pattern start).outcome = .found finish captures) :
    start ≤ finish ∧ finish ≤ c.text.size := by
  let b : Buffer := ⟨.bytes c.text, start⟩
  have hb : b.position ≤ b.size := hs
  obtain ⟨trail, t, hmatch, rfl, -⟩ := (Buffer.matches_iff (b := b) hc rfl hb).mpr h
  obtain ⟨found, u, hu, -, -, hbounds⟩ :=
    Walk.attempt_keepsCursor c pattern (s := { buffer := b }) hb
  cases hmatch.symm.trans hu
  exact hbounds

end

namespace Scan

variable {amount : Amount} {s t : State}

/-! ## Matches one behind the other -/

/-- The matches kept so far stand one behind the other, and all of them behind what is to come. -/
structure State.Ordered (c : Setting) (pattern : Chain) (s : State) : Prop where
  stands : ∀ m ∈ s.kept, m.Stands c pattern
  passed : ∀ m ∈ s.kept, m.offset < s.position ∧ m.offset + m.length ≤ s.position
  apart : s.kept.Pairwise fun later earlier => earlier.Before later

theorem State.ordered_start : State.Ordered c pattern {} :=
  ⟨by simp, by simp, .nil⟩

theorem State.Ordered.same (h : s.Ordered c pattern) (hkept : t.kept = s.kept)
    (hnext : s.position ≤ t.position) : t.Ordered c pattern := by
  obtain ⟨hstands, hpassed, hapart⟩ := h
  rw [← hkept] at hstands hpassed hapart
  refine ⟨hstands, fun m hm => ?_, hapart⟩
  obtain ⟨hbegin, hend⟩ := hpassed m hm
  exact ⟨Nat.lt_of_lt_of_le hbegin hnext, Nat.le_trans hend hnext⟩

theorem State.Ordered.cons {m : Match} (h : s.Ordered c pattern) (hkept : t.kept = m :: s.kept)
    (hm : m.Stands c pattern) (hoffset : m.offset = s.position) (hnext : s.position < t.position)
    (hend : m.offset + m.length ≤ t.position) : t.Ordered c pattern := by
  have hpassed := (h.same (t := { s with position := t.position }) rfl (Nat.le_of_lt hnext)).passed
  refine ⟨?_, ?_, ?_⟩
  · rw [hkept]
    exact List.forall_mem_cons.mpr ⟨hm, h.stands⟩
  · rw [hkept]
    exact List.forall_mem_cons.mpr ⟨⟨hoffset ▸ hnext, hend⟩, hpassed⟩
  · rw [hkept]
    refine List.pairwise_cons.mpr ⟨fun n hn => ?_, h.apart⟩
    obtain ⟨hbegin, hend⟩ := h.passed n hn
    exact ⟨hoffset ▸ hbegin, hoffset ▸ hend⟩

theorem State.match_end {finish : Nat} {captures : Bindings String} (hstart : s.position ≤ finish) :
    (s.match c.text finish captures).offset + (s.match c.text finish captures).length = finish :=
  Nat.add_sub_cancel' hstart

theorem State.match_stands {finish : Nat} {captures : Bindings String}
    (hstart : s.position ≤ finish) (hfinish : finish ≤ c.text.size)
    (hfound : (c.attempt pattern s.position).outcome = .found finish captures) :
    (s.match c.text finish captures).Stands c pattern := by
  refine ⟨?_, ?_, ?_⟩
  · rw [State.match_end hstart]
    exact hfinish
  · rw [State.match_end hstart]
    exact hfound
  · rw [State.match_end hstart]
    rfl

theorem Turn.ordered (hc : c.Fits) (hturn : Turn c pattern amount s t)
    (h : s.Ordered c pattern) : t.Ordered c pattern := by
  have hin := (State.not_over_iff.mp hturn.not_over).2
  cases hturn with
  | missed hopen hmissed => exact h.same rfl (Nat.le_succ _)
  | @found finish captures hopen hfound =>
    obtain ⟨hstart, hfinish⟩ := Setting.attempt_bounds hc hin hfound
    have hnext := s.lt_behind finish
    by_cases hretains : amount.retains (s.found + 1)
    · refine h.cons ?_ (s.match_stands hstart hfinish hfound) rfl hnext ?_
      · rw [State.move_kept, State.record_kept, if_pos hretains]
      · rw [State.match_end hstart]
        exact s.le_behind finish
    · refine h.same ?_ (Nat.le_of_lt hnext)
      rw [State.move_kept, State.record_kept, if_neg hretains]

theorem Turns.ordered (hc : c.Fits) (h : Turns c pattern amount {} t) : t.Ordered c pattern :=
  h.keep (fun _ _ hturn hs => hturn.ordered hc hs) State.ordered_start

/-! ## Nothing is left out -/

/-- Every match so far is kept and numbered, and reaches over or begins at every position passed at
which the pattern matches. -/
structure State.Exhaustive (c : Setting) (pattern : Chain) (s : State) : Prop where
  numbered : s.kept.reverse.map (·.number) = List.range' 1 s.found
  met : ∀ p < s.position, ∀ finish captures,
    (c.attempt pattern p).outcome = .found finish captures → ∃ m ∈ s.kept, m.Meets p

theorem State.record_all (text : ByteArray) (s : State) (finish : Nat)
    (captures : Bindings String) :
    (s.record .all text finish captures).kept = s.match text finish captures :: s.kept := by
  rw [State.record_kept, if_pos (by simp [Amount.retains, Amount.all])]

theorem Turn.exhaustive (hc : c.Fits) (hturn : Turn c pattern .all s t)
    (h : s.Exhaustive c pattern) : t.Exhaustive c pattern := by
  have hin := (State.not_over_iff.mp hturn.not_over).2
  cases hturn with
  | missed hopen hmissed =>
    refine ⟨h.numbered, fun p hp finish captures hfound => ?_⟩
    rcases Nat.lt_succ_iff_lt_or_eq.mp hp with hp | rfl
    · exact h.met p hp finish captures hfound
    · rw [hmissed] at hfound
      cases hfound
  | @found end_ captures hopen hfound =>
    obtain ⟨hstart, -⟩ := Setting.attempt_bounds hc hin hfound
    have hkept := State.record_all c.text s end_ captures
    refine ⟨?_, fun p hp finish captures' hfound' => ?_⟩
    · rw [State.move_kept, State.move_found, State.record_found, hkept, List.reverse_cons,
        List.map_append, h.numbered, List.range'_1_concat, Nat.add_comm 1]
      rfl
    · rw [State.move_kept, hkept]
      rcases Nat.lt_trichotomy p s.position with hlt | rfl | hgt
      · obtain ⟨m, hm, hmeets⟩ := h.met p hlt finish captures' hfound'
        exact ⟨m, List.mem_cons_of_mem _ hm, hmeets⟩
      · exact ⟨_, List.mem_cons_self, .inl rfl⟩
      · -- The scan has gone further than one place, so the match is not empty.
        refine ⟨_, List.mem_cons_self, .inr ⟨hgt, ?_⟩⟩
        have hnext : p < s.behind end_ := hp
        unfold State.behind at hnext
        change p < s.position + (end_ - s.position)
        split at hnext <;> omega

theorem Turns.exhaustive (hc : c.Fits) (h : Turns c pattern .all {} t) :
    t.Exhaustive c pattern :=
  h.keep (fun _ _ hturn hs => hturn.exhaustive hc hs)
    ⟨rfl, fun _ hp => absurd hp (Nat.not_lt_zero _)⟩

end Scan

/-! ## The matches of a scan -/

section

variable {amount : Amount} {found : List Match}

theorem Setting.scan_stands (hc : c.Fits) (h : c.scan pattern amount = .ok found) :
    ∀ m ∈ found, m.Stands c pattern := by
  obtain ⟨t, hturns, -, rfl⟩ := Scan.scan_ok_iff.mp h
  intro m hm
  exact (hturns.ordered hc).stands m (List.mem_reverse.mp hm)

theorem Setting.scan_pairwise (hc : c.Fits) (h : c.scan pattern amount = .ok found) :
    found.Pairwise Match.Before := by
  obtain ⟨t, hturns, -, rfl⟩ := Scan.scan_ok_iff.mp h
  exact List.pairwise_reverse.mpr (hturns.ordered hc).apart

theorem Setting.scan_numbers (hc : c.Fits) (h : c.scan pattern .all = .ok found) :
    found.map (·.number) = List.range' 1 found.length := by
  obtain ⟨t, hturns, -, rfl⟩ := Scan.scan_ok_iff.mp h
  have hnumbered := (hturns.exhaustive hc).numbered
  have hlength := congrArg List.length hnumbered
  rw [List.length_map, List.length_range'] at hlength
  rw [hnumbered, hlength]

theorem Setting.scan_meets (hc : c.Fits) (h : c.scan pattern .all = .ok found) {p finish : Nat}
    {captures : Bindings String} (hp : p ≤ c.text.size)
    (hfound : (c.attempt pattern p).outcome = .found finish captures) : ∃ m ∈ found, m.Meets p := by
  obtain ⟨t, hturns, hover, rfl⟩ := Scan.scan_ok_iff.mp h
  -- Only behind the end of the text is the scan over, so the position has been passed.
  have hpast := Scan.State.over_all_iff.mp hover
  obtain ⟨m, hm, hmeets⟩ :=
    (hturns.exhaustive hc).met p (Nat.lt_of_le_of_lt hp hpast) finish captures hfound
  exact ⟨m, List.mem_reverse.mpr hm, hmeets⟩

/-- No match reaches over the place where another one ends. -/
theorem Match.not_over_end (h : found.Pairwise Match.Before) {m n : Match} (hm : m ∈ found)
    (hn : n ∈ found) : ¬(m.offset < n.offset + n.length ∧
      n.offset + n.length < m.offset + m.length) := by
  rintro ⟨hbegin, hend⟩
  by_cases heq : m = n
  · subst heq
    exact Nat.lt_irrefl _ hend
  · have hapart : found.Pairwise fun m n => m.Before n ∨ n.Before m := h.imp .inl
    have : Std.Symm fun m n : Match => m.Before n ∨ n.Before m := ⟨fun _ _ => Or.symm⟩
    rcases hapart.forall hm hn heq with ⟨-, hbefore⟩ | ⟨-, hbefore⟩ <;> omega

end

theorem Buffer.seek_matches_iff (b : Buffer) (hc : c.Fits) (htext : b.bytes = c.text)
    {p finish : Nat} {captures : Bindings String} (hp : p ≤ b.size) :
    (b.seek p).Matches c pattern finish captures ↔
      (c.attempt pattern p).outcome = .found finish captures := by
  have hseek : (b.seek p).position = p := Nat.min_eq_left hp
  have h : (b.seek p).Matches c pattern finish captures ↔
      (c.attempt pattern (b.seek p).position).outcome = .found finish captures :=
    Buffer.matches_iff hc htext (Nat.min_le_right ..)
  rwa [hseek] at h

/-- A scan for all matches takes the text apart from left to right: its matches are numbered in
their order, none begins before the one in front has ended, each is what a fresh attempt comes to,
and every position at which a fresh attempt matches is met by one of them. So an empty match is
reported also where another match ends, and at the end of the text. -/
theorem scan_takes_text_apart (b : Buffer) (environment : Environment) (limits : Limits)
    (pattern : Chain) (found : List Match) :
    let c : Setting := { text := b.bytes, environment, limits }
    c.scan pattern .all = .ok found →
      found.map (·.number) = List.range' 1 found.length ∧
      found.Pairwise Match.Before ∧
      (∀ m ∈ found, m.offset + m.length ≤ b.size ∧
        (b.seek m.offset).Matches c pattern (m.offset + m.length) m.captures ∧
        m.value = Text.decode (b.slice m.offset (m.offset + m.length))) ∧
      (∀ p ≤ b.size, ∀ finish captures, (b.seek p).Matches c pattern finish captures →
        ∃ m ∈ found, m.Meets p) ∧
      ∀ p ≤ b.size, ∀ captures, (b.seek p).Matches c pattern p captures →
        (p = b.size ∨ ∃ m ∈ found, 0 < m.length ∧ m.offset + m.length = p) →
          ∃ m ∈ found, m.offset = p ∧ m.length = 0 := by
  intro c hscan
  have hc : c.Fits := Setting.fits_of rfl
  have hstands := Setting.scan_stands hc hscan
  have hpairwise := Setting.scan_pairwise hc hscan
  refine ⟨Setting.scan_numbers hc hscan, hpairwise, fun m hm => ?_,
    fun p hp finish captures h => ?_, fun p hp captures h hplace => ?_⟩
  · obtain ⟨hinside, hattempt, hvalue⟩ := hstands m hm
    have hoffset : m.offset ≤ b.size := Nat.le_trans (Nat.le_add_right _ _) hinside
    exact ⟨hinside, (b.seek_matches_iff hc rfl hoffset).mpr hattempt, hvalue⟩
  · exact Setting.scan_meets hc hscan hp ((b.seek_matches_iff hc rfl hp).mp h)
  · have hempty := (b.seek_matches_iff hc rfl hp).mp h
    obtain ⟨m, hm, hbegin | hover⟩ := Setting.scan_meets hc hscan hp hempty
    · have hattempt := (hstands m hm).attempt
      rw [hbegin, hempty] at hattempt
      obtain ⟨hlength, -⟩ := Search.Outcome.found.inj hattempt
      exact ⟨m, hm, hbegin, by omega⟩
    · rcases hplace with hlast | ⟨n, hn, -, hend⟩
      · have hinside : m.offset + m.length ≤ b.size := (hstands m hm).inside
        omega
      · rw [← hend] at hover
        exact absurd hover (Match.not_over_end hpairwise hm hn)

theorem letters_are_taken_apart :
    let b := Buffer.ofText "aab"
    let c : Setting := { text := b.bytes }
    let pattern := Chain.last (.«repeat» (.atLeast 0) false (.literal [97] false))
    let found : List Match :=
      [⟨0, 2, "aa", .empty, 1, 1, none⟩, ⟨2, 0, "", .empty, 1, 2, none⟩,
        ⟨3, 0, "", .empty, 1, 3, none⟩]
    c.scan pattern .all = .ok found ∧ found.Pairwise Match.Before ∧
      ∀ p ≤ b.size, ∀ finish captures, (b.seek p).Matches c pattern finish captures →
        ∃ m ∈ found, m.Meets p := by
  intro b c pattern found
  have hscan : c.scan pattern .all = .ok found := by cbv
  obtain ⟨-, hpairwise, -, hmeets, -⟩ := scan_takes_text_apart b {} {} pattern found hscan
  exact ⟨hscan, hpairwise, hmeets⟩

end WordPattern
