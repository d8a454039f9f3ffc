import WordPattern.Proofs.Tree.Order
import WordPattern.Proofs.Walk.Returns

/-!
# Going through a tree

Every outcome of a tree is visited in turn until a visit finds something. A visit may also note
ends, and two verdicts count as the same if the same ends have been noted in the end.
-/

namespace WordPattern

open Walk (noteAll noteAll_append noteAll_cons noteAll_of_mem noteAll_absorb)

/-- What is found in the end, and the ends that are noted on the way. -/
inductive Verdict where
  | known (found : Option Spot) (noted : List Nat)
  /-- That is decided below the level. -/
  | unknown

namespace Verdict

/-- Nothing is found and nothing noted. -/
def miss : Verdict := .known none []

/-- A second verdict counts where the first one has found nothing. -/
def orElse (v w : Verdict) : Verdict :=
  match v with
  | .known none noted =>
    match w with
    | .known found more => .known found (noted ++ more)
    | .unknown => .unknown
  | .known (some p) noted => .known (some p) noted
  | .unknown => .unknown

/-- Where the first verdict is known, the second one is the same. -/
def Le (v w : Verdict) : Prop :=
  ∀ found noted, v = .known found noted →
    ∃ noted', w = .known found noted' ∧ ∀ outer, noteAll noted' outer = noteAll noted outer

instance : LE Verdict := ⟨Le⟩

variable {v v' w w' : Verdict}

theorem le_refl (v : Verdict) : v ≤ v := fun _ noted h => ⟨noted, h, fun _ => rfl⟩

theorem le_of_eq (h : v = w) : v ≤ w := h ▸ le_refl v

theorem unknown_le (v : Verdict) : .unknown ≤ v := by
  intro found noted h
  cases h

theorem le_trans {u : Verdict} (h : u ≤ v) (h' : v ≤ w) : u ≤ w := by
  intro found noted hu
  obtain ⟨noted', hv, hsame⟩ := h found noted hu
  obtain ⟨noted'', hw, hsame'⟩ := h' found noted' hv
  exact ⟨noted'', hw, fun outer => (hsame' outer).trans (hsame outer)⟩

theorem orElse_le (hv : v ≤ v') (hw : w ≤ w') : v.orElse w ≤ v'.orElse w' := by
  cases v with
  | unknown => exact unknown_le _
  | known found noted =>
    obtain ⟨noted', hv', hsame⟩ := hv found noted rfl
    rw [hv']
    cases found with
    | some p =>
      intro found more h
      cases h
      exact ⟨noted', rfl, hsame⟩
    | none =>
      cases w with
      | unknown => exact unknown_le _
      | known found more =>
        obtain ⟨more', hw', hmore⟩ := hw found more rfl
        rw [hw']
        intro found' all h
        cases h
        refine ⟨noted' ++ more', rfl, fun outer => ?_⟩
        rw [noteAll_append, noteAll_append, hsame, hmore]

@[simp] theorem miss_orElse : miss.orElse w = w := by
  cases w <;> rfl

@[simp] theorem orElse_miss : v.orElse miss = v := by
  cases v with
  | unknown => rfl
  | known found noted =>
    cases found with
    | some p => rfl
    | none => exact congrArg (known none) (List.append_nil noted)

theorem orElse_assoc (u v w : Verdict) : (u.orElse v).orElse w = u.orElse (v.orElse w) := by
  cases u with
  | unknown => rfl
  | known found noted =>
    cases found with
    | some p => rfl
    | none =>
      cases v with
      | unknown => rfl
      | known found more =>
        cases found with
        | some p => rfl
        | none =>
          cases w with
          | unknown => rfl
          | known found most => exact congrArg (known found) (List.append_assoc noted more most)

/-- Ends are visited in turn. -/
def inTurn (visit : Nat → Verdict) : List Nat → Verdict
  | [] => miss
  | e :: ends => (visit e).orElse (inTurn visit ends)

theorem inTurn_append (visit : Nat → Verdict) (ends more : List Nat) :
    inTurn visit (ends ++ more) = (inTurn visit ends).orElse (inTurn visit more) := by
  induction ends with
  | nil => exact miss_orElse.symm
  | cons e ends ih =>
    rw [List.cons_append, inTurn, inTurn, ih, orElse_assoc]

theorem inTurn_le {visit visit' : Nat → Verdict} (h : ∀ e, visit e ≤ visit' e) (ends : List Nat) :
    inTurn visit ends ≤ inTurn visit' ends := by
  induction ends with
  | nil => exact le_refl _
  | cons e ends ih => exact orElse_le (h e) ih

/-- Every visit of some ends has failed, and what it has noted is among the ends seen. -/
def Spent (visit : Nat → Verdict) (ends seen : List Nat) : Prop :=
  ∀ e ∈ ends, ∃ noted, visit e = .known none noted ∧ ∀ x ∈ noted, x ∈ seen

theorem Spent.snoc {visit : Nat → Verdict} {ends seen noted : List Nat} {e : Nat}
    (h : Spent visit ends seen) (he : visit e = .known none noted) :
    Spent visit (ends ++ [e]) (seen ++ noted) := by
  intro x hx
  rcases List.mem_append.mp hx with hx | hx
  · obtain ⟨old, hold, hseen⟩ := h x hx
    exact ⟨old, hold, fun y hy => List.mem_append_left _ (hseen y hy)⟩
  · cases List.mem_singleton.mp hx
    exact ⟨noted, he, fun y hy => List.mem_append_right _ hy⟩

/-- A visit that has failed once, with its ends noted, may be left out. -/
theorem inTurn_of_fresh {visit : Nat → Verdict} {outer : List (List Nat)} (ends : List Nat) :
    ∀ {first fresh seen : List Nat}, Spent visit first seen →
      noteAll ends (first :: outer) = (first ++ fresh) :: outer →
      ∀ found noted, inTurn visit fresh = .known found noted →
        ∃ noted', inTurn visit ends = .known found noted' ∧
          ∀ outer, noteAll (seen ++ noted') outer = noteAll (seen ++ noted) outer := by
  induction ends with
  | nil =>
    intro first fresh seen _ hends found noted hfresh
    obtain ⟨rfl⟩ : fresh = [] := by
      have := (List.cons.inj hends).1
      simpa using this.symm
    exact ⟨noted, hfresh, fun _ => rfl⟩
  | cons e ends ih =>
    intro first fresh seen hfirst hends found noted hfresh
    rw [noteAll, List.foldl_cons, Search.noteEnd] at hends
    by_cases he : first.contains e
    · -- The end is noted already, so its visit has failed before.
      rw [if_pos he] at hends
      obtain ⟨old, hold, hseen⟩ := hfirst e (by simpa using he)
      obtain ⟨noted', hnoted', hsame⟩ := ih hfirst hends found noted hfresh
      refine ⟨old ++ noted', ?_, fun outer => ?_⟩
      · rw [inTurn, hold, hnoted']
        rfl
      · rw [← List.append_assoc, noteAll_append, noteAll_absorb hseen, ← noteAll_append, hsame]
    · rw [if_neg he] at hends
      obtain ⟨fresh', hall, _⟩ := noteAll_cons ends (first ++ [e]) outer
      obtain ⟨rfl⟩ : fresh = e :: fresh' := by
        have heads := (List.cons.inj (hends.symm.trans hall)).1
        rw [List.append_assoc] at heads
        exact List.append_cancel_left heads
      rw [inTurn] at hfresh
      cases hvisit : visit e with
      | unknown =>
        rw [hvisit] at hfresh
        cases hfresh
      | known result old =>
        rw [hvisit] at hfresh
        cases result with
        | some p =>
          cases hfresh
          exact ⟨noted, by rw [inTurn, hvisit]; rfl, fun _ => rfl⟩
        | none =>
          cases hrest : inTurn visit fresh' with
          | unknown =>
            rw [hrest] at hfresh
            cases hfresh
          | known result' more =>
            rw [hrest] at hfresh
            cases hfresh
            obtain ⟨noted', hnoted', hsame⟩ := ih (hfirst.snoc hvisit) hall found more hrest
            refine ⟨old ++ noted', by rw [inTurn, hvisit, hnoted']; rfl, fun outer => ?_⟩
            rw [← List.append_assoc, ← List.append_assoc]
            exact hsame outer

/-- Visiting every end once is visiting every end. -/
theorem inTurn_noted (visit : Nat → Verdict) {ends noted : List Nat} {outer : List (List Nat)}
    (h : noteAll ends ([] :: outer) = noted :: outer) :
    inTurn visit noted ≤ inTurn visit ends := by
  have hnone : Spent visit [] [] := by
    intro e he
    cases he
  exact inTurn_of_fresh ends hnone h

end Verdict

/-! ## Outcomes that are visited in turn -/

namespace Tree

/-- Visits the outcomes of a tree in turn. -/
def explore (visit : Spot → Verdict) : Tree Spot → Verdict
  | fail => .miss
  | leaf p => visit p
  | fork s t => (s.explore visit).orElse (t.explore visit)
  | cut => .unknown

theorem explore_bind (visit : Spot → Verdict) (t : Tree Spot) (f : Spot → Tree Spot) :
    (t.bind f).explore visit = t.explore fun p => (f p).explore visit := by
  induction t with
  | fail => rfl
  | leaf p => rfl
  | fork s t hs ht =>
    unfold bind explore
    rw [hs, ht]
  | cut => rfl

theorem explore_le {visit visit' : Spot → Verdict} {s t : Tree Spot} (h : s ≤ t)
    (hvisit : ∀ p, visit p ≤ visit' p) : s.explore visit ≤ t.explore visit' := by
  induction h with
  | cut t => exact Verdict.unknown_le _
  | fail => exact Verdict.le_refl _
  | leaf p => exact hvisit p
  | fork _ _ hs ht => exact Verdict.orElse_le hs ht

/-- Going through a tree for its first outcome. -/
theorem explore_first (t : Tree Spot) :
    t.explore (fun p => .known (some p) []) =
      match t.first with
      | some outcome => .known outcome []
      | none => .unknown := by
  induction t with
  | fail => rfl
  | leaf p => rfl
  | cut => rfl
  | fork s t hs ht =>
    unfold explore first
    rw [hs, ht]
    cases s.first with
    | none => rfl
    | some outcome =>
      cases outcome with
      | some p => rfl
      | none => cases t.first <;> rfl

theorem explore_choice (visit : Spot → Verdict) (p : Spot) (ends : List Nat) :
    (choice (ends.map fun e => leaf (p.move e))).explore visit =
      Verdict.inTurn (fun e => visit (p.move e)) ends := by
  induction ends with
  | nil => rfl
  | cons e ends ih =>
    rw [List.map_cons, choice, explore, explore, ih]
    rfl

/-- Every outcome has a property. -/
def Forall (P : Spot → Prop) : Tree Spot → Prop
  | fail => True
  | leaf p => P p
  | fork s t => s.Forall P ∧ t.Forall P
  | cut => True

variable {P Q : Spot → Prop}

theorem Forall.bind {t : Tree Spot} {f : Spot → Tree Spot} (h : t.Forall P)
    (hf : ∀ p, P p → (f p).Forall Q) : (t.bind f).Forall Q := by
  induction t with
  | fail => trivial
  | leaf p => exact hf p h
  | fork s t hs ht => exact ⟨hs h.1, ht h.2⟩
  | cut => trivial

theorem Forall.mono {t : Tree Spot} (h : t.Forall P) (hPQ : ∀ p, P p → Q p) : t.Forall Q := by
  induction t with
  | fail => trivial
  | leaf p => exact hPQ p h
  | fork s t hs ht => exact ⟨hs h.1, ht h.2⟩
  | cut => trivial

/-- A tree that binds nothing and is not cut off is the same as its ends in turn. -/
theorem explore_ends {trail : Trail} {t : Tree Spot} (h : t.Forall fun q => q.trail = trail)
    {found : Option Spot} {ends : List Nat}
    (hends : t.explore (fun q => .known none [q.position]) = .known found ends)
    (visit : Spot → Verdict) :
    found = none ∧ t.explore visit = Verdict.inTurn (fun e => visit ⟨e, trail⟩) ends := by
  induction t generalizing found ends with
  | fail =>
    cases hends
    exact ⟨rfl, rfl⟩
  | leaf q =>
    cases hends
    cases (show q.trail = trail from h)
    exact ⟨rfl, Verdict.orElse_miss.symm⟩
  | cut => cases hends
  | fork s t hs ht =>
    unfold explore at hends ⊢
    cases hes : s.explore fun q => .known none [q.position] with
    | unknown =>
      rw [hes] at hends
      cases hends
    | known found' ends' =>
      obtain ⟨rfl, hs⟩ := hs h.1 hes
      rw [hes] at hends
      cases het : t.explore fun q => .known none [q.position] with
      | unknown =>
        rw [het] at hends
        cases hends
      | known found'' ends'' =>
        obtain ⟨rfl, ht⟩ := ht h.2 het
        rw [het] at hends
        cases hends
        exact ⟨rfl, by rw [hs, ht, Verdict.inTurn_append]⟩

end Tree

end WordPattern
