import WordPattern.Proofs.Walk.Unfolding

/-!
# Repetitions that are written out

An exact repetition of a body, once or more often, stands for as many copies of the body one behind
the other. Empty repetitions are no exception: below the least number each of them counts.
-/

namespace WordPattern

/-- An element, and a number of further copies of it behind. -/
def Node.copies (node : Node) : Nat → Chain
  | 0 => .last node
  | further + 1 => .cons node (node.copies further)

theorem Node.toList_copies (node : Node) (further : Nat) :
    (node.copies further).toList = List.replicate (further + 1) node := by
  induction further with
  | zero => rfl
  | succ further ih => rw [copies, Chain.toList, ih, ← List.replicate_succ]

/-- An exact repetition is replaced by the copies of its body in parentheses. -/
inductive Node.WritesOut : Node → Node → Prop
  | exactly (further : Nat) (fewest : Bool) (body : Node) :
    WritesOut (.«repeat» (.exactly (further + 1)) fewest body) (.group (body.copies further))

/-! ## Trees of exact repetitions -/

namespace Tree

variable {α β γ : Type}

theorem bind_leaf (t : Tree α) : t.bind leaf = t := by
  induction t with
  | fail => rfl
  | leaf a => rfl
  | fork s t hs ht => rw [bind, hs, ht]
  | cut => rfl

theorem first_fork_fail (t : Tree α) : (fork t fail).first = t.first := by
  rw [first]
  rcases t.first with _ | _ | a <;> rfl

variable {R : α → β → Prop} {s : Tree α} {t : Tree β}

theorem answers_cut : (answers : Comparison γ).Carries R cut t := by
  intro f g _ outcome h
  cases h

/-- Of two ways in either order, the first one cannot match. -/
theorem answers_second (fewest : Bool) (h : (answers : Comparison γ).Carries R s t) :
    (answers : Comparison γ).Carries R (if fewest then fork fail s else fork s fail) t := by
  intro f g hfg outcome hs
  apply h f g hfg outcome
  cases fewest with
  | true => exact hs
  | false => rwa [← first_fork_fail]

/-- Of two ways in either order, the second one cannot match. -/
theorem answers_first (fewest : Bool) (h : (answers : Comparison γ).Carries R s t) :
    (answers : Comparison γ).Carries R (if fewest then fork s fail else fork fail s) t := by
  have hsecond := answers_second (!fewest) h
  cases fewest <;> exact hsecond

end Tree

namespace Quantifier

open WordPattern.Tree (answers answers_cut answers_first answers_second)

variable {γ : Type} {count number : Nat}

theorem metBy_exactly : (exactly number).metBy count = true ↔ number ≤ count :=
  decide_eq_true_iff

/-- Nothing is left to be repeated. -/
theorem exactly_complete (fewest : Bool) (body : Spot → Tree Spot) (rounds : Nat) (p : Spot) :
    (answers : Tree.Comparison γ).Carries Eq
      ((exactly number).tree fewest body rounds number p) (.leaf p) := by
  cases rounds with
  | zero => exact answers_cut
  | succ rounds =>
    have hmet : (exactly number).metBy number = true := metBy_exactly.mpr (Nat.le_refl _)
    have hfull : (exactly number).allowsAfter number = false := by simp [allowsAfter, most?]
    simp only [tree, hfull, hmet, Bool.false_eq_true, ↓reduceIte]
    exact answers_first fewest (.leaf rfl)

/-- One more repetition is needed before what is left of them. -/
theorem exactly_round (fewest : Bool) (body : Spot → Tree Spot) (rounds : Nat) (p : Spot)
    (hcount : count < number) {next : Spot → Tree Spot}
    (hlast : ∀ q, (exactly number).metBy (count + 1) = true →
      (answers : Tree.Comparison γ).Carries Eq (.leaf q) (next q))
    (hnext : ∀ q, (answers : Tree.Comparison γ).Carries Eq
      ((exactly number).tree fewest body rounds (count + 1) q) (next q)) :
    (answers : Tree.Comparison γ).Carries Eq
      ((exactly number).tree fewest body (rounds + 1) count p) ((body p).bind next) := by
  have hshort : (exactly number).metBy count = false := by
    rw [Bool.eq_false_iff, ne_eq, metBy_exactly]
    omega
  have hallows : (exactly number).allowsAfter count = true := by
    simpa [allowsAfter, most?] using hcount
  simp only [tree, hshort, hallows, Bool.false_eq_true, ↓reduceIte]
  apply answers_second fewest
  apply Tree.Comparison.Carries.bind (.refl (fun _ => rfl) _)
  rintro q _ rfl
  split
  · rename_i hempty
    exact hlast q (Bool.and_eq_true_iff.mp hempty).2
  · exact hnext q

end Quantifier

section

variable {γ : Type} {text : ByteArray} {environment environment' : Environment}

open WordPattern.Tree (answers answers_cut)

/-- What is left of an exact repetition answers as the copies that are left do. -/
theorem Node.exactly_tree (fewest : Bool) (body : Node) (level number : Nat) (further : Nat) :
    ∀ rounds count p, count + (further + 1) = number →
      (answers : Tree.Comparison γ).Carries Eq
        ((Quantifier.exactly number).tree fewest (body.tree text environment level) rounds count p)
        ((body.copies further).tree text environment level p) := by
  induction further with
  | zero =>
    intro rounds count p hnumber
    subst hnumber
    rcases rounds with _ | rounds
    · exact answers_cut
    · have hcopies : ((body.copies 0).tree text environment level p) =
          (body.tree text environment level p).bind .leaf := (Tree.bind_leaf _).symm
      rw [hcopies]
      exact Quantifier.exactly_round fewest _ rounds p (Nat.lt_succ_self _)
        (fun q _ => .leaf rfl) (Quantifier.exactly_complete fewest _ rounds)
  | succ further ih =>
    intro rounds count p hnumber
    rcases rounds with _ | rounds
    · exact answers_cut
    · have hmore : ¬(Quantifier.exactly number).metBy (count + 1) = true := by
        simp only [Quantifier.metBy_exactly]
        omega
      exact Quantifier.exactly_round fewest _ rounds p (by omega)
        (fun q hmet => absurd hmet hmore) fun q => ih rounds (count + 1) q (by omega)

theorem Node.WritesOut.tree {node node' : Node} (h : node.WritesOut node') (level : Nat)
    (p : Spot) : (answers : Tree.Comparison γ).Carries Eq (node.tree text environment level p)
      (node'.tree text environment level p) := by
  cases h with
  | exactly further fewest body =>
    exact body.exactly_tree fewest level (further + 1) further level 0 p (Nat.zero_add _)

theorem copies_vary (htexts : environment.texts = environment'.texts)
    (hsubroutines :
      environment.subroutines.Related (Chain.Varies Node.WritesOut) environment'.subroutines) :
    Variation (answers : Tree.Comparison γ) text Node.WritesOut [] environment environment' where
  texts := htexts
  subroutines := hsubroutines.mono fun _ _ h => ⟨h, Chain.spares_nil _⟩
  rule h level p _ := h.tree level p

end

/-- If neither attempt is cut off, it makes no difference whether a pattern, or one that it calls,
repeats a body a given number of times or holds as many copies of it: the match ends in the same
place and has captured the same. -/
theorem exact_repetitions_are_copies (b : Buffer) (environment environment' : Environment)
    (limits limits' : Limits) (pattern pattern' : Chain) (hb : b.position ≤ b.size)
    (htexts : environment.texts = environment'.texts)
    (hsubroutines :
      environment.subroutines.Related (Chain.Varies Node.WritesOut) environment'.subroutines)
    (hpattern : pattern.Varies Node.WritesOut pattern') :
    let c : Setting := { text := b.bytes, environment, limits }
    let c' : Setting := { text := b.bytes, environment := environment', limits := limits' }
    ∃ found t found' t', b.tryMatch c pattern = some (found, t) ∧
      b.tryMatch c' pattern' = some (found', t') ∧
      (t.stopped = none → t'.stopped = none →
        found.map Trail.captures = found'.map Trail.captures ∧ t.position = t'.position) := by
  intro c c'
  have hc : c.Fits := Setting.fits_of rfl
  have hc' : c'.Fits := Setting.fits_of rfl
  obtain ⟨found, t, hmatch, _⟩ := b.tryMatch_attempt hc rfl hb pattern
  obtain ⟨found', t', hmatch', _⟩ := b.tryMatch_attempt hc' rfl hb pattern'
  refine ⟨found, t, found', t', hmatch, hmatch', fun hstop hstop' => ?_⟩
  apply b.tryMatch_shows hc hc' rfl rfl hb hmatch hmatch' hstop hstop'
  intro level
  have hvaries : Variation (Tree.answers : Tree.Comparison (Nat × Bindings String)) b.bytes
      Node.WritesOut [] environment environment' := copies_vary htexts hsubroutines
  apply hvaries.tree hpattern (Chain.spares_nil _) level b.position
  intro p p' hp outcome h
  rw [← h, show p.shown = p'.shown from Prod.ext hp.position hp.captures]

/-- A captured letter twice in a repetition, against two captures one behind the other. -/
theorem captured_letter_is_copied :
    let b := Buffer.ofBytes ⟨#[97, 98]⟩
    let letter := Node.capture "last" (.byteClass .letter false)
    let pattern := Chain.last (.«repeat» (.exactly 2) true letter)
    let pattern' := Chain.last (.group (.cons letter (.last letter)))
    let c : Setting := { text := b.bytes }
    b.position ≤ b.size ∧ (Bindings.empty.Related (Chain.Varies Node.WritesOut) .empty) ∧
      pattern.Varies Node.WritesOut pattern' ∧
      ∃ found t found' t', b.tryMatch c pattern = some (found, t) ∧
        b.tryMatch c pattern' = some (found', t') ∧ t.stopped = none ∧ t'.stopped = none ∧
        found.map Trail.captures = found'.map Trail.captures ∧ t.position = t'.position := by
  intro b letter pattern pattern' c
  have hb : b.position ≤ b.size := Nat.zero_le _
  have hpattern : pattern.Varies Node.WritesOut pattern' :=
    .last (.apply (Node.varies_refl _) (.exactly 1 true letter))
  obtain ⟨found, t, found', t', hmatch, hmatch', h⟩ := exact_repetitions_are_copies b {} {} {} {}
    pattern pattern' hb rfl Bindings.related_empty hpattern
  let first := Bindings.empty.insert "last" (Text.decode (b.bytes.extract 0 1))
  let captures := first.insert "last" (Text.decode (b.bytes.extract 1 2))
  have hrun : c.attempt pattern b.position = ⟨.found 2 captures, 5⟩ := by
    iterate 9 refine (Search.run_of_ok rfl).trans ?_
    exact Search.run_of_error rfl
  have hrun' : c.attempt pattern' b.position = ⟨.found 2 captures, 5⟩ := by
    iterate 8 refine (Search.run_of_ok rfl).trans ?_
    exact Search.run_of_error rfl
  have hstop : t.stopped = none := by
    rw [(b.tryMatch_reports (Setting.fits_of rfl) rfl hb hmatch).1, hrun]
    rfl
  have hstop' : t'.stopped = none := by
    rw [(b.tryMatch_reports (Setting.fits_of rfl) rfl hb hmatch').1, hrun']
    rfl
  exact ⟨hb, Bindings.related_empty, hpattern, found, t, found', t', hmatch, hmatch', hstop, hstop',
    h hstop hstop'⟩

end WordPattern
