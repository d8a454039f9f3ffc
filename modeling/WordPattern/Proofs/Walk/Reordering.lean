import WordPattern.Proofs.Tree.Varies
import WordPattern.Proofs.Walk.Outcomes

/-!
# Patterns in another order of preference

The order in which a pattern prefers its outcomes decides which of them is found, and not whether
one is found: a tree without outcomes has none in any order.
-/

namespace WordPattern

/-! ## Trees without outcomes -/

namespace Tree

variable {α γ : Type}

theorem first_fork {s t : Tree γ} :
    (fork s t).first = some none ↔ s.first = some none ∧ t.first = some none := by
  rw [first]
  cases s.first with
  | none => simp
  | some outcome => cases outcome <;> simp

/-- Two trees of which neither has an outcome, or both do. -/
def emptiness : Comparison γ where
  Holds s t := s.first = some none ↔ t.first = some none
  refl _ := Iff.rfl
  trans := Iff.trans
  fork hs ht := first_fork.trans ((and_congr hs ht).trans first_fork.symm)

theorem emptiness_swaps : (emptiness : Comparison γ).Swaps :=
  fun _ _ => first_fork.trans (And.comm.trans first_fork.symm)

theorem first_choice {ts : List (Tree α)} {f : α → Tree γ} :
    ((choice ts).bind f).first = some none ↔ ∀ t ∈ ts, (t.bind f).first = some none := by
  induction ts with
  | nil => exact ⟨fun _ t ht => absurd ht List.not_mem_nil, fun _ => rfl⟩
  | cons t ts ih =>
    rw [List.forall_mem_cons, ← ih]
    exact first_fork

/-- Whether a tree has an outcome does not depend on how what it chooses from is ordered. -/
theorem emptiness_choice {ts ts' : List (Tree α)} (h : ts.Perm ts') :
    (emptiness : Comparison γ).Carries Eq (choice ts) (choice ts') := by
  intro f g hfg
  refine emptiness.trans (t := (choice ts').bind f) ?_
    (Comparison.Carries.refl (fun _ => rfl) _ f g hfg)
  exact first_choice.trans (Iff.trans (by simp only [h.mem_iff]) first_choice.symm)

end Tree

/-! ## Patterns that are reordered -/

/-- The element prefers its outcomes in another order: fewer repetitions in the place of more, the
second of two patterns in the place of the first, or the items of a list in any order. -/
inductive Node.Reorders : Node → Node → Prop
  | «repeat» (quantifier : Quantifier) (fewest fewest' : Bool) (body : Node) :
    Reorders (.«repeat» quantifier fewest body) (.«repeat» quantifier fewest' body)
  | or (left right : Node) : Reorders (.or left right) (.or right left)
  | oneOf {items items' : List Item} (h : items.Perm items') :
    Reorders (.oneOf items) (.oneOf items')

variable {text : ByteArray} {environment environment' : Environment} {γ : Type}

theorem Node.Reorders.tree {node node' : Node} (h : node.Reorders node') (level : Nat) (p : Spot) :
    (Tree.emptiness : Tree.Comparison γ).Carries Eq (node.tree text environment level p)
      (node'.tree text environment level p) := by
  have same : ∀ t : Tree Spot, (Tree.emptiness : Tree.Comparison γ).Carries Eq t t :=
    fun t => .refl (fun _ => rfl) t
  cases h with
  | «repeat» quantifier fewest fewest' body =>
    refine quantifier.tree_carries (fun _ _ h => congrArg Spot.position h)
      (.inr Tree.emptiness_swaps) ?_ level 0 p p rfl
    rintro q _ rfl
    exact same (body.tree text environment level q)
  | or left right =>
    exact (same (left.tree text environment level p)).swap Tree.emptiness_swaps
      (same (right.tree text environment level p))
  | oneOf hitems => exact Tree.emptiness_choice (hitems.map _)

theorem reordering_varies (htexts : environment.texts = environment'.texts)
    (hsubroutines :
      environment.subroutines.Related (Chain.Varies Node.Reorders) environment'.subroutines) :
    Variation (Tree.emptiness : Tree.Comparison γ) text Node.Reorders [] environment
      environment' where
  texts := htexts
  subroutines := hsubroutines.mono fun _ _ h => ⟨h, Chain.spares_nil _⟩
  rule h level p _ := h.tree level p

/-- If neither attempt is cut off, a pattern that prefers its outcomes in another order, and calls
patterns that do, matches where the pattern does. -/
theorem order_never_decides_match (b : Buffer) (environment environment' : Environment)
    (limits limits' : Limits) (pattern pattern' : Chain) (hb : b.position ≤ b.size)
    (htexts : environment.texts = environment'.texts)
    (hsubroutines :
      environment.subroutines.Related (Chain.Varies Node.Reorders) environment'.subroutines)
    (hpattern : pattern.Varies Node.Reorders pattern') :
    let c : Setting := { text := b.bytes, environment, limits }
    let c' : Setting := { text := b.bytes, environment := environment', limits := limits' }
    ∃ found t found' t', b.tryMatch c pattern = some (found, t) ∧
      b.tryMatch c' pattern' = some (found', t') ∧
      (t.stopped = none → t'.stopped = none → (found.isSome ↔ found'.isSome)) := by
  intro c c'
  have hc : c.Fits := Setting.fits_of rfl
  have hc' : c'.Fits := Setting.fits_of rfl
  obtain ⟨found, t, hmatch, _⟩ := b.tryMatch_attempt hc rfl hb pattern
  obtain ⟨found', t', hmatch', _⟩ := b.tryMatch_attempt hc' rfl hb pattern'
  refine ⟨found, t, found', t', hmatch, hmatch', fun hstop hstop' => ?_⟩
  obtain ⟨outcome, hprefers, _, rfl, _⟩ := b.tryMatch_prefers hc rfl hb hmatch hstop
  obtain ⟨outcome', hprefers', _, rfl, _⟩ := b.tryMatch_prefers hc' rfl hb hmatch' hstop'
  have hvaries : Variation (Tree.emptiness : Tree.Comparison Unit) b.bytes Node.Reorders []
      environment environment' := reordering_varies htexts hsubroutines
  have hempty : ∀ level,
      (pattern.tree b.bytes environment level ⟨b.position, {}⟩).first = some none ↔
        (pattern'.tree b.bytes environment' level ⟨b.position, {}⟩).first = some none := by
    intro level
    have h := hvaries.tree hpattern (Chain.spares_nil _) level b.position (fun _ => .leaf ())
      (fun _ => .leaf ()) fun _ _ _ => Iff.rfl
    exact Tree.first_map_eq_none.symm.trans (h.trans Tree.first_map_eq_none)
  -- A level at which one tree has come to an end without an outcome serves for the other one.
  have hnone : outcome = none ↔ outcome' = none := by
    constructor
    · rintro rfl
      obtain ⟨level, hlevel⟩ := hprefers
      exact hprefers'.unique ⟨level, (hempty level).mp hlevel⟩
    · rintro rfl
      obtain ⟨level, hlevel⟩ := hprefers'
      exact hprefers.unique ⟨level, (hempty level).mpr hlevel⟩
  simp only [Option.isSome_map, Option.isSome_iff_ne_none, ne_eq, hnone]

theorem reordered_letters_match :
    let b := Buffer.ofBytes ⟨#[97]⟩
    let a := Node.literal [97] false
    let z := Node.literal [122] false
    let environment : Environment := { subroutines := .ofList [("letter", .last (.or a z))] }
    let environment' : Environment := { subroutines := .ofList [("letter", .last (.or z a))] }
    let pattern := Chain.cons (.call "letter") (.last (.«repeat» (.atMost 1) false z))
    let pattern' := Chain.cons (.call "letter") (.last (.«repeat» (.atMost 1) true z))
    let c : Setting := { text := b.bytes, environment }
    let c' : Setting := { text := b.bytes, environment := environment' }
    b.position ≤ b.size ∧ environment.texts = environment'.texts ∧
      environment.subroutines.Related (Chain.Varies Node.Reorders) environment'.subroutines ∧
      pattern.Varies Node.Reorders pattern' ∧
      ∃ found t found' t', b.tryMatch c pattern = some (found, t) ∧
        b.tryMatch c' pattern' = some (found', t') ∧ t.stopped = none ∧ t'.stopped = none ∧
        (found.isSome ↔ found'.isSome) := by
  intro b a z environment environment' pattern pattern' c c'
  have hb : b.position ≤ b.size := Nat.zero_le _
  have hsubroutines :
      environment.subroutines.Related (Chain.Varies Node.Reorders) environment'.subroutines :=
    Bindings.related_empty.insert (.last (.apply (Node.varies_refl _) (.or a z))) "letter"
  have hpattern : pattern.Varies Node.Reorders pattern' :=
    .cons (Node.varies_refl _)
      (.last (.apply (Node.varies_refl _) (.«repeat» (.atMost 1) false true z)))
  have hrun : c.attempt pattern b.position = ⟨.found 1 .empty, 5⟩ := by
    iterate 6 refine (Search.run_of_ok rfl).trans ?_
    exact Search.run_of_error rfl
  have hrun' : c'.attempt pattern' b.position = ⟨.found 1 .empty, 5⟩ := by
    iterate 6 refine (Search.run_of_ok rfl).trans ?_
    exact Search.run_of_error rfl
  obtain ⟨found, t, found', t', hmatch, hmatch', h⟩ := order_never_decides_match b environment
    environment' {} {} pattern pattern' hb rfl hsubroutines hpattern
  have hstop : t.stopped = none := by
    rw [(b.tryMatch_reports (Setting.fits_of rfl) rfl hb hmatch).1, hrun]
    rfl
  have hstop' : t'.stopped = none := by
    rw [(b.tryMatch_reports (Setting.fits_of rfl) rfl hb hmatch').1, hrun']
    rfl
  exact ⟨hb, rfl, hsubroutines, hpattern, found, t, found', t', hmatch, hmatch', hstop, hstop',
    h hstop hstop'⟩

end WordPattern
