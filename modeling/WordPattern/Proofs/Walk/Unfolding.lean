import WordPattern.Proofs.Tree.Order
import WordPattern.Proofs.Tree.Varies
import WordPattern.Proofs.Walk.Outcomes

/-!
# Names that are unfolded

A name that nothing in a search binds anew stands for what it is bound to outside. Where it is
replaced by that, the tree of the pattern is the same, only that less of it is cut off.
-/

namespace WordPattern

/-! ## Trees that come to the same -/

namespace Tree

variable {α γ : Type}

/-- What the first tree comes to, the second one comes to as well. -/
def answers : Comparison γ where
  Holds s t := ∀ outcome, s.first = some outcome → t.first = some outcome
  refl _ _ := id
  trans hs ht outcome h := ht outcome (hs outcome h)
  fork {s s' t t'} hs ht outcome h := by
    unfold first at h ⊢
    cases hf : s.first with
    | none =>
      rw [hf] at h
      cases h
    | some found =>
      rw [hf] at h
      rw [hs found hf]
      cases found with
      | some a => exact h
      | none => exact ht outcome h

theorem answers_of_le {s t : Tree α} (h : s ≤ t) :
    (answers : Comparison γ).Carries Eq s t := by
  intro f g hfg
  have hsame : (answers : Comparison γ).Holds (t.bind f) (t.bind g) :=
    Comparison.Carries.refl (fun _ => rfl) t f g hfg
  exact answers.trans (fun _ => first_of_le (bind_le h fun a => le_refl (f a))) hsame

end Tree

/-- What a match shows of a spot: where it ends, and what it has captured. -/
def Spot.shown (p : Spot) : Nat × Bindings String := (p.position, p.trail.captures)

/-- Walks that have not stopped show the same if the tree of one pattern answers as the tree of the
other one does. -/
theorem Buffer.tryMatch_shows (b : Buffer) {c c' : Setting} {pattern pattern' : Chain}
    {found found' : Option Trail} {t t' : Walk.State} (hc : c.Fits) (hc' : c'.Fits)
    (htext : b.bytes = c.text) (htext' : b.bytes = c'.text) (hb : b.position ≤ b.size)
    (hmatch : b.tryMatch c pattern = some (found, t))
    (hmatch' : b.tryMatch c' pattern' = some (found', t')) (hstop : t.stopped = none)
    (hstop' : t'.stopped = none)
    (h : ∀ level, Tree.answers.Holds
      ((pattern.tree c.text c.environment level ⟨b.position, {}⟩).bind fun p => .leaf p.shown)
      ((pattern'.tree c'.text c'.environment level ⟨b.position, {}⟩).bind fun p => .leaf p.shown)) :
    found.map Trail.captures = found'.map Trail.captures ∧ t.position = t'.position := by
  have shown : ∀ outcome : Option Spot,
      (outcome.map Spot.trail).map Trail.captures = (outcome.map Spot.shown).map Prod.snd ∧
        outcome.elim b.position Spot.position =
          (outcome.map Spot.shown).elim b.position Prod.fst := by
    rintro (_ | p) <;> exact ⟨rfl, rfl⟩
  obtain ⟨outcome, ⟨level, hfirst⟩, _, rfl, hposition⟩ :=
    b.tryMatch_prefers hc htext hb hmatch hstop
  obtain ⟨outcome', hprefers', _, rfl, hposition'⟩ :=
    b.tryMatch_prefers hc' htext' hb hmatch' hstop'
  have hanswers := h level (outcome.map Spot.shown) (by rw [Tree.first_map, hfirst]; rfl)
  rw [Tree.first_map] at hanswers
  obtain ⟨outcome'', hfound, hshown⟩ := Option.map_eq_some_iff.mp hanswers
  obtain rfl := hprefers'.unique ⟨level, hfound⟩
  rw [hposition, hposition', (shown outcome).1, (shown outcome).2, ← hshown]
  exact ⟨(shown outcome').1.symm, (shown outcome').2.symm⟩

/-! ## Elements that are unfolded -/

/-- An element that stands for what a name is bound to is replaced by it: a variable by a literal of
its text, a call by the pattern in parentheses. -/
inductive Environment.Unfolds (environment : Environment) : Name → Node → Node → Prop
  | text {name value : String} (h : environment.texts.get? name = some value) :
    Unfolds environment (.text name) (.variableText name) (.literal value.toUTF8.toList false)
  | pattern {name : String} {chain : Chain}
    (h : environment.subroutines.get? name = some chain) :
    Unfolds environment (.pattern name) (.call name) (.group chain)

variable {text : ByteArray} {environment : Environment} {name : Name}

/-- A pattern that is called is cut off one level earlier than one that is not. -/
theorem Chain.calledTree_le_tree (chain : Chain) (level : Nat) (p : Spot) :
    chain.calledTree text environment level p ≤ chain.tree text environment level p := by
  cases level with
  | zero => exact .cut _
  | succ level => exact chain.tree_le (Nat.le_succ level) p

theorem Environment.Unfolds.tree_le {node node' : Node} (h : environment.Unfolds name node node')
    (level : Nat) (p : Spot) (hp : p.trail.Spares [name]) :
    node.tree text environment level p ≤ node'.tree text environment level p := by
  cases h with
  | @text name value h =>
    have hvalue : (p.trail.captures.get? name).or (environment.texts.get? name) = some value := by
      rw [hp.1 name (List.mem_singleton.mpr rfl), h]
      rfl
    have hsame : (Node.variableText name).tree text environment level p =
        (Node.literal value.toUTF8.toList false).tree text environment level p := by
      unfold Node.tree Node.treeWith Node.plainTree Node.end?
      simp only [hvalue]
      split <;> rfl
    rw [hsame]
    exact Tree.le_refl _
  | @pattern name chain h =>
    have hchain : (p.trail.subroutines.get? name).or (environment.subroutines.get? name) =
        some chain := by
      rw [hp.2 name (List.mem_singleton.mpr rfl), h]
      rfl
    have hcall : (Node.call name).tree text environment level p =
        chain.calledTree text environment level p := by
      unfold Node.tree Node.treeWith
      rw [hchain]
    rw [hcall]
    exact chain.calledTree_le_tree level p

theorem unfolding_varies (hspares : environment.subroutines.Every (·.spares [name] = true)) :
    Variation (Tree.answers : Tree.Comparison (Nat × Bindings String)) text
      (environment.Unfolds name) [name] environment environment where
  texts := rfl
  subroutines := hspares.related fun _ h => ⟨Chain.varies_refl _, h⟩
  rule h level p hp := Tree.answers_of_le (h.tree_le level p hp)

/-- If neither attempt is cut off, it makes no difference whether a pattern names what is bound
outside or holds it, wherever it does, as long as nothing binds the name anew: the match ends in the
same place and has captured the same. -/
theorem unfolding_keeps_matches (b : Buffer) (environment : Environment)
    (limits limits' : Limits) (name : Name) (pattern pattern' : Chain) (hb : b.position ≤ b.size)
    (hpattern : pattern.spares [name] = true)
    (henvironment : environment.subroutines.Every (·.spares [name] = true))
    (hunfolded : pattern.Varies (environment.Unfolds name) pattern') :
    let c : Setting := { text := b.bytes, environment, limits }
    let c' : Setting := { text := b.bytes, environment, limits := limits' }
    ∃ found t found' t', b.tryMatch c pattern = some (found, t) ∧
      b.tryMatch c' pattern' = some (found', t') ∧
      (t.stopped = none → t'.stopped = none →
        found.map Trail.captures = found'.map Trail.captures ∧ t.position = t'.position) := by
  intro c c'
  have hc : c.Fits := Setting.fits_of rfl
  have hc' : c'.Fits := Setting.fits_of rfl
  obtain ⟨found, t, hmatch, _⟩ := b.tryMatch_attempt hc rfl hb pattern
  obtain ⟨found', t', hmatch', _⟩ := b.tryMatch_attempt hc' rfl hb pattern'
  refine ⟨found, t, found', t', hmatch, hmatch', fun hstop hstop' => ?_⟩
  refine b.tryMatch_shows hc hc' rfl rfl hb hmatch hmatch' hstop hstop' fun level => ?_
  have hvaries : Variation (Tree.answers : Tree.Comparison (Nat × Bindings String)) b.bytes
      (environment.Unfolds name) [name] environment environment := unfolding_varies henvironment
  refine hvaries.tree hunfolded hpattern level b.position _ _ fun p p' hp outcome h => ?_
  rw [← h, show p.shown = p'.shown from Prod.ext hp.position hp.captures]

/-- A pattern that calls itself, unfolded inside of a repetition. -/
theorem nested_call_unfolds :
    let b := Buffer.ofBytes ⟨#[97, 97]⟩
    let a := Node.literal [97] false
    let nested := Chain.cons a (.last (.«repeat» (.atMost 1) false (.call "nested")))
    let environment : Environment := { subroutines := .ofList [("nested", nested)] }
    let pattern := Chain.last (.capture "all" (.«repeat» (.exactly 1) false (.call "nested")))
    let pattern' := Chain.last (.capture "all" (.«repeat» (.exactly 1) false (.group nested)))
    let c : Setting := { text := b.bytes, environment }
    b.position ≤ b.size ∧ pattern.spares [.pattern "nested"] = true ∧
      environment.subroutines.Every (·.spares [.pattern "nested"] = true) ∧
      pattern.Varies (environment.Unfolds (.pattern "nested")) pattern' ∧
      ∃ found t found' t', b.tryMatch c pattern = some (found, t) ∧
        b.tryMatch c pattern' = some (found', t') ∧ t.stopped = none ∧ t'.stopped = none ∧
        found.map Trail.captures = found'.map Trail.captures ∧ t.position = t'.position := by
  intro b a nested environment pattern pattern' c
  have hb : b.position ≤ b.size := Nat.zero_le _
  have henvironment : environment.subroutines.Every (·.spares [.pattern "nested"] = true) :=
    Bindings.every_empty.insert (by rfl) "nested"
  have hunfolded : pattern.Varies (environment.Unfolds (.pattern "nested")) pattern' :=
    .last (.capture (.«repeat» (.apply (.plain rfl) (.pattern rfl))))
  obtain ⟨found, t, found', t', hmatch, hmatch', h⟩ := unfolding_keeps_matches b environment {} {}
    (.pattern "nested") pattern pattern' hb rfl henvironment hunfolded
  let captures := Bindings.empty.insert "all" (Text.decode (b.bytes.extract 0 2))
  have hrun : c.attempt pattern b.position = ⟨.found 2 captures, 10⟩ := by
    iterate 15 refine (Search.run_of_ok rfl).trans ?_
    exact Search.run_of_error rfl
  have hrun' : c.attempt pattern' b.position = ⟨.found 2 captures, 10⟩ := by
    iterate 15 refine (Search.run_of_ok rfl).trans ?_
    exact Search.run_of_error rfl
  have hstop : t.stopped = none := by
    rw [(b.tryMatch_reports (Setting.fits_of rfl) rfl hb hmatch).1, hrun]
    rfl
  have hstop' : t'.stopped = none := by
    rw [(b.tryMatch_reports (Setting.fits_of rfl) rfl hb hmatch').1, hrun']
    rfl
  exact ⟨hb, rfl, henvironment, hunfolded, found, t, found', t', hmatch, hmatch', hstop, hstop',
    h hstop hstop'⟩

end WordPattern
