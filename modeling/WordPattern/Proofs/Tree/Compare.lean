import Mathlib.Data.List.Forall2
import WordPattern.Pattern.Tree

/-!
# Comparing trees of outcomes

Two trees are compared by what they come to, whatever is made of their outcomes. If the outcomes are
related, and related outcomes are gone on from in the same way, then one comparison of what is
reached in the end is a comparison of the whole trees.
-/

namespace WordPattern

namespace Tree

variable {α β γ : Type}

theorem bind_assoc (t : Tree α) (f : α → Tree β) (g : β → Tree γ) :
    (t.bind f).bind g = t.bind fun a => (f a).bind g := by
  induction t with
  | fail => rfl
  | leaf a => rfl
  | fork s t hs ht =>
    unfold bind
    rw [← hs, ← ht]
    rfl
  | cut => rfl

/-- The first outcome, seen from outside. -/
theorem first_map (t : Tree α) (observe : α → β) :
    (t.bind fun a => leaf (observe a)).first = t.first.map (·.map observe) := by
  induction t with
  | fail => rfl
  | leaf a => rfl
  | cut => rfl
  | fork s t hs ht =>
    unfold bind first
    rw [hs, ht]
    cases s.first with
    | none => rfl
    | some outcome => cases outcome <;> rfl

theorem first_map_eq_none {t : Tree α} {observe : α → β} :
    (t.bind fun a => leaf (observe a)).first = some none ↔ t.first = some none := by
  rw [first_map]
  cases t.first with
  | none => simp
  | some outcome => cases outcome <;> simp

/-- A way to compare trees, part by part. -/
structure Comparison (γ : Type) where
  Holds : Tree γ → Tree γ → Prop
  refl : ∀ t, Holds t t
  trans : ∀ {s t u}, Holds s t → Holds t u → Holds s u
  fork : ∀ {s s' t t'}, Holds s s' → Holds t t' → Holds (.fork s t) (.fork s' t')

namespace Comparison

variable (c : Comparison γ)

/-- The order of two parts does not count. -/
def Swaps : Prop := ∀ s t, c.Holds (.fork s t) (.fork t s)

/-- Two trees compare if what follows related outcomes does. -/
def Carries (R : α → β → Prop) (s : Tree α) (t : Tree β) : Prop :=
  ∀ f g, (∀ a b, R a b → c.Holds (f a) (g b)) → c.Holds (s.bind f) (t.bind g)

end Comparison

namespace Comparison.Carries

variable {c : Comparison γ} {R : α → β → Prop} {s s' : Tree α} {t t' : Tree β}

theorem fail : c.Carries R .fail .fail := fun _ _ _ => c.refl .fail

theorem cut : c.Carries R .cut .cut := fun _ _ _ => c.refl .cut

theorem leaf {a : α} {b : β} (h : R a b) : c.Carries R (.leaf a) (.leaf b) :=
  fun _ _ hfg => hfg a b h

theorem fork (hs : c.Carries R s t) (ht : c.Carries R s' t') :
    c.Carries R (.fork s s') (.fork t t') :=
  fun f g hfg => c.fork (hs f g hfg) (ht f g hfg)

theorem swap (h : c.Swaps) (hs : c.Carries R s t) (ht : c.Carries R s' t') :
    c.Carries R (.fork s s') (.fork t' t) :=
  fun f g hfg => c.trans (c.fork (hs f g hfg) (ht f g hfg)) (h _ _)

theorem when {b : Bool} (h : c.Carries R s t) :
    c.Carries R (if b then s else .fail) (if b then t else .fail) := by
  cases b with
  | true => exact h
  | false => exact fail

theorem bind {α' β' : Type} {R' : α' → β' → Prop} {f : α → Tree α'} {g : β → Tree β'}
    (h : c.Carries R s t) (hfg : ∀ a b, R a b → c.Carries R' (f a) (g b)) :
    c.Carries R' (s.bind f) (t.bind g) := by
  intro f' g' hfg'
  rw [bind_assoc, bind_assoc]
  exact h _ _ fun a b hab => hfg a b hab f' g' hfg'

/-- A tree may be exchanged for another one with the same outcomes. -/
theorem trans {u : Tree β} (h : c.Carries R s t) (h' : c.Carries Eq t u) : c.Carries R s u := by
  intro f g hfg
  refine c.trans (h f g hfg) (h' g g ?_)
  rintro b _ rfl
  exact c.refl (g b)

theorem refl {R : α → α → Prop} (h : ∀ a, R a a) (s : Tree α) : c.Carries R s s := by
  induction s with
  | fail => exact fail
  | leaf a => exact leaf (h a)
  | fork s t hs ht => exact fork hs ht
  | cut => exact cut

theorem choice {ts : List (Tree α)} {ts' : List (Tree β)}
    (h : List.Forall₂ (c.Carries R) ts ts') : c.Carries R (.choice ts) (.choice ts') := by
  induction h with
  | nil => exact fail
  | cons ht _ ih => exact fork ht ih

end Comparison.Carries

end Tree

/-- The rounds of a repetition compare if the bodies do, in either order if the order does not
count. -/
theorem Quantifier.tree_carries {γ : Type} {c : Tree.Comparison γ} {R : Spot → Spot → Prop}
    (hposition : ∀ p p', R p p' → p.position = p'.position) (quantifier : Quantifier)
    {fewest fewest' : Bool} (hfewest : fewest = fewest' ∨ c.Swaps) {body body' : Spot → Tree Spot}
    (hbody : ∀ p p', R p p' → c.Carries R (body p) (body' p')) (rounds : Nat) :
    ∀ count p p', R p p' → c.Carries R (quantifier.tree fewest body rounds count p)
      (quantifier.tree fewest' body' rounds count p') := by
  induction rounds with
  | zero => exact fun _ _ _ _ => .cut
  | succ rounds ih =>
    intro count p p' hp
    have stop : c.Carries R (if quantifier.metBy count then .leaf p else .fail)
        (if quantifier.metBy count then .leaf p' else .fail) := .when (.leaf hp)
    have grow : c.Carries R
        (if quantifier.allowsAfter count then
          (body p).bind fun q =>
            if q.position = p.position && quantifier.metBy (count + 1) then .leaf q
            else quantifier.tree fewest body rounds (count + 1) q
        else .fail)
        (if quantifier.allowsAfter count then
          (body' p').bind fun q =>
            if q.position = p'.position && quantifier.metBy (count + 1) then .leaf q
            else quantifier.tree fewest' body' rounds (count + 1) q
        else .fail) := by
      refine .when ((hbody p p' hp).bind fun q q' hq => ?_)
      rw [hposition p p' hp, hposition q q' hq]
      split
      · exact .leaf hq
      · exact ih (count + 1) q q' hq
    unfold Quantifier.tree
    rcases hfewest with rfl | hswaps
    · cases fewest with
      | true => exact stop.fork grow
      | false => exact grow.fork stop
    · -- What comes first in one tree may come second in the other one.
      cases fewest <;> cases fewest'
      · exact grow.fork stop
      · exact grow.swap hswaps stop
      · exact stop.swap hswaps grow
      · exact stop.fork grow

end WordPattern
