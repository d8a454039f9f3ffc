import Mathlib
import WordPattern.Proofs.Token.Cuts

/-!
# Pieces of a text

Where values are written one behind the other, each of them is told from the characters if what
stands behind it cannot belong to it. Digits are told in front of anything but a digit, and a list
is told in front of anything but one more member.
-/

namespace WordPattern.Text

variable {α : Type} {good : α → Prop} {tail : List Char → Prop} {write : α → List Char}
  {s t : List Char}

/-! ## Runs and counts -/

/-- No character with the property stands at the front. -/
def StopsAt (p : Char → Bool) (s : List Char) : Prop := ∀ c, s.head? = some c → p c = false

theorem stopsAt_cons {p : Char → Bool} {c : Char} (h : p c = false) : StopsAt p (c :: s) := by
  rintro _ ⟨⟩
  exact h

theorem run_append_inj {p : Char → Bool} {xs ys : List Char} (hxs : ∀ c ∈ xs, p c = true)
    (hys : ∀ c ∈ ys, p c = true) (hs : StopsAt p s) (ht : StopsAt p t) (h : xs ++ s = ys ++ t) :
    xs = ys ∧ s = t := by
  have htaken := congrArg (List.takeWhile p) h
  rw [Lexer.takeWhile_append_of_stop hs, Lexer.takeWhile_append_of_stop ht,
    List.takeWhile_eq_self_iff.mpr hxs, List.takeWhile_eq_self_iff.mpr hys] at htaken
  subst htaken
  exact ⟨rfl, List.append_cancel_left h⟩

theorem isDigit_of_mem_toDigits {n : Nat} : ∀ c ∈ Nat.toDigits 10 n, c.isDigit = true :=
  fun _ => Nat.isDigit_of_mem_toDigits (by omega) le_rfl

theorem count_append_inj {m n : Nat} (hs : StopsAt Char.isDigit s) (ht : StopsAt Char.isDigit t)
    (h : Nat.toDigits 10 m ++ s = Nat.toDigits 10 n ++ t) : m = n ∧ s = t := by
  obtain ⟨hdigits, hrest⟩ := run_append_inj isDigit_of_mem_toDigits isDigit_of_mem_toDigits hs ht h
  have hvalues := congrArg (Nat.ofDigitChars 10 · 0) hdigits
  simp only [Nat.ofDigitChars_ten_toDigits] at hvalues
  exact ⟨hvalues, hrest⟩

/-! ## Lists -/

/-- In front of such tails, the values are told from what they are written as. -/
def Tells (good : α → Prop) (tail : List Char → Prop) (write : α → List Char) : Prop :=
  ∀ ⦃a b : α⦄ ⦃s t : List Char⦄, good a → good b → tail s → tail t →
    write a ++ s = write b ++ t → a = b ∧ s = t

/-- A tail, and no member begins it. -/
def EndsList (good : α → Prop) (tail : List Char → Prop) (write : α → List Char) (s : List Char) :
    Prop :=
  tail s ∧ ∀ a r, good a → s ≠ write a ++ r

theorem tail_flatMap (htail : ∀ a s, good a → tail (write a ++ s)) {list : List α}
    (hlist : ∀ a ∈ list, good a) (hs : tail s) : tail (list.flatMap write ++ s) := by
  cases list with
  | nil => exact hs
  | cons a list =>
    rw [List.flatMap_cons, List.append_assoc]
    exact htail a _ (hlist a List.mem_cons_self)

/-- The members of a list are told one by one, up to a tail that no member begins. -/
theorem Tells.flatMap_append_inj (h : Tells good tail write)
    (htail : ∀ a s, good a → tail (write a ++ s)) {first second : List α}
    (hfirst : ∀ a ∈ first, good a) (hsecond : ∀ a ∈ second, good a)
    (hs : EndsList good tail write s) (ht : EndsList good tail write t)
    (heq : first.flatMap write ++ s = second.flatMap write ++ t) : first = second ∧ s = t := by
  induction first generalizing second with
  | nil =>
    cases second with
    | nil => exact ⟨rfl, heq⟩
    | cons b second =>
      rw [List.flatMap_cons, List.append_assoc] at heq
      exact absurd heq (hs.2 b _ (hsecond b List.mem_cons_self))
  | cons a first ih =>
    cases second with
    | nil =>
      rw [List.flatMap_cons, List.append_assoc] at heq
      exact absurd heq.symm (ht.2 a _ (hfirst a List.mem_cons_self))
    | cons b second =>
      obtain ⟨ha, hfirst⟩ := List.forall_mem_cons.mp hfirst
      obtain ⟨hb, hsecond⟩ := List.forall_mem_cons.mp hsecond
      rw [List.flatMap_cons, List.flatMap_cons, List.append_assoc, List.append_assoc] at heq
      obtain ⟨hab, heq⟩ :=
        h ha hb (tail_flatMap htail hfirst hs.1) (tail_flatMap htail hsecond ht.1) heq
      obtain ⟨hlists, hrest⟩ := ih hfirst hsecond heq
      exact ⟨by rw [hab, hlists], hrest⟩

end WordPattern.Text
