import Mathlib.Data.Nat.Digits.Lemmas
import Mathlib.Tactic.Ring
import WordPattern.Token.Parsed

/-!
# Counts

A count is a whole number, and not too large for the machine.
-/

namespace WordPattern

/-- The number that decimal digits stand for. -/
def decimalValue (digits : List Char) : Nat :=
  Nat.ofDigits 10 (digits.reverse.map fun c => c.toNat - '0'.toNat)

/-- A number that is whole and below 2 ^ 64. -/
inductive Lexeme.IsCount : Lexeme → Nat → Prop
  | whole (digits : List Char) (h : decimalValue digits < 2 ^ 64) :
    IsCount (.number ⟨digits, none⟩) (decimalValue digits)

theorem digits_foldl (digits : List Char) (value : Nat) :
    digits.foldl (fun value c => value * 10 + (c.toNat - '0'.toNat)) value =
      value * 10 ^ digits.length + decimalValue digits := by
  induction digits generalizing value with
  | nil => simp [decimalValue]
  | cons c digits ih =>
    rw [List.foldl_cons, ih]
    simp only [decimalValue, List.reverse_cons, List.map_append, List.map_cons, List.map_nil,
      Nat.ofDigits_append, Nat.ofDigits_singleton, List.length_map, List.length_reverse,
      List.length_cons]
    ring

theorem count?_eq_some_iff {numeral : Numeral} {count : Nat} :
    numeral.count? = some count ↔ (Lexeme.number numeral).IsCount count := by
  obtain ⟨whole, fraction⟩ := numeral
  have hvalue : whole.foldl (fun value c => value * 10 + (c.toNat - '0'.toNat)) 0 =
      decimalValue whole := by rw [digits_foldl, Nat.zero_mul, Nat.zero_add]
  simp only [Numeral.count?, hvalue]
  constructor
  · intro h
    split at h
    · rename_i hcount
      obtain ⟨hnone, hlt⟩ := Bool.and_eq_true_iff.mp hcount
      obtain rfl : fraction = none := Option.isNone_iff_eq_none.mp hnone
      cases h
      exact .whole whole (of_decide_eq_true hlt)
    · cases h
  · rintro ⟨digits, hlt⟩
    have hbound : decimalValue whole < countBound := hlt
    simp [hbound]

end WordPattern
