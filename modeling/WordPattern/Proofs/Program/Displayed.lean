import Mathlib
import WordPattern.Proofs.Program.Reading
import WordPattern.Proofs.Token.Written

/-!
# Amounts and quantifiers are shown as they are read

What an amount or a quantifier is shown as is made of keywords and counts with blanks between them.
It is cut at the blanks, and what it was made of is read again. A count is shown by digits alone,
and digits are read only if they stand for a number below the bound.
-/

namespace WordPattern

/-! ## Counts -/

/-- A count in digits. -/
def Numeral.ofCount (n : Nat) : Numeral := ⟨Nat.toDigits 10 n, none⟩

namespace Numeral

variable {n : Nat}

theorem toList_text_ofCount : (ofCount n).text.toList = (toString n).toList := by
  simp [ofCount, text]

theorem wellFormed_ofCount : (ofCount n).WellFormed := by
  refine ⟨⟨Nat.toDigits_ne_nil, ?_⟩, ?_⟩
  · intro c hc
    exact Nat.isDigit_of_mem_toDigits (by omega) le_rfl hc
  · rintro digits ⟨⟩

theorem decimalValue_toDigits : decimalValue (Nat.toDigits 10 n) = n := by
  have hread : Nat.ofDigitChars 10 (Nat.toDigits 10 n) 0 = n := Nat.ofDigitChars_ten_toDigits
  simp only [Nat.ofDigitChars_eq_foldl, Nat.mul_comm 10] at hread
  have hfold := digits_foldl (Nat.toDigits 10 n) 0
  rw [hread, Nat.zero_mul, Nat.zero_add] at hfold
  exact hfold.symm

theorem isCount_ofCount (h : n < 2 ^ 64) : (Lexeme.number (ofCount n)).IsCount n := by
  have hcount := Lexeme.IsCount.whole (Nat.toDigits 10 n)
  rw [decimalValue_toDigits] at hcount
  exact hcount h

theorem count?_eq_none {n : Numeral} (h : n.fraction ≠ none ∨ 2 ^ 64 ≤ decimalValue n.whole) :
    n.count? = none := by
  rw [Option.eq_none_iff_forall_ne_some]
  intro count hcount
  cases count?_eq_some_iff.mp hcount with
  | whole digits hlt =>
    rcases h with hfraction | hlarge
    · exact hfraction rfl
    · exact absurd hlt (Nat.not_lt.mpr hlarge)

end Numeral

/-! ## Texts that show lexemes -/

namespace Lexeme

/-- The characters are written with these lexemes, all of which occur in texts. -/
def Shows (chars : List Char) (ls : List Lexeme) : Prop :=
  Written chars ls ∧ ∀ l ∈ ls, l.WellFormed

variable {front chars : List Char} {ls : List Lexeme} {l m : Lexeme}

theorem shows_keyword (k : Keyword) : Shows k.spelling.toList [.keyword k] :=
  ⟨.last (.keyword k), List.forall_mem_singleton.mpr trivial⟩

theorem shows_count (n : Nat) : Shows (toString n).toList [.number (.ofCount n)] := by
  rw [← Numeral.toList_text_ofCount]
  exact ⟨.last (.number _), List.forall_mem_singleton.mpr Numeral.wellFormed_ofCount⟩

theorem Shows.behind (h : Shows front [l]) (hmore : Shows chars (m :: ls)) :
    Shows (front ++ ' ' :: chars) (l :: m :: ls) := by
  obtain ⟨hwritten, hl⟩ := h
  obtain ⟨hothers, hls⟩ := hmore
  have hform : Form front l := by
    cases hwritten with
    | last hform => exact hform
  have hgap : ∀ c ∈ [' '], Text.isBlank c = true := List.forall_mem_singleton.mpr rfl
  exact ⟨.cons hform (List.cons_ne_nil _ _) hgap hothers,
    List.forall_mem_cons.mpr ⟨List.forall_mem_singleton.mp hl, hls⟩⟩

theorem Shows.tokens {text : String} (h : Shows text.toList ls) :
    ∃ tokens, Tokens.ofSource text = .ok tokens ∧ lexemes tokens.list = ls :=
  Lexer.ofSource_iff.mpr (h.1.cuts h.2)

end Lexeme

open Lexeme Numeral

theorem Amount.shows_display {a : Amount} (hskip : a.skip < 2 ^ 64)
    (htake : ∀ most ∈ a.take, most < 2 ^ 64) :
    ∃ ls, Shows a.display.toList ls ∧ Statement.AmountForm ls a := by
  have hskips (n : Nat) := (shows_keyword .skip).behind (shows_count n)
  obtain ⟨skip, take⟩ := a
  cases take with
  | none =>
    cases skip with
    | zero => exact ⟨_, shows_keyword .all, .all⟩
    | succ skip =>
      refine ⟨_, ?_, .skip (isCount_ofCount hskip)⟩
      simpa [display, Keyword.spelling] using hskips (skip + 1)
  | some most =>
    have hmost := htake most rfl
    cases skip with
    | zero =>
      refine ⟨_, ?_, .top (isCount_ofCount hmost)⟩
      simpa [display, Keyword.spelling] using (shows_keyword .top).behind (shows_count most)
    | succ skip =>
      refine ⟨_, ?_, .skipTake (isCount_ofCount hskip) (isCount_ofCount hmost)⟩
      have htakes := (shows_keyword .take).behind (shows_count most)
      simpa [display, Keyword.spelling] using
        (shows_keyword .skip).behind ((shows_count (skip + 1)).behind htakes)

theorem Quantifier.shows_display {q : Quantifier} (hleast : q.least < 2 ^ 64)
    (hmost : ∀ most ∈ q.most?, most < 2 ^ 64 ∧ q.least ≤ most) :
    ∃ ls, Shows q.display.toList ls ∧ Pattern.QuantifierForm ls q := by
  cases q with
  | exactly n =>
    refine ⟨_, ?_, .exactly (isCount_ofCount hleast)⟩
    simpa [display, Keyword.spelling] using (shows_keyword .exactly).behind (shows_count n)
  | atLeast n =>
    refine ⟨_, ?_, .atLeast (isCount_ofCount hleast)⟩
    simpa [display, Keyword.spelling] using
      (shows_keyword .«at»).behind ((shows_keyword .least).behind (shows_count n))
  | atMost n =>
    refine ⟨_, ?_, .atMost (isCount_ofCount (hmost n rfl).1)⟩
    simpa [display, Keyword.spelling] using
      (shows_keyword .«at»).behind ((shows_keyword .most).behind (shows_count n))
  | between least most =>
    obtain ⟨hlt, hle⟩ := hmost most rfl
    refine ⟨_, ?_, .between (isCount_ofCount hleast) (isCount_ofCount hlt) hle⟩
    have hand := (shows_keyword .and).behind (shows_count most)
    simpa [display, Keyword.spelling] using
      (shows_keyword .between).behind ((shows_count least).behind hand)

/-- Amounts and quantifiers are read from what they are shown as, to the end of the text. A number
is no count if it is too large or has a fraction. -/
theorem displayed_amounts_and_quantifiers_are_read :
    (∀ a : Amount, a.skip < 2 ^ 64 → (∀ most ∈ a.take, most < 2 ^ 64) →
      ∃ tokens, Tokens.ofSource a.display = .ok tokens ∧
        Reads (Amount.parse tokens.finish tokens.list) a []) ∧
    (∀ q : Quantifier, q.least < 2 ^ 64 → (∀ most ∈ q.most?, most < 2 ^ 64 ∧ q.least ≤ most) →
      ∃ tokens outcome, Tokens.ofSource q.display = .ok tokens ∧
        Pattern.quantifier? tokens.finish tokens.list = some outcome ∧ Reads outcome q []) ∧
    ∀ (finish position : Position) (n : Numeral) (rest : List Token),
      n.fraction ≠ none ∨ 2 ^ 64 ≤ decimalValue n.whole →
      expectCount finish (⟨.number n, position⟩ :: rest) = .error ⟨.notWhole n, position⟩ := by
  refine ⟨?_, ?_, ?_⟩
  · intro a hskip htake
    obtain ⟨ls, hshows, hform⟩ := Amount.shows_display hskip htake
    obtain ⟨tokens, htokens, rfl⟩ := hshows.tokens
    have hread : Reads (Amount.parse tokens.finish (tokens.list ++ [])) a [] :=
      Statement.reads_amount hform avoids_nil
    rw [List.append_nil] at hread
    exact ⟨tokens, htokens, hread⟩
  · intro q hleast hmost
    obtain ⟨ls, hshows, hform⟩ := Quantifier.shows_display hleast hmost
    obtain ⟨tokens, htokens, rfl⟩ := hshows.tokens
    have hread := Pattern.reads_quantifier tokens.finish [] hform
    rw [List.append_nil] at hread
    obtain ⟨outcome, houtcome, hread⟩ := hread
    exact ⟨tokens, outcome, htokens, houtcome, hread⟩
  · intro finish position n rest h
    rw [expectCount, Numeral.count?_eq_none h]

/-- The greatest count is read back on both sides of `and`, and the next number is no count. -/
theorem greatest_counts_are_read_back :
    let greatest := 2 ^ 64 - 1
    let a : Amount := ⟨greatest, some greatest⟩
    let q : Quantifier := .between greatest greatest
    let digits : List Char := Nat.toDigits 10 (2 ^ 64)
    (a.skip < 2 ^ 64 ∧ (∀ most ∈ a.take, most < 2 ^ 64) ∧
      ∃ tokens, Tokens.ofSource a.display = .ok tokens ∧
        Reads (Amount.parse tokens.finish tokens.list) a []) ∧
    (q.least < 2 ^ 64 ∧ (∀ most ∈ q.most?, most < 2 ^ 64 ∧ q.least ≤ most) ∧
      ∃ tokens outcome, Tokens.ofSource q.display = .ok tokens ∧
        Pattern.quantifier? tokens.finish tokens.list = some outcome ∧ Reads outcome q []) ∧
    (2 ^ 64 ≤ decimalValue digits ∧
      expectCount .start [⟨.number ⟨digits, none⟩, .start⟩] =
        .error ⟨.notWhole ⟨digits, none⟩, .start⟩) := by
  intro greatest a q digits
  obtain ⟨hamounts, hquantifiers, hcounts⟩ := displayed_amounts_and_quantifiers_are_read
  have hlt : greatest < 2 ^ 64 := by norm_num [greatest]
  have htake : ∀ most ∈ a.take, most < 2 ^ 64 := by
    rintro most ⟨⟩
    exact hlt
  have hmost : ∀ most ∈ q.most?, most < 2 ^ 64 ∧ q.least ≤ most := by
    rintro most ⟨⟩
    exact ⟨hlt, le_rfl⟩
  have hlarge : 2 ^ 64 ≤ decimalValue digits := decimalValue_toDigits.ge
  exact ⟨⟨hlt, htake, hamounts a hlt htake⟩, ⟨hlt, hmost, hquantifiers q hlt hmost⟩, hlarge,
    hcounts .start .start ⟨digits, none⟩ [] (.inr hlarge)⟩

end WordPattern
