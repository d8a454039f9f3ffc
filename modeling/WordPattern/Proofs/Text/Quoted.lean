import Mathlib
import WordPattern.Proofs.Text.Pieces
import WordPattern.Proofs.Token.Literals
import WordPattern.Text.Quoted

/-!
# Quoted texts

What a character is written as between quotes can be read back, and no quote begins it. So a quoted
text ends at its closing quote, whatever stands in it, and it is written on a single line.
-/

namespace WordPattern.Text

/-! ## Code points in hexadecimal -/

/-- The number that hexadecimal digits stand for. -/
def hexValue (digits : List Char) : Nat :=
  digits.foldl (fun value c => 16 * value + (Lexer.hexDigit? c).getD 0) 0

theorem hexValue_snoc {digits : List Char} {n : Nat} (hn : n < 16) :
    hexValue (digits ++ [n.digitChar]) = 16 * hexValue digits + n := by
  simp [hexValue, (HexDigit.lower n hn).read]

theorem hexValue_toDigits (n : Nat) : hexValue (Nat.toDigits 16 n) = n := by
  induction n using Nat.strongRecOn with
  | ind n ih =>
    rw [Nat.toDigits_eq_if (by decide)]
    split
    · rename_i hn
      have hdigit : hexValue ([] ++ [n.digitChar]) = 16 * hexValue [] + n := hexValue_snoc hn
      simpa [hexValue] using hdigit
    · rw [hexValue_snoc (Nat.mod_lt n (by decide)), ih (n / 16) (by omega)]
      omega

theorem exists_digitChar {n : Nat} : ∀ c ∈ Nat.toDigits 16 n, ∃ k : Nat, c = k.digitChar := by
  induction n using Nat.strongRecOn with
  | ind n ih =>
    rw [Nat.toDigits_eq_if (by decide)]
    split
    · simp only [List.mem_singleton]
      rintro c rfl
      exact ⟨n, rfl⟩
    · intro c hc
      rcases List.mem_append.mp hc with hc | hc
      · exact ih (n / 16) (by omega) c hc
      · exact ⟨_, List.mem_singleton.mp hc⟩

/-! ## Escapes -/

/-- The character that stands behind a backslash, and what follows it. -/
def escaped? : List Char → Option (Char × List Char)
  | [] => none
  | c :: rest =>
    if c = '0' then some ('\x00', rest)
    else if c = 't' then some ('\t', rest)
    else if c = 'r' then some ('\r', rest)
    else if c = 'n' then some ('\n', rest)
    else if c = 'u' then
      let code := rest.tail
      some (Char.ofNat (hexValue (code.takeWhile (· != '\x7d'))),
        (code.dropWhile (· != '\x7d')).tail)
    else some (c, rest)

/-- The character at the front of what stands between quotes, and what follows it. -/
def character? : List Char → Option (Char × List Char)
  | [] => none
  | c :: rest => if c = '\\' then escaped? rest else some (c, rest)

theorem character?_escapeCode (c : Char) (rest : List Char) :
    character? (escapeCode c ++ rest) = some (c, rest) := by
  have hdigits : ∀ d ∈ Nat.toDigits 16 c.toNat, (d != '\x7d') = true := by
    intro d hd
    obtain ⟨k, rfl⟩ := exists_digitChar d hd
    exact bne_iff_ne.mpr (Nat.digitChar_ne '\x7d' rfl)
  have hstop : ∀ y, ('\x7d' :: rest).head? = some y → (y != '\x7d') = false := by
    rintro y ⟨⟩
    rfl
  have htake : (Nat.toDigits 16 c.toNat ++ '\x7d' :: rest).takeWhile (· != '\x7d') =
      Nat.toDigits 16 c.toNat := by
    rw [Lexer.takeWhile_append_of_stop hstop, List.takeWhile_eq_self_iff.mpr hdigits]
  have hdrop : (Nat.toDigits 16 c.toNat ++ '\x7d' :: rest).dropWhile (· != '\x7d') =
      '\x7d' :: rest := by
    rw [Lexer.dropWhile_append_of_stop hstop, List.dropWhile_eq_nil_iff.mpr hdigits,
      List.nil_append]
  simp [escapeCode, character?, escaped?, htake, hdrop, hexValue_toDigits, Char.ofNat_toNat]

/-- A character is read back from what it is written as between double quotes. -/
theorem character?_escapeChar (c : Char) (rest : List Char) :
    character? (escapeChar doubleMark c ++ rest) = some (c, rest) := by
  unfold escapeChar
  split
  · simp_all [character?, escaped?]
  split
  · simp_all [character?, escaped?]
  split
  · simp_all [character?, escaped?]
  split
  · simp_all [character?, escaped?]
  split
  · rename_i h
    simp only [Bool.or_eq_true, beq_iff_eq] at h
    rcases h with rfl | rfl <;> rfl
  split
  · simp_all [character?]
  · exact character?_escapeCode c rest

theorem tells_escapeChar :
    Tells (fun _ => True) (fun _ => True) (escapeChar doubleMark) := by
  intro a b s t _ _ _ _ h
  have hread := congrArg character? h
  rw [character?_escapeChar, character?_escapeChar] at hread
  simpa using hread

theorem escapeChar_append_ne (c : Char) (s t : List Char) :
    doubleMark :: s ≠ escapeChar doubleMark c ++ t := by
  intro h
  have hread := congrArg character? h
  rw [character?_escapeChar] at hread
  simp only [character?] at hread
  cases hread
  cases h

/-- A quoted text ends at its closing quote. -/
theorem quote_append_inj {a b : String} {s t : List Char}
    (h : (quote a).toList ++ s = (quote b).toList ++ t) : a = b ∧ s = t := by
  have hends (s : List Char) :
      EndsList (fun _ => True) (fun _ => True) (escapeChar doubleMark) (doubleMark :: s) :=
    ⟨trivial, fun c r _ => escapeChar_append_ne c s r⟩
  simp only [quote, String.toList_ofList, List.cons_append, List.append_assoc, List.nil_append,
    List.cons.injEq, true_and] at h
  obtain ⟨htexts, hrest⟩ := tells_escapeChar.flatMap_append_inj (fun _ _ _ => trivial)
    (fun _ _ => trivial) (fun _ _ => trivial) (hends s) (hends t) h
  exact ⟨String.toList_injective htexts, List.cons_injective hrest⟩

theorem newline_notMem_escapeChar (c : Char) : '\n' ∉ escapeChar doubleMark c := by
  have hdigits : '\n' ∉ Nat.toDigits 16 c.toNat := by
    intro h
    obtain ⟨k, hk⟩ := exists_digitChar _ h
    exact Nat.digitChar_ne '\n' rfl hk.symm
  unfold escapeChar
  split
  · decide
  split
  · decide
  split
  · decide
  split
  · decide
  rename_i hnewline
  split
  · rename_i h
    simp only [Bool.or_eq_true, beq_iff_eq] at h
    rcases h with rfl | rfl <;> decide
  split
  · intro h
    cases List.mem_singleton.mp h
    exact hnewline (beq_self_eq_true _)
  · simpa [escapeCode] using hdigits

theorem newline_notMem_quote (text : String) : '\n' ∉ (quote text).toList := by
  have hbody : '\n' ∉ text.toList.flatMap (escapeChar doubleMark) := by
    intro h
    obtain ⟨c, -, hc⟩ := List.mem_flatMap.mp h
    exact newline_notMem_escapeChar c hc
  have hmark : '\n' ≠ doubleMark := by decide
  simp [quote, hbody, hmark]

end WordPattern.Text
