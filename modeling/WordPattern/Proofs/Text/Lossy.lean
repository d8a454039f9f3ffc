import Mathlib.Data.String.Basic
import WordPattern.Text.Utf8

/-!
# Bytes that are read and written again

Bytes that are read as text come back from it unchanged if they are UTF-8, and only then. They never
become fewer: every character read is at least as long as the bytes that it stands for.
-/

namespace WordPattern.Text

open String (utf8Len)

/-! ## Open characters -/

theorem utf8Size_ofNat {v : Nat} (hv : v.isValidChar) :
    (Char.ofNat v).utf8Size =
      if v ≤ 0x7F then 1 else if v ≤ 0x7FF then 2 else if v ≤ 0xFFFF then 3 else 4 := by
  have hval : (Char.ofNat v).val.toNat = v := by
    rw [Char.ofNat, dif_pos hv]
    exact UInt32.toNat_ofNatLT
  simp only [Char.utf8Size, UInt32.le_iff_toNat_le, hval]
  rfl

namespace OpenChar

/-- The least code point that the character may still become. -/
def least (p : OpenChar) : Nat :=
  p.bits * 64 ^ (p.owed + 1) + p.low.toNat % 64 * 64 ^ p.owed

/-- The first code point that is too great for the character. -/
def past (p : OpenChar) : Nat :=
  p.bits * 64 ^ (p.owed + 1) + (p.high.toNat % 64 + 1) * 64 ^ p.owed

/-- Some bytes of the character have been read. Whatever it becomes, it is as long as all its
bytes. -/
structure Opened (p : OpenChar) (read : Nat) : Prop where
  few : read + p.owed ≤ 3
  low : 0x80 ≤ p.low.toNat
  high : p.high.toNat ≤ 0xBF
  long : ∀ v, p.least ≤ v → v < p.past → read + p.owed + 1 ≤ (Char.ofNat v).utf8Size

/-- The code points that a character may become have all its length, and none is a surrogate. -/
theorem Opened.of_bounds {p : OpenChar} {read length : Nat} (hlength : read + p.owed + 1 = length)
    (hlow : 0x80 ≤ p.low.toNat) (hhigh : p.high.toNat ≤ 0xBF)
    (hscalar : p.past ≤ 0xD800 ∨ 0xE000 ≤ p.least ∧ p.past ≤ 0x110000)
    (hlong : length = 2 ∧ 0x80 ≤ p.least ∨ length = 3 ∧ 0x800 ≤ p.least ∨
      length = 4 ∧ 0x10000 ≤ p.least) : p.Opened read := by
  refine ⟨by omega, hlow, hhigh, fun v hleast hpast => ?_⟩
  have hv : v.isValidChar := by
    unfold Nat.isValidChar
    omega
  rw [hlength, utf8Size_ofNat hv]
  split
  · omega
  · split
    · omega
    · split <;> omega

theorem opened_ofLead {b : UInt8} {p : OpenChar} (h : ofLead? b = some p) : p.Opened 1 := by
  unfold ofLead? at h
  simp only [Bool.and_eq_true, decide_eq_true_eq, beq_iff_eq, UInt8.le_iff_toNat_le,
    ← UInt8.toNat_inj, UInt8.reduceToNat] at h
  split at h
  · cases h
    refine .of_bounds rfl (by simp) (by simp) ?_ ?_ <;> simp [least, past] <;> omega
  split at h
  · cases h
    exact .of_bounds rfl (by simp) (by simp) (by simp [past]) (by simp [least])
  split at h
  · cases h
    exact .of_bounds rfl (by simp) (by simp) (by simp [past]) (by simp [least])
  split at h
  · cases h
    refine .of_bounds rfl (by simp) (by simp) ?_ ?_ <;> simp [least, past] <;> omega
  split at h
  · cases h
    exact .of_bounds rfl (by simp) (by simp) (by simp [least, past]) (by simp [least])
  split at h
  · cases h
    have hbits : b.toNat % 8 = 1 ∨ b.toNat % 8 = 2 ∨ b.toNat % 8 = 3 := by omega
    rcases hbits with hbits | hbits | hbits <;> rw [hbits] <;>
      exact .of_bounds rfl (by simp) (by simp) (by simp [least, past]) (by simp [least])
  split at h
  · cases h
    exact .of_bounds rfl (by simp) (by simp) (by simp [least, past]) (by simp [least])
  · cases h

theorem Opened.next {p : OpenChar} {read n : Nat} {b : UInt8} (h : p.Opened read)
    (howed : p.owed = n + 1) (hlow : p.low ≤ b) (hhigh : b ≤ p.high) :
    Opened ⟨n, 0x80, 0xBF, p.bits * 64 + b.toNat % 64⟩ (read + 1) := by
  obtain ⟨hfew, hl, hh, hlong⟩ := h
  rw [UInt8.le_iff_toNat_le] at hlow hhigh
  have hleast : p.least ≤ least ⟨n, 0x80, 0xBF, p.bits * 64 + b.toNat % 64⟩ := by
    have hb : p.low.toNat % 64 ≤ b.toNat % 64 := by omega
    have hmul := Nat.mul_le_mul_right (64 ^ (n + 1)) hb
    simp only [least, howed, Nat.pow_succ, Nat.add_mul] at hmul ⊢
    grind
  have hpast : past ⟨n, 0x80, 0xBF, p.bits * 64 + b.toNat % 64⟩ ≤ p.past := by
    have hb : b.toNat % 64 + 1 ≤ p.high.toNat % 64 + 1 := by omega
    have hmul := Nat.mul_le_mul_right (64 ^ (n + 1)) hb
    simp only [past, howed, Nat.pow_succ, Nat.add_mul] at hmul ⊢
    grind
  refine ⟨?_, by simp, by simp, fun v hl hp => ?_⟩
  · dsimp only
    omega
  · have hv := hlong v (Nat.le_trans hleast hl) (Nat.lt_of_lt_of_le hp hpast)
    dsimp only
    omega

theorem Opened.close {p : OpenChar} {read : Nat} {b : UInt8} (h : p.Opened read)
    (howed : p.owed = 0) (hlow : p.low ≤ b) (hhigh : b ≤ p.high) :
    read + 1 ≤ (Char.ofNat (p.bits * 64 + b.toNat % 64)).utf8Size := by
  obtain ⟨hfew, hl, hh, hlong⟩ := h
  rw [UInt8.le_iff_toNat_le] at hlow hhigh
  have hv := hlong (p.bits * 64 + b.toNat % 64) ?_ ?_
  · rwa [howed] at hv
  · simp only [least, howed]
    omega
  · simp only [past, howed]
    omega

end OpenChar

/-! ## Readers -/

namespace ByteReader

/-- No more bytes have been read than the characters are long, with those that the open character
has taken so far. -/
def Covers (r : ByteReader) (read : Nat) : Prop :=
  match r.current with
  | none => read ≤ utf8Len r.chars
  | some p => ∃ taken, p.Opened taken ∧ read ≤ utf8Len r.chars + taken

variable {r : ByteReader} {chars : List Char} {read : Nat}

theorem utf8Size_replacementChar : replacementChar.utf8Size = 3 := by decide

theorem begin_covers (h : read ≤ utf8Len chars) (b : UInt8) :
    (begin chars b).Covers (read + 1) := by
  unfold begin
  split
  · exact Nat.add_le_add h (Char.utf8Size_pos _)
  · split
    · rename_i p hp
      exact ⟨1, OpenChar.opened_ofLead hp, Nat.succ_le_succ h⟩
    · change read + 1 ≤ utf8Len (replacementChar :: chars)
      rw [String.utf8Len_cons, utf8Size_replacementChar]
      omega

/-- An open character that breaks off has taken no more bytes than its replacement is long. -/
theorem utf8Len_replaced {p : OpenChar} {taken : Nat} (hp : p.Opened taken)
    (h : read ≤ utf8Len chars + taken) : read ≤ utf8Len (replacementChar :: chars) := by
  have hfew := hp.few
  rw [String.utf8Len_cons, utf8Size_replacementChar]
  omega

theorem feed_covers (h : r.Covers read) (b : UInt8) : (r.feed b).Covers (read + 1) := by
  obtain ⟨chars, current⟩ := r
  cases current with
  | none => exact begin_covers h b
  | some p =>
    obtain ⟨taken, hp, hread⟩ := h
    unfold feed
    dsimp only at hread ⊢
    split
    · rename_i hb
      rw [Bool.and_eq_true, decide_eq_true_eq, decide_eq_true_eq] at hb
      obtain ⟨hlow, hhigh⟩ := hb
      split
      · rename_i howed
        have hsize := hp.close howed hlow hhigh
        change read + 1 ≤ utf8Len chars + _
        omega
      · rename_i n howed
        exact ⟨taken + 1, hp.next howed hlow hhigh, Nat.succ_le_succ hread⟩
    · exact begin_covers (utf8Len_replaced hp hread) b

theorem foldl_feed_covers (bytes : List UInt8) (h : r.Covers read) :
    (bytes.foldl feed r).Covers (read + bytes.length) := by
  induction bytes generalizing r read with
  | nil => exact h
  | cons b bytes ih =>
    have hrest := ih (feed_covers h b)
    rwa [Nat.add_assoc, Nat.add_comm 1] at hrest

theorem le_size_text (h : r.Covers read) : read ≤ r.text.utf8ByteSize := by
  obtain ⟨chars, current⟩ := r
  cases current with
  | none =>
    change read ≤ (String.ofList chars.reverse).utf8ByteSize
    rw [String.utf8ByteSize_ofList, String.utf8Len_reverse]
    exact h
  | some p =>
    obtain ⟨taken, hp, hread⟩ := h
    change read ≤ (String.ofList (replacementChar :: chars).reverse).utf8ByteSize
    rw [String.utf8ByteSize_ofList, String.utf8Len_reverse]
    exact utf8Len_replaced hp hread

end ByteReader

/-! ## Reading and writing again -/

theorem decode_of_valid {bytes : ByteArray} (h : bytes.IsValidUTF8) :
    (decode bytes).toUTF8 = bytes := by
  rw [decode, String.fromUTF8?, dif_pos h]
  rfl

theorem size_le_decode (bytes : ByteArray) : bytes.size ≤ (decode bytes).toUTF8.size := by
  by_cases h : bytes.IsValidUTF8
  · rw [decode_of_valid h]
  · have hcovers := ByteReader.foldl_feed_covers bytes.data.toList (r := {}) (Nat.le_refl 0)
    rw [Nat.zero_add, Array.length_toList, Array.foldl_toList] at hcovers
    rw [decode, String.fromUTF8?, dif_neg h]
    exact ByteReader.le_size_text hcovers

/-- Only bytes that are UTF-8 come back from the text that they are read as. -/
theorem toUTF8_decode_iff {bytes : ByteArray} :
    (decode bytes).toUTF8 = bytes ↔ bytes.IsValidUTF8 := by
  constructor
  · intro h
    rw [← h]
    exact (decode bytes).isValidUTF8
  · exact decode_of_valid

end WordPattern.Text
