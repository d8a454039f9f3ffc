import WordPattern.Pattern.Step

/-!
# Bytes at a position

A byte string stands at a position where as many bytes of the text, listed from there, are the same.
-/

namespace WordPattern

theorem toList_loop (bytes : ByteArray) (i : Nat) (r : List UInt8) :
    ByteArray.toList.loop bytes i r = r.reverse ++ bytes.data.toList.drop i := by
  induction hn : bytes.size - i generalizing i r with
  | zero =>
    have hi : bytes.data.toList.length ≤ i := by
      simp only [Array.length_toList]
      exact Nat.le_of_sub_eq_zero hn
    rw [ByteArray.toList.loop, if_neg (by omega), List.drop_eq_nil_of_le hi, List.append_nil]
  | succ n ih =>
    have hi : i < bytes.data.toList.length := by
      simp only [Array.length_toList]
      change i < bytes.size
      omega
    have hget : bytes.get! i = bytes.data.toList[i] :=
      getElem!_pos bytes.data i (by simpa using hi)
    rw [ByteArray.toList.loop, if_pos (by omega), ih (i + 1) _ (by omega), List.reverse_cons,
      List.append_assoc, List.drop_eq_getElem_cons hi, hget]
    rfl

/-- The list of some bytes holds the bytes in order. -/
theorem toList_eq_data (bytes : ByteArray) : bytes.toList = bytes.data.toList := by
  simp [ByteArray.toList, toList_loop]

@[simp] theorem length_toList (bytes : ByteArray) : bytes.toList.length = bytes.size := by
  rw [toList_eq_data, Array.length_toList]
  rfl

theorem getElem?_toList (bytes : ByteArray) (place : Nat) :
    bytes.toList[place]? = bytes[place]? := by
  rw [toList_eq_data, Array.getElem?_toList]
  rfl

theorem toList_extract (bytes : ByteArray) (start finish : Nat) :
    (bytes.extract start finish).toList = bytes.toList.extract start finish := by
  rw [toList_eq_data, toList_eq_data, ByteArray.data_extract, Array.toList_extract]

theorem lt_size_of_getElem? {text : ByteArray} {place : Nat} {b : UInt8}
    (h : text[place]? = some b) : place < text.size :=
  (getElem?_eq_some_iff.mp h).1

/-- The first of some listed bytes is the one at the position. -/
theorem toList_extract_succ {text : ByteArray} {start length : Nat} {b : UInt8}
    (h : text[start]? = some b) :
    (text.extract start (start + (length + 1))).toList =
      b :: (text.extract (start + 1) (start + 1 + length)).toList := by
  obtain ⟨hs, rfl⟩ := getElem?_eq_some_iff.mp h
  have hs' : start < text.data.toList.length := by simpa using! hs
  simp only [toList_eq_data, ByteArray.data_extract, Array.toList_extract, List.extract_eq_take_drop,
    Nat.add_sub_cancel_left]
  rw [List.drop_eq_getElem_cons hs', List.take_succ_cons]
  rfl

/-- A byte string that stands at a position ends in the text. -/
theorem standsAt_le {text : ByteArray} {bytes : List UInt8} {start : Nat}
    (h : standsAt text bytes start = true) (hs : start ≤ text.size) :
    start + bytes.length ≤ text.size := by
  induction bytes generalizing start with
  | nil => simpa using hs
  | cons b rest ih =>
    simp only [standsAt, Bool.and_eq_true, beq_iff_eq] at h
    have := ih h.2 (lt_size_of_getElem? h.1)
    simp only [List.length_cons]
    omega

/-- A byte string stands at a position if it is what is listed from there. -/
theorem standsAt_iff {text : ByteArray} {bytes : List UInt8} {start : Nat} :
    standsAt text bytes start = true ↔
      (text.extract start (start + bytes.length)).toList = bytes := by
  induction bytes generalizing start with
  | nil => simp [standsAt, toList_eq_data]
  | cons b rest ih =>
    simp only [standsAt, Bool.and_eq_true, beq_iff_eq, List.length_cons]
    constructor
    · rintro ⟨hb, hrest⟩
      rw [toList_extract_succ hb, ih.mp hrest]
    · intro h
      have hs : start < text.size := by
        have hl := congrArg List.length h
        simp only [length_toList, ByteArray.size_extract, List.length_cons] at hl
        omega
      have hget := getElem?_pos text start hs
      rw [toList_extract_succ hget, List.cons.injEq] at h
      exact ⟨by rw [hget, h.1], ih.mpr h.2⟩

/-- Bytes that are cut at the end of the text are the same as bytes that are not. -/
theorem extract_min (text : ByteArray) (start finish : Nat) :
    text.extract start (min finish text.size) = text.extract start finish := by
  apply ByteArray.ext
  simp only [ByteArray.data_extract]
  rw [Array.extract_eq_extract_right, ByteArray.size_data]
  omega

/-- The run of bytes outside of a literal stays in the text. -/
theorem outsideEnd_bounds {text : ByteArray} (literal : List UInt8) (length : Nat) {start : Nat}
    (hs : start ≤ text.size) :
    start ≤ outsideEnd text literal length start ∧
      outsideEnd text literal length start ≤ text.size := by
  induction length generalizing start with
  | zero => simpa [outsideEnd] using hs
  | succ length ih =>
    simp only [outsideEnd]
    split
    · rename_i b hb
      split
      · have := ih (Nat.succ_le_of_lt (lt_size_of_getElem? hb))
        exact ⟨Nat.le_of_succ_le this.1, this.2⟩
      · exact ⟨Nat.le_refl _, hs⟩
    · exact ⟨Nat.le_refl _, hs⟩

end WordPattern
