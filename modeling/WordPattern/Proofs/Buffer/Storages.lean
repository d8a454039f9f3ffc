import Mathlib
import WordPattern.Buffer.Checked
import WordPattern.Proofs.Buffer.Runs

/-!
# Text and bytes in buffers

Buffers simulate lists of bytes with a cursor, however they hold their input. What is done with a
buffer of text and with a buffer of its bytes comes to the same, also where other contents are no
text any more and a buffer of text gives way to one of bytes.
-/

namespace WordPattern

/-- Bytes that are read as a text are its bytes. -/
theorem toUTF8_eq_of_read {contents : ByteArray} {text : String}
    (h : String.fromUTF8? contents = some text) : text.toUTF8 = contents := by
  obtain ⟨_, hread⟩ := Option.dite_none_right_eq_some.mp h
  cases hread
  rfl

/-- Places of a list, looked up one after the other. -/
theorem mapM_getElem? {α : Type} {l : List α} {start length : Nat} (h : start + length ≤ l.length) :
    (List.range' start length).mapM (fun place => l[place]?) =
      some ((l.drop start).take length) := by
  induction length generalizing start with
  | zero => rfl
  | succ length ih =>
    have hstart : start < l.length := by omega
    rw [List.range'_succ, List.mapM_cons, List.getElem?_eq_getElem hstart, ih (by omega),
      List.drop_eq_getElem_cons hstart, List.take_succ_cons]
    rfl

/-- A list that is cut at its end is the same as one that is not. -/
theorem extract_min_length {α : Type} (l : List α) (start finish : Nat) :
    l.extract start (min finish l.length) = l.extract start finish := by
  rw [List.extract_eq_take_drop, List.extract_eq_take_drop, List.take_eq_take_iff, List.length_drop]
  omega

instance : LawfulRope String where
  bytes_ofText _ := rfl
  size_eq text := (length_toList text.toUTF8).symm
  byte?_eq text place := (getElem?_toList text.toUTF8 place).symm
  bytes_clone _ := rfl

namespace Buffer

namespace Plain

variable {p : Plain}

theorem isEmpty_ahead (p : Plain) : p.ahead.isEmpty = decide (p.bytes.length ≤ p.position) := by
  rw [ahead, Bool.eq_iff_iff, List.isEmpty_iff, List.drop_eq_nil_iff, decide_eq_true_iff]

theorem head?_ahead (p : Plain) : p.ahead.head? = p.bytes[p.position]? := List.head?_drop

theorem length_take_one {value : UInt8} (h : p.bytes[p.position]? = some value) :
    (p.ahead.take 1).length = 1 := by
  have := (List.getElem?_eq_some_iff.mp h).1
  rw [length_take_ahead]
  omega

theorem length_take_none (h : p.bytes[p.position]? = none) : (p.ahead.take 1).length = 0 := by
  have := List.getElem?_eq_none_iff.mp h
  rw [length_take_ahead]
  omega

/-- Bytes are read up to the end of the list. -/
theorem position_read (h : p.Fits) (length : Nat) :
    p.position + (p.ahead.take length).length = min (p.position + length) p.bytes.length := by
  have := h.position_le
  rw [length_take_ahead]
  omega

theorem extract_read (p : Plain) (length : Nat) :
    p.bytes.extract p.position (p.position + length) = p.ahead.take length := by
  rw [List.extract_eq_take_drop, ahead, Nat.add_sub_cancel_left]

end Plain

/-! ## Buffers -/

theorem length_plain (b : Buffer) : b.plain.bytes.length = b.size := length_toList b.bytes

theorem atEnd_eq (b : Buffer) : b.atEnd = b.plain.ahead.isEmpty := by
  rw [Plain.isEmpty_ahead, length_plain]
  rfl

theorem byteAt?_eq (b : Buffer) (place : Nat) : b.byteAt? place = b.plain.bytes[place]? :=
  (getElem?_toList b.bytes place).symm

theorem slice_eq (b : Buffer) (start finish : Nat) :
    (b.slice start finish).toList = b.plain.bytes.extract start finish :=
  toList_extract b.bytes start finish

theorem readByte_eq (b : Buffer) :
    b.readByte = (b.plain.ahead.head?,
      { b with position := b.position + (b.plain.ahead.take 1).length }) := by
  have hbyte : b.byteAt? b.position = b.plain.bytes[b.plain.position]? := b.byteAt?_eq b.position
  rw [readByte, hbyte, Plain.head?_ahead]
  cases h : b.plain.bytes[b.plain.position]? with
  | some value => rw [Plain.length_take_one h]
  | none =>
    rw [Plain.length_take_none h]
    rfl

theorem read_eq (b : Buffer) (h : b.plain.Fits) (length : Nat) :
    (b.read length).1.toList = b.plain.ahead.take length ∧
      (b.read length).2 =
        { b with position := b.position + (b.plain.ahead.take length).length } := by
  have hposition := Plain.position_read h length
  rw [length_plain] at hposition
  refine ⟨?_, ?_⟩
  · rw [← Plain.extract_read, ← extract_min_length, length_plain]
    exact b.slice_eq _ _
  · rw [read]
    exact congrArg (fun position => { b with position }) hposition.symm

theorem seek_eq (b : Buffer) {place : Nat} (h : place ≤ b.size) :
    b.seek place = { b with position := place } := by rw [seek, Nat.min_eq_left h]

theorem rewindTo_eq (b : Buffer) {place : Nat} (h : place ≤ b.position) :
    b.rewindTo place = { b with position := place } := by rw [rewindTo, unread, Nat.sub_sub_self h]

theorem plain_withContents (b : Buffer) (contents : ByteArray) :
    (b.withContents contents).plain = ⟨contents.toList, 0⟩ := by
  have hposition : (b.withContents contents).position = 0 := by
    unfold withContents
    split
    · split <;> rfl
    · rfl
  rw [plain, bytes_withContents, hposition]

theorem map_perform {b : Buffer} {o : Operation} (hfits : b.plain.Fits)
    (h : o.isAllowed b.size b.position = true) :
    (b.perform o).map plain = b.plain.perform o := by
  cases o with
  | size => simp only [perform, Plain.perform, Effect.map, length_plain, Option.map_none]
  | atEnd => simp only [perform, Plain.perform, Effect.map, atEnd_eq, Option.map_none]
  | byteAt place => simp only [perform, Plain.perform, Effect.map, byteAt?_eq, Option.map_none]
  | readByte =>
    simp only [perform, Plain.perform, Effect.map, readByte_eq, Option.map_none]
    rfl
  | read length =>
    obtain ⟨hbytes, hnext⟩ := b.read_eq hfits length.toNat
    simp only [perform, Plain.perform, Effect.map, hbytes, hnext, Option.map_none]
    rfl
  | seek place =>
    simp only [perform, Plain.perform, Effect.map, b.seek_eq (of_decide_eq_true h),
      Option.map_none]
    rfl
  | rewindTo place =>
    simp only [perform, Plain.perform, Effect.map, b.rewindTo_eq (of_decide_eq_true h),
      Option.map_none]
    rfl
  | slice start finish =>
    simp only [perform, Plain.perform, Effect.map, slice_eq, Option.map_none]
  | withContents contents =>
    simp only [perform, Plain.perform, Effect.map, plain_withContents, Option.map_some]
  | _ => rfl

/-- Buffers simulate lists with a cursor. -/
theorem simulates : Simulates perform? plain := by
  intro b o hfits
  have hsame : o.isAllowed b.plain.bytes.length b.plain.position =
      o.isAllowed b.size b.position := by rw [length_plain, plain]
  rw [perform?, Plain.perform?, hsame]
  split
  next h => rw [Option.map_some, map_perform hfits h]
  next => rfl

namespace Checked

variable {ρ : Type} [Rope ρ] {b : Checked ρ}

/-! ## Moves of checked buffers -/

theorem plain_position (b : Checked ρ) (position : UInt64) :
    plain { b with position } = b.plain.moveTo position.toNat := rfl

theorem map_moved (next : Option (Checked ρ)) :
    (next.map fun c => ({ buffer := c } : Effect (Checked ρ))).map (Effect.map plain) =
      (next.map plain).map fun p => { buffer := p } := by
  cases next <;> rfl

theorem le_position_iff (b : Checked ρ) {place : UInt64} :
    place ≤ b.position ↔ place.toNat ≤ b.plain.position := UInt64.le_iff_toNat_le

/-- It is checked that the way back does not lead past the start. -/
theorem map_unread (b : Checked ρ) (length : UInt64) :
    (b.unread length).map plain =
      if length.toNat ≤ b.plain.position then some (b.plain.moveTo (b.plain.position - length.toNat))
      else none := by
  unfold unread
  split
  next hle =>
    rw [if_pos (b.le_position_iff.mp hle), Option.map_some, plain_position,
      toNat_saturatingSub hle]
    rfl
  next hlt =>
    rw [b.le_position_iff] at hlt
    exact (if_neg hlt).symm

/-- It is checked that the place is not ahead. -/
theorem map_rewindTo (b : Checked ρ) (place : UInt64) :
    (b.rewindTo place).map plain =
      if place.toNat ≤ b.plain.position then some (b.plain.moveTo place.toNat) else none := by
  unfold rewindTo
  split
  next hle =>
    obtain ⟨length, hsub, hlength⟩ := exists_checkedSub hle
    rw [b.le_position_iff] at hle
    have hback : b.plain.position - length.toNat = place.toNat := by
      rw [hlength]
      exact Nat.sub_sub_self hle
    have hlength : length.toNat ≤ b.plain.position := hlength.trans_le (Nat.sub_le ..)
    rw [hsub, Option.bind_some, map_unread, if_pos hlength, hback, if_pos hle]
  next hlt =>
    rw [b.le_position_iff] at hlt
    exact (if_neg hlt).symm

/-! ## The bytes of checked buffers -/

variable [LawfulRope ρ]

theorem plain_ofText (text : String) :
    (ofText text : Checked ρ).plain = ⟨text.toUTF8.toList, 0⟩ := by
  rw [← LawfulRope.bytes_ofText (ρ := ρ)]
  rfl

theorem plain_withContents (b : Checked ρ) (contents : ByteArray) :
    (b.withContents contents).plain = ⟨contents.toList, 0⟩ := by
  unfold withContents
  split
  · split
    · rename_i value h
      rw [plain_ofText, toUTF8_eq_of_read h]
    · rfl
  · rfl

theorem toBytes_clone (storage : Storage ρ) (position place : UInt64) :
    toBytes ⟨storage.clone, position⟩ = toBytes ⟨storage, place⟩ := by
  cases storage with
  | rope value => exact LawfulRope.bytes_clone value
  | bytes value => rfl

theorem plain_clone (b : Checked ρ) : b.clone.plain = b.plain :=
  congrArg (Plain.mk · b.position.toNat) (toBytes_clone b.storage b.position b.position)

theorem plain_rewound (b : Checked ρ) : b.rewound.plain = b.plain.moveTo 0 :=
  congrArg (Plain.mk · 0) (toBytes_clone b.storage 0 b.position)

theorem toNat_size (h : b.plain.Fits) : b.size.toNat = b.plain.bytes.length := by
  have hword {n : Nat} (hn : n = b.plain.bytes.length) :
      (UInt64.ofNat n).toNat = b.plain.bytes.length := by
    rw [hn, UInt64.toNat_ofNat_of_lt' h.length_lt]
  obtain ⟨storage, position⟩ := b
  cases storage with
  | rope value => exact hword (LawfulRope.size_eq value)
  | bytes value => exact hword (length_toList value).symm

theorem size_le_iff (h : b.plain.Fits) {place : UInt64} :
    b.size ≤ place ↔ b.plain.bytes.length ≤ place.toNat := by
  rw [UInt64.le_iff_toNat_le, toNat_size h]

theorem le_size_iff (h : b.plain.Fits) {place : UInt64} :
    place ≤ b.size ↔ place.toNat ≤ b.plain.bytes.length := by
  rw [UInt64.le_iff_toNat_le, toNat_size h]

theorem toNat_min_size (h : b.plain.Fits) (place : UInt64) :
    (min place b.size).toNat = min place.toNat b.plain.bytes.length := by
  change (if place ≤ b.size then place else b.size).toNat = _
  split
  next hle => rw [Nat.min_eq_left ((le_size_iff h).mp hle)]
  next hlt =>
    rw [le_size_iff h, Nat.not_le] at hlt
    rw [toNat_size h, Nat.min_eq_right hlt.le]

theorem atEnd_eq (h : b.plain.Fits) : b.atEnd = b.plain.ahead.isEmpty := by
  rw [Plain.isEmpty_ahead, atEnd, decide_eq_decide]
  exact size_le_iff h

/-- A byte is found at every place that lies in the input. -/
theorem byteAt_eq (h : b.plain.Fits) (place : UInt64) :
    b.byteAt place = some b.plain.bytes[place.toNat]? := by
  unfold byteAt
  split
  next hle => rw [List.getElem?_eq_none ((size_le_iff h).mp hle)]
  next hlt =>
    rw [size_le_iff h, Nat.not_le] at hlt
    have hget := List.getElem?_eq_getElem hlt
    rw [hget]
    obtain ⟨storage, position⟩ := b
    cases storage with
    | rope value =>
      have hbyte := LawfulRope.byte?_eq value place.toNat
      exact congrArg (Option.map some) (hbyte.trans hget)
    | bytes value =>
      have hbyte := (getElem?_toList value place.toNat).symm
      exact congrArg (Option.map some) (hbyte.trans hget)

/-- All bytes between two places are found, as far as they lie in the input. -/
theorem slice_eq (h : b.plain.Fits) (start finish : UInt64) :
    b.slice start finish = some (b.plain.bytes.extract start.toNat finish.toNat) := by
  have hend := toNat_min_size h finish
  have hle : (min finish b.size).toNat ≤ b.plain.bytes.length := by omega
  rw [← extract_min_length, ← hend]
  unfold slice
  -- from here on it is only used of the last place that it lies in the input
  generalize min finish b.size = last at hle
  dsimp only
  split
  next hstart =>
    rw [List.extract_eq_take_drop, Nat.sub_eq_zero_of_le (UInt64.le_iff_toNat_le.mp hstart),
      List.take_zero]
  next hstart =>
    rw [UInt64.le_iff_toNat_le, Nat.not_le] at hstart
    obtain ⟨storage, position⟩ := b
    cases storage with
    | rope value =>
      have hbyte : Rope.byte? value = fun place => (Rope.bytes value)[place]? :=
        funext (LawfulRope.byte?_eq value)
      have hlast : start.toNat + (last.toNat - start.toNat) ≤ (Rope.bytes value).length := by
        rw [Nat.add_sub_cancel' hstart.le]
        exact hle
      change List.mapM (Rope.byte? value) _ = _
      rw [hbyte]
      exact mapM_getElem? hlast
    | bytes value =>
      change (if last.toNat ≤ value.size then _ else _) = some (value.toList.extract _ _)
      rw [if_pos (hle.trans_eq (length_toList value)), toList_extract]

theorem exists_readByte (h : b.plain.Fits) :
    ∃ next, b.readByte = some (b.plain.ahead.head?, next) ∧
      next.plain = b.plain.moveTo (b.plain.position + (b.plain.ahead.take 1).length) := by
  have hbyte : b.byteAt b.position = some b.plain.bytes[b.plain.position]? := byteAt_eq h b.position
  rw [readByte, hbyte, Plain.head?_ahead]
  cases hget : b.plain.bytes[b.plain.position]? with
  | some value =>
    obtain ⟨position, hadd, hposition⟩ := exists_checkedAdd (a := b.position) (b := 1)
      (Nat.lt_of_le_of_lt (List.getElem?_eq_some_iff.mp hget).1 h.length_lt)
    refine ⟨{ b with position }, ?_, ?_⟩
    · rw [hadd]
      rfl
    · rw [Plain.length_take_one hget, plain_position, hposition]
      rfl
  | none =>
    rw [Plain.length_take_none hget]
    exact ⟨b, rfl, rfl⟩

theorem exists_read (h : b.plain.Fits) (length : UInt64) :
    ∃ next, b.read length = some (b.plain.ahead.take length.toNat, next) ∧
      next.plain =
        b.plain.moveTo (b.plain.position + (b.plain.ahead.take length.toNat).length) := by
  have hend : (min (saturatingAdd b.position length) b.size).toNat =
      min (b.plain.position + length.toNat) b.plain.bytes.length := by
    -- a sum that is no word lies behind every input
    have hlt := h.length_lt
    rw [toNat_min_size h, toNat_saturatingAdd]
    change min (min (b.plain.position + length.toNat) _) _ = _
    omega
  refine ⟨{ b with position := min (saturatingAdd b.position length) b.size }, ?_, ?_⟩
  · rw [read, slice_eq h, hend, extract_min_length]
    change some (b.plain.bytes.extract b.plain.position _, _) = _
    rw [Plain.extract_read]
  · rw [plain_position, hend, Plain.position_read h]

/-- It is checked that the place lies in the input. -/
theorem map_seek (h : b.plain.Fits) (place : UInt64) :
    (b.seek place).map plain =
      if place.toNat ≤ b.plain.bytes.length then some (b.plain.moveTo place.toNat) else none := by
  unfold seek
  split
  next hle =>
    rw [le_size_iff h] at hle
    rw [if_pos hle, Option.map_some, plain_position, toNat_min_size h, Nat.min_eq_left hle]
  next hlt =>
    rw [le_size_iff h] at hlt
    rw [if_neg hlt]
    rfl

/-- Checked buffers simulate lists with a cursor. -/
theorem simulates : Simulates perform? (plain : Checked ρ → Plain) := by
  intro b o hfits
  cases o with
  | unread length =>
    rw [perform?, map_moved, map_unread, Plain.perform?_demand rfl]
    split <;> rfl
  | seek place =>
    rw [perform?, map_moved, map_seek hfits, Plain.perform?_demand rfl]
    split <;> rfl
  | rewindTo place =>
    rw [perform?, map_moved, map_rewindTo, Plain.perform?_demand rfl]
    split <;> rfl
  | size =>
    rw [Plain.perform?_of_allowed rfl]
    simp only [perform?, Plain.perform, Effect.map, toNat_size hfits, Option.map_some,
      Option.map_none]
  | position => rfl
  | toBytes => rfl
  | atEnd =>
    rw [Plain.perform?_of_allowed rfl]
    simp only [perform?, Plain.perform, Effect.map, atEnd_eq hfits, Option.map_some,
      Option.map_none]
  | byteAt place =>
    rw [Plain.perform?_of_allowed rfl]
    simp only [perform?, Plain.perform, Effect.map, byteAt_eq hfits, Option.map_some,
      Option.map_none]
  | readByte =>
    obtain ⟨next, hread, hnext⟩ := exists_readByte hfits
    rw [Plain.perform?_of_allowed rfl]
    simp only [perform?, Plain.perform, Effect.map, hread, hnext, Option.map_some, Option.map_none]
  | read length =>
    obtain ⟨next, hread, hnext⟩ := exists_read hfits length
    rw [Plain.perform?_of_allowed rfl]
    simp only [perform?, Plain.perform, Effect.map, hread, hnext, Option.map_some, Option.map_none]
  | slice start finish =>
    rw [Plain.perform?_of_allowed rfl]
    simp only [perform?, Plain.perform, Effect.map, slice_eq hfits, Option.map_some,
      Option.map_none]
  | withContents contents =>
    rw [Plain.perform?_of_allowed rfl]
    simp only [perform?, Plain.perform, Effect.map, plain_withContents, Option.map_some]
  | rewound =>
    rw [Plain.perform?_of_allowed rfl]
    simp only [perform?, Plain.perform, Effect.map, plain_rewound, Option.map_some]
  | clone =>
    rw [Plain.perform?_of_allowed rfl]
    simp only [perform?, Plain.perform, Effect.map, plain_clone, Option.map_some]

end Checked

/-! ## Text and its bytes -/

/-- What is done with a buffer of text, or with one of the bytes of the text, comes to what it comes
to on the list of these bytes, if everything that is demanded is met there. The text is one that
memory can hold. -/
theorem storages_act_as_byte_lists {ρ : Type} [Rope ρ] [LawfulRope ρ] {text : String}
    {requests : List Request} {answers : List Answer} {lists : List Plain}
    (hsize : text.utf8ByteSize < UInt64.size)
    (h : run Plain.perform? requests [⟨text.toUTF8.toList, 0⟩] = some (answers, lists)) :
    (∀ start : Checked ρ, start ∈ [Checked.ofText text, Checked.ofBytes text.toUTF8] →
      ComesTo Checked.perform? Checked.plain start requests answers lists) ∧
    ∀ start ∈ [ofText text, ofBytes text.toUTF8],
      ComesTo perform? plain start requests answers lists := by
  have hfits : Plain.Fits ⟨text.toUTF8.toList, 0⟩ := by
    refine ⟨Nat.zero_le _, ?_⟩
    rw [length_toList]
    exact hsize
  constructor
  · intro start hstart
    have hplain : start.plain = ⟨text.toUTF8.toList, 0⟩ := by
      rcases List.mem_pair.mp hstart with rfl | rfl
      · exact Checked.plain_ofText text
      · rfl
    rw [← hplain] at hfits h
    exact Checked.simulates.comesTo hfits h
  · intro start hstart
    have hplain : start.plain = ⟨text.toUTF8.toList, 0⟩ := by
      rcases List.mem_pair.mp hstart with rfl | rfl <;> rfl
    rw [← hplain] at hfits h
    exact simulates.comesTo hfits h

/-- A character is cut in the middle: its first byte is read, its second one from a clone, and the
second one alone becomes the contents of a further buffer, which is no text. -/
theorem cut_character_acts_as_byte_list :
    let text := "é"
    let second : Contents := ⟨⟨#[0xa9]⟩, by decide⟩
    let requests : List Request :=
      [⟨0, .read 1⟩, ⟨0, .clone⟩, ⟨1, .readByte⟩, ⟨0, .unread 1⟩, ⟨0, .withContents second⟩,
        ⟨2, .toBytes⟩, ⟨1, .rewindTo 1⟩, ⟨0, .seek 2⟩, ⟨0, .atEnd⟩, ⟨0, .rewound⟩,
        ⟨3, .read 0xffffffffffffffff⟩]
    let answers : List Answer :=
      [.bytes [0xc3], .nothing, .byte (some 0xa9), .nothing, .nothing, .bytes [0xa9], .nothing,
        .nothing, .truth true, .nothing, .bytes [0xc3, 0xa9]]
    let lists : List Plain :=
      [⟨[0xc3, 0xa9], 2⟩, ⟨[0xc3, 0xa9], 1⟩, ⟨[0xa9], 0⟩, ⟨[0xc3, 0xa9], 2⟩]
    text.utf8ByteSize < UInt64.size ∧
      run Plain.perform? requests [⟨text.toUTF8.toList, 0⟩] = some (answers, lists) ∧
      (∀ start : Checked String, start ∈ [Checked.ofText text, Checked.ofBytes text.toUTF8] →
        ComesTo Checked.perform? Checked.plain start requests answers lists) ∧
      ∀ start ∈ [ofText text, ofBytes text.toUTF8],
        ComesTo perform? plain start requests answers lists := by
  intro text second requests answers lists
  have hsize : text.utf8ByteSize < UInt64.size := by decide
  have hrun : run Plain.perform? requests [⟨text.toUTF8.toList, 0⟩] = some (answers, lists) := by
    cbv
  exact ⟨hsize, hrun, storages_act_as_byte_lists hsize hrun⟩

end Buffer

end WordPattern
