import Mathlib
import WordPattern.Proofs.Token.Cuts
import WordPattern.Token.Grammar

/-!
# Literals

A literal that stands between two marks is read part by part. It is a token exactly if it follows
the grammar up to its closing mark, and the bytes of the token are those that its parts stand for.
-/

namespace WordPattern

open Literal

/-! ## Hexadecimal digits -/

theorem HexDigit.bound {c : Char} {n : Nat} (h : HexDigit c n) : n < 16 := by
  cases h <;> assumption

theorem HexDigit.read {c : Char} {n : Nat} (h : HexDigit c n) : Lexer.hexDigit? c = some n := by
  have hdigits : ∀ n < 16, Lexer.hexDigit? n.digitChar = some n ∧
      Lexer.hexDigit? n.digitChar.toUpper = some n := by decide
  cases h with
  | lower n hn => exact (hdigits n hn).1
  | upper n hn => exact (hdigits n hn).2

namespace Lexer

theorem le_of_hexDigit? {c : Char} {n : Nat} (h : hexDigit? c = some n) : c.toNat ≤ 'f'.toNat := by
  have hle {low high : Char} (hc : (decide (low ≤ c) && decide (c ≤ high)) = true)
      (hhigh : high ≤ 'f') : c.toNat ≤ 'f'.toNat :=
    Char.le_trans (of_decide_eq_true (Bool.and_eq_true_iff.mp hc).2) hhigh
  unfold hexDigit? at h
  split at h
  · rename_i hc
    exact hle hc (by decide)
  split at h
  · rename_i hc
    exact hle hc (by decide)
  split at h
  · rename_i hc
    exact hle hc (by decide)
  · cases h

theorem hexDigit?_eq_some_iff {c : Char} {n : Nat} : hexDigit? c = some n ↔ HexDigit c n := by
  refine ⟨fun h => ?_, HexDigit.read⟩
  have hall : ∀ k ≤ 'f'.toNat, ∀ n ∈ hexDigit? (Char.ofNat k), n < 16 ∧
      (Char.ofNat k = n.digitChar ∨ Char.ofNat k = n.digitChar.toUpper) := by decide
  obtain ⟨hn, hc⟩ := hall c.toNat (le_of_hexDigit? h) n (by rwa [Char.ofNat_toNat])
  rw [Char.ofNat_toNat] at hc
  rcases hc with rfl | rfl
  · exact .lower n hn
  · exact .upper n hn

theorem hexByte?_digits {c d : Char} {high low : Nat} (hc : HexDigit c high) (hd : HexDigit d low) :
    hexByte? [c, d] = some (UInt8.ofNat (16 * high + low)) := by
  unfold hexByte?
  split
  · rename_i heq
    cases heq
  · -- A plus sign is no digit.
    rename_i heq
    cases heq
    cases hc.read
  · rename_i heq
    cases heq
    rw [hc.read, hd.read]
    rfl
  · rename_i hpair
    exact absurd rfl (hpair c d)

theorem hexByte?_signed {d : Char} {low : Nat} (hd : HexDigit d low) :
    hexByte? ['+', d] = some (UInt8.ofNat low) := by
  rw [hexByte?, hd.read]
  rfl

theorem readEscape_pair {c d : Char} {b : UInt8} (h : hexByte? [c, d] = some b)
    (rest : List Char) : readEscape (['x', c, d] ++ rest) = .byte b 3 := by
  have htake : ([c, d] ++ rest).take 2 = [c, d] := rfl
  rw [List.cons_append, readEscape_hex, htake, h]
  rfl

theorem of_hexByte?_pair {c d : Char} {b : UInt8} (h : hexByte? [c, d] = some b) :
    (∃ high low, HexDigit c high ∧ HexDigit d low ∧ b = UInt8.ofNat (16 * high + low)) ∨
      c = '+' ∧ ∃ low, HexDigit d low ∧ b = UInt8.ofNat low := by
  unfold hexByte? at h
  split at h
  · rename_i heq
    cases heq
  · rename_i heq
    cases heq
    obtain ⟨low, hlow, rfl⟩ := Option.map_eq_some_iff.mp h
    exact .inr ⟨rfl, low, hexDigit?_eq_some_iff.mp hlow, rfl⟩
  · rename_i heq
    cases heq
    obtain ⟨high, hhigh, h⟩ := Option.bind_eq_some_iff.mp h
    obtain ⟨low, hlow, h⟩ := Option.bind_eq_some_iff.mp h
    cases h
    exact .inl ⟨high, low, hexDigit?_eq_some_iff.mp hhigh, hexDigit?_eq_some_iff.mp hlow, rfl⟩
  · cases h

end Lexer

/-! ## What follows the grammar is read -/

section

variable {mark : Char} {front back body rest : List Char} {bytes acc : List UInt8} {b : UInt8}

theorem Literal.EscapeForm.read (h : EscapeForm front b) : ∃ behind, front = '\\' :: behind ∧
    ∀ rest, Lexer.readEscape (behind ++ rest) = .byte b behind.length := by
  cases h with
  | hex hc hd => exact ⟨_, rfl, Lexer.readEscape_pair (Lexer.hexByte?_digits hc hd)⟩
  | _ => exact ⟨_, rfl, fun _ => rfl⟩

theorem readLiteral_escape (hmark : mark ≠ '\\')
    (h : ∀ rest, Lexer.readEscape (front ++ rest) = .byte b front.length) (opening here : Position)
    (acc : List UInt8) (back : List Char) :
    Lexer.readLiteral mark opening here acc ('\\' :: front ++ back) =
      Lexer.readLiteral mark opening (here.after ('\\' :: front)) (b :: acc) back := by
  rw [List.cons_append, Lexer.readLiteral, if_neg (by simpa using hmark.symm),
    if_pos (beq_self_eq_true _), h]
  dsimp only
  rw [List.take_left, List.drop_left, Position.after_cons]

theorem Literal.PartForm.read (hmark : mark ≠ '\\') (h : PartForm mark front bytes)
    (opening here : Position) (acc : List UInt8) (back : List Char) :
    Lexer.readLiteral mark opening here acc (front ++ back) =
      Lexer.readLiteral mark opening (here.after front) (bytes.reverse ++ acc) back := by
  cases h with
  | character c hne hescape =>
    rw [List.singleton_append, Lexer.readLiteral, if_neg (by simpa using hne),
      if_neg (by simpa using hescape)]
    rfl
  | escape h =>
    obtain ⟨behind, rfl, hread⟩ := h.read
    exact readLiteral_escape hmark hread opening here acc back
  | signed hd =>
    have hread := Lexer.readEscape_pair (Lexer.hexByte?_signed hd)
    exact readLiteral_escape hmark hread opening here acc back

theorem Literal.BodyForm.read (hmark : mark ≠ '\\') (h : BodyForm mark body bytes)
    (opening here : Position) (acc : List UInt8) (rest : List Char) :
    Lexer.readLiteral mark opening here acc (body ++ mark :: rest) =
      .ok ⟨.literal (acc.reverse ++ bytes), here.after (body ++ [mark]), rest⟩ := by
  induction h generalizing here acc with
  | nil =>
    rw [List.nil_append, Lexer.readLiteral, if_pos (beq_self_eq_true mark), List.append_nil]
    rfl
  | @cons front back bytes more first _ ih =>
    rw [List.append_assoc, first.read hmark, ih, List.reverse_append, List.reverse_reverse,
      List.append_assoc, List.append_assoc front, Position.after_append here front]

/-! ## What is read follows the grammar -/

/-- An escape that is read is one of the grammar, or the text ends with its only digit. -/
theorem partForm_or_digit_of_readEscape {chars : List Char} {width : Nat}
    (h : Lexer.readEscape chars = .byte b width) :
    PartForm mark ('\\' :: chars.take width) [b] ∨
      ∃ d low, HexDigit d low ∧ chars = ['x', d] ∧ width = 2 := by
  cases chars with
  | nil => cases h
  | cons c rest =>
    rw [Lexer.readEscape] at h
    iterate 4
      split at h
      · rename_i hc
        obtain rfl := eq_of_beq hc
        cases h
        exact .inl (.escape (by constructor))
    split at h
    · rename_i hc
      simp only [Bool.or_eq_true, beq_iff_eq] at hc
      cases h
      rcases hc with (rfl | rfl) | rfl <;> exact .inl (.escape (by constructor))
    split at h
    · rename_i hc
      obtain rfl := eq_of_beq hc
      split at h
      · rename_i value hvalue
        cases h
        rcases rest with _ | ⟨d, _ | ⟨e, more⟩⟩
        · cases hvalue
        · obtain ⟨low, hlow, -⟩ := Option.map_eq_some_iff.mp hvalue
          exact .inr ⟨d, low, Lexer.hexDigit?_eq_some_iff.mp hlow, rfl, rfl⟩
        · rcases Lexer.of_hexByte?_pair hvalue with ⟨high, low, hd, he, rfl⟩ | ⟨rfl, low, he, rfl⟩
          · exact .inl (.escape (.hex hd he))
          · exact .inl (.signed he)
      · cases h
    · cases h

/-- An escape with something behind it is one of the grammar. -/
theorem partForm_of_readEscape {chars : List Char} {width : Nat}
    (h : Lexer.readEscape chars = .byte b width) (hrest : chars.drop width ≠ []) :
    PartForm mark ('\\' :: chars.take width) [b] := by
  rcases partForm_or_digit_of_readEscape h with hpart | ⟨d, low, -, rfl, rfl⟩
  · exact hpart
  · exact absurd rfl hrest

theorem body_of_readLiteral {opening here : Position} {chars : List Char} {r : Lexer.Reading}
    (h : Lexer.readLiteral mark opening here acc chars = .ok r) : ∃ body bytes,
      BodyForm mark body bytes ∧ chars = body ++ mark :: r.rest ∧
        r.lexeme = .literal (acc.reverse ++ bytes) ∧ r.next = here.after (body ++ [mark]) := by
  fun_induction Lexer.readLiteral mark opening here acc chars with
  | case1 => cases h
  | case2 here acc c rest hc =>
    cases h
    obtain rfl := eq_of_beq hc
    exact ⟨[], [], .nil, rfl, by rw [List.append_nil], rfl⟩
  | case3 here acc c rest hmark hescape value width hread ih =>
    have hrest : rest.drop width ≠ [] := by
      intro hnil
      rw [hnil, Lexer.readLiteral] at h
      cases h
    obtain ⟨body, bytes, hbody, hchars, hlexeme, hnext⟩ := ih h
    obtain rfl := eq_of_beq hescape
    refine ⟨_, _, .cons (partForm_of_readEscape hread hrest) hbody, ?_, ?_, ?_⟩
    · rw [List.cons_append, List.cons_append, List.append_assoc, ← hchars, List.take_append_drop]
    · rw [hlexeme, List.reverse_cons, List.append_assoc]
    · rw [hnext, List.append_assoc, Position.after_append _ (_ :: _), Position.after_cons]
  | case4 => cases h
  | case5 => cases h
  | case6 => cases h
  | case7 here acc c rest hmark hescape ih =>
    obtain ⟨body, bytes, hbody, hchars, hlexeme, hnext⟩ := ih h
    have hpart : PartForm mark [c] (String.utf8EncodeChar c) :=
      .character c (by simpa using hmark) (by simpa using hescape)
    refine ⟨_, _, .cons hpart hbody, ?_, ?_, ?_⟩
    · rw [List.singleton_append, List.cons_append, ← hchars]
    · rw [hlexeme, List.reverse_append, List.reverse_reverse, List.append_assoc]
    · rw [hnext, List.singleton_append, List.cons_append, Position.after_cons]

end

/-! ## Literals as tokens -/

section

variable {mark : Char} {text : List Char}

theorem IsMark.ne_backslash (hmark : IsMark mark) : mark ≠ '\\' := by
  rcases hmark with rfl | rfl <;> decide

theorem readToken_mark (hmark : IsMark mark) (here : Position) (text : List Char) :
    Lexer.readToken here mark text = Lexer.readLiteral mark here (here.advance mark) [] text := by
  rcases hmark with rfl | rfl <;> rfl

/-- A mark begins a token exactly if a body and another mark follow it. -/
theorem readToken_mark_iff (hmark : IsMark mark) {here : Position} {r : Lexer.Reading} :
    Lexer.readToken here mark text = .ok r ↔ ∃ body bytes,
      BodyForm mark body bytes ∧ text = body ++ mark :: r.rest ∧ r.lexeme = .literal bytes ∧
        r.next = here.after (mark :: (body ++ [mark])) := by
  rw [readToken_mark hmark]
  constructor
  · exact body_of_readLiteral
  · rintro ⟨body, bytes, hbody, rfl, hlexeme, hnext⟩
    rw [hbody.read hmark.ne_backslash, ← Position.after_cons, ← hnext]
    exact congrArg _ (congrArg (Lexer.Reading.mk · r.next r.rest) hlexeme.symm)

theorem readAll_error {c : Char} {rest : List Char} {here first : Position} {done : List Token}
    {e : SyntaxError} {chars : List Char} (h : Lexer.skip false here chars = (first, c :: rest))
    (hread : Lexer.readToken first c rest = .error e) :
    Lexer.readAll here done chars = .error e := by
  rw [Lexer.readAll]
  split
  · rename_i hskip
    cases hskip.symm.trans h
  · rename_i hskip
    cases hskip.symm.trans h
    split
    · rename_i hread'
      cases hread'.symm.trans hread
    · rename_i hread'
      cases hread'.symm.trans hread
      rfl

end

/-- Wherever a token begins with a mark, it is a literal exactly if parts of the grammar stand
between the mark and another one. Its bytes are those of the parts, and reading goes on behind the
closing mark. A text in which no such literal stands there is an error. -/
theorem literals_follow_their_grammar (mark : Char) (hmark : IsMark mark) (here first : Position)
    (done : List Token) (chars text : List Char)
    (hbegin : Lexer.skip false here chars = (first, mark :: text)) :
    (∀ bytes next rest,
      Lexer.readToken first mark text = .ok ⟨.literal bytes, next, rest⟩ ↔
        ∃ body, BodyForm mark body bytes ∧ text = body ++ mark :: rest ∧
          next = first.after (mark :: (body ++ [mark]))) ∧
    (∀ body bytes rest, BodyForm mark body bytes → text = body ++ mark :: rest →
      Lexer.readAll here done chars =
        Lexer.readAll (first.after (mark :: (body ++ [mark]))) (⟨.literal bytes, first⟩ :: done)
          rest) ∧
    ((∀ body bytes rest, BodyForm mark body bytes → text ≠ body ++ mark :: rest) →
      ∃ e, Lexer.readAll here done chars = .error e) := by
  refine ⟨fun bytes next rest => ?_, fun body bytes rest hbody htext => ?_, fun hnone => ?_⟩
  · rw [readToken_mark_iff hmark]
    constructor
    · rintro ⟨body, bytes', hbody, htext, hlexeme, hnext⟩
      cases hlexeme
      exact ⟨body, hbody, htext, hnext⟩
    · rintro ⟨body, hbody, htext, hnext⟩
      exact ⟨body, bytes, hbody, htext, rfl, hnext⟩
  · have hread : Lexer.readToken first mark text =
        .ok ⟨.literal bytes, first.after (mark :: (body ++ [mark])), rest⟩ :=
      (readToken_mark_iff hmark).mpr ⟨body, bytes, hbody, htext, rfl, rfl⟩
    exact Lexer.readAll_token hbegin hread
  · cases hread : Lexer.readToken first mark text with
    | error e => exact ⟨e, readAll_error hbegin hread⟩
    | ok r =>
      obtain ⟨body, bytes, hbody, htext, -⟩ := (readToken_mark_iff hmark).mp hread
      exact absurd htext (hnone body bytes r.rest hbody)

/-- A plus sign is taken for a hexadecimal digit, but the closing mark is not. -/
theorem plus_sign_is_read_as_digit :
    let marked (text : List Char) := ' ' :: Text.singleMark :: text
    Lexer.readToken ⟨1, 2⟩ Text.singleMark ['\\', 'x', '+', '1', Text.singleMark] =
        .ok ⟨.literal [1], ⟨1, 8⟩, []⟩ ∧
      Lexer.readAll .start [] (marked ['\\', 'x', '+', '1', Text.singleMark]) =
        .ok ⟨[⟨.literal [1], ⟨1, 2⟩⟩], ⟨1, 8⟩⟩ ∧
      ∃ e, Lexer.readAll .start [] (marked ['\\', 'x', '1', Text.singleMark]) = .error e := by
  intro marked
  have hmark : IsMark Text.singleMark := .inl rfl
  have hbody : BodyForm Text.singleMark ['\\', 'x', '+', '1'] [1] :=
    .cons (.signed (.lower 1 (by decide))) .nil
  obtain ⟨hreads, hgoesOn, -⟩ := literals_follow_their_grammar Text.singleMark hmark .start ⟨1, 2⟩
    [] (marked ['\\', 'x', '+', '1', Text.singleMark]) _ rfl
  obtain ⟨-, -, hfails⟩ := literals_follow_their_grammar Text.singleMark hmark .start ⟨1, 2⟩
    [] (marked ['\\', 'x', '1', Text.singleMark]) _ rfl
  refine ⟨(hreads [1] ⟨1, 8⟩ []).mpr ⟨_, hbody, rfl, rfl⟩, ?_,
    hfails fun body bytes rest h htext => ?_⟩
  · rw [hgoesOn _ _ [] hbody rfl]
    exact Lexer.readAll_finish rfl
  · have hread := h.read hmark.ne_backslash .start .start [] rest
    have herror : Lexer.readLiteral Text.singleMark .start .start []
        ['\\', 'x', '1', Text.singleMark] =
          .error ⟨.invalidHexEscape ['1', Text.singleMark], ⟨1, 2⟩⟩ := by cbv
    rw [← htext, herror] at hread
    cases hread

end WordPattern
