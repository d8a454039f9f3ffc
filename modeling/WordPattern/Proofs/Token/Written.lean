import WordPattern.Proofs.Token.Literals

/-!
# Lexemes written out

A lexeme that is cut out of some text has a name, digits or bytes of its kind. Written out, it is
read as one token, and a blank or the end of the text behind it does not change that. So a text in
which blanks stand between lexemes is cut at the blanks, and what has been written is read again.
-/

namespace WordPattern

open Lexer

/-! ## Shapes of lexemes -/

namespace Text

/-- One character or more, all with the same property. -/
def IsRun (p : Char → Bool) (chars : List Char) : Prop := chars ≠ [] ∧ ∀ c ∈ chars, p c = true

variable {p : Char → Bool} {chars : List Char} {c : Char}

theorem isRun_of_all (hne : chars.isEmpty = false) (hall : chars.all p = true) :
    IsRun p chars := by
  refine ⟨?_, List.all_eq_true.mp hall⟩
  rintro rfl
  cases hne

theorem IsRun.takeWhile (h : IsRun p chars) : chars.takeWhile p = chars :=
  List.takeWhile_eq_self_iff.mpr h.2

theorem isRun_takeWhile (h : chars.takeWhile p ≠ []) : IsRun p (chars.takeWhile p) :=
  ⟨h, fun _ => List.mem_takeWhile_imp⟩

theorem isRun_takeWhile_cons (h : p c = true) : IsRun p ((c :: chars).takeWhile p) :=
  isRun_takeWhile (by simp [h])

theorem beginsWord_of_isDigit (h : c.isDigit = true) : beginsWord c = false := by
  have hall : ∀ n ≤ '9'.toNat, (Char.ofNat n).isDigit = true →
      beginsWord (Char.ofNat n) = false := by decide
  have hle : c.toNat ≤ '9'.toNat := of_decide_eq_true (Bool.and_eq_true_iff.mp h).2
  have hc := hall c.toNat hle
  rw [Char.ofNat_toNat] at hc
  exact hc h

end Text

open Text

/-- The digits of a number, and those of its fraction if it has one. -/
def Numeral.WellFormed (n : Numeral) : Prop :=
  IsRun Char.isDigit n.whole ∧ ∀ digits ∈ n.fraction, IsRun Char.isDigit digits

namespace Lexeme

/-- The name of a lexeme is a word, and only a keyword is spelled like one. -/
def WellFormed : Lexeme → Prop
  | .word name => IsRun continuesWord name.toList ∧ (∃ c ∈ name.toList.head?, beginsWord c = true) ∧
    Keyword.ofWord? name = none
  | .variableName name | .subroutineName name => IsRun continuesWord name.toList
  | .number n => n.WellFormed
  | .keyword _ | .literal _ | .symbol _ => True

theorem wellFormed_nameAfter {sigil : Char} {name : List Char} (h : IsRun continuesWord name) :
    (nameAfter sigil name).WellFormed := by
  unfold nameAfter
  split <;> simpa only [WellFormed, String.toList_ofList] using h

theorem wellFormed_lexemeOfWord {c : Char} {rest : List Char} (h : beginsWord c = true) :
    (lexemeOfWord (String.ofList (Lexer.word (c :: rest)))).WellFormed := by
  unfold lexemeOfWord
  split
  · trivial
  · rename_i hkeyword
    refine ⟨?_, ⟨c, ?_, h⟩, hkeyword⟩
    · rw [String.toList_ofList]
      exact isRun_takeWhile_cons (beginsWord.continues h)
    · simp [Lexer.word, beginsWord.continues h]

end Lexeme

theorem isRun_of_fraction? {chars digits : List Char} (h : fraction? chars = some digits) :
    IsRun Char.isDigit digits := by
  unfold fraction? at h
  split at h
  · split at h
    · rename_i c rest hdigit
      cases h
      rw [← List.takeWhile_cons_of_pos hdigit]
      exact isRun_takeWhile_cons hdigit
    · cases h
  · cases h

theorem wellFormed_numeral {c : Char} {rest : List Char} (h : c.isDigit = true) :
    (numeral (c :: rest)).WellFormed :=
  ⟨isRun_takeWhile_cons h, fun _ => isRun_of_fraction?⟩

theorem wellFormed_of_readToken {here : Position} {c : Char} {rest : List Char} {r : Reading}
    (h : readToken here c rest = .ok r) : r.lexeme.WellFormed := by
  unfold readToken at h
  split at h
  · obtain ⟨body, bytes, -, -, hlexeme, -⟩ := body_of_readLiteral h
    rw [hlexeme]
    trivial
  split at h
  · dsimp only at h
    split at h
    · cases h
    · rename_i hname
      cases h
      exact Lexeme.wellFormed_nameAfter (isRun_takeWhile (mt List.isEmpty_iff.mpr hname))
  split at h
  · rename_i hdigit
    cases h
    exact wellFormed_numeral hdigit
  split at h
  · rename_i hword
    cases h
    exact Lexeme.wellFormed_lexemeOfWord hword
  split at h
  · cases h
    trivial
  · cases h

theorem Lexer.Cuts.wellFormed {chars : List Char} {ls : List Lexeme} (h : Cuts chars ls) :
    ∀ l ∈ ls, l.WellFormed := by
  induction h with
  | finish => exact fun _ => nofun
  | token _ read _ ih => exact List.forall_mem_cons.mpr ⟨wellFormed_of_readToken read, ih⟩

/-! ## Single lexemes -/

namespace Lexer

/-- All of a text is one token, and no comment begins with it. -/
inductive Whole : List Char → Lexeme → Prop
  | intro {c : Char} {rest : List Char} {here next : Position} {l : Lexeme}
    (hblank : isBlank c = false) (hcomment : c = '-' → rest = [])
    (read : readToken here c rest = .ok ⟨l, next, []⟩) : Whole (c :: rest) l

variable {chars : List Char} {c : Char} {l : Lexeme} {here : Position}

theorem Reading.of_all {front : Nat} (h : front = chars.length) :
    Reading.of l here front chars = ⟨l, here.after chars, []⟩ := by
  subst h
  rw [Reading.of, List.take_length, List.drop_length]

/-- A character is none of two that lack a property of it. -/
theorem neither_of_property {p : Char → Bool} {d e : Char} (hc : p c = true) (hd : p d = false)
    (he : p e = false) : ¬(c == d || c == e) = true := by
  rw [Bool.or_eq_true, beq_iff_eq, beq_iff_eq]
  rintro (rfl | rfl)
  · exact Bool.false_ne_true (hd.symm.trans hc)
  · exact Bool.false_ne_true (he.symm.trans hc)

theorem isBlank_eq_false {p : Char → Bool} (hstops : ∀ {d}, isBlank d = true → p d = false)
    (hc : p c = true) : isBlank c = false := by
  by_contra hblank
  exact Bool.false_ne_true ((hstops (Bool.of_not_eq_false hblank)).symm.trans hc)

theorem readToken_word (here : Position) {rest : List Char}
    (hrun : IsRun continuesWord (c :: rest)) (hbegins : beginsWord c = true) :
    readToken here c rest =
      .ok ⟨lexemeOfWord (String.ofList (c :: rest)), here.after (c :: rest), []⟩ := by
  have hmark : ¬(c == singleMark || c == doubleMark) = true := neither_of_property hbegins rfl rfl
  have hsigil : ¬(c == '@' || c == '$') = true := neither_of_property hbegins rfl rfl
  have hdigit : ¬c.isDigit = true := fun h =>
    Bool.false_ne_true ((beginsWord_of_isDigit h).symm.trans hbegins)
  rw [readToken, if_neg hmark, if_neg hsigil, if_neg hdigit, if_pos hbegins]
  simp only [Lexer.word, hrun.takeWhile]
  rw [Reading.of_all rfl]

theorem readToken_name {sigil : Char} (hsigil : sigil = '@' ∨ sigil = '$') (here : Position)
    (hrun : IsRun continuesWord chars) :
    readToken here sigil chars = .ok ⟨nameAfter sigil chars, here.after (sigil :: chars), []⟩ := by
  have hmark : ¬(sigil == singleMark || sigil == doubleMark) = true := by
    rcases hsigil with rfl | rfl <;> decide
  have hnames : (sigil == '@' || sigil == '$') = true := by
    rcases hsigil with rfl | rfl <;> decide
  rw [readToken, if_neg hmark, if_pos hnames]
  simp only [Lexer.word, hrun.takeWhile, if_neg (mt List.isEmpty_iff.mp hrun.1)]
  rw [Reading.of_all List.length_cons.symm]

theorem fraction?_point {digits : List Char} (h : IsRun Char.isDigit digits) :
    fraction? ('.' :: digits) = some digits := by
  obtain ⟨c, rest, rfl⟩ := List.exists_cons_of_ne_nil h.1
  have hc : c.isDigit = true := h.2 c List.mem_cons_self
  rw [fraction?, if_pos hc, ← List.takeWhile_cons_of_pos hc, h.takeWhile]

theorem numeral_text {n : Numeral} (h : n.WellFormed) : numeral n.text.toList = n := by
  obtain ⟨whole, fraction⟩ := n
  obtain ⟨hwhole, hfraction⟩ := h
  have hbehind : whole.dropWhile Char.isDigit = [] := List.dropWhile_eq_nil_iff.mpr hwhole.2
  cases fraction with
  | none =>
    rw [Numeral.text, String.toList_ofList, numeral, hwhole.takeWhile, hbehind]
    rfl
  | some digits =>
    have hpoint : ∀ c, ('.' :: digits).head? = some c → c.isDigit = false := by
      rintro c ⟨⟩
      rfl
    rw [Numeral.text, String.toList_ofList, numeral, takeWhile_append_of_stop hpoint,
      dropWhile_append_of_stop hpoint, hwhole.takeWhile, hbehind, List.nil_append,
      fraction?_point (hfraction digits rfl)]

theorem numeralWidth_eq (n : Numeral) : numeralWidth n = n.text.toList.length := by
  obtain ⟨whole, _ | digits⟩ := n <;> simp [numeralWidth, Numeral.text]

theorem readToken_number (here : Position) {n : Numeral} (h : n.WellFormed) {rest : List Char}
    (htext : n.text.toList = c :: rest) (hdigit : c.isDigit = true) :
    readToken here c rest = .ok ⟨.number n, here.after (c :: rest), []⟩ := by
  have hmark : ¬(c == singleMark || c == doubleMark) = true := neither_of_property hdigit rfl rfl
  have hsigil : ¬(c == '@' || c == '$') = true := neither_of_property hdigit rfl rfl
  rw [readToken, if_neg hmark, if_neg hsigil, if_pos hdigit, ← htext]
  simp only [numeral_text h]
  rw [Reading.of_all (numeralWidth_eq n)]

theorem whole_word (hrun : IsRun continuesWord chars)
    (hbegins : ∃ c ∈ chars.head?, beginsWord c = true) :
    Whole chars (lexemeOfWord (String.ofList chars)) := by
  obtain ⟨c, hc, hbegins⟩ := hbegins
  obtain ⟨rest, rfl⟩ := List.head?_eq_some_iff.mp hc
  refine .intro ?_ ?_ (readToken_word .start hrun hbegins)
  · exact isBlank_eq_false continuesWord_of_isBlank (beginsWord.continues hbegins)
  · rintro rfl
    cases hbegins

theorem whole_name {sigil : Char} (hsigil : sigil = '@' ∨ sigil = '$')
    (hrun : IsRun continuesWord chars) : Whole (sigil :: chars) (nameAfter sigil chars) := by
  refine .intro ?_ ?_ (readToken_name hsigil .start hrun)
  · rcases hsigil with rfl | rfl <;> rfl
  · rintro rfl
    rcases hsigil with hdash | hdash <;> cases hdash

theorem whole_keyword (k : Keyword) : Whole k.spelling.toList (.keyword k) := by
  have hrun : IsRun continuesWord k.spelling.toList := by cases k <;> exact isRun_of_all rfl rfl
  have hbegins : ∃ c ∈ k.spelling.toList.head?, beginsWord c = true := by
    cases k <;> exact ⟨_, rfl, rfl⟩
  have hwhole := whole_word hrun hbegins
  rwa [String.ofList_toList, lexemeOfWord, Keyword.ofWord?_spelling] at hwhole

theorem whole_number {n : Numeral} (h : n.WellFormed) : Whole n.text.toList (.number n) := by
  obtain ⟨c, rest, hc⟩ := List.exists_cons_of_ne_nil h.1.1
  have hdigit : c.isDigit = true := h.1.2 c (by rw [hc]; exact List.mem_cons_self)
  obtain ⟨more, htext⟩ : ∃ more, n.text.toList = c :: more := by
    rw [Numeral.text]
    split <;> simp [hc]
  rw [htext]
  refine .intro ?_ ?_ (readToken_number .start h htext hdigit)
  · exact isBlank_eq_false isDigit_of_isBlank hdigit
  · rintro rfl
    cases hdigit

theorem whole_symbol (s : Symbol) : Whole s.spelling.toList (.symbol s) := by
  obtain ⟨c, rest, hchars, hblank, hcomment, next, hread⟩ : ∃ c rest,
      s.spelling.toList = c :: rest ∧ isBlank c = false ∧ (c = '-' → rest = []) ∧
        ∃ next, readToken .start c rest = .ok ⟨.symbol s, next, []⟩ := by
    cases s <;> exact ⟨_, _, rfl, rfl, by decide, _, rfl⟩
  rw [hchars]
  exact .intro hblank hcomment hread

theorem whole_literal {mark : Char} (hmark : IsMark mark) {body : List Char} {bytes : List UInt8}
    (h : Literal.BodyForm mark body bytes) : Whole (mark :: (body ++ [mark])) (.literal bytes) := by
  have hread : readToken .start mark (body ++ [mark]) =
      .ok ⟨.literal bytes, Position.start.after (mark :: (body ++ [mark])), []⟩ :=
    (readToken_mark_iff hmark).mpr ⟨body, bytes, h, rfl, rfl, rfl⟩
  refine .intro ?_ ?_ hread
  · rcases hmark with rfl | rfl <;> rfl
  · rintro rfl
    rcases hmark with hdash | hdash <;> cases hdash

end Lexer

/-- A byte by itself is a part of a literal, whichever of the marks stands around it. -/
theorem Literal.ByteForm.partForm {mark : Char} (hmark : IsMark mark) {chars : List Char}
    {b : UInt8} (h : ByteForm chars b) : PartForm mark chars [b] := by
  cases h with
  | printable c hc hsingle hdouble hescape =>
    have hsmall : c.val.toNat ≤ 0x7f := Nat.le_trans hc.2 (by decide)
    have hencode : String.utf8EncodeChar c = [c.toUInt8] := by
      rw [String.utf8EncodeChar, if_pos hsmall]
      rfl
    have hne : c ≠ mark := by
      rintro rfl
      exact hmark.elim hsingle hdouble
    rw [← hencode]
    exact .character c hne hescape
  | escape h => exact .escape h

theorem Literal.BytesForm.bodyForm {mark : Char} (hmark : IsMark mark) {body : List Char}
    {bytes : List UInt8} (h : BytesForm body bytes) : BodyForm mark body bytes := by
  induction h with
  | nil => exact .nil
  | cons first _ ih => exact .cons (first.partForm hmark) ih

theorem Lexeme.Form.whole {chars : List Char} {l : Lexeme} (h : Form chars l) (hl : l.WellFormed) :
    Whole chars l := by
  cases h with
  | keyword k => exact whole_keyword k
  | word name =>
    obtain ⟨hrun, hbegins, hkeyword⟩ := hl
    have hwhole := whole_word hrun hbegins
    rwa [String.ofList_toList, lexemeOfWord, hkeyword] at hwhole
  | variableName name =>
    have hwhole := whole_name (.inl rfl) hl
    rwa [nameAfter, if_pos (beq_self_eq_true _), String.ofList_toList] at hwhole
  | subroutineName name =>
    have hwhole := whole_name (.inr rfl) hl
    rwa [nameAfter, if_neg (by decide), String.ofList_toList] at hwhole
  | literal hmark h => exact whole_literal hmark (h.bodyForm hmark)
  | number n => exact whole_number hl
  | symbol s => exact whole_symbol s

/-! ## Lexemes between blanks -/

namespace Lexer

variable {chars gap tail more : List Char} {l : Lexeme} {ls : List Lexeme}

theorem passed_blanks (hblank : ∀ c ∈ gap, isBlank c = true) :
    passed false (gap ++ more) = passed false more := by
  induction gap with
  | nil => rfl
  | cons c gap ih =>
    obtain ⟨hc, hgap⟩ := List.forall_mem_cons.mp hblank
    rw [List.cons_append, passed_cons, if_neg Bool.false_ne_true, if_pos hc]
    exact ih hgap

theorem apart_blanks (hgap : gap ≠ []) (hblank : ∀ c ∈ gap, isBlank c = true) :
    Apart (gap ++ more) := by
  obtain ⟨c, rest, rfl⟩ := List.exists_cons_of_ne_nil hgap
  rintro d ⟨⟩
  exact hblank c List.mem_cons_self

/-- A token with a blank or nothing behind it is cut off, and no comment begins with it. -/
theorem Whole.cuts (h : Whole chars l) (htail : Apart tail) (others : Cuts tail ls) :
    Cuts (chars ++ tail) (l :: ls) := by
  obtain ⟨hblank, hcomment, read⟩ := h
  rename_i c rest here next
  have hdash : ¬(c == '-' && (rest ++ tail).head? == some '-') = true := by
    rw [Bool.and_eq_true, beq_iff_eq, beq_iff_eq]
    rintro ⟨hc, hnext⟩
    rw [hcomment hc, List.nil_append] at hnext
    exact htail.ne (by decide) hnext
  have hpassed : passed false (c :: (rest ++ tail)) = c :: (rest ++ tail) := by
    rw [passed_cons, if_neg Bool.false_ne_true, if_neg (Bool.eq_false_iff.mp hblank), if_neg hdash]
  obtain ⟨next', hread⟩ := readToken_append htail read here
  exact .token hpassed hread others

end Lexer

theorem Lexeme.Written.cuts {chars : List Char} {ls : List Lexeme} (h : Written chars ls)
    (hls : ∀ l ∈ ls, l.WellFormed) : Cuts chars ls := by
  induction h with
  | nil => exact .finish rfl
  | last h =>
    have hcuts := (h.whole (hls _ List.mem_cons_self)).cuts apart_nil (.finish rfl)
    rwa [List.append_nil] at hcuts
  | cons h hgap hblank _ ih =>
    obtain ⟨hl, hls⟩ := List.forall_mem_cons.mp hls
    exact (h.whole hl).cuts (apart_blanks hgap hblank)
      ((ih hls).of_passed (passed_blanks hblank))

/-! ## What occurs in texts -/

theorem Literal.exists_byteForm (b : UInt8) : ∃ chars, Literal.ByteForm chars b := by
  have hbyte : UInt8.ofNat (16 * (b.toNat / 16) + b.toNat % 16) = b := by
    rw [Nat.div_add_mod, UInt8.ofNat_toNat]
  have hform := Literal.EscapeForm.hex (.lower (b.toNat / 16) (by have := b.toNat_lt; omega))
    (.lower (b.toNat % 16) (Nat.mod_lt _ (by decide)))
  rw [hbyte] at hform
  exact ⟨_, .escape hform⟩

theorem Literal.exists_bytesForm (bytes : List UInt8) : ∃ body, BytesForm body bytes := by
  induction bytes with
  | nil => exact ⟨[], .nil⟩
  | cons b bytes ih =>
    obtain ⟨front, hfront⟩ := Literal.exists_byteForm b
    obtain ⟨back, hback⟩ := ih
    exact ⟨front ++ back, .cons hfront hback⟩

namespace Lexeme

theorem exists_form (l : Lexeme) : ∃ chars, Form chars l := by
  cases l with
  | keyword k => exact ⟨_, .keyword k⟩
  | word name => exact ⟨_, .word name⟩
  | variableName name => exact ⟨_, .variableName name⟩
  | subroutineName name => exact ⟨_, .subroutineName name⟩
  | literal bytes =>
    obtain ⟨body, hbody⟩ := Literal.exists_bytesForm bytes
    exact ⟨_, .literal (.inl rfl) hbody⟩
  | number n => exact ⟨_, .number n⟩
  | symbol s => exact ⟨_, .symbol s⟩

/-- The shape of a lexeme is all that it takes to occur in a text. -/
theorem occurs_iff {l : Lexeme} : l.Occurs ↔ l.WellFormed := by
  constructor
  · rintro ⟨source, tokens, htokens, hmem⟩
    exact (ofSource_iff.mp ⟨tokens, htokens, rfl⟩).wellFormed l hmem
  · intro h
    obtain ⟨chars, hform⟩ := l.exists_form
    have hcuts : Cuts (String.ofList chars).toList [l] := by
      rw [String.toList_ofList]
      exact (Written.last hform).cuts (List.forall_mem_singleton.mpr h)
    obtain ⟨tokens, htokens, hlexemes⟩ := ofSource_iff.mpr hcuts
    rw [lexemes] at hlexemes
    exact ⟨_, tokens, htokens, hlexemes ▸ List.mem_singleton_self l⟩

end Lexeme

/-- Lexemes of any text that are written one behind the other, with blanks between them, are the
lexemes of the text that is written. -/
theorem lexemes_written_are_read (ls : List Lexeme) (text : String)
    (hoccurs : ∀ l ∈ ls, l.Occurs) (hwritten : Lexeme.Written text.toList ls) :
    ∃ tokens, Tokens.ofSource text = .ok tokens ∧ lexemes tokens.list = ls :=
  ofSource_iff.mpr (hwritten.cuts fun l hl => Lexeme.occurs_iff.mp (hoccurs l hl))

/-- Blanks keep two signs from beginning a comment, and a name from running into a number. -/
theorem separated_signs_are_read :
    let text := "find @x\u00a03.5 -\n- '\\x41\\nq'"
    let ls : List Lexeme := [.keyword .find, .variableName "x", .number ⟨['3'], some ['5']⟩,
      .symbol .minus, .symbol .minus, .literal [65, 10, 113]]
    (∀ l ∈ ls, l.Occurs) ∧ Lexeme.Written text.toList ls ∧
      ∃ tokens, Tokens.ofSource text = .ok tokens ∧ lexemes tokens.list = ls := by
  intro text ls
  have hoccurs : ∀ l ∈ ls, l.Occurs := by
    simp only [ls, List.forall_mem_cons, Lexeme.occurs_iff]
    refine ⟨trivial, isRun_of_all rfl rfl, ⟨isRun_of_all rfl rfl, ?_⟩, trivial, trivial, trivial,
      nofun⟩
    rintro digits ⟨⟩
    exact isRun_of_all rfl rfl
  have hbytes : Literal.BytesForm ['\\', 'x', '4', '1', '\\', 'n', 'q'] [65, 10, 113] :=
    .cons (.escape (.hex (.lower 4 (by decide)) (.lower 1 (by decide))))
      (.cons (.escape .newline)
        (.cons (.printable 'q' (by decide) (by decide) (by decide) (by decide)) .nil))
  have spaced {chars more : List Char} {l m : Lexeme} {ls : List Lexeme} (c : Char)
      (hblank : isBlank c = true) (h : Lexeme.Form chars l)
      (others : Lexeme.Written more (m :: ls)) : Lexeme.Written (chars ++ ([c] ++ more)) (l :: m :: ls) :=
    .cons h (List.cons_ne_nil c []) (List.forall_mem_singleton.mpr hblank) others
  have hwritten : Lexeme.Written text.toList ls := by
    have hspaced := spaced ' ' rfl (.keyword .find) <| spaced '\u00a0' rfl (.variableName "x") <|
      spaced ' ' rfl (.number ⟨['3'], some ['5']⟩) <| spaced '\n' rfl (.symbol .minus) <|
      spaced ' ' rfl (.symbol .minus) <| .last (.literal (.inl rfl) hbytes)
    convert hspaced using 1
    decide
  exact ⟨hoccurs, hwritten, lexemes_written_are_read ls text hoccurs hwritten⟩

end WordPattern
