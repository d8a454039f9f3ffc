import Mathlib
import WordPattern.Proofs.Token.Written

/-!
# Places of tokens and of errors

A source text is passed from its beginning: blanks, comments and tokens stand one behind the other,
up to the end of the text or to a place where no token can be read. The place of a token, and that of
an error, is told by the characters in front of it alone.
-/

namespace WordPattern

open Text Literal

/-! ## Places -/

/-- The place behind characters at the beginning of a text: the line counts the newlines among them,
and the column the characters behind the last one. -/
def Position.behind (front : List Char) : Position where
  line := 1 + front.count '\n'
  column := 1 + (front.reverse.takeWhile (· != '\n')).length

theorem Position.behind_snoc (front : List Char) (c : Char) :
    behind (front ++ [c]) = (behind front).advance c := by
  simp only [behind, List.reverse_append, List.reverse_singleton, List.singleton_append,
    List.count_append, List.count_singleton, List.takeWhile_cons, advance]
  by_cases hc : c = '\n'
  · simp [hc, Nat.add_assoc]
  · simp [hc, Nat.add_comm]

theorem Position.behind_append (front chars : List Char) :
    behind (front ++ chars) = (behind front).after chars := by
  induction chars generalizing front with
  | nil => rw [List.append_nil, after_nil]
  | cons c chars ih => rw [List.append_cons, ih, behind_snoc, after_cons]

/-! ## What is passed -/

/-- Characters that spell a lexeme. A literal may have any parts between its marks. -/
inductive Lexeme.Spelling : List Char → Lexeme → Prop
  | form {chars : List Char} {l : Lexeme} (h : Form chars l) (hl : l.WellFormed) : Spelling chars l
  | literal {mark : Char} {body : List Char} {bytes : List UInt8} (hmark : IsMark mark)
    (h : BodyForm mark body bytes) : Spelling (mark :: (body ++ [mark])) (.literal bytes)

/-- `Passed source front back ts` says that the text `source` consists of `front`, which has the
tokens `ts` and blanks and comments between them, and of `back`, which is still ahead. -/
inductive Passed (source : List Char) : List Char → List Char → List Token → Prop
  | start : Passed source [] source []
  | blank {front back : List Char} {ts : List Token} {c : Char}
    (h : Passed source front (c :: back) ts) (hc : isBlank c = true) :
    Passed source (front ++ [c]) back ts
  /-- A comment runs up to the end of its line or of the text. -/
  | comment {front back text : List Char} {ts : List Token}
    (h : Passed source front (('-' :: '-' :: text) ++ back) ts) (htext : '\n' ∉ text)
    (hend : ∀ c ∈ back.head?, c = '\n') : Passed source (front ++ '-' :: '-' :: text) back ts
  | token {front back chars : List Char} {ts : List Token} {l : Lexeme}
    (h : Passed source front (chars ++ back) ts) (hl : l.Spelling chars)
    (hcomment : ¬['-', '-'] <+: chars ++ back) :
    Passed source (front ++ chars) back (ts ++ [⟨l, .behind front⟩])

/-- The text ends where the next part of a literal, or its closing mark, would stand. -/
inductive Literal.BrokenOff : List Char → Prop
  | nothing : BrokenOff []
  | backslash : BrokenOff ['\\']
  | digit {d : Char} {low : Nat} (hd : HexDigit d low) : BrokenOff ['\\', 'x', d]

/-- What stands behind a backslash makes no part of a literal. -/
inductive Literal.BadEscape (mark : Char) : List Char → SyntaxError.Cause → Prop
  | unknown {c : Char} {rest : List Char}
    (h : ∀ front bytes, ¬PartForm mark ('\\' :: c :: front) bytes) :
    BadEscape mark (c :: rest) (.unknownEscape c)
  | hex {rest : List Char} (h : ∀ bytes, ¬PartForm mark ('\\' :: 'x' :: rest.take 2) bytes)
    (hend : ¬BrokenOff ('\\' :: 'x' :: rest)) :
    BadEscape mark ('x' :: rest) (.invalidHexEscape (rest.take 2))

/-- `Unreadable front back e` says that no token can be read off `back`, which stands behind `front`,
and that `e` is the error for it. -/
inductive Unreadable (front : List Char) : List Char → SyntaxError → Prop
  | unexpectedCharacter {c : Char} {rest : List Char} (hblank : isBlank c = false)
    (h : ∀ chars l, Lexeme.Spelling chars l → ¬chars <+: c :: rest) (hmark : ¬IsMark c)
    (hsigil : c ≠ '@' ∧ c ≠ '$') :
    Unreadable front (c :: rest) ⟨.unexpectedCharacter c, .behind front⟩
  | missingName {sigil : Char} {rest : List Char} (hsigil : sigil = '@' ∨ sigil = '$')
    (h : ∀ c ∈ rest.head?, continuesWord c = false) :
    Unreadable front (sigil :: rest) ⟨.missingName sigil, .behind front⟩
  /-- The place is that of the opening mark. -/
  | unterminated {mark : Char} {body tail : List Char} {bytes : List UInt8} (hmark : IsMark mark)
    (hbody : BodyForm mark body bytes) (htail : BrokenOff tail) :
    Unreadable front (mark :: (body ++ tail)) ⟨.unterminatedLiteral, .behind front⟩
  /-- The place is that of the character behind the backslash. -/
  | escape {mark : Char} {body tail : List Char} {bytes : List UInt8} {cause : SyntaxError.Cause}
    (hmark : IsMark mark) (hbody : BodyForm mark body bytes) (htail : BadEscape mark tail cause) :
    Unreadable front (mark :: (body ++ '\\' :: tail))
      ⟨cause, .behind (front ++ mark :: (body ++ ['\\']))⟩

variable {source front back chars : List Char} {ts : List Token}

theorem Passed.append (h : Passed source front back ts) : front ++ back = source := by
  induction h with
  | start => rfl
  | blank _ _ ih | comment _ _ _ ih | token _ _ _ ih => simpa using ih

namespace Lexer

/-! ## Blanks and comments -/

/-- What is passed in a comment is the rest of its line. -/
theorem skip_comment (here : Position) (chars : List Char) :
    skip true here chars =
      skip false (here.after (chars.takeWhile (· != '\n'))) (chars.dropWhile (· != '\n')) := by
  induction chars generalizing here with
  | nil => rfl
  | cons c rest ih =>
    by_cases hc : c = '\n'
    · subst hc
      rfl
    · have hne : (c != '\n') = true := bne_iff_ne.mpr hc
      rw [skip, if_pos rfl, hne, ih]
      simp [hc]

/-- A text that neither a blank nor a comment begins. -/
def Begins (chars : List Char) : Prop :=
  (∀ c ∈ chars.head?, isBlank c = false) ∧ ¬['-', '-'] <+: chars

theorem passed_of_skip {first : Position} {rest : List Char} (h : Passed source front chars ts)
    (hskip : skip false (.behind front) chars = (first, rest)) : ∃ front',
      Passed source front' rest ts ∧ first = .behind front' ∧ Begins rest := by
  induction hn : chars.length using Nat.strongRecOn generalizing front chars with
  | ind n ih =>
    subst hn
    match chars with
    | [] =>
      cases hskip
      exact ⟨front, h, rfl, by simp [Begins]⟩
    | c :: more =>
      rw [skip, if_neg Bool.false_ne_true] at hskip
      split at hskip
      · rename_i hblank
        rw [← Position.behind_snoc] at hskip
        exact ih _ (Nat.lt_succ_self _) (h.blank hblank) hskip rfl
      · rename_i hblank
        split at hskip
        · rename_i hcomment
          simp only [Bool.and_eq_true, beq_iff_eq] at hcomment
          obtain ⟨rfl, hmore⟩ := hcomment
          obtain ⟨more, rfl⟩ := List.head?_eq_some_iff.mp hmore
          rw [skip_comment, ← Position.behind_snoc, ← Position.behind_append,
            List.append_assoc] at hskip
          have hline := List.takeWhile_append_dropWhile (p := (· != '\n')) (l := more)
          refine ih _ ?_ (.comment ?_ ?_ ?_) hskip rfl
          · exact Nat.lt_succ_of_le (List.dropWhile_suffix _).length_le
          · simpa [hline] using h
          · exact fun hnewline => by simpa using List.mem_takeWhile_imp hnewline
          · intro c hc
            have hstop := List.head?_dropWhile_not (· != '\n') ('-' :: more)
            rw [hc] at hstop
            simpa using hstop
        · rename_i hcomment
          cases hskip
          refine ⟨front, h, rfl, ?_, ?_⟩
          · rintro c ⟨⟩
            exact Bool.eq_false_iff.mpr hblank
          · rw [List.cons_prefix_cons]
            rintro ⟨rfl, more, rfl⟩
            exact hcomment rfl

/-! ## Tokens -/

theorem symbol?_begins {c : Char} {rest : List Char} {s : Symbol}
    (h : symbol? c rest.head? = some s) : s.spelling.toList <+: c :: rest := by
  have hpair (d : Char) (hrest : (rest.head? == some '=') = true) : [d, '='] <+: d :: rest := by
    obtain ⟨more, rfl⟩ := List.head?_eq_some_iff.mp (eq_of_beq hrest)
    exact List.prefix_append [d, '='] more
  have hone {d : Char} {t : Symbol} {o : Option Symbol} (ht : t.spelling.toList = [d])
      (h : (if c == d then some t else o) = some s) :
      s.spelling.toList <+: c :: rest ∨ o = some s := by
    split at h
    · rename_i hc
      obtain rfl := eq_of_beq hc
      cases h
      rw [ht]
      exact .inl (List.prefix_append [c] rest)
    · exact .inr h
  have htwo {d : Char} {t u : Symbol} {o : Option Symbol} (ht : t.spelling.toList = [d, '='])
      (hu : u.spelling.toList = [d])
      (h : (if c == d then some (if rest.head? == some '=' then t else u) else o) = some s) :
      s.spelling.toList <+: c :: rest ∨ o = some s := by
    by_cases hrest : (rest.head? == some '=') = true
    · rw [if_pos hrest] at h
      split at h
      · rename_i hc
        obtain rfl := eq_of_beq hc
        cases h
        rw [ht]
        exact .inl (hpair c hrest)
      · exact .inr h
    · rw [if_neg hrest] at h
      exact hone hu h
  unfold symbol? at h
  iterate 8
    obtain hfront | h := hone rfl h
    · exact hfront
  obtain hfront | h := htwo rfl rfl h
  · exact hfront
  obtain ⟨hc, hpaired⟩ | ⟨-, h⟩ := ite_eq_iff.mp h
  · obtain ⟨hrest, hs⟩ := Option.ite_none_right_eq_some.mp hpaired
    cases hs
    rw [eq_of_beq hc]
    exact hpair _ hrest
  iterate 2
    obtain hfront | h := htwo rfl rfl h
    · exact hfront
  cases h

theorem numeral_begins (chars : List Char) : (numeral chars).text.toList <+: chars := by
  have hall := List.takeWhile_append_dropWhile (p := Char.isDigit) (l := chars)
  rw [numeral, Numeral.text]
  split
  · rw [String.toList_ofList]
    exact List.takeWhile_prefix _
  · rename_i digits hdigits
    rw [String.toList_ofList]
    dsimp only at hdigits ⊢
    unfold fraction? at hdigits
    split at hdigits
    · rename_i c more hback
      split at hdigits
      · rename_i hdigit
        cases hdigits
        conv_rhs => rw [← hall, hback]
        rw [List.prefix_append_right_inj, List.cons_prefix_cons,
          ← List.takeWhile_cons_of_pos hdigit]
        exact ⟨rfl, List.takeWhile_prefix _⟩
      · cases hdigits
    · cases hdigits

theorem form_lexemeOfWord (chars : List Char) :
    Lexeme.Form chars (lexemeOfWord (String.ofList chars)) := by
  unfold lexemeOfWord
  split
  · rename_i k hkeyword
    have hform := Lexeme.Form.keyword k
    rwa [Keyword.spelling_of_ofWord? hkeyword, String.toList_ofList] at hform
  · have hform := Lexeme.Form.word (String.ofList chars)
    rwa [String.toList_ofList] at hform

/-- A token is read off the characters that spell it, and the next place is behind them. -/
theorem spelling_of_readToken {here : Position} {c : Char} {rest : List Char} {r : Reading}
    (h : readToken here c rest = .ok r) : ∃ chars,
      c :: rest = chars ++ r.rest ∧ r.lexeme.Spelling chars ∧ r.next = here.after chars := by
  have hwellFormed := wellFormed_of_readToken h
  have hof {l : Lexeme} (chars : List Char) (hform : l.Form chars) (hfront : chars <+: c :: rest)
      (hr : Reading.of l here chars.length (c :: rest) = r) : ∃ chars,
        c :: rest = chars ++ r.rest ∧ r.lexeme.Spelling chars ∧ r.next = here.after chars := by
    subst hr
    refine ⟨chars, ?_, .form hform hwellFormed, ?_⟩
    · obtain ⟨more, hmore⟩ := hfront
      rw [← hmore]
      exact congrArg (chars ++ ·) (List.drop_left ..).symm
    · exact congrArg here.after (List.prefix_iff_eq_take.mp hfront).symm
  unfold readToken at h
  split at h
  · rename_i hmark
    obtain ⟨body, bytes, hbody, rfl, hlexeme, hnext⟩ := body_of_readLiteral h
    refine ⟨c :: (body ++ [c]), by simp, ?_, hnext⟩
    rw [hlexeme]
    exact .literal (by simpa [IsMark] using hmark) hbody
  split at h
  · rename_i hsigil
    dsimp only at h
    split at h
    · cases h
    · refine hof (c :: word rest) ?_ ?_ (Except.ok.inj h)
      · unfold nameAfter
        split
        · rename_i hc
          obtain rfl := eq_of_beq hc
          have hform := Lexeme.Form.variableName (String.ofList (word rest))
          rwa [String.toList_ofList] at hform
        · rename_i hc
          obtain rfl : c = '$' := by simpa [hc] using hsigil
          have hform := Lexeme.Form.subroutineName (String.ofList (word rest))
          rwa [String.toList_ofList] at hform
      · exact List.cons_prefix_cons.mpr ⟨rfl, List.takeWhile_prefix _⟩
  split at h
  · refine hof (numeral (c :: rest)).text.toList (.number _) (numeral_begins _) ?_
    rw [← numeralWidth_eq]
    exact Except.ok.inj h
  split at h
  · exact hof _ (form_lexemeOfWord _) (List.takeWhile_prefix _) (Except.ok.inj h)
  split at h
  · rename_i hsymbol
    refine hof _ (.symbol _) (symbol?_begins hsymbol) ?_
    rw [String.length_toList]
    exact Except.ok.inj h
  · cases h

/-! ## Text no token can be read off -/

/-- A character that is a token by itself begins one whatever stands behind it. -/
theorem symbol?_ne_none {c : Char} {s : Symbol} (h : symbol? c none = some s) (next : Option Char) :
    symbol? c next ≠ none := by
  have hboth {p : Prop} [Decidable p] {a b : Symbol} {o o' : Option Symbol}
      (hnone : (if p then some a else o) = none) (h : (if p then some b else o') = some s) :
      o = none ∧ o' = some s := by
    by_cases hp : p
    · rw [if_pos hp] at hnone
      cases hnone
    · rw [if_neg hp] at hnone h
      exact ⟨hnone, h⟩
  intro hnone
  unfold symbol? at h hnone
  iterate 9
    obtain ⟨hnone, h⟩ := hboth hnone h
  by_cases hc : (c == '!') = true
  · rw [if_pos hc] at h
    cases h
  · rw [if_neg hc] at hnone h
    iterate 2
      obtain ⟨hnone, h⟩ := hboth hnone h
    cases h

/-- Where no token can be read, none is spelled. -/
theorem not_prefix_of_symbol? {c : Char} {rest : List Char}
    (hmark : ¬(c == singleMark || c == doubleMark) = true) (hsigil : ¬(c == '@' || c == '$') = true)
    (hdigit : ¬c.isDigit = true) (hword : ¬beginsWord c = true) (h : symbol? c rest.head? = none)
    {chars : List Char} {l : Lexeme} (hl : l.Spelling chars) : ¬chars <+: c :: rest := by
  intro hfront
  have hwhole : Whole chars l := by
    cases hl with
    | form h hl => exact h.whole hl
    | literal hmark h => exact whole_literal hmark h
  obtain ⟨-, -, hread⟩ := hwhole
  rename_i d more here next
  obtain ⟨rfl, hmore⟩ := List.cons_prefix_cons.mp hfront
  rw [readToken, if_neg hmark, if_neg hsigil, if_neg hdigit, if_neg hword] at hread
  cases more with
  | nil =>
    cases hsymbol : symbol? d none with
    | none => simp [hsymbol] at hread
    | some s => exact symbol?_ne_none hsymbol _ h
  | cons e more =>
    obtain ⟨tail, rfl⟩ := hmore
    simp only [List.head?_cons, List.cons_append] at h hread
    simp [h] at hread

theorem readEscape_ne_unknown {mark c d : Char} {bytes : List UInt8}
    (h : PartForm mark ('\\' :: d :: front) bytes) (rest : List Char) :
    readEscape (d :: rest) ≠ .unknown c := by
  have hhex : readEscape ('x' :: rest) ≠ .unknown c := by
    rw [readEscape_hex]
    split <;> exact Escape.noConfusion
  cases h with
  | escape h =>
    cases h with
    | hex => exact hhex
    | _ => exact Escape.noConfusion
  | signed => exact hhex

/-- An escape with a character behind the backslash is a byte, or goes wrong at this character. -/
theorem readEscape_cons (c : Char) (rest : List Char) :
    (∃ b width, readEscape (c :: rest) = .byte b width) ∨
      (c = 'x' ∧ hexByte? (rest.take 2) = none ∧
        readEscape (c :: rest) = .badHex (rest.take 2)) ∨
      readEscape (c :: rest) = .unknown c := by
  rw [readEscape]
  iterate 5
    split
    · exact .inl ⟨_, _, rfl⟩
  split
  · rename_i hx
    split
    · exact .inl ⟨_, _, rfl⟩
    · rename_i hnone
      exact .inr (.inl ⟨eq_of_beq hx, hnone, rfl⟩)
  · exact .inr (.inr rfl)

theorem badEscape_of_unknown {mark c : Char} (h : readEscape chars = .unknown c) :
    BadEscape mark chars (.unknownEscape c) := by
  cases chars with
  | nil => cases h
  | cons d rest =>
    obtain ⟨b, width, hread⟩ | ⟨-, -, hread⟩ | hread := readEscape_cons d rest
    · cases hread.symm.trans h
    · cases hread.symm.trans h
    · cases hread.symm.trans h
      exact .unknown fun front bytes hpart => readEscape_ne_unknown hpart rest h

theorem badEscape_of_badHex {mark : Char} {digits : List Char}
    (h : readEscape chars = .badHex digits) :
    BadEscape mark chars (.invalidHexEscape digits) := by
  cases chars with
  | nil => cases h
  | cons d rest =>
    obtain ⟨b, width, hread⟩ | ⟨rfl, hnone, hread⟩ | hread := readEscape_cons d rest
    · cases hread.symm.trans h
    · cases hread.symm.trans h
      refine .hex (fun bytes hpart => ?_) ?_
      · generalize rest.take 2 = pair at hnone hpart
        cases hpart with
        | escape hform =>
          cases hform with
          | hex hc hd => cases hnone.symm.trans (hexByte?_digits hc hd)
        | signed hd => cases hnone.symm.trans (hexByte?_signed hd)
      · rintro ⟨⟩
        rename_i hd
        simp [hexByte?, hd.read] at hnone
    · cases hread.symm.trans h

theorem eq_nil_of_missing (h : readEscape chars = .missing) : chars = [] := by
  cases chars with
  | nil => rfl
  | cons d rest =>
    obtain ⟨b, width, hread⟩ | ⟨-, -, hread⟩ | hread := readEscape_cons d rest <;>
      cases hread.symm.trans h

/-- Where a literal goes wrong, some of its parts stand in front. -/
theorem unreadable_of_readLiteral {mark : Char} {opening here : Position} {acc : List UInt8}
    {e : SyntaxError} (h : readLiteral mark opening here acc chars = .error e) :
    ∃ body tail bytes, BodyForm mark body bytes ∧ chars = body ++ tail ∧
      (BrokenOff tail ∧ e = ⟨.unterminatedLiteral, opening⟩ ∨
        ∃ behind cause, tail = '\\' :: behind ∧ BadEscape mark behind cause ∧
          e = ⟨cause, here.after (body ++ ['\\'])⟩) := by
  fun_induction readLiteral mark opening here acc chars with
  | case1 =>
    cases h
    exact ⟨[], [], [], .nil, rfl, .inl ⟨.nothing, rfl⟩⟩
  | case2 => cases h
  | case3 here acc c rest hmark hescape value width hread ih =>
    obtain rfl := eq_of_beq hescape
    obtain ⟨body, tail, bytes, hbody, hrest, hunreadable⟩ := ih h
    rcases partForm_or_digit_of_readEscape hread with hpart | ⟨d, low, hd, rfl, rfl⟩
    · refine ⟨_, tail, _, .cons hpart hbody, ?_, ?_⟩
      · rw [List.cons_append, List.cons_append, List.append_assoc, ← hrest, List.take_append_drop]
      · rwa [List.append_assoc, Position.after_append _ (_ :: _), Position.after_cons]
    · refine ⟨[], _, [], .nil, rfl, .inl ⟨.digit hd, ?_⟩⟩
      have hnil : ['x', d].drop 2 = [] := rfl
      rw [hnil, readLiteral] at h
      exact (Except.error.inj h).symm
  | case4 here acc c rest hmark hescape other hread =>
    obtain rfl := eq_of_beq hescape
    exact ⟨[], _, [], .nil, rfl,
      .inr ⟨rest, _, rfl, badEscape_of_unknown hread, (Except.error.inj h).symm⟩⟩
  | case5 here acc c rest hmark hescape digits hread =>
    obtain rfl := eq_of_beq hescape
    exact ⟨[], _, [], .nil, rfl,
      .inr ⟨rest, _, rfl, badEscape_of_badHex hread, (Except.error.inj h).symm⟩⟩
  | case6 here acc c rest hmark hescape hread =>
    obtain rfl := eq_of_beq hescape
    obtain rfl := eq_nil_of_missing hread
    exact ⟨[], _, [], .nil, rfl, .inl ⟨.backslash, (Except.error.inj h).symm⟩⟩
  | case7 here acc c rest hmark hescape ih =>
    obtain ⟨body, tail, bytes, hbody, hrest, hunreadable⟩ := ih h
    have hpart : PartForm mark [c] (String.utf8EncodeChar c) :=
      .character c (by simpa using hmark) (by simpa using hescape)
    refine ⟨_, tail, _, .cons hpart hbody, ?_, ?_⟩
    · rw [List.singleton_append, List.cons_append, ← hrest]
    · rwa [List.append_assoc, Position.after_append _ [c]]

theorem unreadable_of_readToken {c : Char} {rest : List Char} {e : SyntaxError}
    (hbegins : Begins (c :: rest)) (h : readToken (.behind front) c rest = .error e) :
    Unreadable front (c :: rest) e := by
  unfold readToken at h
  split at h
  · rename_i hc
    have hmark : IsMark c := by simpa [IsMark] using hc
    obtain ⟨body, tail, bytes, hbody, rfl, ⟨htail, rfl⟩ | ⟨behind, cause, rfl, htail, rfl⟩⟩ :=
      unreadable_of_readLiteral h
    · exact .unterminated hmark hbody htail
    · have hunreadable : Unreadable front _ _ := .escape hmark hbody htail
      rwa [Position.behind_append, Position.after_cons] at hunreadable
  · rename_i hmark
    split at h
    · rename_i hsigil
      dsimp only at h
      split at h
      · rename_i hname
        cases h
        refine .missingName (by simpa using hsigil) fun d hd => ?_
        obtain ⟨more, rfl⟩ := List.head?_eq_some_iff.mp hd
        by_contra hcontinues
        simp [word, hcontinues] at hname
      · cases h
    · rename_i hsigil
      split at h
      · cases h
      · rename_i hdigit
        split at h
        · cases h
        · rename_i hword
          split at h
          · cases h
          · rename_i hsymbol
            cases h
            refine .unexpectedCharacter (hbegins.1 c rfl)
              (fun chars l => not_prefix_of_symbol? hmark hsigil hdigit hword hsymbol) ?_ ?_
            · simpa [IsMark] using hmark
            · simpa using hsigil

/-! ## Whole texts -/

theorem passed_of_readAll {here : Position} {done : List Token}
    (h : Passed source front chars done.reverse) (hhere : here = .behind front) :
    match readAll here done chars with
    | .ok tokens => Passed source source [] tokens.list ∧ tokens.finish = .behind source
    | .error e => ∃ front back ts, Passed source front back ts ∧ Unreadable front back e := by
  fun_induction readAll here done chars generalizing front with
  | case1 here done chars finish hskip =>
    subst hhere
    obtain ⟨front', hpassed, rfl, -⟩ := passed_of_skip h hskip
    have hall := hpassed.append
    rw [List.append_nil] at hall
    subst hall
    exact ⟨hpassed, rfl⟩
  | case2 here done chars first c rest hskip r hread ih =>
    subst hhere
    obtain ⟨front', hpassed, rfl, hbegins⟩ := passed_of_skip h hskip
    obtain ⟨chars, hchars, hspelling, hnext⟩ := spelling_of_readToken hread
    rw [← Position.behind_append] at hnext
    rw [hchars] at hpassed hbegins
    refine ih ?_ hnext
    rw [List.reverse_cons]
    exact .token hpassed hspelling hbegins.2
  | case3 here done chars first c rest hskip e hread =>
    subst hhere
    obtain ⟨front', hpassed, rfl, hbegins⟩ := passed_of_skip h hskip
    exact ⟨front', _, _, hpassed, unreadable_of_readToken hbegins hread⟩

end Lexer

/-- In every source text, the place of each token is that of its first character, and the tokens end
where the text does. If there are no tokens, the error is found at the character that begins none, at
the sigil without a name, at the opening mark of the literal that is not closed, or behind the
backslash of the escape that is none. -/
theorem places_are_exact (source : String) :
    match Tokens.ofSource source with
    | .ok tokens =>
      Passed source.toList source.toList [] tokens.list ∧ tokens.finish = .behind source.toList
    | .error e => ∃ front back ts, Passed source.toList front back ts ∧ Unreadable front back e :=
  Lexer.passed_of_readAll .start rfl

end WordPattern
