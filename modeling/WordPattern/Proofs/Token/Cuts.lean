import WordPattern.Proofs.Token.Reads
import WordPattern.Token.Lexer

/-!
# Texts cut into lexemes

What a text says does not depend on where it stands. A token that ends in front of a blank, or at
the end of the text, is read from the characters up to there only, and a line that ends keeps no
comment open. So two texts with a line break between them are cut as they are by themselves.
-/

namespace WordPattern

/-! ## Blanks -/

namespace Text

/-- The code points of blanks. -/
def blankCodes : List Nat := [
  9, 10, 11, 12, 13, 0x20, 0x85, 0xA0, 0x1680, 0x2000, 0x2001, 0x2002, 0x2003, 0x2004, 0x2005,
  0x2006, 0x2007, 0x2008, 0x2009, 0x200A, 0x2028, 0x2029, 0x202F, 0x205F, 0x3000]

theorem exists_code_of_isBlank {c : Char} (h : isBlank c = true) :
    ∃ n ∈ blankCodes, c = Char.ofNat n := by
  refine ⟨c.toNat, ?_, (Char.ofNat_toNat c).symm⟩
  simp only [isBlank, Bool.or_eq_true, Bool.and_eq_true, decide_eq_true_eq, beq_iff_eq] at h
  simp only [blankCodes, List.mem_cons, List.not_mem_nil, or_false]
  omega

theorem continuesWord_of_isBlank {c : Char} (h : isBlank c = true) :
    continuesWord c = false := by
  obtain ⟨n, hn, rfl⟩ := exists_code_of_isBlank h
  have hall : ∀ n ∈ blankCodes, continuesWord (Char.ofNat n) = false := by decide +kernel
  exact hall n hn

theorem isDigit_of_isBlank {c : Char} (h : isBlank c = true) : c.isDigit = false := by
  obtain ⟨n, hn, rfl⟩ := exists_code_of_isBlank h
  have hall : ∀ n ∈ blankCodes, (Char.ofNat n).isDigit = false := by decide
  exact hall n hn

end Text

namespace Lexer

/-- Nothing, or a text that begins with a blank. -/
def Apart (tail : List Char) : Prop := ∀ c, tail.head? = some c → Text.isBlank c = true

variable {tail : List Char} {c : Char}

theorem apart_nil : Apart [] := fun _ => nofun

theorem apart_newline {more : List Char} : Apart ('\n' :: more) := by
  rintro c ⟨⟩
  exact Text.isBlank_newline

theorem Apart.ne (h : Apart tail) (hc : Text.isBlank c = false) : tail.head? ≠ some c := by
  intro hhead
  rw [h c hhead] at hc
  cases hc

/-! ## Runs of characters -/

section Runs

variable {α : Type} {p : α → Bool} {xs ys : List α}

theorem takeWhile_append_of_stop (h : ∀ y, ys.head? = some y → p y = false) :
    (xs ++ ys).takeWhile p = xs.takeWhile p := by
  induction xs with
  | nil =>
    cases ys with
    | nil => rfl
    | cons y ys => simp [h y rfl]
  | cons x xs ih => simp only [List.cons_append, List.takeWhile_cons, ih]

theorem dropWhile_append_of_stop (h : ∀ y, ys.head? = some y → p y = false) :
    (xs ++ ys).dropWhile p = xs.dropWhile p ++ ys := by
  induction xs with
  | nil =>
    cases ys with
    | nil => rfl
    | cons y ys => simp [h y rfl]
  | cons x xs ih =>
    simp only [List.cons_append, List.dropWhile_cons, ih]
    split <;> rfl

end Runs

/-! ## Single tokens -/

theorem word_append (h : Apart tail) (chars : List Char) : word (chars ++ tail) = word chars :=
  takeWhile_append_of_stop fun c hc => Text.continuesWord_of_isBlank (h c hc)

theorem fraction?_append (h : Apart tail) (chars : List Char) :
    fraction? (chars ++ tail) = fraction? chars := by
  have hdigit : ∀ c, tail.head? = some c → c.isDigit = false :=
    fun c hc => Text.isDigit_of_isBlank (h c hc)
  have hnone {c : Char} {rest : List Char} (hc : c ≠ '.') : fraction? (c :: rest) = none := by
    simp [fraction?, hc]
  match chars with
  | [] =>
    match tail with
    | [] => rfl
    | c :: more => exact hnone fun heq => h.ne (by decide) (congrArg some heq)
  | [c] =>
    match tail with
    | [] => rfl
    | d :: more =>
      by_cases hc : c = '.'
      · subst hc
        simp [fraction?, hdigit d rfl]
      · exact (hnone hc).trans (hnone hc).symm
  | c :: d :: more =>
    by_cases hc : c = '.'
    · subst hc
      simp [fraction?, takeWhile_append_of_stop hdigit]
    · exact (hnone hc).trans (hnone hc).symm

theorem numeral_append (h : Apart tail) (chars : List Char) :
    numeral (chars ++ tail) = numeral chars := by
  have hdigit : ∀ c, tail.head? = some c → c.isDigit = false :=
    fun c hc => Text.isDigit_of_isBlank (h c hc)
  simp only [numeral, takeWhile_append_of_stop hdigit, dropWhile_append_of_stop hdigit,
    fraction?_append h]

theorem numeralWidth_le (chars : List Char) : numeralWidth (numeral chars) ≤ chars.length := by
  have hall := congrArg List.length
    (List.takeWhile_append_dropWhile (p := Char.isDigit) (l := chars))
  rw [List.length_append] at hall
  have hfraction : ∀ digits, fraction? (chars.dropWhile Char.isDigit) = some digits →
      digits.length + 1 ≤ (chars.dropWhile Char.isDigit).length := by
    intro digits hdigits
    generalize chars.dropWhile Char.isDigit = back at hdigits
    unfold fraction? at hdigits
    split at hdigits
    · split at hdigits
      · cases hdigits
        simpa using (List.takeWhile_prefix _).length_le
      · cases hdigits
    · cases hdigits
  simp only [numeralWidth, numeral]
  split
  · omega
  · rename_i digits hdigits
    have := hfraction digits hdigits
    omega

theorem symbol?_append (h : Apart tail) (rest : List Char) :
    symbol? c (rest ++ tail).head? = symbol? c rest.head? := by
  have hequal : ((rest ++ tail).head? == some '=') = (rest.head? == some '=') := by
    cases rest with
    | nil => simpa using h.ne (by decide)
    | cons d rest => rfl
  simp only [symbol?, hequal]

theorem eq_or_of_ite {α : Type} {p : Prop} [Decidable p] {a b : α} {o : Option α}
    (h : (if p then some a else o) = some b) : b = a ∨ o = some b := by
  split at h
  · exact .inl (Option.some.inj h).symm
  · exact .inr h

/-- A mark that is written with two characters is told by the second one. -/
theorem spelling_length_of_none {s : Symbol} (h : symbol? c none = some s) :
    s.spelling.length = 1 := by
  unfold symbol? at h
  iterate 9
    obtain rfl | h := eq_or_of_ite h
    · decide
  by_cases hc : c == '!'
  · rw [if_pos hc] at h
    cases h
  · rw [if_neg hc] at h
    iterate 2
      obtain rfl | h := eq_or_of_ite h
      · decide
    cases h

theorem spelling_length_le {s : Symbol} {rest : List Char} (h : symbol? c rest.head? = some s) :
    s.spelling.length ≤ (c :: rest).length := by
  cases rest with
  | nil => exact (spelling_length_of_none h).le
  | cons d rest =>
    have htwo : s.spelling.length ≤ 2 := by cases s <;> decide
    exact htwo.trans (by simp)

theorem readEscape_hex (rest : List Char) : readEscape ('x' :: rest) =
    match hexByte? (rest.take 2) with
    | some value => .byte value (1 + (rest.take 2).length)
    | none => .badHex (rest.take 2) := rfl

/-- A complete escape is told by its own characters. -/
theorem readEscape_append {chars : List Char} {value : UInt8} {width : Nat}
    (h : readEscape chars = .byte value width) (hrest : chars.drop width ≠ []) :
    readEscape (chars ++ tail) = .byte value width := by
  cases chars with
  | nil => cases h
  | cons c rest =>
    have hlength : width < (c :: rest).length := by
      by_contra hle
      exact hrest (List.drop_eq_nil_of_le (not_lt.mp hle))
    by_cases hhex : c = 'x'
    · subst hhex
      have hwidth : width = 1 + (rest.take 2).length := by
        rw [readEscape_hex] at h
        split at h <;> cases h
        rfl
      have htake : (rest ++ tail).take 2 = rest.take 2 := by
        rw [List.length_take] at hwidth
        rw [List.length_cons] at hlength
        exact List.take_append_of_le_length (by omega)
      rwa [List.cons_append, readEscape_hex, htake, ← readEscape_hex]
    · simpa [readEscape, hhex] using h

/-- A literal that is closed is read from the characters up to its closing mark. -/
theorem readLiteral_append {mark : Char} {opening here : Position} {bytes : List UInt8}
    {chars : List Char} {r : Reading} (h : readLiteral mark opening here bytes chars = .ok r)
    (opening' here' : Position) : ∃ next,
      readLiteral mark opening' here' bytes (chars ++ tail) =
        .ok ⟨r.lexeme, next, r.rest ++ tail⟩ := by
  fun_induction readLiteral mark opening here bytes chars generalizing here' with
  | case1 => cases h
  | case2 here bytes c rest hmark =>
    cases h
    rw [List.cons_append, readLiteral, if_pos hmark]
    exact ⟨_, rfl⟩
  | case3 here bytes c rest hmark hescape value width hread ih =>
    -- An escape at the very end of the text would leave no closing mark behind it.
    have hrest : rest.drop width ≠ [] := by
      intro hnil
      rw [hnil, readLiteral] at h
      cases h
    have hwidth : width ≤ rest.length := by
      by_contra hle
      exact hrest (List.drop_eq_nil_of_le (not_le.mp hle).le)
    obtain ⟨next, hnext⟩ := ih h ((here'.advance c).after (rest.take width))
    refine ⟨next, ?_⟩
    rw [List.cons_append, readLiteral, if_neg hmark, if_pos hescape,
      readEscape_append hread hrest]
    simp only [List.take_append_of_le_length hwidth, List.drop_append_of_le_length hwidth]
    exact hnext
  | case4 => cases h
  | case5 => cases h
  | case6 => cases h
  | case7 here bytes c rest hmark hescape ih =>
    obtain ⟨next, hnext⟩ := ih h (here'.advance c)
    refine ⟨next, ?_⟩
    rw [List.cons_append, readLiteral, if_neg hmark, if_neg hescape]
    exact hnext

theorem Reading.of_append {lexeme : Lexeme} {here here' : Position} {front : Nat}
    {chars : List Char} (h : front ≤ chars.length) : ∃ next,
      Reading.of lexeme here' front (chars ++ tail) =
        ⟨lexeme, next, (Reading.of lexeme here front chars).rest ++ tail⟩ := by
  simp only [Reading.of, List.drop_append_of_le_length h, Reading.mk.injEq, true_and, and_true,
    exists_eq']

/-- A token in front of a blank is read from its own characters. -/
theorem readToken_append (htail : Apart tail) {here : Position} {rest : List Char} {r : Reading}
    (h : readToken here c rest = .ok r) (here' : Position) : ∃ next,
      readToken here' c (rest ++ tail) = .ok ⟨r.lexeme, next, r.rest ++ tail⟩ := by
  have hof {lexeme : Lexeme} {front : Nat} (hfront : front ≤ (c :: rest).length) : ∃ next,
      (.ok (Reading.of lexeme here' front (c :: (rest ++ tail))) : Except SyntaxError Reading) =
        .ok ⟨lexeme, next, (Reading.of lexeme here front (c :: rest)).rest ++ tail⟩ := by
    obtain ⟨next, hnext⟩ := @Reading.of_append tail lexeme here here' front _ hfront
    exact ⟨next, congrArg Except.ok hnext⟩
  unfold readToken at h ⊢
  split at h
  · rename_i hmark
    rw [if_pos hmark]
    exact readLiteral_append h here' (here'.advance c)
  rename_i hmark
  rw [if_neg hmark]
  split at h
  · rename_i hsigil
    rw [if_pos hsigil]
    dsimp only at h
    split at h
    · cases h
    · rename_i hname
      cases h
      simp only [word_append htail, if_neg hname]
      exact hof (Nat.succ_le_succ (List.takeWhile_prefix _).length_le)
  rename_i hsigil
  rw [if_neg hsigil]
  split at h
  · rename_i hdigit
    cases h
    rw [if_pos hdigit, ← List.cons_append, numeral_append htail]
    exact hof (numeralWidth_le _)
  rename_i hdigit
  rw [if_neg hdigit]
  split at h
  · rename_i hword
    cases h
    rw [if_pos hword, ← List.cons_append, word_append htail]
    exact hof (List.takeWhile_prefix _).length_le
  rename_i hword
  rw [if_neg hword, symbol?_append htail]
  cases hsymbol : symbol? c rest.head? with
  | none =>
    rw [hsymbol] at h
    cases h
  | some s =>
    rw [hsymbol] at h
    cases h
    exact hof (spelling_length_le hsymbol)

/-! ## Blanks and comments -/

/-- What is left behind blanks and comments. -/
def passed (inComment : Bool) (chars : List Char) : List Char := (skip inComment .start chars).2

theorem skip_snd (inComment : Bool) (here : Position) (chars : List Char) :
    (skip inComment here chars).2 = passed inComment chars := by
  unfold passed
  generalize Position.start = here'
  induction chars generalizing inComment here here' with
  | nil => rfl
  | cons c rest ih =>
    unfold skip
    split_ifs
    · exact ih ..
    · exact ih ..
    · exact ih ..
    · rfl

theorem passed_cons (inComment : Bool) (c : Char) (rest : List Char) :
    passed inComment (c :: rest) =
      if inComment then passed (c != '\n') rest
      else if Text.isBlank c then passed false rest
      else if c == '-' && rest.head? == some '-' then passed true rest
      else c :: rest := by
  rw [passed, skip]
  split_ifs
  · exact skip_snd ..
  · exact skip_snd ..
  · exact skip_snd ..
  · rfl

/-- The end of a line ends a comment, so that the next line is passed over as it is by itself. -/
theorem passed_newline (inComment : Bool) (more : List Char) :
    passed inComment ('\n' :: more) = passed false more := by
  rw [passed_cons]
  cases inComment <;> rfl

theorem passed_append (inComment : Bool) (chars more : List Char) :
    passed inComment (chars ++ '\n' :: more) =
      match passed inComment chars with
      | [] => passed false more
      | c :: rest => c :: (rest ++ '\n' :: more) := by
  induction chars generalizing inComment with
  | nil => exact passed_newline ..
  | cons c rest ih =>
    have hhead : ((rest ++ '\n' :: more).head? == some '-') = (rest.head? == some '-') := by
      cases rest <;> rfl
    rw [List.cons_append, passed_cons, passed_cons, hhead]
    split_ifs
    · exact ih _
    · exact ih _
    · exact ih _
    · rfl

/-! ## Whole texts -/

/-- A text is cut into lexemes. -/
inductive Cuts : List Char → List Lexeme → Prop
  | finish {chars : List Char} (h : passed false chars = []) : Cuts chars []
  | token {chars rest behind : List Char} {c : Char} {here next : Position} {l : Lexeme}
    {ls : List Lexeme} (h : passed false chars = c :: rest)
    (read : readToken here c rest = .ok ⟨l, next, behind⟩) (others : Cuts behind ls) :
    Cuts chars (l :: ls)

variable {chars more : List Char} {ls ms : List Lexeme}

theorem Cuts.of_passed (h : Cuts more ms) (hpassed : passed false chars = passed false more) :
    Cuts chars ms := by
  cases h with
  | finish hnil => exact .finish (hpassed.trans hnil)
  | token hcons read others => exact .token (hpassed.trans hcons) read others

/-- Two texts with a line break between them are cut one behind the other. -/
theorem Cuts.append (h : Cuts chars ls) (hmore : Cuts more ms) :
    Cuts (chars ++ '\n' :: more) (ls ++ ms) := by
  induction h with
  | @finish chars hnil =>
    have hpassed : passed false (chars ++ '\n' :: more) = passed false more := by
      rw [passed_append, hnil]
    exact hmore.of_passed hpassed
  | @token chars rest behind c here next l ls hcons read _ ih =>
    have hpassed : passed false (chars ++ '\n' :: more) = c :: (rest ++ '\n' :: more) := by
      rw [passed_append, hcons]
    obtain ⟨next', hread⟩ := readToken_append apart_newline read here
    exact .token hpassed hread ih

theorem cuts_of_readAll {here : Position} {done : List Token} {tokens : Tokens}
    (h : readAll here done chars = .ok tokens) :
    ∃ ls, Cuts chars ls ∧ lexemes tokens.list = lexemes done.reverse ++ ls := by
  fun_induction readAll here done chars with
  | case1 here done chars finish hskip =>
    cases h
    refine ⟨[], .finish ?_, (List.append_nil _).symm⟩
    rw [← skip_snd false here, hskip]
  | case2 here done chars first c rest hskip r hread ih =>
    obtain ⟨ls, hcuts, hlexemes⟩ := ih h
    have hpassed : passed false chars = c :: rest := by
      rw [← skip_snd false here, hskip]
    refine ⟨r.lexeme :: ls, .token hpassed hread hcuts, ?_⟩
    simpa using hlexemes
  | case3 => cases h

theorem readAll_finish {here finish : Position} {done : List Token}
    (h : skip false here chars = (finish, [])) :
    readAll here done chars = .ok ⟨done.reverse, finish⟩ := by
  rw [readAll]
  split
  · rename_i hskip
    cases hskip.symm.trans h
    rfl
  · rename_i hskip
    cases hskip.symm.trans h

theorem readAll_token {here first : Position} {done : List Token} {rest : List Char} {r : Reading}
    (h : skip false here chars = (first, c :: rest)) (hread : readToken first c rest = .ok r) :
    readAll here done chars = readAll r.next (⟨r.lexeme, first⟩ :: done) r.rest := by
  rw [readAll]
  split
  · rename_i hskip
    cases hskip.symm.trans h
  · rename_i hskip
    cases hskip.symm.trans h
    split
    · rename_i hread'
      cases hread'.symm.trans hread
      rfl
    · rename_i hread'
      cases hread'.symm.trans hread

/-- A text is cut alike wherever it stands and whatever has been read before. -/
theorem Cuts.readAll (h : Cuts chars ls) (here : Position) (done : List Token) :
    ∃ tokens, readAll here done chars = .ok tokens ∧
      lexemes tokens.list = lexemes done.reverse ++ ls := by
  induction h generalizing here done with
  | @finish chars hnil =>
    have hskip : skip false here chars = ((skip false here chars).1, []) :=
      Prod.ext rfl ((skip_snd ..).trans hnil)
    exact ⟨_, readAll_finish hskip, (List.append_nil _).symm⟩
  | @token chars rest behind c here' next l ls hcons read _ ih =>
    have hskip : skip false here chars = ((skip false here chars).1, c :: rest) :=
      Prod.ext rfl ((skip_snd ..).trans hcons)
    obtain ⟨next', hread⟩ := readToken_append apart_nil read (skip false here chars).1
    simp only [List.append_nil] at hread
    obtain ⟨tokens, htokens, hlexemes⟩ := ih next' (⟨l, (skip false here chars).1⟩ :: done)
    exact ⟨tokens, (readAll_token hskip hread).trans htokens, by simpa using hlexemes⟩

/-- Reading the tokens of a text is cutting it. -/
theorem ofSource_iff {source : String} :
    (∃ tokens, Tokens.ofSource source = .ok tokens ∧ lexemes tokens.list = ls) ↔
      Cuts source.toList ls := by
  constructor
  · rintro ⟨tokens, h, rfl⟩
    obtain ⟨ls, hcuts, hlexemes⟩ := cuts_of_readAll h
    rwa [hlexemes]
  · intro h
    exact h.readAll .start []

end Lexer

end WordPattern
