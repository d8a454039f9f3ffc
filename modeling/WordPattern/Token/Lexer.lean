import WordPattern.Source.Error
import WordPattern.Text.Character

/-!
# Reading tokens

A source text is cut from the front: blanks and comments are passed over, then the longest token is
taken. Every token leaves a shorter rest, so the reading ends.
-/

namespace WordPattern

namespace Lexer

/-! ## Blanks and comments -/

/-- Passes over blanks and over comments, which run from `--` to the end of the line; the flag says
that a comment has begun. -/
def skip (inComment : Bool) (here : Position) : List Char → Position × List Char
  | [] => (here, [])
  | c :: rest =>
    if inComment then skip (c != '\n') (here.advance c) rest
    else if Text.isBlank c then skip false (here.advance c) rest
    else if c == '-' && rest.head? == some '-' then skip true (here.advance c) rest
    else (here, c :: rest)

theorem skip_length (inComment : Bool) (here : Position) (chars : List Char) :
    (skip inComment here chars).2.length ≤ chars.length := by
  induction chars generalizing inComment here with
  | nil => simp [skip]
  | cons c rest ih =>
    simp only [skip]
    split
    · exact Nat.le_succ_of_le (ih _ _)
    split
    · exact Nat.le_succ_of_le (ih _ _)
    split
    · exact Nat.le_succ_of_le (ih _ _)
    · exact Nat.le_refl _

/-! ## Literals -/

/-- The value of a hexadecimal digit. -/
def hexDigit? (c : Char) : Option Nat :=
  if '0' ≤ c && c ≤ '9' then some (c.toNat - '0'.toNat)
  else if 'a' ≤ c && c ≤ 'f' then some (c.toNat - 'a'.toNat + 10)
  else if 'A' ≤ c && c ≤ 'F' then some (c.toNat - 'A'.toNat + 10)
  else none

/-- The byte that up to two characters of a hexadecimal escape stand for; the first of two may be a
plus sign. -/
def hexByte? : List Char → Option UInt8
  | [low] => (hexDigit? low).map UInt8.ofNat
  | ['+', low] => (hexDigit? low).map UInt8.ofNat
  | [high, low] => do
    let h ← hexDigit? high
    let l ← hexDigit? low
    return UInt8.ofNat (16 * h + l)
  | _ => none

/-- What stands behind a backslash. -/
inductive Escape where
  /-- A byte, spelled by some characters. -/
  | byte (value : UInt8) (width : Nat)
  | unknown (c : Char)
  | badHex (digits : List Char)
  /-- The text ends at the backslash. -/
  | missing
deriving DecidableEq

/-- Reads what stands behind a backslash. -/
def readEscape : List Char → Escape
  | [] => .missing
  | c :: rest =>
    if c == 'n' then .byte 10 1
    else if c == 't' then .byte 9 1
    else if c == 'r' then .byte 13 1
    else if c == '0' then .byte 0 1
    else if c == '\\' || c == Text.singleMark || c == Text.doubleMark then .byte c.toUInt8 1
    else if c == 'x' then
      match hexByte? (rest.take 2) with
      | some value => .byte value (1 + (rest.take 2).length)
      | none => .badHex (rest.take 2)
    else .unknown c

/-- A token's lexeme, the place behind it and the characters that follow. -/
structure Reading where
  lexeme : Lexeme
  next : Position
  rest : List Char

/-- Reads a literal up to its closing mark; `bytes` holds what has been read, last byte first. -/
def readLiteral (mark : Char) (opening here : Position) (bytes : List UInt8) (chars : List Char) :
    Except SyntaxError Reading :=
  match chars with
  | [] => .error ⟨.unterminatedLiteral, opening⟩
  | c :: rest =>
    if c == mark then .ok ⟨.literal bytes.reverse, here.advance c, rest⟩
    else if c == '\\' then
      match readEscape rest with
      | .byte value width =>
        readLiteral mark opening ((here.advance c).after (rest.take width)) (value :: bytes)
          (rest.drop width)
      | .unknown other => .error ⟨.unknownEscape other, here.advance c⟩
      | .badHex digits => .error ⟨.invalidHexEscape digits, here.advance c⟩
      | .missing => .error ⟨.unterminatedLiteral, opening⟩
    else
      readLiteral mark opening (here.advance c) ((String.utf8EncodeChar c).reverse ++ bytes) rest
termination_by chars.length
decreasing_by all_goals (simp only [List.length_cons, List.length_drop]; omega)

theorem readLiteral_length {mark : Char} {opening here : Position} {bytes : List UInt8}
    {chars : List Char} {r : Reading} (h : readLiteral mark opening here bytes chars = .ok r) :
    r.rest.length < chars.length := by
  fun_induction readLiteral mark opening here bytes chars with
  | case1 => simp at h
  | case2 => simp at h; subst h; simp
  | case3 here bytes c rest _ _ value width _ ih =>
    have := ih h
    simp only [List.length_drop, List.length_cons] at this ⊢
    omega
  | case4 => simp at h
  | case5 => simp at h
  | case6 => simp at h
  | case7 here bytes c rest _ _ ih =>
    have := ih h
    simp only [List.length_cons]
    omega

/-! ## Words, numbers and marks -/

/-- A word at the front: the longest run of characters that continue one. -/
def word (chars : List Char) : List Char := chars.takeWhile Text.continuesWord

/-- Reads the characters `front`, of which the lexeme is made, off `chars`. -/
def Reading.of (lexeme : Lexeme) (here : Position) (front : Nat) (chars : List Char) : Reading :=
  ⟨lexeme, here.after (chars.take front), chars.drop front⟩

/-- The fraction of a number: a point counts only if a digit follows it. -/
def fraction? : List Char → Option (List Char)
  | '.' :: c :: rest => if c.isDigit then some (c :: rest.takeWhile Char.isDigit) else none
  | _ => none

/-- The number at the front. -/
def numeral (chars : List Char) : Numeral :=
  ⟨chars.takeWhile Char.isDigit, fraction? (chars.dropWhile Char.isDigit)⟩

/-- How many characters a number is written with. -/
def numeralWidth (n : Numeral) : Nat :=
  n.whole.length +
    match n.fraction with
    | none => 0
    | some digits => digits.length + 1

/-- The mark that a character begins, in view of the next one. -/
def symbol? (c : Char) (next : Option Char) : Option Symbol :=
  if c == '(' then some .leftParen
  else if c == ')' then some .rightParen
  else if c == ',' then some .comma
  else if c == '+' then some .plus
  else if c == '-' then some .minus
  else if c == '*' then some .star
  else if c == '/' then some .slash
  else if c == '%' then some .percent
  else if c == '=' then some (if next == some '=' then .equal else .assign)
  else if c == '!' then (if next == some '=' then some .notEqual else none)
  else if c == '<' then some (if next == some '=' then .lessEqual else .less)
  else if c == '>' then some (if next == some '=' then .greaterEqual else .greater)
  else none

/-- The name behind a sigil. -/
def nameAfter (sigil : Char) (name : List Char) : Lexeme :=
  if sigil == '@' then .variableName (String.ofList name) else .subroutineName (String.ofList name)

/-- A word is a keyword if it spells one. -/
def lexemeOfWord (text : String) : Lexeme :=
  match Keyword.ofWord? text with
  | some k => .keyword k
  | none => .word text

/-- Reads the token that begins with `c`. -/
def readToken (here : Position) (c : Char) (rest : List Char) : Except SyntaxError Reading :=
  if c == Text.singleMark || c == Text.doubleMark then
    readLiteral c here (here.advance c) [] rest
  else if c == '@' || c == '$' then
    let name := word rest
    if name.isEmpty then .error ⟨.missingName c, here⟩
    else .ok (Reading.of (nameAfter c name) here (name.length + 1) (c :: rest))
  else if c.isDigit then
    let n := numeral (c :: rest)
    .ok (Reading.of (.number n) here (numeralWidth n) (c :: rest))
  else if Text.beginsWord c then
    let name := word (c :: rest)
    .ok (Reading.of (lexemeOfWord (String.ofList name)) here name.length (c :: rest))
  else
    match symbol? c rest.head? with
    | some s => .ok (Reading.of (.symbol s) here s.spelling.length (c :: rest))
    | none => .error ⟨.unexpectedCharacter c, here⟩

theorem symbol?_spelling_pos {s : Symbol} : 0 < s.spelling.length := by
  cases s <;> decide

theorem Reading.of_length {lexeme : Lexeme} {here : Position} {front : Nat} {c : Char}
    {rest : List Char} (h : 0 < front) :
    (Reading.of lexeme here front (c :: rest)).rest.length ≤ rest.length := by
  simp only [Reading.of, List.length_drop, List.length_cons]
  omega

/-- A token takes at least its first character. -/
theorem readToken_length {here : Position} {c : Char} {rest : List Char} {r : Reading}
    (h : readToken here c rest = .ok r) : r.rest.length ≤ rest.length := by
  simp only [readToken] at h
  split at h
  · exact Nat.le_of_lt (readLiteral_length h)
  split at h
  · split at h
    · simp at h
    · simp only [Except.ok.injEq] at h
      subst h
      exact Reading.of_length (Nat.succ_pos _)
  split at h
  · rename_i hd
    simp only [Except.ok.injEq] at h
    subst h
    refine Reading.of_length ?_
    simp only [numeralWidth, numeral, hd, List.takeWhile_cons, ↓reduceIte, List.length_cons]
    omega
  split at h
  · rename_i hw
    simp only [Except.ok.injEq] at h
    subst h
    refine Reading.of_length ?_
    simp [word, Text.beginsWord.continues hw]
  · split at h
    · simp only [Except.ok.injEq] at h
      subst h
      exact Reading.of_length symbol?_spelling_pos
    · simp at h

/-! ## All tokens -/

/-- Reads all tokens; `done` holds those read, last one first. -/
def readAll (here : Position) (done : List Token) (chars : List Char) : Except SyntaxError Tokens :=
  match _hs : skip false here chars with
  | (finish, []) => .ok ⟨done.reverse, finish⟩
  | (first, c :: rest) =>
    match _hr : readToken first c rest with
    | .ok r => readAll r.next (⟨r.lexeme, first⟩ :: done) r.rest
    | .error e => .error e
termination_by chars.length
decreasing_by
  have h1 := readToken_length _hr
  have h2 := skip_length false here chars
  rw [_hs] at h2
  simp only [List.length_cons] at h2
  omega

end Lexer

/-- Cuts a source text into tokens. -/
def Tokens.ofSource (source : String) : Except SyntaxError Tokens :=
  Lexer.readAll .start [] source.toList

end WordPattern
