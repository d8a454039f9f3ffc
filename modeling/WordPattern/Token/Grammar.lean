import WordPattern.Token.Lexer

/-!
# The grammar of tokens

| Form    | Made of                                                                       |
|---------|-------------------------------------------------------------------------------|
| literal | parts between two marks of the same kind                                      |
| part    | a character that is neither the mark nor a backslash, or an escape            |
| escape  | a backslash and a letter or a mark, or `x` and two hexadecimal digits behind  |
| name    | `@` or `$` and a word                                                         |
| number  | digits, or digits on both sides of a point                                    |

Keywords, words and marks of punctuation stand for themselves. `Lexeme.Form chars l` says that the
characters `chars` spell the lexeme `l`, and the other forms are read alike.
-/

namespace WordPattern

/-- A hexadecimal digit, in either case, and its value. -/
inductive HexDigit : Char → Nat → Prop
  | lower (n : Nat) (h : n < 16) : HexDigit n.digitChar n
  | upper (n : Nat) (h : n < 16) : HexDigit n.digitChar.toUpper n

namespace Literal

/-- An escape, and the byte that it stands for. -/
inductive EscapeForm : List Char → UInt8 → Prop
  | newline : EscapeForm ['\\', 'n'] 10
  | tab : EscapeForm ['\\', 't'] 9
  | carriageReturn : EscapeForm ['\\', 'r'] 13
  | zero : EscapeForm ['\\', '0'] 0
  | backslash : EscapeForm ['\\', '\\'] 92
  | singleMark : EscapeForm ['\\', Text.singleMark] 39
  | doubleMark : EscapeForm ['\\', Text.doubleMark] 34
  | hex {c d : Char} {high low : Nat} (hc : HexDigit c high) (hd : HexDigit d low) :
    EscapeForm ['\\', 'x', c, d] (UInt8.ofNat (16 * high + low))

/-- A part of a literal, and the bytes that it stands for. -/
inductive PartForm (mark : Char) : List Char → List UInt8 → Prop
  | character (c : Char) (hmark : c ≠ mark) (hescape : c ≠ '\\') :
    PartForm mark [c] (String.utf8EncodeChar c)
  | escape {chars : List Char} {b : UInt8} (h : EscapeForm chars b) : PartForm mark chars [b]
  /-- A plus sign may stand in the place of the first digit, and counts as zero. -/
  | signed {d : Char} {low : Nat} (hd : HexDigit d low) :
    PartForm mark ['\\', 'x', '+', d] [UInt8.ofNat low]

/-- Parts one behind the other. -/
inductive BodyForm (mark : Char) : List Char → List UInt8 → Prop
  | nil : BodyForm mark [] []
  | cons {front back : List Char} {bytes more : List UInt8} (first : PartForm mark front bytes)
    (others : BodyForm mark back more) : BodyForm mark (front ++ back) (bytes ++ more)

/-- A byte by itself: as a printable ASCII character that needs no escape, or escaped. -/
inductive ByteForm : List Char → UInt8 → Prop
  | printable (c : Char) (h : ' ' ≤ c ∧ c ≤ '~') (hsingle : c ≠ Text.singleMark)
    (hdouble : c ≠ Text.doubleMark) (hescape : c ≠ '\\') : ByteForm [c] c.toUInt8
  | escape {chars : List Char} {b : UInt8} (h : EscapeForm chars b) : ByteForm chars b

/-- Bytes one behind the other, each of them by itself. -/
inductive BytesForm : List Char → List UInt8 → Prop
  | nil : BytesForm [] []
  | cons {front back : List Char} {b : UInt8} {bytes : List UInt8} (first : ByteForm front b)
    (others : BytesForm back bytes) : BytesForm (front ++ back) (b :: bytes)

end Literal

/-- A mark that literals stand between. -/
def IsMark (c : Char) : Prop := c = Text.singleMark ∨ c = Text.doubleMark

namespace Lexeme

/-- Characters that spell a lexeme. The bytes of a literal are written one by one. -/
inductive Form : List Char → Lexeme → Prop
  | keyword (k : Keyword) : Form k.spelling.toList (.keyword k)
  | word (name : String) : Form name.toList (.word name)
  | variableName (name : String) : Form ('@' :: name.toList) (.variableName name)
  | subroutineName (name : String) : Form ('$' :: name.toList) (.subroutineName name)
  | literal {mark : Char} (hmark : IsMark mark) {body : List Char} {bytes : List UInt8}
    (h : Literal.BytesForm body bytes) : Form (mark :: (body ++ [mark])) (.literal bytes)
  | number (n : Numeral) : Form n.text.toList (.number n)
  | symbol (s : Symbol) : Form s.spelling.toList (.symbol s)

/-- Lexemes one behind the other, with blanks between them. -/
inductive Written : List Char → List Lexeme → Prop
  | nil : Written [] []
  | last {chars : List Char} {l : Lexeme} (h : Form chars l) : Written chars [l]
  | cons {chars gap more : List Char} {l m : Lexeme} {ls : List Lexeme} (h : Form chars l)
    (hgap : gap ≠ []) (hblank : ∀ c ∈ gap, Text.isBlank c = true)
    (others : Written more (m :: ls)) : Written (chars ++ (gap ++ more)) (l :: m :: ls)

/-- The lexeme is cut out of some source text. -/
def Occurs (l : Lexeme) : Prop :=
  ∃ source tokens, Tokens.ofSource source = .ok tokens ∧ l ∈ tokens.list.map Token.lexeme

end Lexeme

end WordPattern
