import WordPattern.Text.Quoted
import WordPattern.Text.Utf8
import WordPattern.Token.Keyword

/-!
# Tokens

The units that a source text is made of, where they stand, and how a message names them. Lines and
columns count from one, and a column counts characters.
-/

namespace WordPattern

/-! ## Places -/

/-- A place in a source text. -/
structure Position where
  line : Nat
  column : Nat
deriving DecidableEq, Repr

namespace Position

/-- The place of the first character. -/
def start : Position := ⟨1, 1⟩

/-- The place behind a character. -/
def advance (p : Position) (c : Char) : Position :=
  if c == '\n' then ⟨p.line + 1, 1⟩ else ⟨p.line, p.column + 1⟩

/-- The place behind some characters. -/
def after (p : Position) (chars : List Char) : Position :=
  chars.foldl advance p

@[simp] theorem after_nil (p : Position) : p.after [] = p := rfl

@[simp] theorem after_cons (p : Position) (c : Char) (chars : List Char) :
    p.after (c :: chars) = (p.advance c).after chars := rfl

theorem after_append (p : Position) (front back : List Char) :
    p.after (front ++ back) = (p.after front).after back := by
  simp [after, List.foldl_append]

end Position

/-! ## Lexemes -/

/-- A mark of punctuation or an operator sign. -/
inductive Symbol where
  | leftParen | rightParen | comma | assign
  | plus | minus | star | slash | percent
  | equal | notEqual | less | greater | lessEqual | greaterEqual
deriving DecidableEq, Repr

/-- The mark as it stands in a source text. -/
def Symbol.spelling : Symbol → String
  | leftParen => "(" | rightParen => ")" | comma => "," | assign => "="
  | plus => "+" | minus => "-" | star => "*" | slash => "/" | percent => "%"
  | equal => "==" | notEqual => "!=" | less => "<" | greater => ">"
  | lessEqual => "<=" | greaterEqual => ">="

/-- A number as it is written: digits, and a fraction if a point and more digits follow. -/
structure Numeral where
  whole : List Char
  fraction : Option (List Char)
deriving DecidableEq, Repr

/-- The number as it stands in a source text. -/
def Numeral.text (n : Numeral) : String :=
  match n.fraction with
  | none => String.ofList n.whole
  | some digits => String.ofList (n.whole ++ '.' :: digits)

/-- What a token says. -/
inductive Lexeme where
  | keyword (k : Keyword)
  | word (name : String)
  | variableName (name : String)
  | subroutineName (name : String)
  | literal (bytes : List UInt8)
  | number (n : Numeral)
  | symbol (s : Symbol)
deriving DecidableEq, Repr

/-- The text that the bytes of a literal stand for. -/
def literalText (bytes : List UInt8) : String :=
  Text.decode ⟨bytes.toArray⟩

/-- A text between single quotes, as it is. -/
def inMarks (text : String) : String := "'" ++ text ++ "'"

/-- How a message names a token. -/
def Lexeme.describe : Lexeme → String
  | keyword k => inMarks k.spelling
  | word name => inMarks name
  | variableName name => inMarks ("@" ++ name)
  | subroutineName name => inMarks ("$" ++ name)
  | literal bytes => "string " ++ Text.quote (literalText bytes)
  | number n => "number " ++ n.text
  | symbol s => inMarks s.spelling

/-- A unit of a source text, and the place of its first character. -/
structure Token where
  lexeme : Lexeme
  position : Position
deriving DecidableEq, Repr

/-- The tokens of a source text, and the place where the text ends. -/
structure Tokens where
  list : List Token
  finish : Position
deriving Repr

end WordPattern
