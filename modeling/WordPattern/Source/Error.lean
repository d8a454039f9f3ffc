import WordPattern.Token.Basic

/-!
# Errors in a source text

A malformed program has one error: its cause and the place it is found at.
-/

namespace WordPattern

/-- What a parser was ready to read where it found something else. -/
inductive Expectation where
  | statement | setTarget | amount
  | pattern | element | binder | leastOrMost | startOrEnd | negatable | listItem
  | number | literal | expression | parameter
  | keyword (k : Keyword)
  | symbol (s : Symbol)
deriving DecidableEq, Repr

/-- How a message names what was expected. -/
def Expectation.describe : Expectation → String
  | statement => "a statement"
  | setTarget => "@variable or $subroutine"
  | amount => "an amount ('all', 'top N', 'skip N')"
  | pattern => "a pattern"
  | element => "a pattern element"
  | binder => "a variable or subroutine name after '='"
  | leastOrMost => "'least' or 'most'"
  | startOrEnd => "'start' or 'end'"
  | negatable => "a string, range, character class or 'in' after 'not'"
  | listItem => "a string, range or class in 'in' list"
  | number => "a number"
  | literal => "a string"
  | expression => "an expression"
  | parameter => "a parameter like @name"
  | keyword k => (Lexeme.keyword k).describe
  | symbol s => (Lexeme.symbol s).describe

namespace SyntaxError

/-- Why a source text is not a program. -/
inductive Cause where
  | unexpectedCharacter (c : Char)
  | missingName (sigil : Char)
  | unterminatedLiteral
  | unknownEscape (c : Char)
  | invalidHexEscape (digits : List Char)
  | unexpected (wanted : Expectation) (found : Option Lexeme)
  | notWhole (n : Numeral)
  | crossedBounds (least most : Nat)
  | unknownFunction (name : String)
deriving DecidableEq, Repr

/-- The wording of a cause. -/
def Cause.message : Cause → String
  | unexpectedCharacter c => "unexpected character " ++ Text.quoteChar c
  | missingName sigil => "expected a name after '" ++ sigil.toString ++ "'"
  | unterminatedLiteral => "unterminated string"
  | unknownEscape c => "unknown escape '\\" ++ c.toString ++ "'"
  | invalidHexEscape digits => "invalid hex escape '\\x" ++ String.ofList digits ++ "'"
  | unexpected wanted found =>
    "expected " ++ wanted.describe ++ ", found " ++
      (match found with
      | some lexeme => lexeme.describe
      | none => "end of input")
  | notWhole n => "expected a whole number, found " ++ n.text
  | crossedBounds least most =>
    "invalid range: between " ++ toString least ++ " and " ++ toString most
  | unknownFunction name => "unknown function '" ++ name ++ "'"

end SyntaxError

/-- An error in a source text. -/
structure SyntaxError where
  cause : SyntaxError.Cause
  position : Position
deriving DecidableEq, Repr

/-- The message without the place. -/
def SyntaxError.message (e : SyntaxError) : String := e.cause.message

/-- The message with the place. -/
def SyntaxError.display (e : SyntaxError) : String :=
  "Syntax error at line " ++ toString e.position.line ++ ", column " ++
    toString e.position.column ++ ": " ++ e.message

end WordPattern
