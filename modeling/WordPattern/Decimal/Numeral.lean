import WordPattern.Decimal.Binary

/-!
# Numerals

The texts that read as a number: a sign, then `inf`, `infinity`, `nan` in any case, or digits with
an optional point and an optional exponent.
-/

namespace WordPattern.Decimal

/-- The value of a run of digits. -/
def digitsValue (digits : List Char) : Nat :=
  digits.foldl (fun value c => value * 10 + (c.toNat - '0'.toNat)) 0

/-- A decimal magnitude beyond these powers of ten is infinite or zero. -/
def widestExponent : Int := 400

/-- The digits that decide where a decimal is rounded to: no midpoint between two numbers has as
many. -/
def decidingDigits : Nat := 800

/-- A decimal that rounds as the digits times `10 ^ exponent` do: the digits behind the deciding
ones count only in so far as one of them is not zero. -/
def condense (digits : List Char) (exponent : Int) : Nat × Int :=
  let rest := digits.drop decidingDigits
  if rest.isEmpty then (digitsValue digits, exponent)
  else
    let last := if rest.all (· == '0') then 0 else 1
    (digitsValue (digits.take decidingDigits) * 10 + last, exponent + rest.length - 1)

/-- The number nearest to the value of the digits times `10 ^ exponent`. -/
def scaled (negative : Bool) (digits : List Char) (exponent : Int) : Float :=
  let digits := digits.dropWhile (· == '0')
  let size : Int := digits.length + exponent
  if digits.isEmpty || size < -widestExponent then nearest negative 0 1
  else if widestExponent < size then nearest negative (Nat.pow 2 1024) 1
  else
    let (value, exponent) := condense digits exponent
    if 0 ≤ exponent then nearest negative (value * Nat.pow 10 exponent.toNat) 1
    else nearest negative value (Nat.pow 10 (-exponent).toNat)

/-- A text without the sign in front, and whether that sign is a minus. -/
def takeSign : List Char → Bool × List Char
  | '-' :: rest => (true, rest)
  | '+' :: rest => (false, rest)
  | chars => (false, chars)

/-- The value at which the digits of an exponent stop counting. -/
def exponentBound : Nat := Nat.pow 2 16

/-- The size of an exponent: its digits count until the value has reached the bound. -/
def exponentSize (digits : List Char) : Nat :=
  digits.foldl (fun value c =>
    if value < exponentBound then value * 10 + (c.toNat - '0'.toNat) else value) 0

/-- The exponent that ends a numeral; without one it is zero. -/
def readExponent? : List Char → Option Int
  | [] => some 0
  | e :: rest =>
    if e == 'e' || e == 'E' then
      let (negative, digits) := takeSign rest
      if digits.isEmpty || !digits.all Char.isDigit then none
      else some (if negative then -(exponentSize digits : Int) else exponentSize digits)
    else none

/-- The digits behind a decimal point, if there is one, and what follows. -/
def takeFraction : List Char → List Char × List Char
  | '.' :: rest => rest.span Char.isDigit
  | chars => ([], chars)

/-- The number that a numeral without a sign in front stands for. -/
def readUnsigned? (negative : Bool) (chars : List Char) : Option Float :=
  let (whole, rest) := chars.span Char.isDigit
  let (fraction, rest) := takeFraction rest
  if whole.isEmpty && fraction.isEmpty then none
  else
    match readExponent? rest with
    | some exponent =>
      some (scaled negative (whole ++ fraction) (exponent - fraction.length))
    | none => none

/-- The number that a text stands for. -/
def read? (text : String) : Option Float :=
  let (negative, chars) := takeSign text.toList
  let word := String.ofList (chars.map Char.toLower)
  if word = "inf" || word = "infinity" then
    some (if negative then -(1.0 / 0.0) else 1.0 / 0.0)
  else if word = "nan" then some (0.0 / 0.0)
  else readUnsigned? negative chars

end WordPattern.Decimal
