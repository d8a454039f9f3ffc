import WordPattern.Decimal.Binary

/-!
# Shortest decimals

A number is written with the fewest digits that read back as the same number, nearest to it among
those, and always positionally.
-/

namespace WordPattern

/-- A decimal `digits * 10 ^ exponent`. -/
structure Decimal where
  digits : Nat
  exponent : Int

namespace Decimal

/-- The decimals that read back as one number lie between two ends; all three values are counted in
units of `1 / unit`. -/
structure RoundingInterval where
  low : Nat
  value : Nat
  high : Nat
  unit : Nat
  /-- The ends themselves round to the number. -/
  closed : Bool

/-- The rounding interval of a positive magnitude. Below a power of two the numbers lie twice as
close. -/
def Magnitude.interval (m : Magnitude) : RoundingInterval :=
  let scale := if 2 ≤ m.exponent then Nat.pow 2 (m.exponent - 2).toNat else 1
  let unit := if 2 ≤ m.exponent then 1 else Nat.pow 2 (2 - m.exponent).toNat
  let gap := if m.significand = Nat.pow 2 52 && leastExponent < m.exponent then 1 else 2
  { low := (4 * m.significand - gap) * scale
    value := 4 * m.significand * scale
    high := (4 * m.significand + 2) * scale
    unit
    closed := m.significand % 2 = 0 }

/-- The interval in units of `10 ^ exponent / unit`. -/
def RoundingInterval.rescale (i : RoundingInterval) (exponent : Int) : RoundingInterval :=
  if 0 ≤ exponent then { i with unit := i.unit * Nat.pow 10 exponent.toNat }
  else
    let power := Nat.pow 10 (-exponent).toNat
    { i with low := i.low * power, value := i.value * power, high := i.high * power }

/-- A whole number of units lies in the interval. -/
def RoundingInterval.contains (i : RoundingInterval) (digits : Nat) : Bool :=
  let place := digits * i.unit
  (i.low < place || (i.closed && i.low = place)) && (place < i.high || (i.closed && place = i.high))

/-- The whole number of units in the interval that is nearest to the value, the larger one of
two. -/
def RoundingInterval.nearest? (i : RoundingInterval) : Option Nat :=
  let below := i.value / i.unit
  let above := below + 1
  match i.contains below, i.contains above with
  | true, true =>
    some (if i.value - below * i.unit < above * i.unit - i.value then below else above)
  | true, false => some below
  | false, true => some above
  | false, false => none

/-- The first decimal found when the grid is refined from `10 ^ exponent` on, a given number of
times. -/
def RoundingInterval.coarsest (i : RoundingInterval) (exponent : Int) : Nat → Decimal
  | 0 => ⟨0, 0⟩
  | refinements + 1 =>
    match (i.rescale exponent).nearest? with
    | some digits => ⟨digits, exponent⟩
    | none => i.coarsest (exponent - 1) refinements

/-- Refinements that reach the finest grid any number needs. -/
def enoughRefinements : Nat := 400

/-- The shortest decimal of a positive magnitude. -/
def Magnitude.shortest (m : Magnitude) : Decimal :=
  let i := m.interval
  i.coarsest (Nat.toDigits 10 (i.value / i.unit)).length enoughRefinements

/-- A decimal in positional notation. -/
def positional (d : Decimal) : List Char :=
  let text := Nat.toDigits 10 d.digits
  if 0 ≤ d.exponent then text ++ List.replicate d.exponent.toNat '0'
  else
    let places := (-d.exponent).toNat
    if places < text.length then
      text.take (text.length - places) ++ '.' :: text.drop (text.length - places)
    else '0' :: '.' :: List.replicate (places - text.length) '0' ++ text

/-- The text of a number. Zero has no sign. -/
def display (x : Float) : String :=
  let bits := magnitudeBits x
  if bits = 0 then "0"
  else if infinityBits < bits then "NaN"
  else
    let sign := if isNegative x then "-" else ""
    if bits = infinityBits then sign ++ "inf"
    else sign ++ String.ofList (Magnitude.of x).shortest.positional

end Decimal

end WordPattern
