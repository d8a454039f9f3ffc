/-!
# Binary fractions

A finite number of double precision is a sign, a significand and a power of two. This module takes a
number apart in that way, rounds a quotient of naturals to the nearest number, and gives the
remainder of a division that rounds its quotient toward zero, which is exact and has the sign of the
dividend.
-/

namespace WordPattern.Decimal

/-- The magnitude `significand * 2 ^ exponent`. -/
structure Magnitude where
  significand : Nat
  exponent : Int

/-- The exponent of the smallest numbers. -/
def leastExponent : Int := -1074

/-- The bits of infinity. -/
def infinityBits : Nat := 0x7FF0000000000000

/-- The bits without the sign. -/
def magnitudeBits (x : Float) : Nat := x.toBits.toNat % Nat.pow 2 63

/-- The sign bit is set, also on a negative zero. -/
def isNegative (x : Float) : Bool := Nat.pow 2 63 ≤ x.toBits.toNat

/-- The magnitude of a finite number: the leading bit is implicit except on the smallest numbers. -/
def Magnitude.of (x : Float) : Magnitude :=
  let bits := magnitudeBits x
  let field : Nat := bits / Nat.pow 2 52
  if field = 0 then ⟨bits % Nat.pow 2 52, leastExponent⟩
  else ⟨Nat.pow 2 52 + bits % Nat.pow 2 52, leastExponent + ((field : Int) - 1)⟩

/-- `num / den` rounded to a natural, a half to the even neighbour. -/
def roundQuotient (num den : Nat) : Nat :=
  let quotient := num / den
  let twice := 2 * (num % den)
  if den < twice || (twice = den && quotient % 2 = 1) then quotient + 1 else quotient

/-- The power of two of the significand's last bit when `num / den` is rounded. -/
def lastBitExponent (num den : Nat) : Int :=
  let guess : Int := (num.log2 : Int) - den.log2
  let below :=
    if 0 ≤ guess then num < den * Nat.pow 2 guess.toNat
    else num * Nat.pow 2 (-guess).toNat < den
  max leastExponent ((if below then guess - 1 else guess) - 52)

/-- The bits of the number nearest to `num / den`; beyond the largest number they are infinity's. -/
def nearestBits (num den : Nat) : Nat :=
  if num = 0 then 0
  else
    let exponent := lastBitExponent num den
    let significand :=
      if 0 ≤ exponent then roundQuotient num (den * Nat.pow 2 exponent.toNat)
      else roundQuotient (num * Nat.pow 2 (-exponent).toNat) den
    min infinityBits ((exponent - leastExponent).toNat * Nat.pow 2 52 + significand)

/-- The number nearest to `num / den`, with a sign. -/
def nearest (negative : Bool) (num den : Nat) : Float :=
  Float.ofBits (UInt64.ofNat (nearestBits num den + if negative then Nat.pow 2 63 else 0))

/-! ## Remainders -/

/-- The remainder of two finite magnitudes, the second one positive. -/
def Magnitude.remainder (a b : Magnitude) (negative : Bool) : Float :=
  let exponent := min a.exponent b.exponent
  let rest := (a.significand * Nat.pow 2 (a.exponent - exponent).toNat) %
    (b.significand * Nat.pow 2 (b.exponent - exponent).toNat)
  if 0 ≤ exponent then nearest negative (rest * Nat.pow 2 exponent.toNat) 1
  else nearest negative rest (Nat.pow 2 (-exponent).toNat)

/-- The remainder of `a` divided by `b`; none exists for an infinite dividend or a zero divisor, and
an infinite divisor leaves the dividend. -/
def remainder (a b : Float) : Float :=
  if infinityBits ≤ magnitudeBits a || infinityBits < magnitudeBits b || magnitudeBits b = 0 then
    0.0 / 0.0
  else if magnitudeBits b = infinityBits then a
  else (Magnitude.of a).remainder (Magnitude.of b) (isNegative a)

end WordPattern.Decimal
