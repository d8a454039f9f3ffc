import WordPattern.Bindings
import WordPattern.Text.Quoted

/-!
# Matches

A match is a span of the input, with what its pattern has captured. An amount tells by their numbers
which of the matches of a scan are kept. Replacements are put in the places of their matches; all
else is copied.
-/

namespace WordPattern

/-- A match that a scan has found. -/
structure Match where
  /-- The position of the first byte. -/
  offset : Nat
  /-- The number of bytes. -/
  length : Nat
  /-- The matched bytes read as text. -/
  value : String
  captures : Bindings String
  /-- The line of the first byte, counted from one. -/
  line : Nat
  /-- The place among all matches of the scan, also those not kept, counted from one. -/
  number : Nat
  /-- The text that the match is replaced with. -/
  replacement : Option String := none
deriving DecidableEq, Repr

/-- A match as it is shown: a line with its fields, one for each capture, one for a replacement. -/
def Match.display (m : Match) : String :=
  "#" ++ toString m.number ++ " offset " ++ toString m.offset ++ " line " ++ toString m.line ++
    " length " ++ toString m.length ++ ": " ++ Text.quote m.value ++
    String.join (m.captures.entries.map fun (name, value) =>
      "\n    @" ++ name ++ " = " ++ Text.quote value) ++
    match m.replacement with
    | some text => "\n    replaced with " ++ Text.quote text
    | none => ""

/-! ## Amounts -/

/-- A number of leading matches to drop, and the greatest number of matches to keep, if there is
one. -/
structure Amount where
  skip : Nat := 0
  take : Option Nat := none
deriving DecidableEq, Repr

namespace Amount

/-- Every match. -/
def all : Amount := {}

/-- The first `n` matches. -/
def top (n : Nat) : Amount := { take := some n }

/-- The match with a number, counted from one, is kept. -/
def retains (a : Amount) (number : Nat) : Bool :=
  a.skip < number &&
    match a.take with
    | none => true
    | some most => number - a.skip ≤ most

/-- No more matches are wanted once some have been kept. -/
def isFull (a : Amount) (kept : Nat) : Bool :=
  match a.take with
  | none => false
  | some most => most ≤ kept

/-- The amount as it stands in a source text. -/
def display (a : Amount) : String :=
  match a.skip, a.take with
  | 0, none => "all"
  | 0, some most => "top " ++ toString most
  | skip, none => "skip " ++ toString skip
  | skip, some most => "skip " ++ toString skip ++ " take " ++ toString most

end Amount

/-! ## Replacements -/

namespace Splice

/-- A number brought between two bounds. -/
def clamp (low high n : Nat) : Nat := max low (min n high)

/-- Copies `contents` behind what is `done`, from the place up to which it has been copied. -/
def run (contents : ByteArray) (copied : Nat) (done : ByteArray) : List Match → ByteArray
  | [] => done ++ contents.extract copied contents.size
  | m :: rest =>
    match m.replacement with
    | none => run contents copied done rest
    | some text =>
      let start := clamp copied contents.size m.offset
      let finish := clamp start contents.size (m.offset + m.length)
      run contents finish (done ++ contents.extract copied start ++ text.toUTF8) rest

end Splice

/-- The bytes with each match replaced; a match without a replacement is left as it is. -/
def splice (contents : ByteArray) (found : List Match) : ByteArray :=
  Splice.run contents 0 ByteArray.empty found

@[simp] theorem splice_nil (contents : ByteArray) : splice contents [] = contents := by
  simp [splice, Splice.run]

end WordPattern
