import WordPattern.Text.CaseTable

/-!
# Capitals and small letters

Every character is mapped by the full Unicode mappings, so one character can become several. A
capital sigma becomes a final sigma at the end of a word.
-/

namespace WordPattern.Text

/-- The image of a character: its expansion, else its image on a run, else itself. -/
def mapCase (runs : List CaseRun) (expansions : List (Nat × List Nat)) (c : Char) : List Char :=
  match expansions.lookup c.toNat with
  | some codes => codes.map Char.ofNat
  | none =>
    match runs.findSome? (·.map? c.toNat) with
    | some code => [Char.ofNat code]
    | none => [c]

/-- The capital form of a character. -/
def upperChar (c : Char) : List Char :=
  if c.toNat < 128 then [c.toUpper] else mapCase upperRuns upperExpansions c

/-- The small form of a character outside any word. -/
def lowerChar (c : Char) : List Char :=
  if c.toNat < 128 then [c.toLower] else mapCase lowerRuns lowerExpansions c

/-- A text in capitals. -/
def upper (text : String) : String :=
  String.ofList (text.toList.flatMap upperChar)

/-! ## Final sigma -/

/-- A cased character stands first, once the characters that case ignores are skipped. -/
def meetsCased (chars : List Char) : Bool :=
  match chars.dropWhile (caseIgnorableBounds.contains ·.toNat) with
  | c :: _ => casedBounds.contains c.toNat
  | [] => false

/-- The small form of a sigma between the characters before it, nearest first, and those after
it. -/
def lowerSigma (before after : List Char) : Char :=
  if meetsCased before && !meetsCased after then 'ς' else 'σ'

/-- The small forms of `chars`, where `before` holds the characters already passed, nearest first,
and `done` their small forms, last first. -/
def lowerAfter (before done : List Char) : List Char → List Char
  | [] => done.reverse
  | c :: rest =>
    let image := if c == 'Σ' then [lowerSigma before rest] else lowerChar c
    lowerAfter (c :: before) (image.reverse ++ done) rest

/-- A text in small letters. -/
def lower (text : String) : String :=
  String.ofList (lowerAfter [] [] text.toList)

end WordPattern.Text
