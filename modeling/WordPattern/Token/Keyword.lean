/-!
# Keywords

The words with a fixed meaning, and their spellings.
-/

namespace WordPattern

/-- A word with a fixed meaning. -/
inductive Keyword where
  -- statements
  | find | replace | «with» | use | «repeat» | set | «to» | pattern
  -- amounts
  | all | skip | take | top
  -- quantifiers
  | «at» | least | most | between | and | exactly | maybe | fewest
  -- operators
  | or | not | «in»
  -- anchors
  | sol | eol | sof | eof | line | file | start | «end»
  -- classes
  | digit | letter | upper | lower | whitespace | any
  -- expressions
  | case | when | «then» | otherwise | true | false | func
deriving DecidableEq, Repr

namespace Keyword

/-- The word as it stands in a source text. -/
def spelling : Keyword → String
  | find => "find" | replace => "replace" | «with» => "with" | use => "use"
  | «repeat» => "repeat" | set => "set" | «to» => "to" | pattern => "pattern"
  | all => "all" | skip => "skip" | take => "take" | top => "top"
  | «at» => "at" | least => "least" | most => "most" | between => "between"
  | and => "and" | exactly => "exactly" | maybe => "maybe" | fewest => "fewest"
  | or => "or" | not => "not" | «in» => "in"
  | sol => "sol" | eol => "eol" | sof => "sof" | eof => "eof"
  | line => "line" | file => "file" | start => "start" | «end» => "end"
  | digit => "digit" | letter => "letter" | upper => "upper" | lower => "lower"
  | whitespace => "whitespace" | any => "any"
  | case => "case" | when => "when" | «then» => "then" | otherwise => "otherwise"
  | true => "true" | false => "false" | func => "func"

/-- Every keyword. -/
def every : List Keyword := [
  find, replace, «with», use, «repeat», set, «to», pattern, all, skip, take, top, «at», least, most,
  between, and, exactly, maybe, fewest, or, not, «in», sol, eol, sof, eof, line, file, start, «end»,
  digit, letter, upper, lower, whitespace, any, case, when, «then», otherwise, true, false, func]

/-- The keyword that a word spells. -/
def ofWord? (word : String) : Option Keyword :=
  every.find? (·.spelling == word)

theorem mem_every (k : Keyword) : k ∈ every := by
  cases k <;> decide

theorem ofWord?_spelling (k : Keyword) : ofWord? k.spelling = some k := by
  cases k <;> decide

theorem spelling_of_ofWord? {word : String} {k : Keyword} (h : ofWord? word = some k) :
    k.spelling = word := by
  simpa using List.find?_some h

end Keyword

end WordPattern
