import WordPattern.Pattern.Parser
import WordPattern.Token.Count

/-!
# The grammar of patterns

| Form       | Made of                                                       |
|------------|---------------------------------------------------------------|
| chain      | elements, at least one                                        |
| element    | a bound element, and another element behind `or`, or none     |
| bound      | a quantified element, and any number of names behind `=`      |
| quantified | a single element, behind a quantifier, before `fewest`        |
| single     | an item or list, negated or not, an anchor, a name, a group   |

`ChainForm ls c` says that the lexemes `ls` spell the chain `c`, and the other forms are read alike.
-/

namespace WordPattern

/-- A keyword that a statement begins with. -/
inductive Keyword.BeginsStatement : Keyword → Prop
  | find : BeginsStatement .find
  | replace : BeginsStatement .replace
  | use : BeginsStatement .use
  | «repeat» : BeginsStatement .«repeat»
  | set : BeginsStatement .set

/-- The keyword for a class. -/
def ByteClass.keyword : ByteClass → Keyword
  | .digit => .digit
  | .letter => .letter
  | .upper => .upper
  | .lower => .lower
  | .whitespace => .whitespace
  | .any => .any

namespace Pattern

/-- A class, a literal, or a range between two literals. -/
inductive ItemForm : List Lexeme → Item → Prop
  | byteClass (c : ByteClass) : ItemForm [.keyword c.keyword] (.byteClass c)
  | literal (bytes : List UInt8) : ItemForm [.literal bytes] (.literal bytes)
  | range (low high : List UInt8) :
    ItemForm [.literal low, .keyword .«to», .literal high] (.range low high)

/-- Items with commas between them. -/
inductive ListForm : List Lexeme → List Item → Prop
  | last {ls : List Lexeme} {i : Item} (item : ItemForm ls i) : ListForm ls [i]
  | cons {ls ms : List Lexeme} {i : Item} {items : List Item} (item : ItemForm ls i)
    (others : ListForm ms items) : ListForm (ls ++ .symbol .comma :: ms) (i :: items)

/-- One or two words for an anchor. -/
inductive AnchorForm : List Lexeme → Anchor → Prop
  | sol : AnchorForm [.keyword .sol] .lineStart
  | eol : AnchorForm [.keyword .eol] .lineEnd
  | sof : AnchorForm [.keyword .sof] .fileStart
  | eof : AnchorForm [.keyword .eof] .fileEnd
  | lineStart : AnchorForm [.keyword .line, .keyword .start] .lineStart
  | lineEnd : AnchorForm [.keyword .line, .keyword .«end»] .lineEnd
  | fileStart : AnchorForm [.keyword .file, .keyword .start] .fileStart
  | fileEnd : AnchorForm [.keyword .file, .keyword .«end»] .fileEnd

/-- Words for a quantifier; a count alone is one. -/
inductive QuantifierForm : List Lexeme → Quantifier → Prop
  | atLeast {l : Lexeme} {n : Nat} (count : l.IsCount n) :
    QuantifierForm [.keyword .«at», .keyword .least, l] (.atLeast n)
  | atMost {l : Lexeme} {n : Nat} (count : l.IsCount n) :
    QuantifierForm [.keyword .«at», .keyword .most, l] (.atMost n)
  | between {l l' : Lexeme} {low high : Nat} (least : l.IsCount low) (most : l'.IsCount high)
    (h : low ≤ high) :
    QuantifierForm [.keyword .between, l, .keyword .and, l'] (.between low high)
  | exactly {l : Lexeme} {n : Nat} (count : l.IsCount n) :
    QuantifierForm [.keyword .exactly, l] (.exactly n)
  | maybe : QuantifierForm [.keyword .maybe] (.between 0 1)
  | number {l : Lexeme} {n : Nat} (count : l.IsCount n) : QuantifierForm [l] (.exactly n)

mutual
/-- An element without a quantifier. -/
inductive SingleForm : List Lexeme → Node → Prop
  | item {ls : List Lexeme} {i : Item} (h : ItemForm ls i) : SingleForm ls (itemNode false i)
  | notItem {ls : List Lexeme} {i : Item} (h : ItemForm ls i) :
    SingleForm (.keyword .not :: ls) (itemNode true i)
  | oneOf {ls : List Lexeme} {items : List Item} (h : ListForm ls items) :
    SingleForm (.keyword .«in» :: ls) (.oneOf items)
  | noneOf {ls : List Lexeme} {items : List Item} (h : ListForm ls items) :
    SingleForm (.keyword .not :: .keyword .«in» :: ls) (.noneOf items)
  | anchor {ls : List Lexeme} {a : Anchor} (h : AnchorForm ls a) : SingleForm ls (.anchor a)
  | variableText (name : String) : SingleForm [.variableName name] (.variableText name)
  | call (name : String) : SingleForm [.subroutineName name] (.call name)
  | group {ls : List Lexeme} {c : Chain} (h : ChainForm ls c) :
    SingleForm (.symbol .leftParen :: (ls ++ [.symbol .rightParen])) (.group c)

/-- A single element, or a repetition of one. -/
inductive QuantifiedForm : List Lexeme → Node → Prop
  | once {ls : List Lexeme} {n : Node} (single : SingleForm ls n) : QuantifiedForm ls n
  | most {ls ms : List Lexeme} {q : Quantifier} {n : Node} (quantifier : QuantifierForm ls q)
    (single : SingleForm ms n) : QuantifiedForm (ls ++ ms) (.«repeat» q false n)
  | fewest {ls ms : List Lexeme} {q : Quantifier} {n : Node} (quantifier : QuantifierForm ls q)
    (single : SingleForm ms n) :
    QuantifiedForm (ls ++ (ms ++ [.keyword .fewest])) (.«repeat» q true n)

/-- A quantified element, and the names it is bound to, the innermost first. -/
inductive BoundForm : List Lexeme → Node → Prop
  | free {ls : List Lexeme} {n : Node} (quantified : QuantifiedForm ls n) : BoundForm ls n
  | capture {ls : List Lexeme} {n : Node} (name : String) (bound : BoundForm ls n) :
    BoundForm (ls ++ [.symbol .assign, .variableName name]) (.capture name n)
  | define {ls : List Lexeme} {n : Node} (name : String) (bound : BoundForm ls n) :
    BoundForm (ls ++ [.symbol .assign, .subroutineName name]) (.define name n)

/-- A bound element, or alternatives grouped to the right. -/
inductive ElementForm : List Lexeme → Node → Prop
  | alone {ls : List Lexeme} {n : Node} (bound : BoundForm ls n) : ElementForm ls n
  | or {ls ms : List Lexeme} {left right : Node} (first : BoundForm ls left)
    (second : ElementForm ms right) : ElementForm (ls ++ .keyword .or :: ms) (.or left right)

/-- Elements one behind the other. -/
inductive ChainForm : List Lexeme → Chain → Prop
  | last {ls : List Lexeme} {n : Node} (element : ElementForm ls n) : ChainForm ls (.last n)
  | cons {ls ms : List Lexeme} {n : Node} {c : Chain} (element : ElementForm ls n)
    (others : ChainForm ms c) : ChainForm (ls ++ ms) (.cons n c)
end

/-- What stands behind a pattern: nothing, the end of a group, a replacement or a statement. -/
inductive PatternEnd : List Lexeme → Prop
  | finish : PatternEnd []
  | rightParen (rest : List Lexeme) : PatternEnd (.symbol .rightParen :: rest)
  | «with» (rest : List Lexeme) : PatternEnd (.keyword .«with» :: rest)
  | statement {k : Keyword} (h : k.BeginsStatement) (rest : List Lexeme) :
    PatternEnd (.keyword k :: rest)

end Pattern

end WordPattern
