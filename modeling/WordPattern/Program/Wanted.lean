import WordPattern.Program.Parser

/-!
# What a program may go on with

Lexemes are taken one by one against a stack of what is still wanted. The lexeme that comes next
begins what is on top and makes it want more; or it begins nothing there, and what is on top gives
way to what is below if it may be missing. So one lexeme is looked at at a time, and the first one
that nothing begins with is wrong.
-/

namespace WordPattern

open Expression (Level)

/-- What may be wanted. A name with *more* in it is that of what may follow a part of a kind. -/
inductive Wanted where
  | lexeme (l : Lexeme)
  | literal
  | count
  /-- A count that is not below another one. -/
  | countFrom (least : Numeral)
  /-- What follows `between`. -/
  | bounds
  /-- What follows `at`. -/
  | leastOrMost
  | range
  | listItem
  | moreItems
  /-- What follows `not`. -/
  | negated
  /-- What follows `line` and `file`. -/
  | side
  | single
  | quantified
  | fewest
  | binder
  | moreBinders
  | alternatives
  | moreElements
  | atom
  | unary
  | moreCalls
  | operations (l : Level)
  | firstArgument
  | moreArguments
  | moreArms
  | otherwise
  | parameter
  | firstParameter
  | moreParameters
  | amount
  | mostTaken
  | morePaths
  | setTarget
  | moreExpressions
  | statement
  | program
deriving DecidableEq

namespace Wanted

/-! ## Sequences -/

def element : List Wanted := [quantified, moreBinders, alternatives]

def chain : List Wanted := element ++ [moreElements]

/-- The operations that bind tighter than those of a level. -/
def tighter : Level → List Wanted
  | .multiplicative => []
  | .additive => [operations .multiplicative]
  | .comparison => [operations .multiplicative, operations .additive]
  | .and => [operations .multiplicative, operations .additive, operations .comparison]
  | .or =>
    [operations .multiplicative, operations .additive, operations .comparison, operations .and]

def operand (l : Level) : List Wanted := unary :: tighter l

def level (l : Level) : List Wanted := operand l ++ [operations l]

def expression : List Wanted := level .or

/-- What follows `when`. -/
def arm : List Wanted := expression ++ lexeme (.keyword .«then») :: expression

/-! ## What lexemes begin -/

/-- A lexeme and what is wanted behind it. -/
def first (l : Lexeme) (behind : List Wanted) (t : Lexeme) : Option (List Wanted) :=
  if t = l then some behind else none

def beginCount? (accepts : Nat → Bool) : Lexeme → Option (List Wanted)
  | .number n => if n.count?.any accepts then some [] else none
  | _ => none

def beginLiteral? (behind : List Wanted) : Lexeme → Option (List Wanted)
  | .literal _ => some behind
  | _ => none

def beginItem? : Lexeme → Option (List Wanted)
  | .keyword k => if (ByteClass.ofKeyword? k).isSome then some [] else none
  | .literal _ => some [range]
  | _ => none

def beginSingle? : Lexeme → Option (List Wanted)
  | .symbol .leftParen => some (chain ++ [lexeme (.symbol .rightParen)])
  | .keyword .not => some [negated]
  | .keyword .«in» => some [listItem, moreItems]
  | .keyword .sol | .keyword .eol | .keyword .sof | .keyword .eof => some []
  | .keyword .line | .keyword .file => some [side]
  | .variableName _ | .subroutineName _ => some []
  | t => beginItem? t

def beginQuantified? : Lexeme → Option (List Wanted)
  | .keyword .«at» => some [leastOrMost, single, fewest]
  | .keyword .between => some [bounds, single, fewest]
  | .keyword .exactly => some [count, single, fewest]
  | .keyword .maybe => some [single, fewest]
  | .number n => if n.count?.isSome then some [single, fewest] else none
  | t => beginSingle? t

def beginName? : Lexeme → Option (List Wanted)
  | .variableName _ => some []
  | _ => none

def beginAtom? : Lexeme → Option (List Wanted)
  | .literal _ | .number _ | .variableName _ => some []
  | .keyword .true | .keyword .false | .keyword .upper | .keyword .lower => some []
  | .word name => if (Builtin.ofWord? name).isSome then some [] else none
  | .symbol .leftParen => some (expression ++ [lexeme (.symbol .rightParen)])
  | .keyword .case =>
    some (lexeme (.keyword .when) :: arm ++ [moreArms, otherwise, lexeme (.keyword .«end»)])
  | .keyword .func => some (lexeme (.symbol .leftParen) :: firstParameter :: expression)
  | _ => none

def beginUnary? : Lexeme → Option (List Wanted)
  | .keyword .not | .symbol .minus => some [unary]
  | t => (beginAtom? t).map (· ++ [moreCalls])

/-- An expression, and what is wanted behind it. -/
def beginExpression? (behind : List Wanted) (t : Lexeme) : Option (List Wanted) :=
  (beginUnary? t).map (· ++ (tighter .or ++ operations .or :: behind))

def beginAmount? : Lexeme → Option (List Wanted)
  | .keyword .all => some []
  | .keyword .top | .keyword .take => some [count]
  | .keyword .skip => some [count, mostTaken]
  | _ => none

def beginTarget? : Lexeme → Option (List Wanted)
  | .variableName _ => some (lexeme (.keyword .«to») :: expression)
  | .subroutineName _ => some (lexeme (.keyword .«to») :: lexeme (.keyword .pattern) :: chain)
  | _ => none

def beginStatement? : Lexeme → Option (List Wanted)
  | .keyword .find => some (amount :: chain)
  | .keyword .replace =>
    some (amount :: (chain ++ lexeme (.keyword .«with») :: (expression ++ [moreExpressions])))
  | .keyword .use => some [literal, morePaths]
  | .keyword .«repeat» => some [count, statement]
  | .keyword .set => some [setTarget]
  | _ => none

/-- What is wanted behind a lexeme that begins what was wanted. -/
def begin? (w : Wanted) (t : Lexeme) : Option (List Wanted) :=
  match w with
  | lexeme l => first l [] t
  | literal => beginLiteral? [] t
  | count => beginCount? (fun _ => true) t
  | countFrom least => beginCount? (fun most => least.count?.any (· ≤ most)) t
  | bounds =>
    match t with
    | .number n =>
      if n.count?.isSome then some [lexeme (.keyword .and), countFrom n] else none
    | _ => none
  | leastOrMost =>
    match t with
    | .keyword .least | .keyword .most => some [count]
    | _ => none
  | range => first (.keyword .«to») [literal] t
  | listItem => beginItem? t
  | moreItems => first (.symbol .comma) [listItem, moreItems] t
  | negated =>
    match t with
    | .keyword .«in» => some [listItem, moreItems]
    | t => beginItem? t
  | side =>
    match t with
    | .keyword .start | .keyword .«end» => some []
    | _ => none
  | single => beginSingle? t
  | quantified => beginQuantified? t
  | fewest => first (.keyword .fewest) [] t
  | binder =>
    match t with
    | .variableName _ | .subroutineName _ => some []
    | _ => none
  | moreBinders => first (.symbol .assign) [binder, moreBinders] t
  | alternatives => first (.keyword .or) element t
  | moreElements => (beginQuantified? t).map (· ++ [moreBinders, alternatives, moreElements])
  | atom => beginAtom? t
  | unary => beginUnary? t
  | moreCalls => first (.symbol .leftParen) [firstArgument, moreCalls] t
  | operations l =>
    if (l.operator? t).isSome then
      some (operand l ++ if l = .comparison then [] else [operations l])
    else none
  | firstArgument =>
    if t = .symbol .rightParen then some [] else beginExpression? [moreArguments] t
  | moreArguments =>
    match t with
    | .symbol .rightParen => some []
    | .symbol .comma => some (expression ++ [moreArguments])
    | _ => none
  | moreArms => first (.keyword .when) (arm ++ [moreArms]) t
  | otherwise => first (.keyword .otherwise) expression t
  | parameter => beginName? t
  | firstParameter =>
    if t = .symbol .rightParen then some []
    else (beginName? t).map (· ++ [moreParameters])
  | moreParameters =>
    match t with
    | .symbol .rightParen => some []
    | .symbol .comma => some [parameter, moreParameters]
    | _ => none
  | amount => beginAmount? t
  | mostTaken => first (.keyword .take) [count] t
  | morePaths => first (.symbol .comma) [literal, morePaths] t
  | setTarget => beginTarget? t
  | moreExpressions => beginExpression? [moreExpressions] t
  | statement => beginStatement? t
  | program => (beginStatement? t).map (· ++ [program])

/-- What is wanted may be missing where the lexeme comes next, or the end. -/
def mayMiss (w : Wanted) (next : Option Lexeme) : Bool :=
  match w with
  | range | moreItems | fewest | moreBinders | alternatives => true
  | moreElements => Pattern.atEnd (next.toList.map (⟨·, .start⟩))
  | moreCalls | operations _ | moreArms | otherwise => true
  | mostTaken | morePaths => true
  | moreExpressions => !Expr.begins (next.toList.map (⟨·, .start⟩))
  | program => next.isNone
  | _ => false

/-! ## Stacks -/

/-- What is wanted behind a lexeme, if it is right. -/
def next? : List Wanted → Lexeme → Option (List Wanted)
  | [], _ => none
  | w :: k, t =>
    match w.begin? t with
    | some ws => some (ws ++ k)
    | none => if w.mayMiss (some t) then next? k t else none

/-- What is wanted behind some lexemes, if they are all right. -/
def after? (k : List Wanted) : List Lexeme → Option (List Wanted)
  | [] => some k
  | t :: rest => (next? k t).bind (after? · rest)

/-- The lexemes from the first wrong one on; there are none if only the end is wrong. -/
def firstWrong? (k : List Wanted) : List Lexeme → Option (List Lexeme)
  | [] => if k.all (·.mayMiss none) then none else some []
  | t :: rest =>
    match next? k t with
    | some k => firstWrong? k rest
    | none => some (t :: rest)

end Wanted

end WordPattern
