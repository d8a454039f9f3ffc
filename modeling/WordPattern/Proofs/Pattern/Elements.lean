import WordPattern.Pattern.Step

/-!
# The elements of a pattern

What holds of every element of a pattern, however deep it stands.
-/

namespace WordPattern

mutual
/-- The element passes a test, and so does every element inside of it. -/
def Node.all (test : Node → Bool) : Node → Bool
  | .group chain => test (.group chain) && chain.all test
  | .«repeat» quantifier fewest body =>
    test (.«repeat» quantifier fewest body) && body.all test
  | .or left right => test (.or left right) && (left.all test && right.all test)
  | .capture name body => test (.capture name body) && body.all test
  | .define name body => test (.define name body) && body.all test
  | node => test node

/-- Every element of the chain passes a test, however deep it stands. -/
def Chain.all (test : Node → Bool) : Chain → Bool
  | .last node => node.all test
  | .cons node rest => node.all test && rest.all test
end

/-- A name is called. -/
def Node.isCall : Node → Bool
  | .call _ => true
  | _ => false

/-- The element depends on what stands before the position. -/
def Node.looksBack : Node → Bool
  | .anchor .lineStart => true
  | .anchor .fileStart => true
  | _ => false

mutual
theorem Node.all_of_forall {test : Node → Bool} (h : ∀ node, test node = true) :
    (node : Node) → node.all test = true
  | .group chain => Bool.and_eq_true_iff.mpr ⟨h _, Chain.all_of_forall h chain⟩
  | .«repeat» _ _ body | .capture _ body | .define _ body =>
    Bool.and_eq_true_iff.mpr ⟨h _, Node.all_of_forall h body⟩
  | .or left right => Bool.and_eq_true_iff.mpr ⟨h _,
      Bool.and_eq_true_iff.mpr ⟨Node.all_of_forall h left, Node.all_of_forall h right⟩⟩
  | .literal .. | .byteClass .. | .anchor _ | .range .. | .oneOf _ | .noneOf _
  | .variableText _ | .call _ => h _

theorem Chain.all_of_forall {test : Node → Bool} (h : ∀ node, test node = true) :
    (chain : Chain) → chain.all test = true
  | .last node => Node.all_of_forall h node
  | .cons node rest =>
    Bool.and_eq_true_iff.mpr ⟨Node.all_of_forall h node, Chain.all_of_forall h rest⟩
end

/-! ## Names -/

/-- A name that a text or a pattern is bound to. -/
inductive Name where
  | text (name : String)
  | pattern (name : String)
deriving DecidableEq

/-- The name that the element binds. -/
def Node.binds? : Node → Option Name
  | .capture name _ => some (.text name)
  | .define name _ => some (.pattern name)
  | _ => none

/-- The element binds none of some names. -/
def Node.spares (names : List Name) (node : Node) : Bool :=
  node.binds?.all fun name => !names.contains name

/-- No element of the chain binds any of some names, however deep it stands. -/
def Chain.spares (names : List Name) (chain : Chain) : Bool := chain.all (·.spares names)

theorem Node.not_mem_of_spares {names : List Name} {node : Node} {name : Name}
    (h : node.spares names = true) (hname : node.binds? = some name) : name ∉ names := by
  unfold spares at h
  rw [hname] at h
  simpa using h

theorem Chain.spares_nil (chain : Chain) : chain.spares [] = true :=
  chain.all_of_forall fun node => by
    unfold Node.spares
    cases node.binds? <;> rfl

/-! ## Elements that are changed -/

/-- No pattern is inside of the element. -/
def Node.isPlain : Node → Bool
  | .group _ | .«repeat» .. | .or .. | .capture .. | .define .. => false
  | _ => true

mutual
/-- The second element is the first one, changed by a rule at some places in it. -/
inductive Node.Varies (rule : Node → Node → Prop) : Node → Node → Prop
  | plain {node : Node} (h : node.isPlain = true) : Node.Varies rule node node
  | group {chain chain' : Chain} (h : Chain.Varies rule chain chain') :
    Node.Varies rule (.group chain) (.group chain')
  | «repeat» {quantifier : Quantifier} {fewest : Bool} {body body' : Node}
    (h : Node.Varies rule body body') :
    Node.Varies rule (.«repeat» quantifier fewest body) (.«repeat» quantifier fewest body')
  | or {left left' right right' : Node} (hleft : Node.Varies rule left left')
    (hright : Node.Varies rule right right') : Node.Varies rule (.or left right) (.or left' right')
  | capture {name : String} {body body' : Node} (h : Node.Varies rule body body') :
    Node.Varies rule (.capture name body) (.capture name body')
  | define {name : String} {body body' : Node} (h : Node.Varies rule body body') :
    Node.Varies rule (.define name body) (.define name body')
  | apply {node node' node'' : Node} (h : Node.Varies rule node node') (hrule : rule node' node'') :
    Node.Varies rule node node''

inductive Chain.Varies (rule : Node → Node → Prop) : Chain → Chain → Prop
  | last {node node' : Node} (h : Node.Varies rule node node') :
    Chain.Varies rule (.last node) (.last node')
  | cons {node node' : Node} {rest rest' : Chain} (h : Node.Varies rule node node')
    (hrest : Chain.Varies rule rest rest') : Chain.Varies rule (.cons node rest) (.cons node' rest')
end

variable {rule : Node → Node → Prop}

mutual
theorem Node.varies_refl : (node : Node) → node.Varies rule node
  | .group chain => .group chain.varies_refl
  | .«repeat» _ _ body => .«repeat» body.varies_refl
  | .or left right => .or left.varies_refl right.varies_refl
  | .capture _ body => .capture body.varies_refl
  | .define _ body => .define body.varies_refl
  | .literal .. | .byteClass .. | .anchor _ | .range .. | .oneOf _ | .noneOf _
  | .variableText _ | .call _ => .plain rfl

theorem Chain.varies_refl : (chain : Chain) → chain.Varies rule chain
  | .last node => .last node.varies_refl
  | .cons node rest => .cons node.varies_refl rest.varies_refl
end

end WordPattern
