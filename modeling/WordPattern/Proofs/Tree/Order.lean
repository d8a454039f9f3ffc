import WordPattern.Pattern.Tree

/-!
# Deeper trees

A tree to a deeper level is the same tree, only that less of it is cut off. So what comes first at
one level comes first at every deeper level.
-/

namespace WordPattern

namespace Tree

variable {α β : Type}

/-- The second tree is the first one, with something in the place of what is cut off. -/
inductive Le : Tree α → Tree α → Prop
  | cut (t : Tree α) : Le .cut t
  | fail : Le .fail .fail
  | leaf (a : α) : Le (.leaf a) (.leaf a)
  | fork {s s' t t' : Tree α} (hs : Le s s') (ht : Le t t') : Le (.fork s t) (.fork s' t')

instance : LE (Tree α) := ⟨Le⟩

theorem le_refl (t : Tree α) : t ≤ t := by
  induction t with
  | fail => exact .fail
  | leaf a => exact .leaf a
  | fork s t hs ht => exact .fork hs ht
  | cut => exact .cut _

theorem bind_le {s t : Tree α} {f g : α → Tree β} (h : s ≤ t) (hf : ∀ a, f a ≤ g a) :
    s.bind f ≤ t.bind g := by
  induction h with
  | cut t => exact .cut _
  | fail => exact .fail
  | leaf a => exact hf a
  | fork _ _ hs ht => exact .fork hs ht

theorem first_of_le {s t : Tree α} {outcome : Option α} (h : s ≤ t)
    (hs : s.first = some outcome) : t.first = some outcome := by
  induction h generalizing outcome with
  | cut t => cases hs
  | fail => exact hs
  | leaf a => exact hs
  | @fork s s' t t' _ _ ihs iht =>
    unfold first at hs ⊢
    cases hf : s.first with
    | none =>
      rw [hf] at hs
      cases hs
    | some outcome' =>
      rw [hf] at hs
      rw [ihs hf]
      cases outcome' with
      | some a => exact hs
      | none => exact iht hs

end Tree

theorem Quantifier.tree_le (quantifier : Quantifier) (fewest : Bool)
    {body body' : Spot → Tree Spot} (hbody : ∀ p, body p ≤ body' p) :
    ∀ {rounds rounds' : Nat}, rounds ≤ rounds' → ∀ count p,
      quantifier.tree fewest body rounds count p ≤ quantifier.tree fewest body' rounds' count p := by
  intro rounds
  induction rounds with
  | zero =>
    intro rounds' _ count p
    exact .cut _
  | succ rounds ih =>
    intro rounds' hle count p
    obtain ⟨rounds', rfl⟩ : ∃ n, rounds' = n + 1 := ⟨rounds' - 1, by omega⟩
    have grow : (if quantifier.allowsAfter count then
        (body p).bind fun q =>
          if q.position = p.position && quantifier.metBy (count + 1) then .leaf q
          else quantifier.tree fewest body rounds (count + 1) q
        else .fail) ≤
      if quantifier.allowsAfter count then
        (body' p).bind fun q =>
          if q.position = p.position && quantifier.metBy (count + 1) then .leaf q
          else quantifier.tree fewest body' rounds' (count + 1) q
        else .fail := by
      split
      · refine Tree.bind_le (hbody p) fun q => ?_
        split
        · exact Tree.le_refl _
        · exact ih (Nat.le_of_succ_le_succ hle) (count + 1) q
      · exact .fail
    unfold Quantifier.tree
    dsimp only
    cases fewest with
    | true => exact .fork (Tree.le_refl _) grow
    | false => exact .fork grow (Tree.le_refl _)

section

variable (text : ByteArray) (environment : Environment) {level level' : Nat}
  {called called' : Chain → Spot → Tree Spot}

mutual
theorem Node.treeWith_le (hlevel : level ≤ level')
    (hcalled : ∀ chain p, called chain p ≤ called' chain p) :
    (node : Node) → (p : Spot) → node.treeWith text environment level called p ≤
      node.treeWith text environment level' called' p
  | .group chain, p => Chain.treeWith_le hlevel hcalled chain p
  | .«repeat» quantifier fewest body, p =>
    quantifier.tree_le fewest (Node.treeWith_le hlevel hcalled body) hlevel 0 p
  | .or left right, p =>
    .fork (Node.treeWith_le hlevel hcalled left p) (Node.treeWith_le hlevel hcalled right p)
  | .capture _ body, p =>
    Tree.bind_le (Node.treeWith_le hlevel hcalled body p) fun _ => Tree.le_refl _
  | .define name body, p => Node.treeWith_le hlevel hcalled body (p.define name (.last body))
  | .call name, p => by
    unfold Node.treeWith
    cases (p.trail.subroutines.get? name).or (environment.subroutines.get? name) with
    | some chain => exact hcalled chain p
    | none => exact .fail
  | .oneOf .., p | .literal .., p | .byteClass .., p | .anchor .., p | .range .., p
  | .noneOf .., p | .variableText .., p => Tree.le_refl _

theorem Chain.treeWith_le (hlevel : level ≤ level')
    (hcalled : ∀ chain p, called chain p ≤ called' chain p) :
    (chain : Chain) → (p : Spot) → chain.treeWith text environment level called p ≤
      chain.treeWith text environment level' called' p
  | .last node, p => Node.treeWith_le hlevel hcalled node p
  | .cons node rest, p =>
    Tree.bind_le (Node.treeWith_le hlevel hcalled node p) (Chain.treeWith_le hlevel hcalled rest)
end

end

variable {text : ByteArray} {environment : Environment}

theorem Chain.calledTree_le {level level' : Nat} (h : level ≤ level') (chain : Chain) (p : Spot) :
    chain.calledTree text environment level p ≤ chain.calledTree text environment level' p := by
  induction level generalizing level' chain p with
  | zero => exact .cut _
  | succ level ih =>
    obtain ⟨level', rfl⟩ : ∃ n, level' = n + 1 := ⟨level' - 1, by omega⟩
    have hle := Nat.le_of_succ_le_succ h
    exact chain.treeWith_le text environment hle (ih hle) p

theorem Node.tree_le {level level' : Nat} (h : level ≤ level') (node : Node) (p : Spot) :
    node.tree text environment level p ≤ node.tree text environment level' p :=
  node.treeWith_le text environment h (Chain.calledTree_le h) p

theorem Chain.tree_le {level level' : Nat} (h : level ≤ level') (chain : Chain) (p : Spot) :
    chain.tree text environment level p ≤ chain.tree text environment level' p :=
  chain.treeWith_le text environment h (Chain.calledTree_le h) p

/-- No more than one outcome comes first. -/
theorem Chain.Prefers.unique {chain : Chain} {p : Spot} {outcome outcome' : Option Spot}
    (h : chain.Prefers text environment p outcome)
    (h' : chain.Prefers text environment p outcome') :
    outcome = outcome' := by
  obtain ⟨level, hl⟩ := h
  obtain ⟨level', hl'⟩ := h'
  have hleft := Tree.first_of_le (chain.tree_le (Nat.le_max_left level level') p) hl
  have hright := Tree.first_of_le (chain.tree_le (Nat.le_max_right level level') p) hl'
  exact Option.some.inj (hleft.symm.trans hright)

end WordPattern
