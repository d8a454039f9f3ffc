import WordPattern.Proofs.Tree.Verdict

/-!
# Bodies that are repeated in a row

A step has one outcome at most, where it ends. An element that binds nothing leaves what is bound as
it was. In both cases an outcome is no more than a position.
-/

namespace WordPattern

variable {text : ByteArray} {environment : Environment} {level : Nat}
  {called : Chain → Spot → Tree Spot}

/-- What a visit comes to at the only end there can be. -/
def Verdict.atEnd (visit : Spot → Verdict) (p : Spot) : Option Nat → Verdict
  | some finish => visit (p.move finish)
  | none => .miss

theorem explore_end (visit : Spot → Verdict) (p : Spot) (finish : Option Nat) :
    Tree.explore visit
      (match finish with
        | some finish => .leaf (p.move finish)
        | none => .fail) = Verdict.atEnd visit p finish := by
  cases finish <;> rfl

mutual
/-- The tree of a step is where it ends. -/
theorem Node.explore_step (visit : Spot → Verdict) :
    (node : Node) → node.isStep = true → (p : Spot) →
      (node.treeWith text environment level called p).explore visit =
        Verdict.atEnd visit p (node.stepEnd? text p.position)
  | .group chain, hstep, p => Chain.explore_step visit chain hstep p
  | .literal .., _, p | .byteClass .., _, p | .noneOf .., _, p => explore_end visit p _

/-- The tree of steps one after the other is where the last one ends. -/
theorem Chain.explore_step (visit : Spot → Verdict) :
    (chain : Chain) → chain.isStep = true → (p : Spot) →
      (chain.treeWith text environment level called p).explore visit =
        Verdict.atEnd visit p (chain.stepEnd? text p.position)
  | .last node, hstep, p => Node.explore_step visit node hstep p
  | .cons node rest, hstep, p => by
    obtain ⟨hnode, hrest⟩ := Bool.and_eq_true_iff.mp hstep
    unfold Chain.treeWith Chain.stepEnd?
    rw [Tree.explore_bind, Node.explore_step _ node hnode p]
    cases node.stepEnd? text p.position with
    | none => rfl
    | some next => exact Chain.explore_step visit rest hrest (p.move next)
end

/-! ## Elements that bind nothing -/

theorem Node.plainTree_keeps (texts : Bindings String) (node : Node) (p : Spot) :
    (node.plainTree text texts p).Forall fun q => q.trail = p.trail := by
  have atEnd : ∀ finish : Option Nat, Tree.Forall (fun q => q.trail = p.trail)
      (match finish with
        | some finish => .leaf (p.move finish)
        | none => .fail) := by
    intro finish
    cases finish <;> trivial
  have inTurn : ∀ ends : List Nat, Tree.Forall (fun q => q.trail = p.trail)
      (Tree.choice (ends.map fun e => .leaf (p.move e))) := by
    intro ends
    induction ends with
    | nil => trivial
    | cons e ends ih => exact ⟨rfl, ih⟩
  cases node with
  | anchor a =>
    unfold Node.plainTree
    dsimp only
    split
    · exact rfl
    · trivial
  | range low high negated => exact inTurn _
  | variableText name =>
    unfold Node.plainTree
    dsimp only
    split
    · split
      · exact rfl
      · trivial
    · trivial
  | literal | byteClass | noneOf => exact atEnd _
  | _ => trivial

theorem Quantifier.tree_keeps (quantifier : Quantifier) (fewest : Bool)
    {body : Spot → Tree Spot} (hbody : ∀ p, (body p).Forall fun q => q.trail = p.trail)
    (rounds : Nat) : ∀ count p,
      (quantifier.tree fewest body rounds count p).Forall fun q => q.trail = p.trail := by
  induction rounds with
  | zero =>
    intro count p
    trivial
  | succ rounds ih =>
    intro count p
    have stop : Tree.Forall (fun q => q.trail = p.trail)
        (if quantifier.metBy count then .leaf p else .fail) := by
      split
      · exact rfl
      · trivial
    have grow : Tree.Forall (fun q => q.trail = p.trail)
        (if quantifier.allowsAfter count then
          (body p).bind fun q =>
            if q.position = p.position && quantifier.metBy (count + 1) then .leaf q
            else quantifier.tree fewest body rounds (count + 1) q
        else .fail) := by
      split
      · refine (hbody p).bind fun q hq => ?_
        split
        · exact hq
        · exact (ih (count + 1) q).mono fun r hr => hr.trans hq
      · trivial
    unfold Quantifier.tree
    cases fewest with
    | true => exact ⟨stop, grow⟩
    | false => exact ⟨grow, stop⟩

mutual
/-- An element that binds nothing leaves what is bound as it was. -/
theorem Node.treeWith_keeps :
    (node : Node) → node.bindsNothing = true → (p : Spot) →
      (node.treeWith text environment level called p).Forall fun q => q.trail = p.trail
  | .oneOf items, _, p => by
    have inTurn : ∀ items : List Item, Tree.Forall (fun q => q.trail = p.trail)
        (Tree.choice (items.map fun i => i.node.plainTree text environment.texts p)) := by
      intro items
      induction items with
      | nil => trivial
      | cons item items ih => exact ⟨Node.plainTree_keeps _ item.node p, ih⟩
    exact inTurn items
  | .group chain, hbinds, p => Chain.treeWith_keeps chain hbinds p
  | .«repeat» quantifier fewest body, hbinds, p =>
    quantifier.tree_keeps fewest (Node.treeWith_keeps body hbinds) level 0 p
  | .or left right, hbinds, p =>
    have ⟨hleft, hright⟩ := Bool.and_eq_true_iff.mp hbinds
    ⟨Node.treeWith_keeps left hleft p, Node.treeWith_keeps right hright p⟩
  | .literal .., _, p | .byteClass .., _, p | .anchor .., _, p | .range .., _, p
  | .noneOf .., _, p | .variableText .., _, p => Node.plainTree_keeps _ _ p

/-- A chain that binds nothing leaves what is bound as it was. -/
theorem Chain.treeWith_keeps :
    (chain : Chain) → chain.bindsNothing = true → (p : Spot) →
      (chain.treeWith text environment level called p).Forall fun q => q.trail = p.trail
  | .last node, hbinds, p => Node.treeWith_keeps node hbinds p
  | .cons node rest, hbinds, p =>
    have ⟨hnode, hrest⟩ := Bool.and_eq_true_iff.mp hbinds
    (Node.treeWith_keeps node hnode p).bind fun q hq =>
      (Chain.treeWith_keeps rest hrest q).mono fun _ hr => hr.trans hq
end

end WordPattern
