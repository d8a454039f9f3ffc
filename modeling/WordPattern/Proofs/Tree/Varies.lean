import WordPattern.Proofs.Bindings
import WordPattern.Proofs.Pattern.Elements
import WordPattern.Proofs.Tree.Compare

/-!
# Trees of patterns that are changed

A comparison that holds where a rule has changed an element holds for every pattern that is changed
by the rule at some places, however deep they stand, in the pattern itself or in those it calls.
-/

namespace WordPattern

variable {γ : Type} {rule : Node → Node → Prop} {names : List Name}

/-- None of some names is bound. -/
def Trail.Spares (names : List Name) (trail : Trail) : Prop :=
  (∀ name, .text name ∈ names → trail.captures.get? name = none) ∧
    ∀ name, .pattern name ∈ names → trail.subroutines.get? name = none

/-- The second chain is the first one, changed by a rule at some places, and neither binds any of
some names. -/
def Chain.VariesIn (rule : Node → Node → Prop) (names : List Name) (chain chain' : Chain) : Prop :=
  chain.Varies rule chain' ∧ chain.spares names = true

/-- Two spots that differ in the patterns that are bound, which are changed by a rule. -/
structure Spot.Varies (rule : Node → Node → Prop) (names : List Name) (p p' : Spot) : Prop where
  position : p.position = p'.position
  captures : p.trail.captures = p'.trail.captures
  subroutines : p.trail.subroutines.Related (Chain.VariesIn rule names) p'.trail.subroutines
  spares : p'.trail.Spares names

/-- Two environments that differ in the patterns that are bound, which are changed by a rule. The
rule leads from one tree to another one that compares, where the names are not bound. -/
structure Variation (c : Tree.Comparison γ) (text : ByteArray) (rule : Node → Node → Prop)
    (names : List Name) (environment environment' : Environment) : Prop where
  texts : environment.texts = environment'.texts
  subroutines : environment.subroutines.Related (Chain.VariesIn rule names) environment'.subroutines
  rule : ∀ {node node'}, rule node node' → ∀ level p, p.trail.Spares names →
    c.Carries Eq (node.tree text environment' level p) (node'.tree text environment' level p)

namespace Spot.Varies

variable {p p' : Spot}

theorem move (h : p.Varies rule names p') (position : Nat) :
    (p.move position).Varies rule names (p'.move position) :=
  ⟨rfl, h.captures, h.subroutines, h.spares⟩

theorem capture {text : ByteArray} {name : String} (h : p.Varies rule names p') (start : Nat)
    (hname : .text name ∉ names) :
    (p.capture text name start).Varies rule names (p'.capture text name start) := by
  refine ⟨h.position, ?_, h.subroutines, fun other hother => ?_, h.spares.2⟩
  · unfold Spot.capture
    rw [h.position, h.captures]
  · have hne : other ≠ name := by
      rintro rfl
      exact hname hother
    exact (Bindings.get?_insert_of_ne hne).trans (h.spares.1 other hother)

theorem define {name : String} {chain chain' : Chain} (h : p.Varies rule names p')
    (hchain : Chain.VariesIn rule names chain chain') (hname : .pattern name ∉ names) :
    (p.define name chain).Varies rule names (p'.define name chain') := by
  refine ⟨h.position, h.captures, h.subroutines.insert hchain name, h.spares.1,
    fun other hother => ?_⟩
  have hne : other ≠ name := by
    rintro rfl
    exact hname hother
  exact (Bindings.get?_insert_of_ne hne).trans (h.spares.2 other hother)

theorem start (position : Nat) :
    Spot.Varies rule names ⟨position, {}⟩ ⟨position, {}⟩ :=
  ⟨rfl, rfl, Bindings.related_empty, fun _ _ => rfl, fun _ _ => rfl⟩

end Spot.Varies

variable {c : Tree.Comparison γ} {text : ByteArray} {p p' : Spot}

theorem Spot.Varies.atEnd (h : p.Varies rule names p') (finish : Option Nat) :
    c.Carries (Spot.Varies rule names)
      (match finish with
        | some finish => .leaf (p.move finish)
        | none => .fail)
      (match finish with
        | some finish => .leaf (p'.move finish)
        | none => .fail) := by
  cases finish with
  | some finish => exact .leaf (h.move finish)
  | none => exact .fail

theorem Node.plainTree_varies (texts : Bindings String) (node : Node)
    (h : p.Varies rule names p') :
    c.Carries (Spot.Varies rule names) (node.plainTree text texts p)
      (node.plainTree text texts p') := by
  cases node with
  | anchor a =>
    unfold plainTree
    dsimp only
    rw [h.position]
    exact .when (.leaf h)
  | range low high negated =>
    unfold plainTree
    dsimp only
    rw [h.position]
    refine .choice ?_
    rw [List.forall₂_map_left_iff, List.forall₂_map_right_iff, List.forall₂_same]
    exact fun finish _ => .leaf (h.move finish)
  | variableText name =>
    unfold plainTree
    dsimp only
    rw [h.position, h.captures]
    cases (p'.trail.captures.get? name).or (texts.get? name) with
    | none => exact .fail
    | some value => exact .when (.leaf (h.move _))
  | literal | byteClass | noneOf =>
    unfold plainTree
    dsimp only
    rw [h.position]
    exact h.atEnd _
  | _ => exact .fail

variable {environment environment' : Environment} {level : Nat}

/-- What is compared of two patterns that are called. -/
def Calls (c : Tree.Comparison γ) (text : ByteArray) (rule : Node → Node → Prop)
    (names : List Name) (environment environment' : Environment) (level : Nat) : Prop :=
  ∀ {chain chain' : Chain}, Chain.VariesIn rule names chain chain' →
    ∀ {p p' : Spot}, p.Varies rule names p' →
      c.Carries (Spot.Varies rule names) (chain.calledTree text environment level p)
        (chain'.calledTree text environment' level p')

theorem Calls.found (hcalls : Calls c text rule names environment environment' level)
    (hp : p.Varies rule names p') {found found' : Option Chain} :
    Option.Rel (Chain.VariesIn rule names) found found' →
      c.Carries (Spot.Varies rule names)
        (match found with
          | some chain => chain.calledTree text environment level p
          | none => .fail)
        (match found' with
          | some chain => chain.calledTree text environment' level p'
          | none => .fail) := by
  intro h
  cases h with
  | none => exact .fail
  | some hchain => exact hcalls hchain hp

mutual
/-- Elements that are changed by a rule compare if the patterns that are called do. -/
theorem Node.tree_varies (h : Variation c text rule names environment environment')
    (hcalls : Calls c text rule names environment environment' level) :
    {node node' : Node} → node.Varies rule node' → node.all (·.spares names) = true →
      ∀ {p p' : Spot}, p.Varies rule names p' → c.Carries (Spot.Varies rule names)
        (node.tree text environment level p) (node'.tree text environment' level p')
  | node, _, .plain hplain, _, _, _, hp => by
    cases node with
    | oneOf items =>
      unfold Node.tree Node.treeWith
      rw [h.texts]
      refine .choice ?_
      rw [List.forall₂_map_left_iff, List.forall₂_map_right_iff, List.forall₂_same]
      exact fun item _ => Node.plainTree_varies _ item.node hp
    | call name =>
      unfold Node.tree Node.treeWith
      exact hcalls.found hp (hp.subroutines.or h.subroutines name)
    | group | «repeat» | or | capture | define => cases hplain
    | _ =>
      unfold Node.tree Node.treeWith
      rw [h.texts]
      exact Node.plainTree_varies _ _ hp
  | _, _, .group hchain, hall, _, _, hp =>
    Chain.tree_varies h hcalls hchain (Bool.and_eq_true_iff.mp hall).2 hp
  | _, _, .«repeat» hbody, hall, _, _, hp =>
    Quantifier.tree_carries (fun _ _ hp => hp.position) _ (.inl rfl)
      (fun _ _ hp => Node.tree_varies h hcalls hbody (Bool.and_eq_true_iff.mp hall).2 hp) level 0
      _ _ hp
  | _, _, .or hleft hright, hall, _, _, hp =>
    have ⟨hl, hr⟩ := Bool.and_eq_true_iff.mp (Bool.and_eq_true_iff.mp hall).2
    (Node.tree_varies h hcalls hleft hl hp).fork (Node.tree_varies h hcalls hright hr hp)
  | _, _, .capture hbody, hall, _, _, hp => by
    obtain ⟨hname, hall⟩ := Bool.and_eq_true_iff.mp hall
    refine (Node.tree_varies h hcalls hbody hall hp).bind fun q q' hq => ?_
    rw [hp.position]
    exact .leaf (hq.capture _ (Node.not_mem_of_spares hname rfl))
  | _, _, .define hbody, hall, _, _, hp => by
    obtain ⟨hname, hall⟩ := Bool.and_eq_true_iff.mp hall
    exact Node.tree_varies h hcalls hbody hall
      (hp.define ⟨.last hbody, hall⟩ (Node.not_mem_of_spares hname rfl))
  | _, _, .apply hnode hrule, hall, _, _, hp =>
    (Node.tree_varies h hcalls hnode hall hp).trans (h.rule hrule level _ hp.spares)

/-- Chains that are changed by a rule compare if the patterns that are called do. -/
theorem Chain.tree_varies (h : Variation c text rule names environment environment')
    (hcalls : Calls c text rule names environment environment' level) :
    {chain chain' : Chain} → chain.Varies rule chain' → chain.spares names = true →
      ∀ {p p' : Spot}, p.Varies rule names p' → c.Carries (Spot.Varies rule names)
        (chain.tree text environment level p) (chain'.tree text environment' level p')
  | _, _, .last hnode, hall, _, _, hp => Node.tree_varies h hcalls hnode hall hp
  | _, _, .cons hnode hrest, hall, _, _, hp =>
    have ⟨hn, hr⟩ := Bool.and_eq_true_iff.mp hall
    (Node.tree_varies h hcalls hnode hn hp).bind fun _ _ hq =>
      Chain.tree_varies h hcalls hrest hr hq
end

/-- A pattern that is called is given to one level less, so this is an induction on levels. -/
theorem calls_varies (h : Variation c text rule names environment environment') (level : Nat) :
    Calls c text rule names environment environment' level := by
  induction level with
  | zero => exact fun _ _ _ _ => .cut
  | succ level ih => exact fun hchain _ _ hp => Chain.tree_varies h ih hchain.1 hchain.2 hp

/-- The tree of a pattern that is changed by a rule compares with the tree of the pattern. -/
theorem Variation.tree (h : Variation c text rule names environment environment')
    {pattern pattern' : Chain} (hpattern : pattern.Varies rule pattern')
    (hspares : pattern.spares names = true) (level start : Nat) :
    c.Carries (Spot.Varies rule names) (pattern.tree text environment level ⟨start, {}⟩)
      (pattern'.tree text environment' level ⟨start, {}⟩) :=
  Chain.tree_varies h (calls_varies h level) hpattern hspares (.start start)

end WordPattern
