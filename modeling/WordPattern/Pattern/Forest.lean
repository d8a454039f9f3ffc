import WordPattern.Fuel
import WordPattern.Pattern.Arena

/-!
# Forests of cells

A cell stores the numbers of the cells below it and of the one that follows it. These numbers are
followed to go along a chain, to tell whether an element is a step, and to tell whether it binds
nothing. A number behind the last cell has no answer, and neither has a path that does not end, with
any fuel.
-/

namespace WordPattern

namespace Cell

/-- The cells below a cell: its head, its body, its operands or its items. -/
def Kind.children : Kind → List Nat
  | .list items _ => items
  | .group head => [head]
  | .«repeat» _ _ body => [body]
  | .or left right => [left, right]
  | .capture _ body => [body]
  | .define _ body => [body]
  | _ => []

/-- The numbers that a cell stores. -/
def references (cell : Cell) : List Nat := cell.kind.children ++ cell.next.toList

/-- An element without elements inside is a step. -/
def Kind.isStep : Kind → Bool
  | .literal bytes _ => !bytes.isEmpty
  | .byteClass .. => true
  | .list _ negated => negated
  | _ => false

end Cell

namespace Arena

/-- The numbers that the cells store. -/
def references (a : Arena) : List Nat := a.flatMap Cell.references

/-- Cells come behind the cells below them, and in front of the ones that follow them. -/
def Ordered (a : Arena) : Prop :=
  ∀ (id : Nat) (cell : Cell), a[id]? = some cell → (∀ child ∈ cell.kind.children, child < id) ∧
    ∀ next ∈ cell.next, id < next

/-- No cell stands in a chain that is the body of a cell, an operand or an item; groups have chains
below them. -/
def Unlinked (a : Arena) : Prop :=
  ∀ (id : Nat) (cell : Cell), a[id]? = some cell → (∀ head, cell.kind ≠ .group head) →
    ∀ child ∈ cell.kind.children, ∃ k, a[child]? = some ⟨k, none⟩

/-- The items of a list are items of the grammar: plain, and not negated. -/
def PlainItems (a : Arena) : Prop :=
  ∀ (id : Nat) (items : List Nat) (negated : Bool) (next : Option Nat),
    a[id]? = some ⟨.list items negated, next⟩ →
      ∀ item ∈ items, ∃ i : Item, a[item]? = some ⟨i.kind, none⟩

/-! ## Numbers that are followed -/

variable (a : Arena)

/-- The cells of a chain, from one of them on. -/
def chainFrom? : Nat → Nat → Option (List Nat)
  | _, 0 => none
  | id, fuel + 1 => do
    let cell ← a[id]?
    match cell.next with
    | none => return [id]
    | some next => return id :: (← chainFrom? next fuel)

mutual
/-- The element is a step. -/
def isStep? : Nat → Nat → Option Bool
  | _, 0 => none
  | id, fuel + 1 => do
    let cell ← a[id]?
    match cell.kind with
    | .group head => areSteps? head fuel
    | k => return k.isStep

/-- The elements of a chain are steps, from one of them on. -/
def areSteps? : Nat → Nat → Option Bool
  | _, 0 => none
  | id, fuel + 1 => do
    if ← isStep? id fuel then
      let cell ← a[id]?
      match cell.next with
      | none => return true
      | some next => areSteps? next fuel
    else return false
end

mutual
/-- No element of a chain binds anything, from one of them on. -/
def bindsNothing? : Nat → Nat → Option Bool
  | _, 0 => none
  | id, fuel + 1 => do
    let cell ← a[id]?
    if ← bindsNothingWithin? cell.kind fuel then
      match cell.next with
      | none => return true
      | some next => bindsNothing? next fuel
    else return false

/-- A cell binds nothing, and neither does anything below it. -/
def bindsNothingWithin? : Cell.Kind → Nat → Option Bool
  | _, 0 => none
  | kind, fuel + 1 => do
    match kind with
    | .capture .. => return false
    | .define .. => return false
    | .call _ => return false
    | .group head => bindsNothing? head fuel
    | .«repeat» _ _ body => bindsNothing? body fuel
    | .or left right =>
      if ← bindsNothing? left fuel then bindsNothing? right fuel else return false
    | _ => return true
end

end Arena

end WordPattern
