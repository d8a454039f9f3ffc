import Mathlib
import WordPattern.Pattern.Forest
import WordPattern.Pattern.Step
import WordPattern.Proofs.Pattern.Layout

/-!
# The cells of a pattern make a forest

A cell is pushed when the cells below it are there, and it is linked to a cell that was pushed
later. What is laid out leaves a single reference open, the one to the root of what has been laid
out, and every cell holds a chain. So numbers that are followed lead through that chain.
-/

namespace WordPattern

namespace Arena

variable {a b : Arena} {id next : Nat} {k : Cell.Kind}

/-! ## References that are still to be stored -/

/-- How many references to a cell are missing, if every cell is to be referred to once. -/
def owed (a : Arena) (i : Nat) : Int := (if i < a.length then 1 else 0) - a.references.count i

theorem references_append : (a ++ b).references = a.references ++ b.references :=
  List.flatMap_append

theorem references_cons (cell : Cell) : references (cell :: a) = cell.references ++ a.references :=
  List.flatMap_cons

theorem owed_push (i : Nat) :
    (a.push k).2.owed i = a.owed i + [a.length].count i - k.children.count i := by
  simp only [owed, push, references_append, List.count_append, List.length_append]
  simp [references, Cell.references, List.count_singleton]
  split <;> split <;> split <;> omega

theorem owed_link (h : a[id]? = some ⟨k, none⟩) (i : Nat) :
    (a.link id next).owed i = a.owed i - [next].count i := by
  obtain ⟨hid, hcell⟩ := List.getElem?_eq_some_iff.mp h
  obtain ⟨front, cell, back, rfl, rfl, hlinked⟩ :=
    List.exists_of_modify (fun cell : Cell => { cell with next := some next }) hid
  rw [List.getElem_append_right le_rfl] at hcell
  simp only [Nat.sub_self, List.getElem_cons_zero] at hcell
  subst hcell
  simp only [owed, length_link]
  simp only [link, hlinked, references_append, references_cons, Cell.references,
    List.count_append, Option.toList, List.count_nil]
  omega

/-! ## The order of the cells -/

theorem ordered_nil : Ordered [] := by
  rintro id cell ⟨⟩

theorem Ordered.push (h : a.Ordered) (hk : ∀ child ∈ k.children, child < a.length) :
    (a.push k).2.Ordered := by
  intro id cell hcell
  simp only [Arena.push, List.getElem?_append, List.getElem?_singleton] at hcell
  split at hcell
  · exact h id cell hcell
  · rename_i hid
    split at hcell
    · cases hcell
      refine ⟨fun child hchild => (hk child hchild).trans_le (Nat.le_of_not_lt hid), ?_⟩
      rintro next ⟨⟩
    · cases hcell

theorem Ordered.link (h : a.Ordered) (hlt : id < next) : (a.link id next).Ordered := by
  intro id' cell hcell
  rw [Arena.link, List.getElem?_modify] at hcell
  obtain ⟨old, hold, rfl⟩ := Option.map_eq_some_iff.mp hcell
  obtain ⟨hchildren, hnext⟩ := h id' old hold
  split
  · rename_i hid
    subst hid
    refine ⟨hchildren, ?_⟩
    rintro _ ⟨⟩
    exact hlt
  · exact ⟨hchildren, hnext⟩

/-! ## Arenas that grow -/

/-- Cells have been laid out behind those of an arena, and nothing refers to the roots yet. -/
structure Grows (a b : Arena) (roots : List Nat) : Prop where
  length_le : a.length ≤ b.length
  roots_lt : ∀ root ∈ roots, root < b.length
  ordered : a.Ordered → b.Ordered
  owed : ∀ i, b.owed i = a.owed i + roots.count i

variable {c : Arena} {roots others : List Nat}

theorem Grows.refl : a.Grows a [] := ⟨le_rfl, by simp, id, by simp⟩

theorem Grows.append (h : a.Grows b roots) (hmore : b.Grows c others) :
    a.Grows c (roots ++ others) where
  length_le := h.length_le.trans hmore.length_le
  roots_lt := List.forall_mem_append.mpr
    ⟨fun root hroot => (h.roots_lt root hroot).trans_le hmore.length_le, hmore.roots_lt⟩
  ordered ha := hmore.ordered (h.ordered ha)
  owed i := by
    rw [hmore.owed, h.owed, List.count_append]
    omega

/-- A cell that refers to the roots is the root of all of them. -/
theorem Grows.push (h : a.Grows b k.children) : a.Grows (b.push k).2 [(b.push k).1] where
  length_le := h.length_le.trans (by simp [Arena.push])
  roots_lt := by simp [Arena.push]
  ordered ha := (h.ordered ha).push h.roots_lt
  owed i := by
    rw [owed_push, h.owed]
    simp only [Arena.push]
    omega

theorem Grows.link (h : a.Grows b ([id] ++ [next])) (hlt : id < next)
    (hcell : b[id]? = some ⟨k, none⟩) : a.Grows (b.link id next) [id] where
  length_le := by
    rw [length_link]
    exact h.length_le
  roots_lt := by
    rw [length_link]
    exact (List.forall_mem_append.mp h.roots_lt).1
  ordered ha := (h.ordered ha).link hlt
  owed i := by
    rw [owed_link hcell, h.owed, List.count_append]
    omega

end Arena

theorem Item.storeAll_grows (items : List Item) (a : Arena) :
    a.Grows (Item.storeAll items a).2 (Item.storeAll items a).1 := by
  induction items generalizing a with
  | nil => exact .refl
  | cons item items ih =>
    have hleaf : item.kind.children = [] := by cases item <;> rfl
    have hpush : a.Grows (a.push item.kind).2 [(a.push item.kind).1] :=
      .push (hleaf ▸ .refl)
    exact hpush.append (ih _)

theorem Node.getElem?_store (n : Node) (a : Arena) :
    ∃ k, (n.store a).2[(n.store a).1]? = some ⟨k, none⟩ := by
  cases n <;> exact ⟨_, Arena.getElem?_push⟩

theorem Chain.le_store (c : Chain) (a : Arena) : a.length ≤ (c.store a).1 := by
  cases c with
  | last n => exact n.le_store a
  | cons n rest => exact n.le_store a

mutual
theorem Node.store_grows (n : Node) (a : Arena) : a.Grows (n.store a).2 [(n.store a).1] := by
  match n with
  | .literal .. | .byteClass .. | .anchor .. | .range .. | .variableText .. | .call .. =>
    exact .push .refl
  | .oneOf items | .noneOf items => exact (Item.storeAll_grows items a).push
  | .group c => exact (c.store_grows a).push
  | .«repeat» _ _ body | .capture _ body | .define _ body => exact (body.store_grows a).push
  | .or left right => exact ((left.store_grows a).append (right.store_grows _)).push

theorem Chain.store_grows (c : Chain) (a : Arena) : a.Grows (c.store a).2 [(c.store a).1] := by
  match c with
  | .last n => exact n.store_grows a
  | .cons n rest =>
    obtain ⟨k, hcell⟩ := n.getElem?_store a
    have hid := n.length_store a
    have hnext := rest.le_store (n.store a).2
    obtain ⟨more, hmore⟩ := rest.prefix_store (n.store a).2
    have hkept : (rest.store (n.store a).2).2[(n.store a).1]? = some ⟨k, none⟩ := by
      rw [← hmore, List.getElem?_append_left (by omega)]
      exact hcell
    exact ((n.store_grows a).append (rest.store_grows _)).link (by omega) hkept
end

/-! ## Every cell holds a chain -/

namespace Arena

/-- Chains stand in the cells from `low` on and below `high`. -/
def AllHold (a : Arena) (low high : Nat) : Prop := ∀ i, low ≤ i → i < high → ∃ c, a.Holds i c

variable {a b : Arena} {low middle high id : Nat}

theorem allHold_nil : a.AllHold low low := by
  intro i hlow hhigh
  omega

theorem AllHold.append (h : a.AllHold low middle) (hmore : a.AllHold middle high) :
    a.AllHold low high := by
  intro i hlow hhigh
  rcases Nat.lt_or_ge i middle with hi | hi
  · exact h i hlow hi
  · exact hmore i hi hhigh

theorem AllHold.snoc {c : Chain} (h : a.AllHold low id) (hroot : a.Holds id c) :
    a.AllHold low (id + 1) := by
  refine h.append fun i hlow hhigh => ?_
  cases Nat.le_antisymm hlow (Nat.le_of_lt_succ hhigh)
  exact ⟨c, hroot⟩

theorem HoldsItems.all {ids : List Nat} {items : List Item} (h : a.HoldsItems ids items) :
    ∀ id ∈ ids, ∃ i : Item, a[id]? = some ⟨i.kind, none⟩ := by
  induction h with
  | nil => simp
  | cons item _ ih =>
    rw [List.forall_mem_cons]
    exact ⟨⟨_, item⟩, ih⟩

theorem holds_item {i : Item} (h : a[id]? = some ⟨i.kind, none⟩) : a.Holds id (.last i.node) := by
  have hparts : a.HoldsParts i.kind i.node := by cases i <;> constructor
  exact .last (.cell h hparts)

end Arena

open Arena

theorem Item.mem_storeAll (items : List Item) (a : Arena) {i : Nat} (hlow : a.length ≤ i)
    (hhigh : i < (Item.storeAll items a).2.length) : i ∈ (Item.storeAll items a).1 := by
  induction items generalizing a with
  | nil => exact absurd hhigh (Nat.not_lt.mpr hlow)
  | cons item items ih =>
    rcases Nat.eq_or_lt_of_le hlow with rfl | hlow
    · exact List.mem_cons_self
    · exact List.mem_cons_of_mem _ (ih _ (by simpa [Arena.push] using hlow) hhigh)

theorem Item.storeAll_allHold (items : List Item) (a : Arena) {b : Arena}
    (h : (Item.storeAll items a).2.Agrees a.length (Item.storeAll items a).2.length b) :
    b.AllHold a.length (Item.storeAll items a).2.length := by
  intro i hlow hhigh
  have hmem := Item.mem_storeAll items a hlow hhigh
  obtain ⟨item, hitem⟩ := (Item.storeAll_holds items a h).all i hmem
  exact ⟨_, holds_item hitem⟩

mutual
/-- The cells of a node below its own one hold chains. -/
theorem Node.store_allHold (n : Node) (a : Arena) {b : Arena}
    (h : (n.store a).2.Agrees a.length (n.store a).1 b) : b.AllHold a.length (n.store a).1 := by
  match n with
  | .literal .. | .byteClass .. | .anchor .. | .range .. | .variableText .. | .call .. =>
    exact allHold_nil
  | .oneOf items | .noneOf items => exact Item.storeAll_allHold items a h.pushed
  | .group c => exact c.store_allHold a h.pushed
  | .«repeat» _ _ body | .capture _ body | .define _ body =>
    exact body.store_unlinked_allHold a h.pushed
  | .or left right =>
    have hkept := right.prefix_store (left.store a).2
    have hboth := h.pushed
    exact (left.store_unlinked_allHold a
        ((hboth.narrow le_rfl hkept.length_le).earlier hkept le_rfl)).append
      (right.store_unlinked_allHold _ (hboth.narrow (left.prefix_store a).length_le le_rfl))

theorem Node.store_unlinked_allHold (n : Node) (a : Arena) {b : Arena}
    (h : (n.store a).2.Agrees a.length (n.store a).2.length b) :
    b.AllHold a.length (n.store a).2.length := by
  have hroot : b.Holds (n.store a).1 (.last n) := .last (n.store_unlinked_holds a h)
  rw [n.length_store] at h ⊢
  exact (n.store_allHold a (h.narrow le_rfl (Nat.le_succ _))).snoc hroot

theorem Chain.store_allHold (c : Chain) (a : Arena) {b : Arena}
    (h : (c.store a).2.Agrees a.length (c.store a).2.length b) :
    b.AllHold a.length (c.store a).2.length := by
  match c with
  | .last n => exact n.store_unlinked_allHold a h
  | .cons n rest =>
    have hroot := Chain.store_holds (.cons n rest) a h
    have hid := n.length_store a
    have hkept := rest.prefix_store (n.store a).2
    have hle := hkept.length_le
    have hlow := n.le_store a
    simp only [Chain.store, Arena.length_link] at h hroot ⊢
    have hinner := n.store_allHold a (b := b)
      (((h.narrow le_rfl (by omega)).unlink (.inr le_rfl)).earlier hkept (by omega))
    have hrest := rest.store_allHold (n.store a).2 (b := b)
      ((h.narrow (by omega) le_rfl).unlink (.inl (by omega)))
    exact (hid ▸ hinner.snoc hroot).append hrest
end

/-! ## Numbers that are followed -/

namespace Arena

variable {a : Arena}

theorem HoldsNode.getElem?_eq {id : Nat} {next : Option Nat} {n : Node}
    (h : a.HoldsNode id next n) : ∃ k, a[id]? = some ⟨k, next⟩ ∧ a.HoldsParts k n := by
  obtain ⟨hcell, parts⟩ := h
  exact ⟨_, hcell, parts⟩

/-- The chain that a cell holds is what its links lead through. -/
theorem Holds.chainFrom?_ends {id : Nat} {c : Chain} (h : a.Holds id c) :
    ∃ ids, EndsIn (a.chainFrom? id) ids ∧ ids.length = c.toList.length := by
  cases h with
  | last node =>
    obtain ⟨k, hcell, -⟩ := node.getElem?_eq
    refine ⟨[id], .of_succ (.of_eq fun fuel => ?_), rfl⟩
    rw [chainFrom?, hcell]
    rfl
  | cons node rest =>
    obtain ⟨k, hcell, -⟩ := node.getElem?_eq
    obtain ⟨ids, hids, hlength⟩ := rest.chainFrom?_ends
    refine ⟨id :: ids, .of_succ ?_, congrArg (· + 1) hlength⟩
    simp only [chainFrom?, hcell]
    exact hids.bind (.of_eq fun _ => rfl)

mutual
theorem HoldsNode.isStep?_ends {id : Nat} {next : Option Nat} {n : Node}
    (h : a.HoldsNode id next n) : EndsIn (a.isStep? id) n.isStep := by
  match h with
  | .cell hcell parts =>
    refine .of_succ ?_
    simp only [isStep?, hcell]
    match parts with
    | .group hchain => exact hchain.areSteps?_ends
    | .literal | .byteClass | .anchor | .range | .oneOf _ | .noneOf _ | .variableText | .call
    | .«repeat» _ | .or _ _ | .capture _ | .define _ => exact .of_eq fun _ => rfl

theorem Holds.areSteps?_ends {id : Nat} {c : Chain} (h : a.Holds id c) :
    EndsIn (a.areSteps? id) c.isStep := by
  match h with
  | .last (n := n) node =>
    obtain ⟨k, hcell, -⟩ := node.getElem?_eq
    refine .of_succ ?_
    simp only [areSteps?, hcell, Chain.isStep]
    refine node.isStep?_ends.bind ?_
    cases n.isStep <;> exact .of_eq fun _ => rfl
  | .cons (n := n) node rest =>
    obtain ⟨k, hcell, -⟩ := node.getElem?_eq
    refine .of_succ ?_
    simp only [areSteps?, hcell, Chain.isStep]
    refine node.isStep?_ends.bind ?_
    cases n.isStep with
    | false => exact .of_eq fun _ => rfl
    | true => exact rest.areSteps?_ends
end

mutual
theorem HoldsParts.bindsNothingWithin?_ends {k : Cell.Kind} {n : Node} (h : a.HoldsParts k n) :
    EndsIn (a.bindsNothingWithin? k) n.bindsNothing := by
  refine .of_succ ?_
  simp only [bindsNothingWithin?]
  match h with
  | .group hchain => exact hchain.bindsNothing?_ends
  | .«repeat» hbody => exact hbody.bindsNothing?_ends
  | @HoldsParts.or _ _ _ left _ hleft hright =>
    refine hleft.bindsNothing?_ends.bind ?_
    simp only [Node.bindsNothing]
    cases left.bindsNothing with
    | false => exact .of_eq fun _ => rfl
    | true => exact hright.bindsNothing?_ends
  | .literal | .byteClass | .anchor | .range | .oneOf _ | .noneOf _ | .variableText | .capture _
  | .define _ | .call => exact .of_eq fun _ => rfl

theorem HoldsNode.bindsNothing?_ends {id : Nat} {n : Node} (h : a.HoldsNode id none n) :
    EndsIn (a.bindsNothing? id) n.bindsNothing := by
  match h with
  | .cell hcell parts =>
    refine .of_succ ?_
    simp only [bindsNothing?, hcell]
    refine parts.bindsNothingWithin?_ends.bind ?_
    cases n.bindsNothing <;> exact .of_eq fun _ => rfl

theorem Holds.bindsNothing?_ends {id : Nat} {c : Chain} (h : a.Holds id c) :
    EndsIn (a.bindsNothing? id) c.bindsNothing := by
  match h with
  | .last node => exact node.bindsNothing?_ends
  | .cons (n := n) (.cell hcell parts) rest =>
    refine .of_succ ?_
    simp only [bindsNothing?, hcell, Chain.bindsNothing]
    refine parts.bindsNothingWithin?_ends.bind ?_
    cases n.bindsNothing with
    | false => exact .of_eq fun _ => rfl
    | true => exact rest.bindsNothing?_ends
end

end Arena

end WordPattern
