import Mathlib.Order.Nat
import WordPattern.Pattern.Arena

/-!
# Patterns laid out

Laying out a pattern adds cells to an arena and keeps those that are there. The cells do not depend
on the arena but for their numbers, which are shifted by its length. They hold the pattern and no
other one.
-/

namespace WordPattern

/-! ## An arena determines its patterns -/

namespace Arena

theorem HoldsItems.unique {a : Arena} {ids : List Nat} {items items' : List Item}
    (h : a.HoldsItems ids items) (h' : a.HoldsItems ids items') : items = items' := by
  induction h generalizing items' with
  | nil => cases h'; rfl
  | @cons id ids i items item _ ih =>
    cases h' with
    | @cons _ _ i' items' item' others' =>
      have hkind : i.kind = i'.kind := congrArg Cell.kind (Option.some.inj (item.symm.trans item'))
      have hi : i = i' := by cases i <;> cases i' <;> cases hkind <;> rfl
      rw [hi, ih others']

mutual
theorem HoldsParts.unique {a : Arena} {k : Cell.Kind} {n n' : Node} (h : a.HoldsParts k n)
    (h' : a.HoldsParts k n') : n = n' := by
  match h with
  | .literal | .byteClass | .anchor | .range | .variableText | .call => cases h'; rfl
  | .oneOf hitems => cases h' with | oneOf hitems' => rw [hitems.unique hitems']
  | .noneOf hitems => cases h' with | noneOf hitems' => rw [hitems.unique hitems']
  | .group hchain => cases h' with | group hchain' => rw [hchain.unique hchain']
  | .«repeat» hbody => cases h' with | «repeat» hbody' => rw [(hbody.unique hbody').2]
  | .or hleft hright =>
    cases h' with
    | or hleft' hright' => rw [(hleft.unique hleft').2, (hright.unique hright').2]
  | .capture hbody => cases h' with | capture hbody' => rw [(hbody.unique hbody').2]
  | .define hbody => cases h' with | define hbody' => rw [(hbody.unique hbody').2]

theorem HoldsNode.unique {a : Arena} {id : Nat} {next next' : Option Nat} {n n' : Node}
    (h : a.HoldsNode id next n) (h' : a.HoldsNode id next' n') : next = next' ∧ n = n' := by
  match h with
  | .cell hcell parts =>
    cases h' with
    | cell hcell' parts' =>
      cases hcell.symm.trans hcell'
      exact ⟨rfl, parts.unique parts'⟩

theorem Holds.unique {a : Arena} {id : Nat} {c c' : Chain} (h : a.Holds id c)
    (h' : a.Holds id c') : c = c' := by
  match h with
  | .last node =>
    cases h' with
    | last node' => rw [(node.unique node').2]
    | cons node' _ => cases (node.unique node').1
  | .cons node rest =>
    cases h' with
    | last node' => cases (node.unique node').1
    | cons node' rest' =>
      obtain ⟨hnext, hnode⟩ := node.unique node'
      cases hnext
      rw [hnode, rest.unique rest']
end

/-! ## Cells behind other cells -/

variable (a b : Arena)

theorem push_behind (k : Cell.Kind) :
    (a.behind b).push (k.shift a.length) = ((b.push k).1 + a.length, a.behind (b.push k).2) := by
  simp only [push, behind, List.length_append, List.length_map, List.map_append, List.map_cons,
    List.map_nil, List.append_assoc, Nat.add_comm]
  rfl

theorem link_behind (id next : Nat) :
    (a.behind b).link (id + a.length) (next + a.length) = a.behind (b.link id next) := by
  refine List.ext_getElem? fun i => ?_
  simp only [link, behind, List.getElem?_modify, List.getElem?_append, List.getElem?_map]
  by_cases hi : i < a.length
  · have hid : id + a.length ≠ i := by omega
    simp [hi, hid]
  · have hiff : id + a.length = i ↔ id = i - a.length := by omega
    simp only [hi, ↓reduceIte, hiff]
    cases b[i - a.length]? with
    | none => rfl
    | some cell => by_cases hid : id = i - a.length <;> simp [hid, Cell.shift]

end Arena

theorem Item.storeAll_behind (a : Arena) (items : List Item) (b : Arena) :
    Item.storeAll items (a.behind b) =
      ((Item.storeAll items b).1.map (· + a.length), a.behind (Item.storeAll items b).2) := by
  induction items generalizing b with
  | nil => rfl
  | cons i items ih =>
    have hpush := Arena.push_behind a b i.kind
    have hkind : i.kind.shift a.length = i.kind := by cases i <;> rfl
    rw [hkind] at hpush
    simp only [Item.storeAll, hpush, ih, List.map_cons]

mutual
theorem Node.store_behind (a : Arena) (n : Node) (b : Arena) :
    n.store (a.behind b) = ((n.store b).1 + a.length, a.behind (n.store b).2) := by
  match n with
  | .literal bytes negated => exact Arena.push_behind a b (.literal bytes negated)
  | .byteClass c negated => exact Arena.push_behind a b (.byteClass c negated)
  | .anchor anchor => exact Arena.push_behind a b (.anchor anchor)
  | .range low high negated => exact Arena.push_behind a b (.range low high negated)
  | .variableText name => exact Arena.push_behind a b (.variableText name)
  | .call name => exact Arena.push_behind a b (.call name)
  | .oneOf items =>
    simp only [Node.store, Item.storeAll_behind a items b]
    exact Arena.push_behind a _ (.list (Item.storeAll items b).1 false)
  | .noneOf items =>
    simp only [Node.store, Item.storeAll_behind a items b]
    exact Arena.push_behind a _ (.list (Item.storeAll items b).1 true)
  | .group c =>
    simp only [Node.store, Chain.store_behind a c b]
    exact Arena.push_behind a _ (.group (c.store b).1)
  | .«repeat» q fewest body =>
    simp only [Node.store, Node.store_behind a body b]
    exact Arena.push_behind a _ (.«repeat» q fewest (body.store b).1)
  | .or left right =>
    simp only [Node.store, Node.store_behind a left b, Node.store_behind a right (left.store b).2]
    exact Arena.push_behind a _ (.or (left.store b).1 (right.store (left.store b).2).1)
  | .capture name body =>
    simp only [Node.store, Node.store_behind a body b]
    exact Arena.push_behind a _ (.capture name (body.store b).1)
  | .define name body =>
    simp only [Node.store, Node.store_behind a body b]
    exact Arena.push_behind a _ (.define name (body.store b).1)

theorem Chain.store_behind (a : Arena) (c : Chain) (b : Arena) :
    c.store (a.behind b) = ((c.store b).1 + a.length, a.behind (c.store b).2) := by
  match c with
  | .last n => exact Node.store_behind a n b
  | .cons n rest =>
    simp only [Chain.store, Node.store_behind a n b, Chain.store_behind a rest (n.store b).2,
      Arena.link_behind]
end

theorem Arena.behind_nil (a : Arena) : a.behind [] = a := List.append_nil a

/-- What lays out more cells behind those of an arena keeps these as they are. -/
theorem Arena.prefix_of_behind {f : Arena → Arena} {a : Arena}
    (h : f (a.behind []) = a.behind (f [])) : a <+: f a := by
  rw [a.behind_nil] at h
  rw [h]
  exact List.prefix_append ..

theorem Node.prefix_store (n : Node) (a : Arena) : a <+: (n.store a).2 :=
  Arena.prefix_of_behind (f := fun a => (n.store a).2) (congrArg Prod.snd (n.store_behind a []))

theorem Chain.prefix_store (c : Chain) (a : Arena) : a <+: (c.store a).2 :=
  Arena.prefix_of_behind (f := fun a => (c.store a).2) (congrArg Prod.snd (c.store_behind a []))

theorem Node.le_store (n : Node) (a : Arena) : a.length ≤ (n.store a).1 := by
  have h := congrArg Prod.fst (n.store_behind a [])
  rw [a.behind_nil] at h
  rw [h]
  exact Nat.le_add_left _ _

theorem Node.length_store (n : Node) (a : Arena) : (n.store a).2.length = (n.store a).1 + 1 := by
  cases n <;> simp only [Node.store, Arena.push, List.length_append, List.length_singleton]

theorem Item.prefix_storeAll (items : List Item) (a : Arena) : a <+: (Item.storeAll items a).2 :=
  Arena.prefix_of_behind (f := fun a => (Item.storeAll items a).2)
    (congrArg Prod.snd (Item.storeAll_behind a items []))

/-! ## The cells hold the pattern -/

namespace Arena

/-- The second arena has the cells of the first one from `low` on and below `high`. -/
def Agrees (low high : Nat) (a b : Arena) : Prop := ∀ i, low ≤ i → i < high → b[i]? = a[i]?

variable {a a' b : Arena} {low low' high high' id : Nat} {k : Cell.Kind} {next : Option Nat}

theorem Agrees.narrow (h : a.Agrees low high b) (hlow : low ≤ low') (hhigh : high' ≤ high) :
    a.Agrees low' high' b := fun i hi hi' => h i (hlow.trans hi) (hi'.trans_le hhigh)

/-- The cells of an earlier state of an arena are still there. -/
theorem Agrees.earlier (h : a.Agrees low high b) (hkept : a' <+: a) (hhigh : high ≤ a'.length) :
    a'.Agrees low high b := by
  intro i hi hi'
  obtain ⟨more, rfl⟩ := hkept
  rw [h i hi hi', List.getElem?_append_left (hi'.trans_le hhigh)]

theorem Agrees.pushed (h : (a.push k).2.Agrees low (a.push k).1 b) : a.Agrees low a.length b :=
  h.earlier (List.prefix_append _ _) le_rfl

theorem Agrees.unlink {next : Nat} (h : (a.link id next).Agrees low high b)
    (hid : id < low ∨ high ≤ id) : a.Agrees low high b := by
  intro i hi hi'
  rw [h i hi hi', link, List.getElem?_modify_ne _ _ (by omega)]

theorem getElem?_link {next : Nat} (h : a[id]? = some ⟨k, none⟩) :
    (a.link id next)[id]? = some ⟨k, some next⟩ := by
  simp [link, h]

theorem length_link {next : Nat} : (a.link id next).length = a.length := List.length_modify ..

theorem getElem?_push : (a.push k).2[(a.push k).1]? = some ⟨k, none⟩ := by
  simp [push]

end Arena

theorem Item.storeAll_holds (items : List Item) (a : Arena) {b : Arena}
    (h : (Item.storeAll items a).2.Agrees a.length (Item.storeAll items a).2.length b) :
    b.HoldsItems (Item.storeAll items a).1 items := by
  induction items generalizing a with
  | nil => exact .nil
  | cons i items ih =>
    have hkept := Item.prefix_storeAll items (a.push i.kind).2
    have hlength : a.length < (a.push i.kind).2.length := by simp [Arena.push]
    refine .cons ?_ (ih _ (h.narrow hlength.le le_rfl))
    refine ((h.narrow le_rfl hkept.length_le).earlier hkept le_rfl _ le_rfl hlength).trans ?_
    exact Arena.getElem?_push

mutual
/-- The cells of a node hold it, in every arena that has them, whatever its own cell is linked
to. -/
theorem Node.store_holds (n : Node) (a : Arena) {b : Arena} {next : Option Nat}
    (hparts : (n.store a).2.Agrees a.length (n.store a).1 b)
    (hcell : ∀ k, (n.store a).2[(n.store a).1]? = some ⟨k, none⟩ →
      b[(n.store a).1]? = some ⟨k, next⟩) :
    b.HoldsNode (n.store a).1 next n := by
  match n with
  | .literal .. => exact .cell (hcell _ Arena.getElem?_push) .literal
  | .byteClass .. => exact .cell (hcell _ Arena.getElem?_push) .byteClass
  | .anchor .. => exact .cell (hcell _ Arena.getElem?_push) .anchor
  | .range .. => exact .cell (hcell _ Arena.getElem?_push) .range
  | .variableText .. => exact .cell (hcell _ Arena.getElem?_push) .variableText
  | .call .. => exact .cell (hcell _ Arena.getElem?_push) .call
  | .oneOf items =>
    exact .cell (hcell _ Arena.getElem?_push) (.oneOf (Item.storeAll_holds items a hparts.pushed))
  | .noneOf items =>
    exact .cell (hcell _ Arena.getElem?_push) (.noneOf (Item.storeAll_holds items a hparts.pushed))
  | .group c =>
    exact .cell (hcell _ Arena.getElem?_push) (.group (c.store_holds a hparts.pushed))
  | .«repeat» q fewest body =>
    exact .cell (hcell _ Arena.getElem?_push)
      (.«repeat» (body.store_unlinked_holds a hparts.pushed))
  | .or left right =>
    have hkept := right.prefix_store (left.store a).2
    have hboth := hparts.pushed
    refine .cell (hcell _ Arena.getElem?_push) (.or ?_ ?_)
    · exact left.store_unlinked_holds a
        ((hboth.narrow le_rfl hkept.length_le).earlier hkept le_rfl)
    · exact right.store_unlinked_holds _
        (hboth.narrow (left.prefix_store a).length_le le_rfl)
  | .capture name body =>
    exact .cell (hcell _ Arena.getElem?_push) (.capture (body.store_unlinked_holds a hparts.pushed))
  | .define name body =>
    exact .cell (hcell _ Arena.getElem?_push) (.define (body.store_unlinked_holds a hparts.pushed))

theorem Node.store_unlinked_holds (n : Node) (a : Arena) {b : Arena}
    (h : (n.store a).2.Agrees a.length (n.store a).2.length b) :
    b.HoldsNode (n.store a).1 none n := by
  have hlt : (n.store a).1 < (n.store a).2.length := n.length_store a ▸ Nat.lt_succ_self _
  exact n.store_holds a (h.narrow le_rfl hlt.le)
    fun k hk => (h _ (n.le_store a) hlt).trans hk

theorem Chain.store_holds (c : Chain) (a : Arena) {b : Arena}
    (h : (c.store a).2.Agrees a.length (c.store a).2.length b) : b.Holds (c.store a).1 c := by
  match c with
  | .last n => exact .last (n.store_unlinked_holds a h)
  | .cons n rest =>
    have hid := n.length_store a
    have hkept := rest.prefix_store (n.store a).2
    have hle := hkept.length_le
    have hlow := n.le_store a
    simp only [Chain.store, Arena.length_link] at h ⊢
    refine .cons (n.store_holds a ?_ fun k hk => ?_) (rest.store_holds (n.store a).2 ?_)
    · exact ((h.narrow le_rfl (by omega)).unlink (.inr le_rfl)).earlier hkept (by omega)
    · obtain ⟨more, hmore⟩ := hkept
      rw [h _ hlow (by omega)]
      refine Arena.getElem?_link ?_
      rw [← hmore, List.getElem?_append_left (by omega), hk]
    · exact (h.narrow (by omega) le_rfl).unlink (.inl (by omega))
end

/-- The chain `'a' = @x 'b'` takes three cells, and the second one is linked to the third. -/
example :
    (Chain.cons (.capture "x" (.literal [97] false)) (.last (.literal [98] false))).store [] =
      (1, [⟨.literal [97] false, none⟩, ⟨.capture "x" 0, some 2⟩, ⟨.literal [98] false, none⟩]) :=
  rfl

end WordPattern
