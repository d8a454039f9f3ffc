import Mathlib
import WordPattern.Program.Arena
import WordPattern.Proofs.Pattern.Forest
import WordPattern.Proofs.Program.Layout

/-!
# The arena of a program is a forest

The patterns of statements are laid out one behind the other, and the statements refer to the roots.
No reference is missing at the end, so every cell is referred to once.
-/

namespace WordPattern

open Arena

/-! ## Cells that hold chains -/

namespace Arena

variable {a : Arena}

theorem Holds.exists_node {id : Nat} {c : Chain} (h : a.Holds id c) :
    ∃ next n, a.HoldsNode id next n := by
  cases h with
  | last node | cons node => exact ⟨_, _, node⟩

theorem AllHold.parts {id : Nat} {cell : Cell} (h : a.AllHold 0 a.length)
    (hcell : a[id]? = some cell) : ∃ n, a.HoldsParts cell.kind n := by
  obtain ⟨hlt, -⟩ := List.getElem?_eq_some_iff.mp hcell
  obtain ⟨c, hc⟩ := h id (Nat.zero_le _) hlt
  obtain ⟨next, n, hn⟩ := hc.exists_node
  obtain ⟨k, hkind, parts⟩ := hn.getElem?_eq
  cases hkind.symm.trans hcell
  exact ⟨n, parts⟩

theorem HoldsNode.exists_unlinked {id : Nat} {n : Node} (h : a.HoldsNode id none n) :
    ∃ k, a[id]? = some ⟨k, none⟩ := by
  obtain ⟨k, hcell, -⟩ := h.getElem?_eq
  exact ⟨k, hcell⟩

theorem AllHold.unlinked (h : a.AllHold 0 a.length) : a.Unlinked := by
  intro id cell hcell hgroup
  obtain ⟨n, parts⟩ := h.parts hcell
  generalize hk : cell.kind = k at hgroup parts
  cases parts with
  | group => exact absurd rfl (hgroup _)
  | oneOf hitems | noneOf hitems =>
    intro item hitem
    obtain ⟨i, hi⟩ := hitems.all item hitem
    exact ⟨_, hi⟩
  | «repeat» hbody | capture hbody | define hbody =>
    exact List.forall_mem_singleton.mpr hbody.exists_unlinked
  | or hleft hright =>
    exact List.forall_mem_cons.mpr
      ⟨hleft.exists_unlinked, List.forall_mem_singleton.mpr hright.exists_unlinked⟩
  | _ => exact List.forall_mem_nil _

theorem AllHold.plainItems (h : a.AllHold 0 a.length) : a.PlainItems := by
  intro id items negated next hcell
  obtain ⟨n, parts⟩ := h.parts hcell
  cases parts with
  | oneOf hitems | noneOf hitems => exact hitems.all

end Arena

/-! ## Laying out statements -/

theorem Statement.store_grows (s : Statement) (a : Arena) :
    a.Grows (s.store a).2 (s.store a).1.head?.toList := by
  induction s with
  | find _ c | replace _ c | setSubroutine _ c => exact c.store_grows a
  | use | setVariable => exact .refl
  | «repeat» _ _ ih => exact ih

theorem Statement.storeAll_grows (list : List Statement) (a : Arena) :
    a.Grows (storeAll list a).2 ((storeAll list a).1.filterMap Stored.head?) := by
  induction list generalizing a with
  | nil => exact .refl
  | cons s list ih =>
    have hboth := (s.store_grows a).append (ih (s.store a).2)
    simp only [storeAll, List.filterMap_cons]
    cases hhead : (s.store a).1.head? with
    | none | some root => rwa [hhead] at hboth

theorem Statement.store_allHold (s : Statement) (a : Arena) {b : Arena} (h : (s.store a).2 <+: b) :
    b.AllHold a.length (s.store a).2.length := by
  induction s with
  | find _ c | replace _ c | setSubroutine _ c =>
    exact c.store_allHold a (Arena.agrees_of_prefix h _)
  | use | setVariable => exact allHold_nil
  | «repeat» _ _ ih => exact ih h

theorem Statement.storeAll_allHold (list : List Statement) (a : Arena) {b : Arena}
    (h : (storeAll list a).2 <+: b) : b.AllHold a.length (storeAll list a).2.length := by
  induction list generalizing a with
  | nil => exact allHold_nil
  | cons s list ih =>
    have hrest := prefix_storeAll list (s.store a).2
    exact (s.store_allHold a (hrest.trans h)).append (ih _ h)

/-! ## Programs -/

theorem Program.store_grows (p : Program) :
    Grows [] p.store.arena (p.store.statements.filterMap Statement.Stored.head?) :=
  Statement.storeAll_grows p.statements []

theorem Program.store_allHold (p : Program) : p.store.arena.AllHold 0 p.store.arena.length :=
  Statement.storeAll_allHold p.statements [] (List.prefix_refl _)

theorem Program.count_references (p : Program) (id : Nat) :
    p.store.references.count id = if id < p.store.arena.length then 1 else 0 := by
  have howed := p.store_grows.owed id
  rw [Stored.references, List.count_append]
  simp only [owed, Arena.references, List.flatMap_nil, List.count_nil, List.length_nil,
    Nat.not_lt_zero, if_false] at howed ⊢
  split at howed <;> rename_i hid <;> simp only [hid, if_true, if_false] <;> omega

theorem Program.store_isForest (p : Program) : p.store.IsForest where
  reference_lt id hid := by
    have hcount := List.count_pos_iff.mpr hid
    rw [p.count_references] at hcount
    by_contra hlt
    rw [if_neg hlt] at hcount
    exact Nat.lt_irrefl 0 hcount
  count_references id hid := by rw [p.count_references, if_pos hid]
  ordered := p.store_grows.ordered ordered_nil
  unlinked := p.store_allHold.unlinked
  plainItems := p.store_allHold.plainItems

/-- The arena of a program that has been read is a forest, and from every cell of it the numbers can
be followed to an end. -/
theorem arenas_are_forests (source : String) {p : Program.Stored}
    (h : Program.Stored.ofSource source = .ok p) :
    p.IsForest ∧ ∀ id < p.arena.length, (∃ ids, EndsIn (p.arena.chainFrom? id) ids) ∧
      (∃ answer, EndsIn (p.arena.isStep? id) answer) ∧
      ∃ answer, EndsIn (p.arena.bindsNothing? id) answer := by
  rw [Program.Stored.ofSource_eq] at h
  cases hread : Program.ofSource source with
  | error e => rw [hread] at h; cases h
  | ok program =>
    rw [hread] at h
    cases h
    refine ⟨program.store_isForest, fun id hid => ?_⟩
    obtain ⟨c, hc⟩ := program.store_allHold id (Nat.zero_le _) hid
    obtain ⟨ids, hids, -⟩ := hc.chainFrom?_ends
    obtain ⟨next, n, hn⟩ := hc.exists_node
    exact ⟨⟨ids, hids⟩, ⟨_, hn.isStep?_ends⟩, ⟨_, hc.bindsNothing?_ends⟩⟩

/-- Six cells of two patterns, with their roots in the cells 3 and 5. -/
theorem two_patterns_are_a_forest :
    let source := "find all (sol any)=@x find all in any"
    let p : Program.Stored := ⟨[.find .all 3, .find .all 5],
      [⟨.anchor .lineStart, some 1⟩, ⟨.byteClass .any false, none⟩, ⟨.group 0, none⟩,
        ⟨.capture "x" 2, none⟩, ⟨.byteClass .any false, none⟩, ⟨.list [4] false, none⟩]⟩
    Program.Stored.ofSource source = .ok p ∧ p.references = [3, 5, 1, 0, 2, 4] ∧
      p.arena.chainFrom? 0 2 = some [0, 1] ∧ p.IsForest ∧
      ∀ id < p.arena.length, (∃ ids, EndsIn (p.arena.chainFrom? id) ids) ∧
        (∃ answer, EndsIn (p.arena.isStep? id) answer) ∧
        ∃ answer, EndsIn (p.arena.bindsNothing? id) answer := by
  intro source p
  have hread : Program.ofSource source = .ok
      ⟨[.find .all (.last (.capture "x" (.group (.cons (.anchor .lineStart)
          (.last (.byteClass .any false)))))),
        .find .all (.last (.oneOf [.byteClass .any]))]⟩ := by cbv
  have hp : Program.Stored.ofSource source = .ok p := by
    rw [Program.Stored.ofSource_eq, hread]
    rfl
  exact ⟨hp, rfl, rfl, arenas_are_forests source hp⟩

end WordPattern
