import WordPattern.Bindings

/-!
# What holds of every value that is bound

Properties of all values, and relations between the values that two bindings have for a name.
-/

namespace WordPattern.Bindings

variable {α β : Type} {P : α → Prop} {R : α → β → Prop}

theorem get?_insert_of_ne {b : Bindings α} {name other : String} {a : α} (h : other ≠ name) :
    (b.insert name a).get? other = b.get? other :=
  (get?_insert ..).trans (if_neg h)

/-- Every value that a name is bound to has a property. -/
def Every (P : α → Prop) (b : Bindings α) : Prop :=
  ∀ name a, b.get? name = some a → P a

theorem every_empty : (empty : Bindings α).Every P := by
  intro name a h
  cases h

theorem Every.insert {b : Bindings α} {a : α} (h : b.Every P) (ha : P a) (name : String) :
    (b.insert name a).Every P := by
  intro other value hget
  rw [get?_insert] at hget
  split at hget
  · cases hget
    exact ha
  · exact h other value hget

/-- A value that is looked up in two bindings, one behind the other. -/
theorem Every.or {b b' : Bindings α} (h : b.Every P) (h' : b'.Every P) {name : String} {a : α}
    (hget : (b.get? name).or (b'.get? name) = some a) : P a := by
  cases hb : b.get? name with
  | some value =>
    rw [hb] at hget
    cases hget
    exact h name a hb
  | none =>
    rw [hb] at hget
    exact h' name a hget

/-! ## Two bindings -/

/-- The same names are bound, to values that are related. -/
def Related (R : α → β → Prop) (b : Bindings α) (b' : Bindings β) : Prop :=
  ∀ name, Option.Rel R (b.get? name) (b'.get? name)

theorem related_empty : (empty : Bindings α).Related R empty := fun _ => .none

theorem Related.insert {b : Bindings α} {b' : Bindings β} {a : α} {a' : β} (h : b.Related R b')
    (ha : R a a') (name : String) : (b.insert name a).Related R (b'.insert name a') := by
  intro other
  rw [get?_insert, get?_insert]
  split
  · exact .some ha
  · exact h other

theorem Related.or {b c : Bindings α} {b' c' : Bindings β} (h : b.Related R b')
    (h' : c.Related R c') (name : String) :
    Option.Rel R ((b.get? name).or (c.get? name)) ((b'.get? name).or (c'.get? name)) := by
  have hname := h name
  revert hname
  cases b.get? name <;> cases b'.get? name <;> intro hname
  · exact h' name
  · cases hname
  · cases hname
  · exact hname

theorem Related.mono {S : α → β → Prop} {b : Bindings α} {b' : Bindings β} (h : b.Related R b')
    (hRS : ∀ a a', R a a' → S a a') : b.Related S b' := by
  intro name
  have hname := h name
  revert hname
  cases b.get? name <;> cases b'.get? name <;> intro hname <;> cases hname
  · exact .none
  · exact .some (hRS _ _ ‹_›)

/-- Every value is related to itself. -/
theorem Every.related {R : α → α → Prop} {b : Bindings α} (h : b.Every P)
    (hR : ∀ a, P a → R a a) : b.Related R b := by
  intro name
  cases hget : b.get? name with
  | none => exact .none
  | some a => exact .some (hR a (h name a hget))

end WordPattern.Bindings
