/-!
# Bindings

Values bound to names, in the order of the names. Binding a name anew replaces its value.
-/

namespace WordPattern

/-- Values bound to names. -/
structure Bindings (α : Type) where
  entries : List (String × α) := []
deriving DecidableEq, Repr

namespace Bindings

variable {α : Type}

/-- No name is bound. -/
def empty : Bindings α := {}

instance : Inhabited (Bindings α) := ⟨empty⟩

/-- The value of the first entry with a name. -/
def find? (name : String) : List (String × α) → Option α
  | [] => none
  | (key, value) :: rest => if key = name then some value else find? name rest

/-- Puts a value in its place among entries in the order of their names. -/
def put (name : String) (value : α) : List (String × α) → List (String × α)
  | [] => [(name, value)]
  | (key, old) :: rest =>
    if key = name then (name, value) :: rest
    else if name < key then (name, value) :: (key, old) :: rest
    else (key, old) :: put name value rest

/-- The value that a name is bound to. -/
def get? (b : Bindings α) (name : String) : Option α :=
  find? name b.entries

/-- Binds a name to a value. -/
def insert (b : Bindings α) (name : String) (value : α) : Bindings α :=
  ⟨put name value b.entries⟩

/-- Binds names to values one after the other. -/
def ofList (pairs : List (String × α)) : Bindings α :=
  pairs.foldl (fun b pair => b.insert pair.1 pair.2) empty

/-- Changes every value. -/
def map {β : Type} (f : α → β) (b : Bindings α) : Bindings β :=
  ⟨b.entries.map fun (name, value) => (name, f value)⟩

theorem find?_put (name other : String) (value : α) (entries : List (String × α)) :
    find? other (put name value entries) =
      if other = name then some value else find? other entries := by
  induction entries with
  | nil => simp only [put, find?, eq_comm]
  | cons entry rest ih =>
    obtain ⟨key, old⟩ := entry
    simp only [put]
    split
    · rename_i hk
      subst hk
      simp only [find?, @eq_comm _ key]
      split <;> simp_all
    · rename_i hk
      split
      · simp only [find?, @eq_comm _ name]
      · by_cases h : other = name
        · subst h
          simp [find?, hk, ih]
        · simp [find?, h, ih]

/-- A binding is found again, and it hides nothing else. -/
theorem get?_insert (b : Bindings α) (name other : String) (value : α) :
    (b.insert name value).get? other = if other = name then some value else b.get? other :=
  find?_put name other value b.entries

@[simp] theorem get?_empty (name : String) : (empty : Bindings α).get? name = none := rfl

theorem get?_map {β : Type} (f : α → β) (b : Bindings α) (name : String) :
    (b.map f).get? name = (b.get? name).map f := by
  simp only [get?, map]
  generalize b.entries = entries
  induction entries with
  | nil => rfl
  | cons entry rest ih =>
    obtain ⟨key, value⟩ := entry
    by_cases h : key = name <;> simp [find?, h, ih]

end Bindings

end WordPattern
