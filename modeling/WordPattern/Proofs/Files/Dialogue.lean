import WordPattern.Files.Store

/-!
# Courses of dialogues

What a dialogue comes to is found part by part, and one that asks nothing is the same in every
store.
-/

namespace WordPattern.Dialogue

variable {α β : Type} {d : Dialogue α} {xs : List Exchange}

instance : LawfulMonad Dialogue :=
  LawfulMonad.mk' Dialogue
    (fun d => by
      induction d with
      | done value => rfl
      | read path next ih => exact congrArg (read path) (funext ih)
      | write path contents next ih => exact congrArg (write path contents) (funext ih))
    (fun _ _ => rfl)
    (fun d f g => by
      induction d with
      | done value => rfl
      | read path next ih => exact congrArg (read path) (funext ih)
      | write path contents next ih => exact congrArg (write path contents) (funext ih))

/-! ## What parts come to -/

@[simp] theorem comesTo_pure {a b : α} :
    (pure a : Dialogue α).ComesTo xs b ↔ xs = [] ∧ b = a := by
  constructor
  · rintro ⟨⟩
    exact ⟨rfl, rfl⟩
  · rintro ⟨rfl, rfl⟩
    exact .done b

theorem comesTo_bind {f : α → Dialogue β} {b : β} :
    (d >>= f).ComesTo xs b ↔
      ∃ ys a zs, d.ComesTo ys a ∧ (f a).ComesTo zs b ∧ xs = ys ++ zs := by
  constructor
  · intro h
    induction d generalizing xs with
    | done a => exact ⟨[], a, xs, .done a, h, rfl⟩
    | read path next ih =>
      cases h with
      | read h =>
        obtain ⟨ys, a, zs, hfirst, hrest, rfl⟩ := ih _ h
        exact ⟨_, a, zs, .read hfirst, hrest, rfl⟩
    | write path contents next ih =>
      cases h with
      | write h =>
        obtain ⟨ys, a, zs, hfirst, hrest, rfl⟩ := ih _ h
        exact ⟨_, a, zs, .write hfirst, hrest, rfl⟩
  · rintro ⟨ys, a, zs, hfirst, hrest, rfl⟩
    induction hfirst with
    | done a => exact hrest
    | read _ ih => exact .read (ih hrest)
    | write _ ih => exact .write (ih hrest)

theorem comesTo_bind_pure {f : α → β} {b : β} :
    (d >>= fun a => pure (f a)).ComesTo xs b ↔ ∃ a, d.ComesTo xs a ∧ b = f a := by
  rw [comesTo_bind]
  constructor
  · rintro ⟨ys, a, zs, h, hlast, rfl⟩
    obtain ⟨rfl, rfl⟩ := comesTo_pure.mp hlast
    rw [List.append_nil]
    exact ⟨a, h, rfl⟩
  · rintro ⟨a, h, rfl⟩
    exact ⟨xs, a, [], h, .done _, (List.append_nil _).symm⟩

@[simp] theorem comesTo_read {path : String} {answer : Except Fault ByteArray} :
    (FileStore.read path : Dialogue _).ComesTo xs answer ↔ xs = [.read path answer] := by
  constructor
  · rintro ⟨⟩
    rename_i h
    cases h
    rfl
  · rintro rfl
    exact .read (.done answer)

@[simp] theorem comesTo_write {path : String} {contents : ByteArray} {answer : Except Fault Unit} :
    (FileStore.write path contents : Dialogue _).ComesTo xs answer ↔
      xs = [.write path contents answer] := by
  constructor
  · rintro ⟨⟩
    rename_i h
    cases h
    rfl
  · rintro rfl
    exact .write (.done answer)

theorem follow?_eq_some_iff {a : α} : d.follow? xs = some a ↔ d.ComesTo xs a := by
  constructor
  · intro h
    induction d generalizing xs with
    | done value =>
      cases xs with
      | nil =>
        cases h
        exact .done _
      | cons x rest => cases h
    | read path next ih =>
      match xs with
      | .read asked answer :: rest =>
        rw [follow?] at h
        split at h
        · subst asked
          exact .read (ih answer h)
        · cases h
      | .write .. :: _ => cases h
      | [] => cases h
    | write path contents next ih =>
      match xs with
      | .write asked given answer :: rest =>
        rw [follow?] at h
        split at h
        · rename_i hsame
          obtain ⟨rfl, hcontents⟩ := hsame
          obtain rfl := ByteArray.ext hcontents
          exact .write (ih answer h)
        · cases h
      | .read .. :: _ => cases h
      | [] => cases h
  · intro h
    induction h with
    | done value => rfl
    | read _ ih => rw [follow?, if_pos rfl, ih]
    | write _ ih => rw [follow?, if_pos ⟨rfl, rfl⟩, ih]

/-- What a dialogue comes to depends on the exchanges alone. -/
theorem ComesTo.unique {a b : α} (ha : d.ComesTo xs a) (hb : d.ComesTo xs b) : a = b :=
  Option.some_inj.mp ((follow?_eq_some_iff.mpr ha).symm.trans (follow?_eq_some_iff.mpr hb))

/-- What is overheard of a dialogue are its exchanges. -/
theorem comesTo_overheard {a : α} {ys : List Exchange} :
    d.overheard.ComesTo xs (a, ys) ↔ ys = xs ∧ d.ComesTo xs a := by
  constructor
  · intro h
    induction d generalizing xs ys with
    | done value =>
      cases h
      exact ⟨rfl, .done a⟩
    | read path next ih =>
      cases h with
      | read h =>
        obtain ⟨⟨value, rest⟩, hrest, heq⟩ := comesTo_bind_pure.mp h
        cases heq
        obtain ⟨rfl, hrest⟩ := ih _ hrest
        exact ⟨rfl, .read hrest⟩
    | write path contents next ih =>
      cases h with
      | write h =>
        obtain ⟨⟨value, rest⟩, hrest, heq⟩ := comesTo_bind_pure.mp h
        cases heq
        obtain ⟨rfl, hrest⟩ := ih _ hrest
        exact ⟨rfl, .write hrest⟩
  · rintro ⟨rfl, h⟩
    induction h with
    | done value => exact .done _
    | read _ ih => exact .read (comesTo_bind_pure.mpr ⟨_, ih, rfl⟩)
    | write _ ih => exact .write (comesTo_bind_pure.mpr ⟨_, ih, rfl⟩)

/-! ## Any store -/

section

variable {m : Type → Type} [Monad m] [FileStore m]

@[simp] theorem perform_pure (a : α) : (pure a : Dialogue α).perform = (pure a : m α) := rfl

theorem perform_bind [LawfulMonad m] (d : Dialogue α) (f : α → Dialogue β) :
    (d >>= f).perform = (d.perform >>= fun a => (f a).perform : m β) := by
  induction d with
  | done a => exact (pure_bind a fun a => ((f a).perform : m β)).symm
  | read path next ih =>
    change (FileStore.read path >>= fun answer => ((next answer) >>= f).perform : m β) =
      (FileStore.read path >>= fun answer => (next answer).perform) >>= _
    rw [bind_assoc]
    exact congrArg _ (funext ih)
  | write path contents next ih =>
    change (FileStore.write path contents >>= fun answer => ((next answer) >>= f).perform : m β) =
      (FileStore.write path contents >>= fun answer => (next answer).perform) >>= _
    rw [bind_assoc]
    exact congrArg _ (funext ih)

theorem perform_read [LawfulMonad m] (path : String) :
    (FileStore.read path : Dialogue _).perform = (FileStore.read path : m _) :=
  bind_pure (m := m) _

theorem perform_write [LawfulMonad m] (path : String) (contents : ByteArray) :
    (FileStore.write path contents : Dialogue _).perform = (FileStore.write path contents : m _) :=
  bind_pure (m := m) _

end

end WordPattern.Dialogue
