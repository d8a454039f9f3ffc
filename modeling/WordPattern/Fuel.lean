/-!
# Calls with fuel

A function whose calls need not come to an end takes fuel, and hands on less of it to the calls
that it makes. Where there is none left, there is no result. So a call ends if it has the same
result with any fuel, from some amount on.
-/

namespace WordPattern

/-- With enough fuel this is the result. -/
def EndsIn {α : Type} (m : Nat → Option α) (a : α) : Prop :=
  ∃ enough, ∀ fuel, enough ≤ fuel → m fuel = some a

namespace EndsIn

variable {α β γ : Type} {m : Nat → Option α} {m' : Nat → Option β} {m'' : Nat → Option γ} {a : α}
  {b : β}

theorem of_eq (h : ∀ fuel, m fuel = some a) : EndsIn m a := ⟨0, fun fuel _ => h fuel⟩

/-- A call ends as the calls that it makes with one less. -/
theorem of_succ (h : EndsIn (fun fuel => m (fuel + 1)) a) : EndsIn m a := by
  obtain ⟨enough, henough⟩ := h
  refine ⟨enough + 1, fun fuel hfuel => ?_⟩
  cases fuel with
  | zero => exact absurd hfuel (Nat.not_succ_le_zero enough)
  | succ left => exact henough left (Nat.le_of_succ_le_succ hfuel)

theorem imp (h : EndsIn m a) (himp : ∀ fuel, m fuel = some a → m' fuel = some b) :
    EndsIn m' b := by
  obtain ⟨enough, henough⟩ := h
  exact ⟨enough, fun fuel hfuel => himp fuel (henough fuel hfuel)⟩

/-- What follows from two results at the same amount of fuel. -/
theorem both {c : γ} (h : EndsIn m a) (h' : EndsIn m' b)
    (himp : ∀ fuel, m fuel = some a → m' fuel = some b → m'' fuel = some c) : EndsIn m'' c := by
  obtain ⟨first, hfirst⟩ := h
  obtain ⟨second, hsecond⟩ := h'
  refine ⟨max first second, fun fuel hfuel => ?_⟩
  obtain ⟨hle, hle'⟩ := Nat.max_le.mp hfuel
  exact himp fuel (hfirst fuel hle) (hsecond fuel hle')

theorem bind {g : Nat → α → Option β} (h : EndsIn m a) (hg : EndsIn (fun fuel => g fuel a) b) :
    EndsIn (fun fuel => m fuel >>= g fuel) b :=
  h.both hg fun fuel hm hg => by rw [hm]; exact hg

end EndsIn

end WordPattern
