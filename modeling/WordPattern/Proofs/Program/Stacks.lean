import Mathlib.Tactic.Push
import WordPattern.Program.Wanted

/-!
# Stacks can be completed

Whatever lexemes have been taken, what is still wanted can be given: every kind has a few lexemes of
its own, and each of these completions may stand in front of the one of what is below.
-/

namespace WordPattern.Wanted

open Expression (Level)

variable {w : Wanted} {k k' ws vs : List Wanted} {t : Lexeme} {ls : List Lexeme}
  {next : Option Lexeme}

/-! ## Steps -/

theorem next?_begin (h : w.begin? t = some ws) : next? (w :: k) t = some (ws ++ k) := by
  rw [next?, h]

theorem next?_missing (h : w.begin? t = none) (hmiss : w.mayMiss (some t) = true) :
    next? (w :: k) t = next? k t := by
  rw [next?, h]
  exact if_pos hmiss

theorem next?_wrong (h : w.begin? t = none) (hmiss : w.mayMiss (some t) = false) :
    next? (w :: k) t = none := by
  rw [next?, h]
  exact if_neg (Bool.eq_false_iff.mp hmiss)

/-- What is wanted is not begun by the lexeme or the end that comes next, and may be missing. -/
def idle (w : Wanted) (next : Option Lexeme) : Bool :=
  next.all (fun t => (w.begin? t).isNone) && w.mayMiss next

theorem idle_iff :
    w.idle next = true ↔ (∀ t ∈ next, w.begin? t = none) ∧ w.mayMiss next = true := by
  rw [idle, Bool.and_eq_true, Option.all_eq_true]
  simp only [Option.isNone_iff_eq_none, Option.mem_def]

theorem firstWrong?_begin (h : w.begin? t = some ws) :
    firstWrong? (w :: k) (t :: ls) = firstWrong? (ws ++ k) ls := by
  rw [firstWrong?, next?_begin h]

theorem firstWrong?_idle (h : w.idle ls.head? = true) :
    firstWrong? (w :: k) ls = firstWrong? k ls := by
  obtain ⟨hbegin, hmiss⟩ := idle_iff.mp h
  cases ls with
  | nil => rw [firstWrong?, firstWrong?, List.all_cons, show w.mayMiss none = true from hmiss,
      Bool.true_and]
  | cons t ls => rw [firstWrong?, firstWrong?, next?_missing (hbegin t rfl) hmiss]

theorem firstWrong?_wrong (h : ∀ t ∈ ls.head?, w.begin? t = none)
    (hmiss : w.mayMiss ls.head? = false) : firstWrong? (w :: k) ls = some ls := by
  cases ls with
  | nil => rw [firstWrong?, List.all_cons, show w.mayMiss none = false from hmiss,
      Bool.false_and, if_neg Bool.false_ne_true]
  | cons t ls => rw [firstWrong?, next?_wrong (h t rfl) hmiss]

/-- What is wanted may give way to parts of which the first one is begun by the same lexemes. Where it
is not begun, neither may be missing. -/
theorem firstWrong?_expand (v : Wanted) (ws : List Wanted)
    (hbegin : ∀ t ∈ ls.head?, w.begin? t = (v.begin? t).map (· ++ ws))
    (hmiss : (∀ t ∈ ls.head?, v.begin? t = none) →
      w.mayMiss ls.head? = false ∧ v.mayMiss ls.head? = false) :
    firstWrong? (w :: k) ls = firstWrong? (v :: (ws ++ k)) ls := by
  by_cases hnone : ∀ t ∈ ls.head?, v.begin? t = none
  · obtain ⟨hw, hv⟩ := hmiss hnone
    have hnone' : ∀ t ∈ ls.head?, w.begin? t = none := by
      intro t ht
      rw [hbegin t ht, hnone t ht]
      rfl
    exact (firstWrong?_wrong hnone' hw).trans (firstWrong?_wrong hnone hv).symm
  · push Not at hnone
    obtain ⟨t, ht, hsome⟩ := hnone
    obtain ⟨us, hv⟩ := Option.ne_none_iff_exists'.mp hsome
    have hw := hbegin t ht
    rw [hv] at hw
    obtain ⟨ls, rfl⟩ := List.head?_eq_some_iff.mp ht
    rw [firstWrong?_begin hw, firstWrong?_begin hv, List.append_assoc]

theorem firstWrong?_append {front : List Lexeme} (h : after? k front = some k')
    (back : List Lexeme) : firstWrong? k (front ++ back) = firstWrong? k' back := by
  induction front generalizing k with
  | nil =>
    cases h
    rfl
  | cons t front ih =>
    obtain ⟨mid, hmid, hafter⟩ := Option.bind_eq_some_iff.mp h
    rw [List.cons_append, firstWrong?, hmid]
    exact ih hafter

/-- In front of the first wrong lexeme all are right. -/
theorem of_firstWrong? {back : List Lexeme} (h : firstWrong? k ls = some back) :
    ∃ front k', ls = front ++ back ∧ after? k front = some k' ∧
      ∀ t ∈ back.head?, next? k' t = none := by
  induction ls generalizing k with
  | nil =>
    rw [firstWrong?] at h
    split at h
    · cases h
    · cases h
      exact ⟨[], k, rfl, rfl, by simp⟩
  | cons t ls ih =>
    rw [firstWrong?] at h
    split at h
    · rename_i mid hmid
      obtain ⟨front, k', rfl, hafter, hwrong⟩ := ih h
      exact ⟨t :: front, k', rfl, Option.bind_eq_some_iff.mpr ⟨mid, hmid, hafter⟩, hwrong⟩
    · rename_i hnone
      cases h
      exact ⟨[], k, rfl, rfl, by simpa using hnone⟩

theorem first_map (l t : Lexeme) (ws vs : List Wanted) :
    (first l ws t).map (· ++ vs) = first l (ws ++ vs) t := by
  unfold first
  split <;> rfl

/-! ## Completions -/

def zero : Lexeme := .number ⟨['0'], none⟩

/-- Lexemes for what is wanted; none if it may be missing. -/
def completion : Wanted → List Lexeme
  | lexeme l => [l]
  | literal => [.literal []]
  | count => [zero]
  | countFrom least => [.number least]
  | bounds => [zero, .keyword .and, zero]
  | leastOrMost => [.keyword .least, zero]
  | listItem | negated | single | quantified => [.keyword .digit]
  | side => [.keyword .start]
  | binder | parameter => [.variableName "x"]
  | atom | unary => [.keyword .true]
  | firstArgument | moreArguments | firstParameter | moreParameters => [.symbol .rightParen]
  | amount => [.keyword .all]
  | setTarget => [.variableName "x", .keyword .«to», .keyword .true]
  | statement => [.keyword .use, .literal []]
  | range | moreItems | fewest | moreBinders | alternatives | moreElements => []
  | moreCalls | operations _ | moreArms | otherwise => []
  | mostTaken | morePaths | moreExpressions | program => []

/-- Lexemes for all that is wanted. -/
def closing (k : List Wanted) : List Lexeme := k.flatMap completion

@[simp] theorem closing_cons : closing (w :: k) = w.completion ++ closing k := List.flatMap_cons

@[simp] theorem closing_append : closing (ws ++ k) = closing ws ++ closing k := List.flatMap_append

/-- What may stand behind a pattern, the end among it. -/
def patternEnds : List (Option Lexeme) := [none, some (.symbol .rightParen), some (.keyword .«with»)]

/-- What may stand behind an expression, the end among it. -/
def expressionEnds : List (Option Lexeme) :=
  [none, some (.symbol .rightParen), some (.keyword .«then»), some (.keyword .«end»)]

/-- The completion may stand in front of the lexeme or the end, whatever of it has been taken. -/
def fits (w : Wanted) (next : Option Lexeme) : Bool :=
  match w with
  | countFrom least => least.count?.isSome
  | range | listItem | moreItems | negated | single | quantified => patternEnds.contains next
  | fewest | moreBinders | alternatives | moreElements => patternEnds.contains next
  | atom | unary | moreCalls | operations _ | moreArms | otherwise => expressionEnds.contains next
  | moreExpressions => expressionEnds.contains next
  | amount | mostTaken => next != some (.keyword .take)
  | morePaths | setTarget | statement | program => next.isNone
  | _ => true

/-- The completions fit one behind the other, with the lexeme or the end behind them. -/
def fitting : List Wanted → Option Lexeme → Bool
  | [], _ => true
  | w :: k, next => w.fits ((closing k).head?.or next) && fitting k next

theorem fitting_append :
    fitting (ws ++ k) next = (fitting ws ((closing k).head?.or next) && fitting k next) := by
  induction ws with
  | nil => rfl
  | cons w ws ih =>
    rw [List.cons_append, fitting, fitting, ih, closing_append, List.head?_append, Option.or_assoc,
      Bool.and_assoc]

/-! ## What lexemes begin fits -/

theorem mem_patternEnds (h : patternEnds.contains next = true) :
    next = none ∨ next = some (.symbol .rightParen) ∨ next = some (.keyword .«with») := by
  simpa [patternEnds] using h

theorem fitting_item (h : patternEnds.contains next = true) (hbegin : beginItem? t = some ws) :
    fitting ws next = true := by
  unfold beginItem? at hbegin
  split at hbegin
  · split at hbegin <;> cases hbegin
    rfl
  · cases hbegin
    obtain rfl | rfl | rfl := mem_patternEnds h <;> rfl
  · cases hbegin

theorem fitting_single (h : patternEnds.contains next = true) (hbegin : beginSingle? t = some ws) :
    fitting ws next = true := by
  unfold beginSingle? at hbegin
  split at hbegin
  case h_12 => exact fitting_item h hbegin
  all_goals
    cases hbegin
    obtain rfl | rfl | rfl := mem_patternEnds h <;> rfl

theorem fitting_quantified (h : patternEnds.contains next = true)
    (hbegin : beginQuantified? t = some ws) : fitting ws next = true := by
  have hbody : fitting [single, fewest] next = true := by
    obtain rfl | rfl | rfl := mem_patternEnds h <;> rfl
  unfold beginQuantified? at hbegin
  split at hbegin
  case h_5 =>
    split at hbegin <;> cases hbegin
    exact hbody
  case h_6 => exact fitting_single h hbegin
  all_goals
    cases hbegin
    exact hbody

theorem mem_expressionEnds (h : expressionEnds.contains next = true) :
    next = none ∨ next = some (.symbol .rightParen) ∨ next = some (.keyword .«then») ∨
      next = some (.keyword .«end») := by
  simpa [expressionEnds] using h

theorem fitting_atom (h : expressionEnds.contains next = true) (hbegin : beginAtom? t = some ws) :
    fitting ws next = true := by
  unfold beginAtom? at hbegin
  split at hbegin
  case h_8 =>
    split at hbegin <;> cases hbegin
    rfl
  case h_11 =>
    cases hbegin
    obtain rfl | rfl | rfl | rfl := mem_expressionEnds h <;> rfl
  all_goals
    cases hbegin
    try rfl

theorem fitting_unary (h : expressionEnds.contains next = true) (hbegin : beginUnary? t = some ws) :
    fitting ws next = true := by
  unfold beginUnary? at hbegin
  split at hbegin
  case h_3 =>
    obtain ⟨vs, hatom, rfl⟩ := Option.map_eq_some_iff.mp hbegin
    rw [fitting_append, fitting_atom _ hatom]
    all_goals obtain rfl | rfl | rfl | rfl := mem_expressionEnds h <;> rfl
  all_goals
    cases hbegin
    obtain rfl | rfl | rfl | rfl := mem_expressionEnds h <;> rfl

/-- An expression stands in front of what may stand behind one. -/
theorem fitting_beginExpression {behind : List Wanted}
    (hbehind : fitting (tighter .or ++ operations .or :: behind) next = true)
    (h : expressionEnds.contains
      ((closing (tighter .or ++ operations .or :: behind)).head?.or next) = true)
    (hbegin : beginExpression? behind t = some ws) : fitting ws next = true := by
  obtain ⟨vs, hunary, rfl⟩ := Option.map_eq_some_iff.mp hbegin
  rw [fitting_append, fitting_unary h hunary, hbehind, Bool.true_and]

theorem fitting_first {l : Lexeme} {behind : List Wanted} (h : fitting behind next = true)
    (hbegin : first l behind t = some ws) : fitting ws next = true := by
  unfold first at hbegin
  split at hbegin <;> cases hbegin
  exact h

theorem fitting_count {accepts : Nat → Bool} (hbegin : beginCount? accepts t = some ws) :
    fitting ws next = true := by
  unfold beginCount? at hbegin
  split at hbegin
  · split at hbegin <;> cases hbegin
    rfl
  · cases hbegin

theorem fitting_statement (hbegin : beginStatement? t = some ws) : fitting ws none = true := by
  unfold beginStatement? at hbegin
  split at hbegin <;> cases hbegin <;> rfl

theorem fitting_begin (h : w.fits next = true) (hbegin : w.begin? t = some ws) :
    fitting ws next = true := by
  cases w
  case lexeme | range | fewest | mostTaken => exact fitting_first rfl hbegin
  case literal =>
    simp only [begin?, beginLiteral?] at hbegin
    split at hbegin <;> cases hbegin
    rfl
  case count | countFrom => exact fitting_count hbegin
  case bounds =>
    simp only [begin?] at hbegin
    split at hbegin
    · split at hbegin <;> cases hbegin
      rename_i hcount
      simp [fitting, fits, hcount]
    · cases hbegin
  case leastOrMost | side | binder | moreArguments | moreParameters =>
    simp only [begin?] at hbegin
    split at hbegin <;> cases hbegin <;> rfl
  case listItem => exact fitting_item h hbegin
  case moreItems | moreBinders | alternatives =>
    refine fitting_first ?_ hbegin
    obtain rfl | rfl | rfl := mem_patternEnds h <;> rfl
  case negated =>
    simp only [begin?] at hbegin
    split at hbegin
    · cases hbegin
      obtain rfl | rfl | rfl := mem_patternEnds h <;> rfl
    · exact fitting_item h hbegin
  case single => exact fitting_single h hbegin
  case quantified => exact fitting_quantified h hbegin
  case moreElements =>
    obtain ⟨vs, hquantified, rfl⟩ := Option.map_eq_some_iff.mp hbegin
    rw [fitting_append]
    obtain rfl | rfl | rfl := mem_patternEnds h <;>
      rw [fitting_quantified rfl hquantified] <;> rfl
  case atom => exact fitting_atom h hbegin
  case unary => exact fitting_unary h hbegin
  case moreCalls | moreArms | otherwise =>
    refine fitting_first ?_ hbegin
    obtain rfl | rfl | rfl | rfl := mem_expressionEnds h <;> rfl
  case operations l =>
    simp only [begin?] at hbegin
    split at hbegin <;> cases hbegin
    obtain rfl | rfl | rfl | rfl := mem_expressionEnds h <;> cases l <;> rfl
  case firstArgument =>
    simp only [begin?] at hbegin
    split at hbegin
    · cases hbegin
      rfl
    · exact fitting_beginExpression rfl rfl hbegin
  case parameter =>
    simp only [begin?, beginName?] at hbegin
    split at hbegin <;> cases hbegin
    rfl
  case firstParameter =>
    simp only [begin?] at hbegin
    split at hbegin
    · cases hbegin
      rfl
    · unfold beginName? at hbegin
      split at hbegin <;> cases hbegin
      rfl
  case amount =>
    simp only [begin?, beginAmount?] at hbegin
    split at hbegin <;> cases hbegin
    case h_4 => exact Bool.and_eq_true_iff.mpr ⟨rfl, Bool.and_eq_true_iff.mpr ⟨h, rfl⟩⟩
    all_goals rfl
  case morePaths =>
    obtain rfl := Option.isNone_iff_eq_none.mp h
    exact fitting_first rfl hbegin
  case setTarget =>
    obtain rfl := Option.isNone_iff_eq_none.mp h
    simp only [begin?, beginTarget?] at hbegin
    split at hbegin <;> cases hbegin <;> rfl
  case moreExpressions =>
    obtain rfl | rfl | rfl | rfl := mem_expressionEnds h <;>
      exact fitting_beginExpression rfl rfl hbegin
  case statement =>
    obtain rfl := Option.isNone_iff_eq_none.mp h
    exact fitting_statement hbegin
  case program =>
    obtain rfl := Option.isNone_iff_eq_none.mp h
    obtain ⟨vs, hstatement, rfl⟩ := Option.map_eq_some_iff.mp hbegin
    rw [fitting_append]
    exact Bool.and_eq_true_iff.mpr ⟨fitting_statement hstatement, rfl⟩

theorem fitting_next (h : fitting k none = true) (hnext : next? k t = some k') :
    fitting k' none = true := by
  induction k with
  | nil => cases hnext
  | cons w k ih =>
    rw [fitting, Bool.and_eq_true, Option.or_none] at h
    obtain ⟨hfits, hk⟩ := h
    rw [next?] at hnext
    split at hnext
    · rename_i ws hbegin
      cases hnext
      rw [fitting_append, Option.or_none, fitting_begin hfits hbegin, hk, Bool.true_and]
    · split at hnext
      · exact ih hk hnext
      · cases hnext

theorem fitting_after {front : List Lexeme} (h : fitting k none = true)
    (hafter : after? k front = some k') : fitting k' none = true := by
  induction front generalizing k with
  | nil =>
    cases hafter
    exact h
  | cons t front ih =>
    obtain ⟨mid, hmid, hafter⟩ := Option.bind_eq_some_iff.mp hafter
    exact ih (fitting_next h hmid) hafter

/-! ## Completions are right -/

/-- What has no completion of its own is idle in front of what it fits. -/
theorem idle_of_fits (hnone : w.completion = []) (h : w.fits next = true) :
    w.idle next = true := by
  cases w
  case range | moreItems | fewest | moreBinders | alternatives | moreElements =>
    obtain rfl | rfl | rfl := mem_patternEnds h <;> rfl
  case moreCalls | moreArms | otherwise | moreExpressions =>
    obtain rfl | rfl | rfl | rfl := mem_expressionEnds h <;> rfl
  case operations l =>
    obtain rfl | rfl | rfl | rfl := mem_expressionEnds h <;> cases l <;> rfl
  case mostTaken =>
    have htake : next ≠ some (.keyword .take) := bne_iff_ne.mp h
    cases next with
    | none => rfl
    | some t =>
      have ht : t ≠ .keyword .take := fun heq => htake (congrArg some heq)
      simp [idle, begin?, first, ht, mayMiss]
  case morePaths | program =>
    obtain rfl := Option.isNone_iff_eq_none.mp h
    rfl
  all_goals cases hnone

theorem firstWrong?_completion (h : w.fits ls.head? = true) (k : List Wanted) :
    firstWrong? (w :: k) (w.completion ++ ls) = firstWrong? k ls := by
  have hidle {w : Wanted} (hnone : w.completion = []) (h : w.fits ls.head? = true)
      (k : List Wanted) : firstWrong? (w :: k) ls = firstWrong? k ls :=
    firstWrong?_idle (idle_of_fits hnone h)
  cases w
  case range | moreItems | fewest | moreBinders | alternatives | moreElements => exact hidle rfl h k
  case moreCalls | operations | moreArms | otherwise => exact hidle rfl h k
  case mostTaken | morePaths | moreExpressions | program => exact hidle rfl h k
  case lexeme l => exact firstWrong?_begin (show (lexeme l).begin? l = some [] from if_pos rfl)
  case literal | count | bounds | leastOrMost | side | binder | parameter | amount => rfl
  case listItem | negated | single | quantified | atom => rfl
  case firstArgument | moreArguments | firstParameter | moreParameters => rfl
  case countFrom least =>
    obtain ⟨count, hcount⟩ := Option.isSome_iff_exists.mp h
    have hbegin : (countFrom least).begin? (.number least) = some [] := by
      simp [begin?, beginCount?, hcount]
    exact firstWrong?_begin hbegin
  -- What follows the last lexeme of these may be missing.
  case unary => exact hidle (w := moreCalls) rfl h k
  case statement => exact hidle (w := morePaths) rfl h k
  case setTarget =>
    obtain rfl := List.head?_eq_none_iff.mp (Option.isNone_iff_eq_none.mp h)
    rfl

/-- Every stack can be completed. -/
theorem firstWrong?_closing (h : fitting k none = true) : firstWrong? k (closing k) = none := by
  induction k with
  | nil => rfl
  | cons w k ih =>
    rw [fitting, Bool.and_eq_true, Option.or_none] at h
    rw [closing_cons, firstWrong?_completion h.1, ih h.2]

end WordPattern.Wanted
