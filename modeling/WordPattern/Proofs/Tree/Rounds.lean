import WordPattern.Proofs.Tree.Bodies

/-!
# Rounds and continuations

What is found behind a tree: one more round of a repetition, or what a continuation says.
-/

namespace WordPattern

/-- What one more repetition comes to at its end: an empty one is the last, if there are enough. -/
def Quantifier.follow (quantifier : Quantifier) (fewest : Bool) (body : Spot → Tree Spot)
    (rounds count start : Nat) (visit : Spot → Verdict) (p : Spot) : Verdict :=
  if p.position = start && quantifier.metBy count then visit p
  else (quantifier.tree fewest body rounds count p).explore visit

/-- What a continuation comes to at a spot. -/
def Search.Continuation.verdict (text : ByteArray) (environment : Environment) (level : Nat) :
    Search.Continuation → Spot → Verdict
  | .done, p => .known (some p) []
  | .note, p => .known none [p.position]
  | .chain next k, p =>
    (next.tree text environment level p).explore (k.verdict text environment level)
  | .bind name start k, p => k.verdict text environment level (p.capture text name start)
  | .again quantifier fewest body count start k, p =>
    quantifier.follow fewest (body.tree text environment level) level count start
      (k.verdict text environment level) p

/-- What is found where one of two verdicts is preferred. -/
def Verdict.inOrder (fewest : Bool) (stop grow : Verdict) : Verdict :=
  if fewest then stop.orElse grow else grow.orElse stop

/-- A verdict that there is only under a condition. -/
def Verdict.when (b : Bool) (v : Verdict) : Verdict := if b then v else .miss

theorem Verdict.when_le {b : Bool} {v w : Verdict} (h : v ≤ w) : when b v ≤ when b w := by
  cases b with
  | true => exact h
  | false => exact le_refl _

theorem Verdict.inOrder_le {fewest : Bool} {stop stop' grow grow' : Verdict} (hs : stop ≤ stop')
    (hg : grow ≤ grow') : inOrder fewest stop grow ≤ inOrder fewest stop' grow' := by
  cases fewest with
  | true => exact orElse_le hs hg
  | false => exact orElse_le hg hs

/-- The first of two verdicts in an order, and then the second one. -/
theorem Verdict.inOrder_eq (fewest : Bool) (stop grow : Verdict) :
    inOrder fewest stop grow = (when fewest stop).orElse (grow.orElse (when (!fewest) stop)) := by
  cases fewest with
  | true => exact congrArg stop.orElse orElse_miss.symm
  | false => exact miss_orElse.symm

/-- One round of a repetition. -/
theorem Quantifier.explore_round (quantifier : Quantifier) (fewest : Bool)
    (body : Spot → Tree Spot) (rounds count : Nat) (visit : Spot → Verdict) (p : Spot) :
    (quantifier.tree fewest body (rounds + 1) count p).explore visit =
      Verdict.inOrder fewest (.when (quantifier.metBy count) (visit p))
        (.when (quantifier.allowsAfter count) ((body p).explore
          (quantifier.follow fewest body rounds (count + 1) p.position visit))) := by
  have stop : Tree.explore visit (if quantifier.metBy count then .leaf p else .fail) =
      .when (quantifier.metBy count) (visit p) := by
    cases quantifier.metBy count <;> rfl
  have grow : Tree.explore visit
      (if quantifier.allowsAfter count then
        (body p).bind fun q =>
          if q.position = p.position && quantifier.metBy (count + 1) then .leaf q
          else quantifier.tree fewest body rounds (count + 1) q
      else .fail) =
      .when (quantifier.allowsAfter count) ((body p).explore
        (quantifier.follow fewest body rounds (count + 1) p.position visit)) := by
    cases quantifier.allowsAfter count with
    | false => rfl
    | true =>
      refine (Tree.explore_bind visit (body p) _).trans ?_
      refine congrArg (fun f => Tree.explore f (body p)) (funext fun q => ?_)
      unfold follow
      split <;> rfl
  rw [← stop, ← grow]
  cases fewest <;> rfl

theorem Quantifier.follow_le (quantifier : Quantifier) (fewest : Bool)
    {body body' : Spot → Tree Spot} {rounds rounds' count start : Nat}
    {visit visit' : Spot → Verdict} (hbody : ∀ p, body p ≤ body' p) (hrounds : rounds ≤ rounds')
    (hvisit : ∀ p, visit p ≤ visit' p) (p : Spot) :
    quantifier.follow fewest body rounds count start visit p ≤
      quantifier.follow fewest body' rounds' count start visit' p := by
  unfold follow
  split
  · exact hvisit p
  · exact Tree.explore_le (quantifier.tree_le fewest hbody hrounds count p) hvisit

theorem Search.Continuation.verdict_le {text : ByteArray} {environment : Environment}
    {level level' : Nat} (h : level ≤ level') (k : Search.Continuation) :
    ∀ p, k.verdict text environment level p ≤ k.verdict text environment level' p := by
  induction k with
  | done => exact fun p => Verdict.le_refl _
  | note => exact fun p => Verdict.le_refl _
  | chain next k ih => exact fun p => Tree.explore_le (next.tree_le h p) ih
  | bind name start k ih => exact fun p => ih (p.capture text name start)
  | again quantifier fewest body count start k ih =>
    exact fun p => quantifier.follow_le fewest (body.tree_le h) h ih p

end WordPattern
