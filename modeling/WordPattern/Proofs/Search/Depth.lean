import WordPattern.Proofs.Pattern.Elements
import WordPattern.Proofs.Pattern.Trees
import WordPattern.Proofs.Program.Layout
import WordPattern.Proofs.Walk.Counters

/-!
# Depth without recursion

A pattern that calls no name nests only as deep as it is written, as long as it repeats nothing but
steps and what binds nothing: what follows such a repetition is followed at the depth of the
repetition, however often the body has matched. So the text has no part in the depth.
-/

namespace WordPattern

/-- The element calls no name, and if it repeats a body, that is a step or binds nothing. -/
def Node.isFlat : Node → Bool
  | .call _ => false
  | .«repeat» _ _ body => body.isStep || body.bindsNothing
  | _ => true

mutual
/-- How much deeper than an element what is inside of it or follows it can stand. -/
def Node.descent : Node → Nat
  | .oneOf items => min items.length 1
  | .group chain => chain.descent + 1
  | .«repeat» _ _ body => body.descent + 1
  | .or left right => max left.descent right.descent + 1
  -- One for the body, and one for the capture once the body has matched.
  | .capture _ body => body.descent + 2
  | .define _ body => body.descent + 1
  | _ => 0

/-- How much deeper than a chain what is inside of it or follows it can stand. -/
def Chain.descent : Chain → Nat
  | .last node => node.descent
  | .cons node rest => node.descent + 1 + rest.descent
end

/-! ## Depth and cells -/

theorem Item.length_storeAll (items : List Item) (a : Arena) :
    (Item.storeAll items a).2.length = a.length + items.length := by
  induction items generalizing a with
  | nil => rfl
  | cons i items ih =>
    simp only [Item.storeAll, ih, Arena.push, List.length_append, List.length_cons, List.length_nil]
    omega

mutual
/-- An element descends less than twice for every cell that it takes. -/
theorem Node.descent_store (a : Arena) : (n : Node) →
    n.descent + 2 + 2 * a.length ≤ 2 * (n.store a).2.length
  | .group chain => by
    have hchain := chain.descent_store a
    simp only [Node.descent, Node.store, Arena.push, List.length_append, List.length_singleton]
    omega
  | .«repeat» _ _ body | .capture _ body | .define _ body => by
    have hbody := body.descent_store a
    simp only [Node.descent, Node.store, Arena.push, List.length_append, List.length_singleton]
    omega
  | .or left right => by
    have hleft := left.descent_store a
    have hright := right.descent_store (left.store a).2
    simp only [Node.descent, Node.store, Arena.push, List.length_append, List.length_singleton]
    omega
  | .oneOf items | .noneOf items => by
    have hitems := Item.length_storeAll items a
    simp only [Node.descent, Node.store, Arena.push, List.length_append, List.length_singleton]
    omega
  | .literal .. | .byteClass .. | .anchor _ | .range .. | .variableText _ | .call _ => by
    simp only [Node.descent, Node.store, Arena.push, List.length_append, List.length_singleton]
    omega

theorem Chain.descent_store (a : Arena) : (c : Chain) →
    c.descent + 2 + 2 * a.length ≤ 2 * (c.store a).2.length
  | .last node => node.descent_store a
  | .cons node rest => by
    have hnode := node.descent_store a
    have hrest := rest.descent_store (node.store a).2
    simp only [Chain.descent, Chain.store, Arena.length_link]
    omega
end

namespace Search

/-- How deep the elements nest at a task. -/
def Task.depth : Task → Nat
  | .enter _ _ _ _ depth => depth
  | .resume _ _ _ depth => depth
  | .most l _ _ => l.depth
  | .more l _ _ => l.depth
  | .gather l _ _ => l.depth
  | .spread l _ _ => l.depth

variable {c : Setting} {limit depth : Nat} {k : Continuation} {s t : State} {a : Attempt}

/-- A continuation that is followed at a depth stays within a limit. -/
def Continuation.Fits (limit : Nat) : Continuation → Nat → Prop
  | .done, depth => depth ≤ limit
  | .note, depth => depth ≤ limit
  | .chain next k, depth =>
    next.all Node.isFlat = true ∧ k.Fits limit (depth + 1 + next.descent)
  | .bind _ _ k, depth => k.Fits limit (depth + 1)
  | .again .., _ => False

theorem Continuation.Fits.weaken {deep : Nat} (h : k.Fits limit deep) (hle : depth ≤ deep) :
    k.Fits limit depth := by
  induction k generalizing depth deep with
  | done => exact Nat.le_trans hle h
  | note => exact Nat.le_trans hle h
  | chain next k ih => exact ⟨h.1, ih h.2 (by omega)⟩
  | bind name start k ih =>
    have hk : k.Fits limit (deep + 1) := h
    exact ih hk (by omega)
  | again => exact h.elim

theorem Continuation.Fits.within (h : k.Fits limit depth) : depth ≤ limit := by
  induction k generalizing depth with
  | done => exact h
  | note => exact h
  | chain next k ih =>
    have := ih h.2
    omega
  | bind name start k ih =>
    have hk : k.Fits limit (depth + 1) := h
    have := ih hk
    omega
  | again => exact h.elim

/-- The body of a loop and what follows it stay within a limit. -/
structure Loop.Fits (limit : Nat) (l : Loop) : Prop where
  flat : l.body.all Node.isFlat = true
  follows : l.k.Fits limit l.depth
  inside : l.depth + 1 + l.body.descent ≤ limit

/-- Everything that a task leads to stays within a limit. -/
def Task.Fits (limit : Nat) : Task → Prop
  | .enter chain _ _ k depth =>
    chain.all Node.isFlat = true ∧ k.Fits limit (depth + chain.descent)
  | .resume _ _ k depth => k.Fits limit depth
  | .most l _ _ => l.Fits limit
  | .more l _ _ => l.Fits limit
  | .gather l _ _ => l.Fits limit
  | .spread l _ _ => l.Fits limit

theorem Task.Fits.within {task : Task} (h : task.Fits limit) : task.depth ≤ limit := by
  cases task with
  | enter chain start trail k depth =>
    have hdepth := h.2.within
    simp only [Task.depth]
    omega
  | resume => exact Continuation.Fits.within h
  | most | more | gather | spread => exact (Loop.Fits.follows h).within

/-! ## What a task leads to -/

section

variable {start : Nat} {trail : Trail}

theorem fits_resumeThen {positions : List Nat} {rest : List Task} (hk : k.Fits limit depth)
    (hrest : ∀ task ∈ rest, task.Fits limit) :
    ∀ task ∈ resumeThen positions trail k depth rest, task.Fits limit := by
  rcases positions with _ | ⟨position, positions⟩
  · exact hrest
  · exact List.forall_mem_cons.mpr ⟨hk, hrest⟩

theorem fits_inOrder {quantifier : Quantifier} {fewest : Bool} {count : Nat} {stop grow : Task}
    (hstop : stop.Fits limit) (hgrow : grow.Fits limit) :
    ∀ task ∈ inOrder quantifier fewest count stop [grow], task.Fits limit := by
  intro task htask
  have hone : task = stop ∨ task = grow := by
    cases fewest <;> cases hmet : quantifier.metBy count <;> simp_all [inOrder, or_comm]
  rcases hone with rfl | rfl
  · exact hstop
  · exact hgrow

theorem Loop.Fits.visit {l : Loop} (hl : l.Fits limit) (count position : Nat) :
    ∀ task ∈ l.visit count position, task.Fits limit := by
  have hstop : (resumeAt position l.trail l.k l.depth).Fits limit := hl.follows
  have hgrow : (Task.gather l count position).Fits limit := hl
  exact fits_inOrder hstop hgrow

theorem Loop.Fits.visitStep {l : Loop} (hl : l.Fits limit) (count position : Nat) :
    ∀ task ∈ l.visitStep count position, task.Fits limit := by
  have hstop : (resumeAt position l.trail l.k l.depth).Fits limit := hl.follows
  have hgrow : (Task.more l count position).Fits limit := hl
  exact fits_inOrder hstop hgrow

theorem Loop.Fits.visitEnd {l : Loop} (hl : l.Fits limit) (count position finish : Nat) :
    ∀ task ∈ l.visitEnd count position finish, task.Fits limit := by
  unfold Loop.visitEnd
  split
  · exact List.forall_mem_singleton.mpr hl.follows
  · exact hl.visit _ _

theorem fits_repetitions {l : Loop} (hl : l.Fits limit) (position : Nat)
    (hflat : l.body.isStep = true ∨ l.body.bindsNothing = true) :
    ∀ task ∈ repetitions (Method.of l.body) l position, task.Fits limit := by
  unfold Method.of repetitions
  cases hstep : l.body.isStep with
  | true =>
    cases l.fewest with
    | true => exact hl.visitStep 0 position
    | false => exact List.forall_mem_singleton.mpr hl
  | false =>
    have hbinds : l.body.bindsNothing = true := by simpa [hstep] using hflat
    simp only [hbinds, Bool.false_eq_true, ↓reduceIte]
    exact hl.visit 0 position

/-- What an element leads to: what is inside of it, and what follows it. -/
theorem fits_ways (hmethod : c.method = Method.of) {node : Node}
    (hflat : node.all Node.isFlat = true) (hk : k.Fits limit (depth + node.descent)) :
    ∀ task ∈ ways c node start trail k depth, task.Fits limit := by
  have here : k.Fits limit depth := hk.weaken (Nat.le_add_right _ _)
  cases node with
  | literal | byteClass | noneOf | anchor =>
    simp only [ways]
    split
    · exact List.forall_mem_singleton.mpr here
    · simp
  | range low high negated => exact List.forall_mem_singleton.mpr here
  | variableText name =>
    simp only [ways]
    split
    · split
      · exact List.forall_mem_singleton.mpr here
      · simp
    · simp
  | oneOf items =>
    simp only [ways, List.mem_map]
    rintro _ ⟨item, hitem, rfl⟩
    have hsome := List.length_pos_of_mem hitem
    constructor
    · cases item <;> rfl
    · apply hk.weaken
      cases item <;> simp only [Item.node, Chain.descent, Node.descent] <;> omega
  | call name => simp [Node.all, Node.isFlat] at hflat
  | group chain =>
    simp only [ways, List.forall_mem_singleton]
    refine ⟨(Bool.and_eq_true_iff.mp hflat).2, hk.weaken ?_⟩
    simp only [Node.descent]
    omega
  | «repeat» quantifier fewest body =>
    obtain ⟨hbody, hinside⟩ := Bool.and_eq_true_iff.mp hflat
    have hl : Loop.Fits limit { quantifier, fewest, body, trail, k, depth } := by
      refine ⟨hinside, here, ?_⟩
      have hdepth := hk.within
      simp only [Node.descent] at hdepth
      dsimp only
      omega
    simp only [ways, hmethod]
    exact fits_repetitions hl start (Bool.or_eq_true_iff.mp hbody)
  | or left right =>
    obtain ⟨hleft, hright⟩ := Bool.and_eq_true_iff.mp (Bool.and_eq_true_iff.mp hflat).2
    simp only [ways, List.forall_mem_cons, List.not_mem_nil, false_implies, implies_true, and_true]
    refine ⟨⟨hleft, hk.weaken ?_⟩, hright, hk.weaken ?_⟩ <;>
    · simp only [Chain.descent, Node.descent]
      omega
  | capture name body =>
    simp only [ways, List.forall_mem_singleton]
    refine ⟨(Bool.and_eq_true_iff.mp hflat).2, ?_⟩
    simp only [Continuation.Fits, Chain.descent]
    apply hk.weaken
    simp only [Node.descent]
    omega
  | define name body =>
    simp only [ways, List.forall_mem_singleton]
    refine ⟨(Bool.and_eq_true_iff.mp hflat).2, hk.weaken ?_⟩
    simp only [Chain.descent, Node.descent]
    omega

theorem fits_chainWays (hmethod : c.method = Method.of) {chain : Chain}
    (hflat : chain.all Node.isFlat = true) (hk : k.Fits limit (depth + chain.descent)) :
    ∀ task ∈ chainWays c chain start trail k depth, task.Fits limit := by
  cases chain with
  | last node => exact fits_ways hmethod hflat hk
  | cons node rest =>
    obtain ⟨hnode, hrest⟩ := Bool.and_eq_true_iff.mp hflat
    apply fits_ways hmethod hnode
    refine ⟨hrest, hk.weaken ?_⟩
    simp only [Chain.descent]
    omega

theorem fits_follow {position : Nat} (hk : k.Fits limit depth) :
    ∀ task ∈ follow c position trail depth k, task.Fits limit := by
  cases k with
  | done | note => simp [follow]
  | chain next k => exact List.forall_mem_singleton.mpr hk
  | bind name start k => exact List.forall_mem_singleton.mpr hk
  | again => exact hk.elim

end

/-! ## Steps of the machine -/

/-- If all tasks stay within a limit, so do those that a step leaves. -/
theorem step_fits (hmethod : c.method = Method.of) (hs : ∀ task ∈ s.agenda, task.Fits limit)
    (h : step c s = .ok t) : ∀ task ∈ t.agenda, task.Fits limit := by
  obtain ⟨agenda, noted, steps⟩ := s
  rcases agenda with _ | ⟨task, rest⟩
  · cases h
  obtain ⟨htask, hrest⟩ := List.forall_mem_cons.mp hs
  cases task with
  | enter chain start trail k depth =>
    simp only [step] at h
    split at h <;> cases h
    exact List.forall_mem_append.mpr ⟨fits_chainWays hmethod htask.1 htask.2, hrest⟩
  | resume positions trail k depth =>
    rcases positions with _ | ⟨position, positions⟩
    · cases h
      exact hrest
    · have hlater : ∀ task ∈ resumeThen positions trail k depth rest, task.Fits limit :=
        fits_resumeThen htask hrest
      cases k with
      | done => cases h
      | note =>
        cases h
        exact hlater
      | chain | bind | again =>
        cases h
        exact List.forall_mem_append.mpr ⟨fits_follow htask, hlater⟩
  | most l count ends =>
    have hl : l.Fits limit := htask
    simp only [step] at h
    split at h
    · split at h
      · cases h
      · split at h <;> cases h
        · exact List.forall_mem_cons.mpr ⟨hl, hrest⟩
        · exact List.forall_mem_cons.mpr ⟨hl.follows, hrest⟩
    · cases h
      exact List.forall_mem_cons.mpr ⟨hl.follows, hrest⟩
  | more l count position =>
    have hl : l.Fits limit := htask
    simp only [step] at h
    split at h
    · split at h
      · cases h
      · split at h <;> cases h
        · exact List.forall_mem_append.mpr ⟨hl.visitStep _ _, hrest⟩
        · exact hrest
    · cases h
      exact hrest
  | gather l count position =>
    have hl : l.Fits limit := htask
    simp only [step] at h
    split at h <;> cases h
    · have hbody : Task.Fits limit (.enter (.last l.body) position l.trail .note (l.depth + 1)) :=
        ⟨hl.flat, hl.inside⟩
      exact List.forall_mem_cons.mpr ⟨hbody, List.forall_mem_cons.mpr ⟨hl, hrest⟩⟩
    · exact hrest
  | spread l count position =>
    have hl : l.Fits limit := htask
    simp only [step] at h
    split at h <;> cases h
    · exact hrest
    · refine List.forall_mem_append.mpr ⟨fun task hmem => ?_, hrest⟩
      obtain ⟨finish, -, hmem⟩ := List.mem_flatMap.mp hmem
      exact hl.visitEnd count position finish task hmem

/-- An attempt ends without a further step, or with the one that runs into a limit. -/
theorem step_ends (h : step c s = .error a) :
    a.outcome.isCutOff = false ∨
      ∃ task rest cause, s.agenda = task :: rest ∧
        exceeded? c.limits s.steps task.depth = some cause ∧ a = ⟨.cutOff cause, s.steps + 1⟩ := by
  obtain ⟨agenda, noted, steps⟩ := s
  rcases agenda with _ | ⟨task, rest⟩
  · cases h
    exact .inl rfl
  cases task with
  | enter chain start trail k depth =>
    simp only [step] at h
    split at h
    · rename_i cause hx
      cases h
      exact .inr ⟨_, rest, cause, rfl, hx, rfl⟩
    · cases h
  | resume positions trail k depth =>
    rcases positions with _ | ⟨position, positions⟩
    · cases h
    · cases k <;> cases h
      exact .inl rfl
  | most l count ends =>
    simp only [step] at h
    split at h
    · split at h
      · rename_i cause hx
        cases h
        exact .inr ⟨_, rest, cause, rfl, hx, rfl⟩
      · split at h <;> cases h
    · cases h
  | more l count position =>
    simp only [step] at h
    split at h
    · split at h
      · rename_i cause hx
        cases h
        exact .inr ⟨_, rest, cause, rfl, hx, rfl⟩
      · split at h <;> cases h
    · cases h
  | gather l count position =>
    simp only [step] at h
    split at h <;> cases h
  | spread l count position =>
    simp only [step] at h
    split at h <;> cases h

/-- A machine whose tasks stay within the limit does not run into it. -/
theorem run_fits (hmethod : c.method = Method.of) (s : State)
    (hs : ∀ task ∈ s.agenda, task.Fits c.limits.depth) :
    (run c s).outcome ≠ .cutOff .depth := by
  induction s using run.induct c with
  | case1 s t h ih =>
    rw [run_of_ok h]
    exact ih (step_fits hmethod hs h)
  | case2 s a h =>
    rw [run_of_error h]
    intro hdeep
    rcases step_ends h with hcut | ⟨task, rest, cause, hagenda, hx, rfl⟩
    · rw [hdeep] at hcut
      cases hcut
    · have hwithin := (hs task (hagenda ▸ List.mem_cons_self)).within
      cases hdeep
      unfold exceeded? at hx
      split at hx
      · cases hx
      · split at hx
        · omega
        · cases hx

end Search

theorem Setting.attempt_flat {c : Setting} (hmethod : c.method = Method.of) {pattern : Chain}
    (hflat : pattern.all Node.isFlat = true) (hdepth : pattern.descent ≤ c.limits.depth)
    (start : Nat) : (c.attempt pattern start).outcome ≠ .cutOff .depth := by
  apply Search.run_fits hmethod
  rw [List.forall_mem_singleton]
  refine ⟨hflat, ?_⟩
  simpa [Search.Continuation.Fits] using hdepth

/-- A pattern that has been read into an arena, that calls no name and repeats nothing but steps and
what binds nothing, does not run into a limit of the depth that is twice the number of the cells: no
attempt does, whatever the text, and no scan. -/
theorem flat_patterns_stay_within_depth (environment : Environment) (limits : Limits)
    (pattern : Chain) {finish : Position} {a a' arena : Arena} {ts rest : List Token} {head : Nat}
    (hread : Reads (Arena.chain finish a ts) (head, a') rest) (hkept : a' <+: arena)
    (hholds : arena.Holds head pattern) (hflat : pattern.all Node.isFlat = true)
    (hdepth : 2 * arena.length ≤ limits.depth) :
    (∀ b : Buffer, b.position ≤ b.size →
      ∃ found t, b.tryMatch { text := b.bytes, environment, limits } pattern = some (found, t) ∧
        t.counters.tooDeep = false) ∧
    ∀ text amount i, Setting.scan { text, environment, limits } pattern amount = .error i →
      i.cause = .steps := by
  obtain ⟨chain, -, hstore⟩ := Pattern.reads_arena_iff.mp hread
  have hcells : (chain.store a).2 = a' := congrArg Prod.snd hstore
  have hhead : (chain.store a).1 = head := congrArg Prod.fst hstore
  have hchain : arena.Holds head chain := by
    rw [← hhead]
    apply chain.store_holds a
    rw [hcells]
    exact Arena.agrees_of_prefix hkept _
  obtain rfl := hholds.unique hchain
  have hdescent : pattern.descent ≤ limits.depth := by
    have hcount := pattern.descent_store a
    have hlength := hkept.length_le
    rw [hcells] at hcount
    omega
  constructor
  · intro b hb
    have hc : Setting.Fits { text := b.bytes, environment, limits } := Setting.fits_of rfl
    obtain ⟨found, t, hmatch, _⟩ := b.tryMatch_attempt hc rfl hb pattern
    refine ⟨found, t, hmatch, ?_⟩
    have hdeep := Setting.attempt_flat (c := { text := b.bytes, environment, limits }) rfl hflat
      hdescent b.position
    rw [Walk.Count.counters_tooDeep, ← Bool.not_eq_true,
      ← (Buffer.tryMatch_within hb hmatch).stopped_eq_depth_iff,
      (b.tryMatch_reports hc rfl hb hmatch).1]
    intro hcause
    apply hdeep
    revert hcause
    cases (Setting.attempt { text := b.bytes, environment, limits } pattern b.position).outcome <;>
      simp [Search.Outcome.cause?]
  · intro text amount i hscan
    obtain ⟨s, cause, -, hcut, rfl⟩ := Scan.tries_of_interrupted _ i hscan
    have hdeep := Setting.attempt_flat (c := { text, environment, limits }) rfl hflat hdescent
      s.position
    rw [hcut] at hdeep
    cases cause with
    | steps => rfl
    | depth => exact absurd rfl hdeep

theorem optional_letter_stays_within_depth :
    ∃ head arena, Reads (Arena.chain .start [] [⟨.keyword .maybe, .start⟩,
        ⟨.keyword .letter, .start⟩]) (head, arena) [] ∧
      arena.length = 2 ∧
      arena.Holds head (.last (.«repeat» (.between 0 1) false (.byteClass .letter false))) ∧
      ∀ text amount i, Setting.scan { text, limits.depth := 4 }
          (.last (.«repeat» (.between 0 1) false (.byteClass .letter false))) amount = .error i →
        i.cause = .steps := by
  have hread : Reads (Pattern.chain .start [⟨.keyword .maybe, .start⟩, ⟨.keyword .letter, .start⟩])
      (.last (.«repeat» (.between 0 1) false (.byteClass .letter false))) [] :=
    Pattern.reads_chain_iff.mpr ⟨⟨_, (List.append_nil _).symm,
      .last (.alone (.free (.most .maybe (.item (.byteClass .letter)))))⟩, .finish⟩
  have hstored := Pattern.reads_arena_iff (a := []).mpr ⟨_, hread, rfl⟩
  have hholds := (Chain.last
    (.«repeat» (.between 0 1) false (.byteClass .letter false))).store_holds [] fun _ _ _ => rfl
  exact ⟨_, _, hstored, rfl, hholds,
    (flat_patterns_stay_within_depth {} { depth := 4 } _ hstored (List.prefix_refl _) hholds rfl
      (by decide)).2⟩

end WordPattern
