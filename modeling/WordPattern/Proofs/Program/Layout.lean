import WordPattern.Program.Arena
import WordPattern.Proofs.Pattern.Trees

/-!
# Programs laid out

Reading a program into an arena comes to reading it and laying its patterns out. The cells of later
statements come behind those of earlier ones, with their numbers shifted.
-/

namespace WordPattern

/-! ## Reading into an arena -/

namespace Arena

variable {finish : Position}

theorem setting_eq (a : Arena) (ts : List Token) :
    setting finish a ts = mapRead (fun s => s.store a) (Statement.setting finish ts) := by
  unfold setting
  split
  · rename_i name position rest
    rw [Statement.setting, mapRead_bind]
    refine bind_congr fun p => ?_
    obtain ⟨_, ts₁, h₁⟩ := p
    rw [mapRead_bind]
    rfl
  · rename_i name position rest
    rw [Statement.setting, mapRead_bind]
    refine bind_congr fun p => ?_
    obtain ⟨_, ts₁, h₁⟩ := p
    rw [mapRead_bind]
    refine bind_congr fun p => ?_
    obtain ⟨_, ts₂, h₂⟩ := p
    simp only [chain_eq, bind_mapRead, mapRead_bind]
    rfl
  · rename_i hvariable hsubroutine
    rw [Statement.setting]
    · rfl
    · exact hvariable
    · exact hsubroutine

theorem statement_eq (a : Arena) (ts : List Token) :
    statement finish a ts = mapRead (fun s => s.store a) (Statement.parse finish ts) := by
  rw [statement.eq_def]
  split
  · rename_i position rest
    simp only [Statement.parse, chain_eq, bind_mapRead, mapRead_bind]
    rfl
  · rename_i position rest
    simp only [Statement.parse, chain_eq, bind_mapRead, mapRead_bind]
    rfl
  · rename_i position rest
    simp only [Statement.parse, mapRead_bind]
    rfl
  · rename_i position rest
    rw [Statement.parse, mapRead_bind]
    refine bind_congr fun p => ?_
    obtain ⟨times, ts₁, h₁⟩ := p
    simp only [statement_eq a ts₁, bind_mapRead, mapRead_bind]
    rfl
  · rename_i position rest
    simp only [Statement.parse, setting_eq, bind_mapRead, mapRead_bind]
    rfl
  · rw [Statement.parse] <;> first | rfl | assumption
termination_by ts.length
decreasing_by
  subst_vars
  exact Nat.lt_succ_of_lt h₁

theorem statements_eq (a : Arena) (ts : List Token) :
    statements finish a ts =
      (Statement.parseAll finish ts).map fun list => Statement.storeAll list a := by
  match ts with
  | [] =>
    rw [statements, Statement.parseAll]
    rfl
  | t :: rest =>
    rw [statements, Statement.parseAll, statement_eq]
    cases Statement.parse finish (t :: rest) with
    | error e => rfl
    | ok first =>
      obtain ⟨first, more, hshorter⟩ := first
      simp only [bind, Except.bind, mapRead, Except.map, statements_eq _ more]
      cases Statement.parseAll finish more <;> rfl
termination_by ts.length
decreasing_by exact hshorter

end Arena

theorem Program.Stored.ofSource_eq (source : String) :
    Program.Stored.ofSource source = (Program.ofSource source).map Program.store := by
  rw [Program.Stored.ofSource, Program.ofSource]
  cases Tokens.ofSource source with
  | error e => rfl
  | ok tokens =>
    simp only [bind, Except.bind, Arena.statements_eq, Program.ofTokens]
    cases Statement.parseAll tokens.finish tokens.list <;> rfl

/-! ## Statements behind other statements -/

theorem Statement.store_behind (a : Arena) (s : Statement) (b : Arena) :
    s.store (a.behind b) = ((s.store b).1.shift a.length, a.behind (s.store b).2) := by
  induction s with
  | find | replace | setSubroutine =>
    simp only [Statement.store, Chain.store_behind]
    rfl
  | use | setVariable => rfl
  | «repeat» times body ih =>
    simp only [Statement.store, ih]
    rfl

theorem Statement.storeAll_behind (a : Arena) (list : List Statement) (b : Arena) :
    Statement.storeAll list (a.behind b) =
      ((Statement.storeAll list b).1.map (Stored.shift a.length),
        a.behind (Statement.storeAll list b).2) := by
  induction list generalizing b with
  | nil => rfl
  | cons s list ih => simp only [Statement.storeAll, Statement.store_behind, ih, List.map_cons]

theorem Statement.storeAll_append (first second : List Statement) (a : Arena) :
    Statement.storeAll (first ++ second) a =
      ((Statement.storeAll first a).1 ++
          (Statement.storeAll second (Statement.storeAll first a).2).1,
        (Statement.storeAll second (Statement.storeAll first a).2).2) := by
  induction first generalizing a with
  | nil => rfl
  | cons s first ih => simp only [List.cons_append, Statement.storeAll, ih]

/-- A program behind another one is laid out behind it. -/
theorem Program.store_append (p q : Program) : (p ++ q).store = p.store.behind q.store := by
  have hbehind := Statement.storeAll_behind (Statement.storeAll p.statements []).2 q.statements []
  rw [Arena.behind_nil] at hbehind
  have happend := Statement.storeAll_append p.statements q.statements []
  rw [hbehind] at happend
  exact congrArg (fun stored => Program.Stored.mk stored.1 stored.2) happend

/-! ## What an arena holds -/

theorem Statement.prefix_storeAll (list : List Statement) (a : Arena) :
    a <+: (Statement.storeAll list a).2 :=
  Arena.prefix_of_behind (f := fun a => (Statement.storeAll list a).2)
    (congrArg Prod.snd (Statement.storeAll_behind a list []))

theorem Arena.agrees_of_prefix {a b : Arena} (h : a <+: b) (low : Nat) :
    a.Agrees low a.length b := by
  obtain ⟨more, rfl⟩ := h
  exact fun i _ hi => List.getElem?_append_left hi

theorem Statement.store_holds (s : Statement) (a : Arena) {b : Arena} (h : (s.store a).2 <+: b) :
    b.HoldsStatement (s.store a).1 s := by
  induction s with
  | find amount c => exact .find (c.store_holds a (Arena.agrees_of_prefix h _))
  | replace amount c values => exact .replace (c.store_holds a (Arena.agrees_of_prefix h _))
  | use => exact .use
  | «repeat» n body ih => exact .«repeat» (ih h)
  | setVariable => exact .setVariable
  | setSubroutine name c => exact .setSubroutine (c.store_holds a (Arena.agrees_of_prefix h _))

theorem Statement.storeAll_holds (list : List Statement) (a : Arena) {b : Arena}
    (h : (Statement.storeAll list a).2 <+: b) :
    List.Forall₂ b.HoldsStatement (Statement.storeAll list a).1 list := by
  induction list generalizing a with
  | nil => exact .nil
  | cons s list ih =>
    have hrest := Statement.prefix_storeAll list (s.store a).2
    exact .cons (s.store_holds a (hrest.trans h)) (ih _ h)

theorem Arena.HoldsStatement.unique {a : Arena} {stored : Statement.Stored} {s s' : Statement}
    (h : a.HoldsStatement stored s) (h' : a.HoldsStatement stored s') : s = s' := by
  induction h generalizing s' with
  | find pattern => cases h' with | find pattern' => rw [pattern.unique pattern']
  | replace pattern => cases h' with | replace pattern' => rw [pattern.unique pattern']
  | use => cases h'; rfl
  | «repeat» _ ih => cases h' with | «repeat» body' => rw [ih body']
  | setVariable => cases h'; rfl
  | setSubroutine pattern => cases h' with | setSubroutine pattern' => rw [pattern.unique pattern']

/-- A program that is laid out is told by its cells. -/
theorem Program.store_holds_iff (p : Program) (list : List Statement) :
    List.Forall₂ p.store.arena.HoldsStatement p.store.statements list ↔ list = p.statements := by
  have hown := Statement.storeAll_holds p.statements [] (List.prefix_refl _)
  constructor
  · have hunique : Relator.RightUnique p.store.arena.HoldsStatement :=
      fun _ _ _ => Arena.HoldsStatement.unique
    exact fun h => hunique.forall₂ h hown
  · rintro rfl
    exact hown

end WordPattern
