import WordPattern.Proofs.Pattern.Accepts
import WordPattern.Proofs.Pattern.Layout

/-!
# Patterns are read by their grammar

A pattern is read off some tokens if and only if they spell one, up to where a pattern ends. Reading
it into an arena comes to reading its tree and laying it out.
-/

namespace WordPattern

namespace Arena

variable {finish : Position}

/-- The outcome of reading a value, with the value taken to another one. -/
def mapRead {α β : Type} {n : Nat} (f : α → β) (outcome : Except SyntaxError (Parsed α n)) :
    Except SyntaxError (Parsed β n) :=
  outcome.map fun p => ⟨f p.value, p.rest, p.shorter⟩

theorem mapRead_bind {α β γ : Type} {m n : Nat} (f : β → γ) (p : Except SyntaxError (Parsed α m))
    (g : Parsed α m → Except SyntaxError (Parsed β n)) :
    mapRead f (p >>= g) = p >>= fun x => mapRead f (g x) := by
  cases p <;> rfl

theorem bind_mapRead {α β γ : Type} {m n : Nat} (f : α → β) (p : Except SyntaxError (Parsed α m))
    (g : Parsed β m → Except SyntaxError (Parsed γ n)) :
    mapRead f p >>= g = p >>= fun x => g ⟨f x.value, x.rest, x.shorter⟩ := by
  cases p <;> rfl

theorem reads_mapRead {α β : Type} {n : Nat} {f : α → β} {p : Except SyntaxError (Parsed α n)}
    {value : β} {rest : List Token} :
    Reads (mapRead f p) value rest ↔ ∃ x, Reads p x rest ∧ f x = value := by
  cases p with
  | error e => simp [mapRead, Except.map]
  | ok p =>
    simp only [mapRead, Except.map, reads_ok]
    constructor
    · rintro ⟨hvalue, hrest⟩
      exact ⟨p.value, ⟨rfl, hrest⟩, hvalue⟩
    · rintro ⟨x, ⟨rfl, hrest⟩, hvalue⟩
      exact ⟨hvalue, hrest⟩

theorem listItems_eq (a : Arena) (ts : List Token) :
    listItems finish a ts =
      mapRead (fun items => Item.storeAll items a) (Pattern.listItems finish ts) := by
  rw [listItems, Pattern.listItems, mapRead_bind]
  refine bind_congr fun p => ?_
  obtain ⟨first, ts₁, h₁⟩ := p
  dsimp only
  cases eat? (.symbol .comma) ts₁ with
  | none => rfl
  | some more =>
    obtain ⟨ts₂, h₂⟩ := more
    simp only [listItems_eq _ ts₂, bind_mapRead, mapRead_bind]
    rfl
termination_by ts.length
decreasing_by omega

theorem binders_eq (a : Arena) (node : Node) (ts : List Token) :
    binders finish (node.store a).1 (node.store a).2 ts =
      mapRead (fun n => n.store a) (Pattern.binders finish node ts) := by
  unfold binders
  split
  · rename_i name _ rest
    have hrest := binders_eq a (.capture name node) rest
    simp only [Node.store] at hrest
    rw [Pattern.binders]
    simp only [hrest]
    cases Pattern.binders finish (.capture name node) rest <;> rfl
  · rename_i name _ rest
    have hrest := binders_eq a (.define name node) rest
    simp only [Node.store] at hrest
    rw [Pattern.binders]
    simp only [hrest]
    cases Pattern.binders finish (.define name node) rest <;> rfl
  · rename_i hvariable hsubroutine
    rw [Pattern.binders]
    · rfl
    · exact hvariable
    · exact hsubroutine
  · rename_i hvariable hsubroutine hassign
    rw [Pattern.binders]
    · rfl
    · exact hvariable
    · exact hsubroutine
    · exact hassign
termination_by ts.length

mutual
theorem chain_eq (a : Arena) (ts : List Token) :
    chain finish a ts = mapRead (fun c => c.store a) (Pattern.chain finish ts) := by
  rw [chain, Pattern.chain]
  split
  · rfl
  · rw [element_eq, bind_mapRead, mapRead_bind]
    refine bind_congr fun p => ?_
    obtain ⟨first, ts₁, h₁⟩ := p
    dsimp only
    split
    · rfl
    · rw [chain_eq, bind_mapRead, mapRead_bind]
      rfl
termination_by (ts.length, 4)

theorem element_eq (a : Arena) (ts : List Token) :
    element finish a ts = mapRead (fun n => n.store a) (Pattern.element finish ts) := by
  rw [element, Pattern.element, bound_eq, bind_mapRead, mapRead_bind]
  refine bind_congr fun p => ?_
  obtain ⟨left, ts₁, h₁⟩ := p
  dsimp only
  cases eat? (.keyword .or) ts₁ with
  | none => rfl
  | some more =>
    obtain ⟨ts₂, h₂⟩ := more
    simp only [element_eq _ ts₂, bind_mapRead, mapRead_bind]
    rfl
termination_by (ts.length, 3)

theorem bound_eq (a : Arena) (ts : List Token) :
    bound finish a ts = mapRead (fun n => n.store a) (Pattern.bound finish ts) := by
  rw [bound, Pattern.bound, quantified_eq, bind_mapRead, mapRead_bind]
  refine bind_congr fun p => ?_
  obtain ⟨node, ts₁, h₁⟩ := p
  simp only [binders_eq a node ts₁, bind_mapRead, mapRead_bind]
  rfl
termination_by (ts.length, 2)

theorem quantified_eq (a : Arena) (ts : List Token) :
    quantified finish a ts = mapRead (fun n => n.store a) (Pattern.quantified finish ts) := by
  rw [quantified, Pattern.quantified]
  cases Pattern.quantifier? finish ts with
  | none => exact single_eq a ts
  | some outcome =>
    dsimp only
    rw [mapRead_bind]
    refine bind_congr fun p => ?_
    obtain ⟨q, ts₁, h₁⟩ := p
    dsimp only
    rw [single_eq a ts₁, bind_mapRead, mapRead_bind]
    refine bind_congr fun p => ?_
    obtain ⟨body, ts₂, h₂⟩ := p
    dsimp only
    cases eat? (.keyword .fewest) ts₂ <;> rfl
termination_by (ts.length, 1)

theorem single_eq (a : Arena) (ts : List Token) :
    single finish a ts = mapRead (fun n => n.store a) (Pattern.single finish ts) := by
  rw [single.eq_def]
  split
  · rename_i rest
    simp only [Pattern.single, chain_eq a rest, bind_mapRead, mapRead_bind]
    rfl
  · rename_i rest
    simp only [Pattern.single, Pattern.keywordElement, listItems_eq, bind_mapRead, mapRead_bind]
    rfl
  · rename_i rest
    simp only [Pattern.single, Pattern.keywordElement, Pattern.negatedElement, listItems_eq,
      bind_mapRead, mapRead_bind, bind_assoc]
    rfl
  · cases Pattern.single finish ts <;> rfl
termination_by (ts.length, 0)
end

end Arena

namespace Pattern

variable {finish : Position} {ts rest : List Token} {ls : List Lexeme} {c c' : Chain}

theorem reads_chain_iff :
    Reads (chain finish ts) c rest ↔
      Spelled (ChainForm · c) ts rest ∧ PatternEnd (lexemes rest) := by
  constructor
  · exact spelled_chain
  · rintro ⟨⟨front, rfl, hform⟩, hend⟩
    exact reads_chain hform rfl hend

/-- Lexemes spell at most one pattern: both would be read off tokens that have these lexemes. -/
theorem ChainForm.unique (h : ChainForm ls c) (h' : ChainForm ls c') : c = c' := by
  have htokens : lexemes (ls.map fun l => ⟨l, .start⟩) = ls := by
    simp [lexemes, Function.comp_def]
  have hread : Reads (chain .start (ls.map (⟨·, .start⟩) ++ [])) c [] :=
    reads_chain h htokens .finish
  exact (hread.unique (reads_chain h' htokens .finish)).1

theorem reads_arena_iff {a : Arena} {stored : Nat × Arena} :
    Reads (Arena.chain finish a ts) stored rest ↔
      ∃ c, Reads (chain finish ts) c rest ∧ c.store a = stored := by
  rw [Arena.chain_eq, Arena.reads_mapRead]

/-- A pattern is read into an arena, up to some tokens, if and only if those in front of them spell
a chain and a pattern ends there. The arena then holds the one chain that they spell, and the cells
that were in it before. -/
theorem patterns_follow_their_grammar (finish : Position) (a : Arena) (ts rest : List Token) :
    ((∃ stored, Reads (Arena.chain finish a ts) stored rest) ↔
      ∃ front c, ts = front ++ rest ∧ ChainForm (lexemes front) c ∧ PatternEnd (lexemes rest)) ∧
    ∀ head a', Reads (Arena.chain finish a ts) (head, a') rest →
      ∃ front c, ts = front ++ rest ∧ (∀ c', ChainForm (lexemes front) c' ↔ c' = c) ∧
        Reads (Chain.parse finish ts) c rest ∧ (∀ c', a'.Holds head c' ↔ c' = c) ∧ a <+: a' := by
  constructor
  · constructor
    · rintro ⟨stored, h⟩
      obtain ⟨c, hread, -⟩ := reads_arena_iff.mp h
      obtain ⟨⟨front, hts, hform⟩, hend⟩ := reads_chain_iff.mp hread
      exact ⟨front, c, hts, hform, hend⟩
    · rintro ⟨front, c, hts, hform, hend⟩
      have hread : Reads (chain finish ts) c rest :=
        reads_chain_iff.mpr ⟨⟨front, hts, hform⟩, hend⟩
      exact ⟨c.store a, reads_arena_iff.mpr ⟨c, hread, rfl⟩⟩
  · intro head a' h
    obtain ⟨c, hread, hstore⟩ := reads_arena_iff.mp h
    obtain ⟨⟨front, hts, hform⟩, -⟩ := reads_chain_iff.mp hread
    have hspells : ∀ c', ChainForm (lexemes front) c' ↔ c' = c := by
      intro c'
      constructor
      · exact fun h' => h'.unique hform
      · rintro rfl
        exact hform
    have hholds : a'.Holds head c := by
      have hcells : (c.store a).2.Holds (c.store a).1 c := c.store_holds a fun _ _ _ => rfl
      rwa [hstore] at hcells
    have hkept : a <+: a' := by
      have hcells := c.prefix_store a
      rwa [hstore] at hcells
    refine ⟨front, c, hts, hspells, hread, fun c' => ?_, hkept⟩
    constructor
    · exact fun h' => h'.unique hholds
    · rintro rfl
      exact hholds

end Pattern

end WordPattern
