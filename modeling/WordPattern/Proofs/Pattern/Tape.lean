import WordPattern.Pattern.Tape
import WordPattern.Proofs.Token.Tape

/-!
# Patterns on a tape follow the parsers of patterns

Every function follows the parser that reads the same part of a pattern. What a loop has read so far
stands in front of what the parser reads.
-/

namespace WordPattern.Tape

variable {tape : Tape} {finish : Position} {i j : Nat} {ts : List Token}

/-! ## Quantifiers -/

theorem follows_atBound (h : tape.Ahead finish i ts) :
    Follows tape finish i (fun _ => tape.atBound) (fun q => q) (Pattern.atBound finish ts) := by
  rw [atBound]
  unfold Pattern.atBound
  split
  · rename_i heat
    obtain ⟨position, rfl⟩ := of_eat?_eq_some heat
    exact .eaten h fun h => (follows_expectCount h).bind fun n rest hrest j h => .done h rfl
  · rename_i hleast heat
    obtain ⟨position, rfl⟩ := of_eat?_eq_some heat
    refine .missed h hleast ?_
    exact .eaten h fun h => (follows_expectCount h).bind fun n rest hrest j h => .done h rfl
  · rename_i hleast hmost
    exact .missed h hleast (.missed h hmost (.unexpected h))

theorem follows_between (h : tape.Ahead finish i ts) :
    Follows tape finish i (fun _ => tape.between) (fun q => q) (Pattern.between finish ts) := by
  rw [between, Pattern.between]
  refine .step h.peek passed_refl ?_
  refine (follows_expectCount h).bind fun least ts₁ h₁ j₁ hahead₁ => ?_
  refine (follows_expectKeyword hahead₁).bind fun _ ts₂ h₂ j₂ hahead₂ => ?_
  refine (follows_expectCount hahead₂).bind fun most ts₃ h₃ j₃ hahead₃ => ?_
  dsimp only
  split
  · exact .done hahead₃ rfl
  · cases ts with
    | nil => exact absurd h₁ (Nat.not_lt_zero _)
    | cons t rest => exact .thrown

theorem follows_quantifier {outcome : Parse Quantifier ts} (h : tape.Ahead finish i ts)
    (hsome : Pattern.quantifier? finish ts = some outcome) :
    Follows tape finish i (fun _ => tape.quantifier?) some outcome := by
  rw [quantifier?]
  unfold Pattern.quantifier? at hsome
  split at hsome <;> cases hsome
  · refine .peekLexeme h (.next h fun h => ?_)
    exact (follows_atBound h).bind fun q rest hrest j h => .done h rfl
  · refine .peekLexeme h (.next h fun h => ?_)
    exact (follows_between h).bind fun q rest hrest j h => .done h rfl
  · refine .peekLexeme h (.next h fun h => ?_)
    exact (follows_expectCount h).bind fun n rest hrest j h => .done h rfl
  · exact .peekLexeme h (.next h fun h => .done h rfl)
  · refine .peekLexeme h ?_
    exact (follows_expectCount h).bind fun n rest hrest j h => .done h rfl

theorem quantifier_none (h : tape.Ahead finish i ts)
    (hnone : Pattern.quantifier? finish ts = none) :
    tape.quantifier?.from? i = some (.ok (none, i)) := by
  rw [quantifier?, OnTape.from?_bind_of_ok h.peekLexeme]
  rcases ts with _ | ⟨⟨l, position⟩, rest⟩
  · rfl
  · cases l with
    | keyword k => cases k <;> first | rfl | cases hnone
    | number n => cases hnone
    | _ => rfl

/-! ## Elements without a pattern inside -/

theorem class_eaten {k : Keyword} {c : ByteClass} {position : Position}
    (h : tape.Ahead finish i (⟨.keyword k, position⟩ :: ts))
    (hc : ByteClass.ofKeyword? k = some c) :
    tape.eatClass.from? i = some (.ok (some c, i + 1)) := by
  rw [eatClass, OnTape.from?_bind_of_ok h.peekLexeme]
  simp only [List.head?_cons, Option.map_some, hc]
  exact (OnTape.from?_bind_of_ok h.next).trans OnTape.from?_pure

/-- No keyword of a class stands in front. -/
def NoClass (ts : List Token) : Prop :=
  ∀ k position rest, ts = ⟨.keyword k, position⟩ :: rest → ByteClass.ofKeyword? k = none

theorem class_missed (h : tape.Ahead finish i ts) (hnone : NoClass ts) :
    tape.eatClass.from? i = some (.ok (none, i)) := by
  rw [eatClass, OnTape.from?_bind_of_ok h.peekLexeme]
  rcases ts with _ | ⟨⟨l, position⟩, rest⟩
  · rfl
  · cases l with
    | keyword k =>
      simp only [List.head?_cons, Option.map_some, hnone k position rest rfl]
      rfl
    | _ => rfl

theorem follows_item (h : tape.Ahead finish i ts) :
    Follows tape finish i (fun _ => tape.item) (fun i => i) (Pattern.item finish ts) := by
  rw [item, Pattern.item]
  refine (follows_expectLiteral h).bind fun low ts₁ h₁ j h => ?_
  dsimp only
  split
  · rename_i heat
    exact .missed h heat (.done h rfl)
  · rename_i ts₂ h₂ heat
    obtain ⟨position, rfl⟩ := of_eat?_eq_some heat
    exact .eaten h fun h => (follows_expectLiteral h).bind fun high ts₃ h₃ j h => .done h rfl

theorem follows_listItem (h : tape.Ahead finish i ts) :
    Follows tape finish i (fun _ => tape.listItem) (fun i => i) (Pattern.listItem finish ts) := by
  rw [listItem]
  unfold Pattern.listItem
  split
  · rename_i k position rest
    split
    · rename_i c hc
      exact .step (class_eaten h hc) h.passed (.done h.tail rfl)
    · rename_i hc
      have hnone : NoClass (⟨.keyword k, position⟩ :: rest) := by
        rintro k position rest ⟨⟩
        exact hc
      exact .step (class_missed h hnone) passed_refl (.peekLexeme h (.unexpected h))
  · rename_i bytes position rest
    have hnone : NoClass (⟨.literal bytes, position⟩ :: rest) := by
      rintro k position rest ⟨⟩
    exact .step (class_missed h hnone) passed_refl (.peekLexeme h (follows_item h))
  · rename_i hkeyword hliteral
    have hnone : NoClass ts := fun k position rest hts => (hkeyword k position rest hts).elim
    refine .step (class_missed h hnone) passed_refl (.peekLexeme h ?_)
    rcases ts with _ | ⟨⟨l, position⟩, rest⟩
    · exact .unexpected h
    · cases l with
      | literal bytes => exact (hliteral bytes position rest rfl).elim
      | _ => exact .unexpected h

theorem follows_listItems {items : List Item} {i : Nat} {ts : List Token}
    (h : tape.Ahead finish i ts) :
    Follows tape finish i (tape.listItems items) (items ++ ·) (Pattern.listItems finish ts) := by
  refine .of_succ ?_
  rw [Pattern.listItems]
  simp only [listItems]
  refine (follows_listItem h).bind fun first ts₁ h₁ j h => ?_
  dsimp only
  split
  · rename_i heat
    exact .missed h heat (.done h rfl)
  · rename_i ts₂ h₂ heat
    obtain ⟨position, rfl⟩ := of_eat?_eq_some heat
    exact .eaten h fun h => (follows_listItems h).map fun p =>
      ⟨_, rfl, rfl, List.append_cons ..⟩
termination_by ts.length

theorem follows_negated (h : tape.Ahead finish i ts) :
    Follows tape finish i tape.negated (fun n => n) (Pattern.negatedElement finish ts) := by
  unfold negated
  unfold Pattern.negatedElement
  split
  · rename_i position rest
    have hnone : NoClass (⟨.keyword .«in», position⟩ :: rest) := by
      rintro k position rest ⟨⟩
      rfl
    refine .step (class_missed h hnone) passed_refl (.peekLexeme h (.next h fun h => ?_))
    exact (follows_listItems h).bind fun items rest hrest j h => .done h rfl
  · rename_i k position rest hin
    split
    · rename_i c hc
      exact .step (class_eaten h hc) h.passed (.done h.tail rfl)
    · rename_i hc
      have hnone : NoClass (⟨.keyword k, position⟩ :: rest) := by
        rintro k position rest ⟨⟩
        exact hc
      refine .step (class_missed h hnone) passed_refl (.peekLexeme h ?_)
      cases k <;> first | contradiction | exact .unexpected h
  · rename_i bytes position rest
    have hnone : NoClass (⟨.literal bytes, position⟩ :: rest) := by
      rintro k position rest ⟨⟩
    refine .step (class_missed h hnone) passed_refl (.peekLexeme h ?_)
    exact (follows_item h).bind fun item rest hrest j h => .done h rfl
  · rename_i hkeyword hliteral
    have hnone : NoClass ts := fun k position rest hts => (hkeyword k position rest hts).elim
    refine .step (class_missed h hnone) passed_refl (.peekLexeme h ?_)
    rcases ts with _ | ⟨⟨l, position⟩, rest⟩
    · exact .unexpected h
    · cases l with
      | literal bytes => exact (hliteral bytes position rest rfl).elim
      | keyword k => exact (hkeyword k position rest rfl).elim
      | _ => exact .unexpected h

theorem follows_anchorSide {first last : Anchor} (h : tape.Ahead finish i ts) :
    Follows tape finish i (fun _ => tape.anchorSide first last) (fun n => n)
      (Pattern.anchorSide finish first last ts) := by
  rw [anchorSide]
  unfold Pattern.anchorSide
  split
  · rename_i heat
    obtain ⟨position, rfl⟩ := of_eat?_eq_some heat
    exact .eaten h fun h => .done h rfl
  · rename_i hstart heat
    obtain ⟨position, rfl⟩ := of_eat?_eq_some heat
    exact .missed h hstart (.eaten h fun h => .done h rfl)
  · rename_i hstart hend
    exact .missed h hstart (.missed h hend (.unexpected h))

theorem follows_binders {node : Node} {i : Nat} {ts : List Token} (h : tape.Ahead finish i ts) :
    Follows tape finish i (tape.binders node) (fun n => n) (Pattern.binders finish node ts) := by
  refine .of_succ ?_
  simp only [binders]
  unfold Pattern.binders
  split
  · refine .eaten h fun h => .peekLexeme h (.next h fun h => ?_)
    exact (follows_binders h).map fun p => ⟨_, rfl, rfl, rfl⟩
  · refine .eaten h fun h => .peekLexeme h (.next h fun h => ?_)
    exact (follows_binders h).map fun p => ⟨_, rfl, rfl, rfl⟩
  · rename_i position rest hvariable hsubroutine
    refine .eaten h fun h => .peekLexeme h ?_
    rcases rest with _ | ⟨⟨l, place⟩, rest⟩
    · exact .unexpected h
    · cases l with
      | variableName name => exact (hvariable name place rest rfl).elim
      | subroutineName name => exact (hsubroutine name place rest rfl).elim
      | _ => exact .unexpected h
  · rename_i hassign
    exact .missed h (eat?_of_forall_ne hassign) (.done h rfl)
termination_by ts.length

/-! ## Elements and chains -/

theorem atPatternEnd_eq (h : tape.Ahead finish i ts) :
    tape.atPatternEnd.from? i = some (.ok (Pattern.atEnd ts, i)) := by
  rw [atPatternEnd, OnTape.from?_bind_of_ok h.peekLexeme]
  rcases ts with _ | ⟨⟨l, position⟩, rest⟩
  · rfl
  · cases l with
    | symbol s => cases s <;> rfl
    | _ => rfl

theorem ofList?_snoc (nodes : List Node) (node : Node) :
    Chain.ofList? (nodes ++ [node]) = some (nodes.foldr .cons (.last node)) := by
  induction nodes with
  | nil => rfl
  | cons first nodes ih =>
    cases nodes with
    | nil => rfl
    | cons second nodes =>
      rw [List.cons_append, List.cons_append, Chain.ofList?, ← List.cons_append, ih]
      · rfl
      · exact List.cons_ne_nil _ _

theorem elements_end {nodes : List Node} {node : Node} (h : tape.Ahead finish i ts)
    (hend : Pattern.atEnd ts = true) :
    OnTape.Gives (tape.elements (nodes ++ [node])) i
      (.ok (nodes.foldr .cons (.last node), i)) := by
  refine .of_succ (.of_eq fun fuel => ?_)
  rw [elements, OnTape.from?_bind_of_ok (atPatternEnd_eq h)]
  simp only [hend, if_true, ofList?_snoc]
  rfl

theorem follows_unclassed {outcome : Except SyntaxError (Parsed Node i)}
    (h : tape.Ahead finish j ts) (hnone : NoClass ts)
    (hr : Follows tape finish j tape.unclassed (fun n => n) outcome) :
    Follows tape finish j tape.single (fun n => n) outcome := by
  refine .of_succ ?_
  simp only [single]
  exact .step (class_missed h hnone) passed_refl hr

theorem follows_keywordElement {k : Keyword} {position : Position}
    (h : tape.Ahead finish i (⟨.keyword k, position⟩ :: ts)) :
    Follows tape finish i tape.single (fun n => n)
      (Pattern.keywordElement finish k position ts) := by
  have hclass : ByteClass.ofKeyword? k = none → NoClass (⟨.keyword k, position⟩ :: ts) := by
    rintro hc k position rest ⟨⟩
    exact hc
  unfold Pattern.keywordElement
  split
  case h_9 =>
    split
    · rename_i c hc
      refine .of_succ ?_
      simp only [single]
      exact .step (class_eaten h hc) h.passed (.done h.tail rfl)
    · rename_i hc
      refine follows_unclassed h (hclass hc) ?_
      refine .of_succ ?_
      simp only [unclassed]
      refine .peekLexeme h ?_
      cases k <;> first | contradiction | exact .unexpected h
  all_goals
    refine follows_unclassed h (hclass rfl) ?_
    refine .of_succ ?_
    simp only [unclassed]
    refine .peekLexeme h (.next h fun h => ?_)
  · exact (follows_negated h).map fun p => ⟨_, rfl, rfl, rfl⟩
  · exact (follows_listItems h).bind fun items rest hrest j h => .done h rfl
  · exact .done h rfl
  · exact .done h rfl
  · exact .done h rfl
  · exact .done h rfl
  · exact (follows_anchorSide h).map fun p => ⟨_, rfl, rfl, rfl⟩
  · exact (follows_anchorSide h).map fun p => ⟨_, rfl, rfl, rfl⟩

-- The second number of the measures orders the parsers that call one another on the same tokens.
mutual

theorem follows_elements {nodes : List Node} {i : Nat} {ts : List Token}
    (h : tape.Ahead finish i ts) (hmore : nodes = [] ∨ Pattern.atEnd ts = false) :
    Follows tape finish i (tape.elements nodes) (fun c => nodes.foldr .cons c)
      (Pattern.chain finish ts) := by
  refine .of_succ ?_
  rw [Pattern.chain]
  split
  · rename_i hend
    obtain rfl : nodes = [] := by simpa [hend] using hmore
    simp only [elements]
    refine .step (atPatternEnd_eq h) passed_refl ?_
    rw [hend]
    exact .unexpected h
  · rename_i hend
    simp only [elements]
    refine .step (atPatternEnd_eq h) passed_refl ?_
    simp only [hend]
    refine (follows_element h).bind fun first ts₁ h₁ j h => ?_
    dsimp only
    split
    · rename_i hend
      exact ⟨j, elements_end h hend, passed_refl, h⟩
    · rename_i hend
      refine (follows_elements h (.inr (Bool.eq_false_iff.mpr hend))).map fun p =>
        ⟨_, rfl, rfl, ?_⟩
      simp
termination_by (ts.length, 4)

theorem follows_element {i : Nat} {ts : List Token} (h : tape.Ahead finish i ts) :
    Follows tape finish i tape.element (fun n => n) (Pattern.element finish ts) := by
  refine .of_succ ?_
  rw [Pattern.element]
  simp only [element]
  refine (follows_bound h).bind fun left ts₁ h₁ j h => ?_
  dsimp only
  split
  · rename_i heat
    exact .missed h heat (.done h rfl)
  · rename_i ts₂ h₂ heat
    obtain ⟨position, rfl⟩ := of_eat?_eq_some heat
    exact .eaten h fun h => (follows_element h).bind fun right rest hrest j h => .done h rfl
termination_by (ts.length, 3)

theorem follows_bound {i : Nat} {ts : List Token} (h : tape.Ahead finish i ts) :
    Follows tape finish i tape.bound (fun n => n) (Pattern.bound finish ts) := by
  refine .of_succ ?_
  rw [Pattern.bound]
  simp only [bound]
  refine (follows_quantified h).bind fun node ts₁ h₁ j h => ?_
  exact (follows_binders h).map fun p => ⟨_, rfl, rfl, rfl⟩
termination_by (ts.length, 2)

theorem follows_quantified {i : Nat} {ts : List Token} (h : tape.Ahead finish i ts) :
    Follows tape finish i tape.quantified (fun n => n) (Pattern.quantified finish ts) := by
  refine .of_succ ?_
  rw [Pattern.quantified]
  simp only [quantified]
  split
  · rename_i hnone
    exact .step (quantifier_none h hnone) passed_refl (follows_single h)
  · rename_i outcome hsome
    refine (follows_quantifier h hsome).bind fun q ts₁ h₁ j h => ?_
    refine (follows_single h).bind fun body ts₂ h₂ j h => ?_
    dsimp only
    split
    · rename_i heat
      exact .step (h.eat_none heat) passed_refl (.done h rfl)
    · rename_i ts₃ h₃ heat
      obtain ⟨position, rfl⟩ := of_eat?_eq_some heat
      exact .step h.eat_self h.passed (.done h.tail rfl)
termination_by (ts.length, 1)

theorem follows_single {i : Nat} {ts : List Token} (h : tape.Ahead finish i ts) :
    Follows tape finish i tape.single (fun n => n) (Pattern.single finish ts) := by
  rw [Pattern.single.eq_def]
  split
  · rename_i position rest
    refine follows_unclassed h (by rintro k position rest ⟨⟩) ?_
    refine .of_succ ?_
    simp only [unclassed]
    refine .peekLexeme h (.next h fun h => ?_)
    refine (follows_elements h (.inl rfl)).bind fun inner ts₁ h₁ j h => ?_
    exact (follows_expectSymbol h).bind fun _ rest hrest j h => .done h rfl
  · exact follows_keywordElement h
  · refine follows_unclassed h (by rintro k position rest ⟨⟩) ?_
    refine .of_succ ?_
    simp only [unclassed]
    exact .peekLexeme h ((follows_item h).bind fun item rest hrest j h => .done h rfl)
  · refine follows_unclassed h (by rintro k position rest ⟨⟩) ?_
    refine .of_succ ?_
    simp only [unclassed]
    exact .peekLexeme h (.next h fun h => .done h rfl)
  · refine follows_unclassed h (by rintro k position rest ⟨⟩) ?_
    refine .of_succ ?_
    simp only [unclassed]
    exact .peekLexeme h (.next h fun h => .done h rfl)
  · rename_i hparen hkeyword hliteral hvariable hsubroutine
    refine follows_unclassed h (fun k position rest hts => (hkeyword k position rest hts).elim) ?_
    refine .of_succ ?_
    simp only [unclassed]
    refine .peekLexeme h ?_
    rcases ts with _ | ⟨⟨l, position⟩, rest⟩
    · exact .unexpected h
    cases l with
    | symbol s =>
      cases s <;> first | exact (hparen position rest rfl).elim | exact .unexpected h
    | keyword k => exact (hkeyword k position rest rfl).elim
    | literal bytes => exact (hliteral bytes position rest rfl).elim
    | variableName name => exact (hvariable name position rest rfl).elim
    | subroutineName name => exact (hsubroutine name position rest rfl).elim
    | _ => exact .unexpected h
termination_by (ts.length, 0)

end

theorem follows_chain (h : tape.Ahead finish i ts) :
    Follows tape finish i tape.chain (fun c => c) (Chain.parse finish ts) :=
  follows_elements h (.inl rfl)

end WordPattern.Tape
