import WordPattern.Proofs.Program.Takes

/-!
# Patterns and stacks

The parsers of patterns take what a stack wants of a pattern.
-/

namespace WordPattern.Pattern

variable {finish : Position} {ts : List Token}

/-! ## Quantifiers -/

/-- A second bound that is too small is the first wrong token, though the error stands elsewhere. -/
theorem takes_countFrom {α : Type} {bound : Nat} {n : Numeral} {least : Nat}
    (hleast : n.count? = some least)
    {f : Parsed Nat ts.length → Except SyntaxError (Parsed α bound)}
    (hf : ∀ p, least ≤ p.value → ∃ q, f p = .ok q ∧ q.rest = p.rest)
    (hcrossed : ∀ p, ¬least ≤ p.value → ∃ e, f p = .error e ∧ e.IsCrossed) :
    Takes finish [.countFrom n] ts (expectCount finish ts >>= f) := by
  obtain ⟨m, position, rest, most, rfl, hmost, hread⟩ | ⟨e, hread, hplace, hnone⟩ :=
    expectCount_cases finish ts
  · rw [hread]
    show Takes finish [.countFrom n] _ (f (.single most rest))
    by_cases hle : least ≤ most
    · obtain ⟨q, hq, hrest⟩ := hf (.single most rest) hle
      rw [hq]
      refine .begin [] ?_ (.done hrest)
      simp [Wanted.begin?, Wanted.beginCount?, hleast, hmost, hle]
    · obtain ⟨e, he, hcrossed⟩ := hcrossed (.single most rest) hle
      rw [he]
      refine .refuse (.inl hcrossed) ?_ rfl
      rintro t ⟨⟩
      simp [Wanted.begin?, Wanted.beginCount?, hleast, hmost, Nat.lt_of_not_le hle]
  · rw [hread]
    exact .refuse (.inr hplace) (fun t ht => beginCount?_eq_none (hnone t ht)) rfl

theorem takes_between : Takes finish [.bounds] ts (between finish ts) := by
  unfold between
  obtain ⟨n, position, rest, least, rfl, hleast, hread⟩ | ⟨e, hread, hplace, hnone⟩ :=
    expectCount_cases finish ts
  · rw [hread]
    refine .begin [.lexeme (.keyword .and), .countFrom n] ?_ ?_
    · simp [Wanted.begin?, hleast]
    refine takes_expectKeyword.bind [.countFrom n] fun _ ts₂ h₂ => ?_
    refine takes_countFrom hleast (fun p hp => ?_) (fun p hp => ?_)
    · dsimp only
      rw [if_pos hp]
      exact ⟨_, rfl, rfl⟩
    · dsimp only
      rw [if_neg hp]
      exact ⟨_, rfl, _, _, rfl⟩
  · rw [hread]
    refine .refuse (.inr hplace) (fun t ht => ?_) rfl
    cases t with
    | number n => simp [Wanted.begin?, hnone _ ht n rfl]
    | _ => rfl

theorem takes_atBound : Takes finish [.leastOrMost] ts (atBound finish ts) := by
  unfold atBound
  split
  · rename_i ts₁ h₁ heat
    obtain ⟨position, rfl⟩ := of_eat?_eq_some heat
    exact .begin [.count] rfl (takes_expectCount.map fun _ => ⟨_, rfl, rfl⟩)
  · rename_i ts₁ h₁ heat
    obtain ⟨position, rfl⟩ := of_eat?_eq_some heat
    exact .begin [.count] rfl (takes_expectCount.map fun _ => ⟨_, rfl, rfl⟩)
  · rename_i hleast hmost
    refine .unexpected (fun t ht => ?_) rfl
    obtain ⟨position, rest, rfl⟩ := exists_of_head? ht
    simp only [Wanted.begin?]
    split
    · simp at hleast
    · simp at hmost
    · rfl

/-! ## Elements without a pattern inside -/

theorem takes_item : Takes finish [.literal, .range] ts (item finish ts) := by
  rw [item]
  refine takes_expectLiteral.bind [.range] fun low ts₁ h₁ => ?_
  dsimp only
  split
  · rename_i heat
    exact .idle (idle_of_eat? rfl (fun _ => rfl) heat) (.done rfl)
  · rename_i ts₂ h₂ heat
    obtain ⟨position, rfl⟩ := of_eat?_eq_some heat
    exact .begin [.literal] rfl (takes_expectLiteral.map fun _ => ⟨_, rfl, rfl⟩)

theorem takes_listItem : Takes finish [.listItem] ts (listItem finish ts) := by
  unfold listItem
  split
  · rename_i k position rest
    split
    · rename_i c hc
      refine .begin [] ?_ (.done rfl)
      simp [Wanted.begin?, Wanted.beginItem?, hc]
    · rename_i hc
      refine .unexpected ?_ rfl
      rintro t ⟨⟩
      simp [Wanted.begin?, Wanted.beginItem?, hc]
  · rename_i bytes position rest
    exact .expand .literal [.range] (by rintro t ⟨⟩; rfl) (fun _ => ⟨rfl, rfl⟩) takes_item
  · rename_i hkeyword hliteral
    refine .unmatched (fun t position rest hts => ?_) rfl
    cases t with
    | keyword k => exact (hkeyword k position rest hts).elim
    | literal bytes => exact (hliteral bytes position rest hts).elim
    | _ => rfl

theorem takes_listItems {ts : List Token} :
    Takes finish [.listItem, .moreItems] ts (listItems finish ts) := by
  rw [listItems]
  refine takes_listItem.bind [.moreItems] fun first ts₁ h₁ => ?_
  dsimp only
  split
  · rename_i heat
    exact .idle (idle_of_eat? rfl (fun _ => rfl) heat) (.done rfl)
  · rename_i ts₂ h₂ heat
    obtain ⟨position, rfl⟩ := of_eat?_eq_some heat
    exact .begin [.listItem, .moreItems] rfl
      (takes_listItems.map fun _ => ⟨_, rfl, rfl⟩)
termination_by ts.length

theorem takes_negatedElement : Takes finish [.negated] ts (negatedElement finish ts) := by
  unfold negatedElement
  split
  · exact .begin [.listItem, .moreItems] rfl (takes_listItems.map fun _ => ⟨_, rfl, rfl⟩)
  · rename_i k position rest hin
    have hk : k ≠ .«in» := hin
    split
    · rename_i c hc
      refine .begin [] ?_ (.done rfl)
      simp [Wanted.begin?, Wanted.beginItem?, hc, hk]
    · rename_i hc
      refine .unexpected ?_ rfl
      rintro t ⟨⟩
      simp [Wanted.begin?, Wanted.beginItem?, hc, hk]
  · rename_i bytes position rest
    refine .expand .literal [.range] (by rintro t ⟨⟩; rfl) (fun _ => ⟨rfl, rfl⟩) ?_
    exact takes_item.map fun _ => ⟨_, rfl, rfl⟩
  · rename_i hkeyword hliteral
    refine .unmatched (fun t position rest hts => ?_) rfl
    cases t with
    | keyword k => exact (hkeyword k position rest hts).elim
    | literal bytes => exact (hliteral bytes position rest hts).elim
    | _ => rfl

theorem takes_anchorSide {first last : Anchor} :
    Takes finish [.side] ts (anchorSide finish first last ts) := by
  unfold anchorSide
  split
  · rename_i heat
    obtain ⟨position, rfl⟩ := of_eat?_eq_some heat
    exact .begin [] rfl (.done rfl)
  · rename_i heat
    obtain ⟨position, rfl⟩ := of_eat?_eq_some heat
    exact .begin [] rfl (.done rfl)
  · rename_i hstart hend
    refine .unexpected (fun t ht => ?_) rfl
    obtain ⟨position, rest, rfl⟩ := exists_of_head? ht
    simp only [Wanted.begin?]
    split
    · simp at hstart
    · simp at hend
    · rfl

theorem takes_keywordElement {k : Keyword} {position : Position} :
    Takes finish [.single] (⟨.keyword k, position⟩ :: ts) (keywordElement finish k position ts) := by
  unfold keywordElement
  split
  · exact .begin [.negated] rfl (takes_negatedElement.map fun _ => ⟨_, rfl, rfl⟩)
  · exact .begin [.listItem, .moreItems] rfl (takes_listItems.map fun _ => ⟨_, rfl, rfl⟩)
  · exact .begin [] rfl (.done rfl)
  · exact .begin [] rfl (.done rfl)
  · exact .begin [] rfl (.done rfl)
  · exact .begin [] rfl (.done rfl)
  · exact .begin [.side] rfl (takes_anchorSide.map fun _ => ⟨_, rfl, rfl⟩)
  · exact .begin [.side] rfl (takes_anchorSide.map fun _ => ⟨_, rfl, rfl⟩)
  · have hbegin : Wanted.begin? .single (.keyword k) = Wanted.beginItem? (.keyword k) := by
      cases k <;> first | rfl | contradiction
    split
    · rename_i c hc
      refine .begin [] ?_ (.done rfl)
      rw [hbegin]
      simp [Wanted.beginItem?, hc]
    · rename_i hc
      refine .unexpected ?_ rfl
      rintro t ⟨⟩
      rw [hbegin]
      simp [Wanted.beginItem?, hc]

theorem takes_binders {node : Node} {ts : List Token} :
    Takes finish [.moreBinders] ts (binders finish node ts) := by
  unfold binders
  split
  · refine .begin [.binder, .moreBinders] rfl (.begin [] rfl ?_)
    exact takes_binders.map fun _ => ⟨_, rfl, rfl⟩
  · refine .begin [.binder, .moreBinders] rfl (.begin [] rfl ?_)
    exact takes_binders.map fun _ => ⟨_, rfl, rfl⟩
  · rename_i hvariable hsubroutine
    refine .begin [.binder, .moreBinders] rfl (.unmatched (fun t position rest hts => ?_) rfl)
    cases t with
    | variableName name => exact (hvariable _ _ _ hts).elim
    | subroutineName name => exact (hsubroutine _ _ _ hts).elim
    | _ => rfl
  · rename_i hassign
    have heat : eat? (.symbol .assign) ts = none := by
      refine eat?_eq_none_iff.mpr fun hhead => ?_
      obtain ⟨position, rest, rfl⟩ := exists_of_head? hhead
      exact hassign _ _ rfl
    exact .idle (idle_of_eat? rfl (fun _ => rfl) heat) (.done rfl)
termination_by ts.length

/-! ## Elements and chains -/

/-- A quantifier is taken, and then what it is put in front of. -/
theorem takes_quantifier {α : Type} {bound : Nat} {outcome : Parse Quantifier ts}
    (h : quantifier? finish ts = some outcome)
    {f : Parsed Quantifier ts.length → Except SyntaxError (Parsed α bound)}
    (hf : ∀ q rest hrest, Takes finish [.single, .fewest] rest (f ⟨q, rest, hrest⟩)) :
    Takes finish [.quantified] ts (outcome >>= f) := by
  unfold quantifier? at h
  split at h
  · cases h
    refine .begin [.leastOrMost, .single, .fewest] rfl ?_
    refine Takes.bind (?_ : Takes finish [.leastOrMost] _ _) [.single, .fewest] hf
    exact takes_atBound.map fun _ => ⟨_, rfl, rfl⟩
  · cases h
    refine .begin [.bounds, .single, .fewest] rfl ?_
    refine Takes.bind (?_ : Takes finish [.bounds] _ _) [.single, .fewest] hf
    exact takes_between.map fun _ => ⟨_, rfl, rfl⟩
  · cases h
    refine .begin [.count, .single, .fewest] rfl ?_
    refine Takes.bind (?_ : Takes finish [.count] _ _) [.single, .fewest] hf
    exact takes_expectCount.map fun _ => ⟨_, rfl, rfl⟩
  · cases h
    exact .begin [.single, .fewest] rfl (hf ..)
  · rename_i n position rest
    cases h
    cases hcount : n.count? with
    | none =>
      simp only [expectCount, hcount]
      refine .refuse (.inr rfl) ?_ rfl
      rintro t ⟨⟩
      simp [Wanted.begin?, Wanted.beginQuantified?, hcount]
    | some value =>
      simp only [expectCount, hcount]
      refine .begin [.single, .fewest] ?_ (hf ..)
      simp [Wanted.begin?, Wanted.beginQuantified?, hcount]
  · cases h

theorem begin_quantified {t : Lexeme} (h : quantifier? finish ts = none)
    (ht : t ∈ (lexemes ts).head?) : Wanted.beginQuantified? t = Wanted.beginSingle? t := by
  obtain ⟨position, rest, rfl⟩ := exists_of_head? ht
  cases t with
  | keyword k => cases k <;> first | rfl | cases h
  | number n => cases h
  | _ => rfl

theorem mayMiss_moreElements : Wanted.mayMiss .moreElements (lexemes ts).head? = atEnd ts := by
  rcases ts with _ | ⟨⟨l, position⟩, rest⟩
  · rfl
  · cases l with
    | symbol s => cases s <;> rfl
    | _ => rfl

/-- No element begins where a pattern ends. -/
theorem beginQuantified?_of_atEnd {t : Lexeme} (h : atEnd ts = true) (ht : t ∈ (lexemes ts).head?) :
    Wanted.beginQuantified? t = none := by
  obtain ⟨position, rest, rfl⟩ := exists_of_head? ht
  cases t with
  | keyword k => cases k <;> first | rfl | cases h
  | symbol s => cases s <;> first | rfl | cases h
  | _ => cases h

theorem idle_moreElements (h : atEnd ts = true) :
    Wanted.idle .moreElements (lexemes ts).head? = true := by
  refine Wanted.idle_iff.mpr ⟨fun t ht => ?_, mayMiss_moreElements.trans h⟩
  rw [Wanted.begin?, beginQuantified?_of_atEnd h ht]
  rfl

-- The second number of the measures orders the parsers that call one another on the same tokens.
mutual

theorem takes_chain {ts : List Token} : Takes finish Wanted.chain ts (chain finish ts) := by
  rw [chain]
  split
  · rename_i hend
    exact .unexpected (w := .quantified) (fun t ht => beginQuantified?_of_atEnd hend ht) rfl
  · refine takes_element.bind [.moreElements] fun first ts₁ h₁ => ?_
    dsimp only
    split
    · rename_i hend
      exact .idle (idle_moreElements hend) (.done rfl)
    · rename_i hend
      refine .expand .quantified [.moreBinders, .alternatives, .moreElements]
        (fun _ _ => rfl) (fun _ => ⟨?_, rfl⟩) ?_
      · rw [mayMiss_moreElements]
        exact Bool.eq_false_iff.mpr hend
      · exact takes_chain.map fun _ => ⟨_, rfl, rfl⟩
termination_by (ts.length, 4)

theorem takes_element {ts : List Token} : Takes finish Wanted.element ts (element finish ts) := by
  rw [element]
  refine takes_bound.bind [.alternatives] fun left ts₁ h₁ => ?_
  dsimp only
  split
  · rename_i heat
    exact .idle (idle_of_eat? rfl (fun _ => rfl) heat) (.done rfl)
  · rename_i ts₂ h₂ heat
    obtain ⟨position, rfl⟩ := of_eat?_eq_some heat
    exact .begin Wanted.element rfl (takes_element.map fun _ => ⟨_, rfl, rfl⟩)
termination_by (ts.length, 3)

theorem takes_bound {ts : List Token} :
    Takes finish [.quantified, .moreBinders] ts (bound finish ts) := by
  rw [bound]
  exact takes_quantified.bind [.moreBinders] fun node ts₁ h₁ =>
    takes_binders.map fun _ => ⟨_, rfl, rfl⟩
termination_by (ts.length, 2)

theorem takes_quantified {ts : List Token} :
    Takes finish [.quantified] ts (quantified finish ts) := by
  rw [quantified]
  split
  · rename_i hnone
    refine .expand .single [] (fun t ht => ?_) (fun _ => ⟨rfl, rfl⟩)
      takes_single
    simp [Wanted.begin?, begin_quantified hnone ht]
  · rename_i outcome hsome
    refine takes_quantifier hsome fun q ts₁ h₁ => ?_
    refine takes_single.bind [.fewest] fun body ts₂ h₂ => ?_
    dsimp only
    split
    · rename_i heat
      exact .idle (idle_of_eat? rfl (fun _ => rfl) heat) (.done rfl)
    · rename_i ts₃ h₃ heat
      obtain ⟨position, rfl⟩ := of_eat?_eq_some heat
      exact .begin [] rfl (.done rfl)
termination_by (ts.length, 1)

theorem takes_single {ts : List Token} : Takes finish [.single] ts (single finish ts) := by
  rw [single.eq_def]
  split
  · refine .begin (Wanted.chain ++ [.lexeme (.symbol .rightParen)]) rfl ?_
    exact takes_chain.bind [.lexeme (.symbol .rightParen)] fun inner ts₁ h₁ =>
      takes_expectSymbol.map fun _ => ⟨_, rfl, rfl⟩
  · exact takes_keywordElement
  · refine .expand .literal [.range] (by rintro t ⟨⟩; rfl) (fun _ => ⟨rfl, rfl⟩) ?_
    exact takes_item.map fun _ => ⟨_, rfl, rfl⟩
  · exact .begin [] rfl (.done rfl)
  · exact .begin [] rfl (.done rfl)
  · rename_i hparen hkeyword hliteral hvariable hsubroutine
    refine .unmatched (fun t position rest hts => ?_) rfl
    cases t with
    | symbol s => cases s <;> first | rfl | exact (hparen position rest hts).elim
    | keyword k => exact (hkeyword k position rest hts).elim
    | literal bytes => exact (hliteral bytes position rest hts).elim
    | variableName name => exact (hvariable name position rest hts).elim
    | subroutineName name => exact (hsubroutine name position rest hts).elim
    | _ => rfl
termination_by (ts.length, 0)

end

end WordPattern.Pattern
