import Mathlib
import WordPattern.Pattern.Grammar
import WordPattern.Proofs.Token.Reads

/-!
# What is read as a pattern spells it

Every parser reads the lexemes of its form off the front, and a chain is read up to where a pattern
ends.
-/

namespace WordPattern.Pattern

variable {finish : Position} {ts rest : List Token}

/-! ## Forms without a pattern inside -/

theorem keyword_of_ofKeyword? {k : Keyword} {c : ByteClass}
    (h : ByteClass.ofKeyword? k = some c) : k = c.keyword := by
  cases k <;> cases h <;> rfl

theorem spelled_item {i : Item} (h : Reads (item finish ts) i rest) :
    Spelled (ItemForm · i) ts rest := by
  simp only [item, reads_bind] at h
  obtain ⟨low, ts₁, h₁, hlow, h⟩ := h
  obtain ⟨_, rfl⟩ := reads_expectLiteral.mp hlow
  split at h
  · obtain ⟨rfl, rfl⟩ := reads_pure.mp h
    exact .token (.literal low)
  · rename_i ts₂ h₂ heat
    obtain ⟨_, rfl⟩ := of_eat?_eq_some heat
    simp only [reads_bind, reads_pure, reads_expectLiteral] at h
    obtain ⟨high, ts₃, h₃, ⟨_, rfl⟩, rfl, rfl⟩ := h
    exact ⟨[_, _, _], rfl, .range low high⟩

theorem spelled_listItem {i : Item} (h : Reads (listItem finish ts) i rest) :
    Spelled (ItemForm · i) ts rest := by
  unfold listItem at h
  split at h
  · rename_i k position more
    split at h
    · rename_i c hc
      obtain ⟨rfl, rfl⟩ := reads_ok.mp h
      obtain rfl := keyword_of_ofKeyword? hc
      exact .token (.byteClass c)
    · exact absurd h not_reads_error
  · exact spelled_item h
  · exact absurd h not_reads_error

theorem spelled_listItems {ts rest : List Token} {items : List Item}
    (h : Reads (listItems finish ts) items rest) : Spelled (ListForm · items) ts rest := by
  rw [listItems] at h
  simp only [reads_bind] at h
  obtain ⟨first, ts₁, h₁, hfirst, h⟩ := h
  split at h
  · obtain ⟨rfl, rfl⟩ := reads_pure.mp h
    exact (spelled_listItem hfirst).imp fun _ => .last
  · rename_i ts₂ h₂ heat
    obtain ⟨position, rfl⟩ := of_eat?_eq_some heat
    simp only [reads_bind, reads_pure] at h
    obtain ⟨others, ts₃, h₃, hothers, rfl, rfl⟩ := h
    exact (spelled_listItem hfirst).around (spelled_listItems hothers) fun _ _ => .cons
termination_by ts.length
decreasing_by
  simp only [List.length_cons] at h₁
  omega

theorem spelled_between {q : Quantifier} (h : Reads (between finish ts) q rest) {t : Token}
    (ht : t.lexeme = .keyword .between) : Spelled (QuantifierForm · q) (t :: ts) rest := by
  simp only [between, reads_bind, reads_expectCount, reads_expectKeyword] at h
  obtain ⟨least, ts₁, h₁, ⟨low, _, rfl, hlow⟩, _, ts₂, h₂, ⟨_, rfl⟩, most, ts₃, h₃,
    ⟨high, _, rfl, hhigh⟩, h⟩ := h
  split at h
  · rename_i hle
    obtain ⟨rfl, rfl⟩ := reads_pure.mp h
    refine ⟨[t, _, _, _], rfl, ?_⟩
    simp only [lexemes_cons, lexemes_nil, ht]
    exact .between hlow hhigh hle
  · exact absurd h not_reads_throw

theorem spelled_atBound {q : Quantifier} (h : Reads (atBound finish ts) q rest) {t : Token}
    (ht : t.lexeme = .keyword .«at») : Spelled (QuantifierForm · q) (t :: ts) rest := by
  unfold atBound at h
  split at h
  · rename_i heat
    obtain ⟨_, rfl⟩ := of_eat?_eq_some heat
    simp only [reads_bind, reads_expectCount, reads_pure] at h
    obtain ⟨n, _, _, ⟨l, _, rfl, hcount⟩, rfl, rfl⟩ := h
    refine ⟨[t, _, _], rfl, ?_⟩
    simp only [lexemes_cons, lexemes_nil, ht]
    exact .atLeast hcount
  · rename_i heat
    obtain ⟨_, rfl⟩ := of_eat?_eq_some heat
    simp only [reads_bind, reads_expectCount, reads_pure] at h
    obtain ⟨n, _, _, ⟨l, _, rfl, hcount⟩, rfl, rfl⟩ := h
    refine ⟨[t, _, _], rfl, ?_⟩
    simp only [lexemes_cons, lexemes_nil, ht]
    exact .atMost hcount
  · exact absurd h not_reads_throw

theorem spelled_quantifier {outcome : Parse Quantifier ts} {q : Quantifier}
    (hq : quantifier? finish ts = some outcome) (h : Reads outcome q rest) :
    Spelled (QuantifierForm · q) ts rest := by
  unfold quantifier? at hq
  split at hq <;> cases hq
  · simp only [reads_bind, reads_pure] at h
    obtain ⟨_, _, _, hbound, rfl, rfl⟩ := h
    exact spelled_atBound hbound rfl
  · simp only [reads_bind, reads_pure] at h
    obtain ⟨_, _, _, hbounds, rfl, rfl⟩ := h
    exact spelled_between hbounds rfl
  · simp only [reads_bind, reads_expectCount, reads_pure] at h
    obtain ⟨n, _, _, ⟨l, _, rfl, hcount⟩, rfl, rfl⟩ := h
    exact ⟨[_, _], rfl, .exactly hcount⟩
  · obtain ⟨rfl, rfl⟩ := reads_ok.mp h
    exact .token .maybe
  · simp only [reads_bind, reads_expectCount, reads_pure] at h
    obtain ⟨n, _, _, ⟨l, _, hts, hcount⟩, rfl, rfl⟩ := h
    cases hts
    exact .token (.number hcount)

theorem spelled_negatedElement {n : Node} (h : Reads (negatedElement finish ts) n rest) {t : Token}
    (ht : t.lexeme = .keyword .not) : Spelled (SingleForm · n) (t :: ts) rest := by
  unfold negatedElement at h
  split at h
  · simp only [reads_bind, reads_pure] at h
    obtain ⟨items, _, _, hitems, rfl, rfl⟩ := h
    refine ((spelled_listItems hitems).cons fun ls hls => ?_).cons fun ls hls => ht ▸ hls
    exact .noneOf hls
  · split at h
    · rename_i c hc
      obtain ⟨rfl, rfl⟩ := reads_ok.mp h
      obtain rfl := keyword_of_ofKeyword? hc
      refine ⟨[t, _], rfl, ?_⟩
      simp only [lexemes_cons, lexemes_nil, ht]
      exact .notItem (.byteClass c)
    · exact absurd h not_reads_error
  · simp only [reads_bind, reads_pure] at h
    obtain ⟨i, _, _, hitem, rfl, rfl⟩ := h
    exact (spelled_item hitem).cons fun ls hls => ht ▸ .notItem hls
  · exact absurd h not_reads_error

theorem spelled_anchorSide {first last : Anchor} {n : Node} {t : Token}
    (h : Reads (anchorSide finish first last ts) n rest)
    (hfirst : AnchorForm [t.lexeme, .keyword .start] first)
    (hlast : AnchorForm [t.lexeme, .keyword .«end»] last) :
    Spelled (SingleForm · n) (t :: ts) rest := by
  unfold anchorSide at h
  split at h
  · rename_i heat
    obtain ⟨_, rfl⟩ := of_eat?_eq_some heat
    obtain ⟨rfl, rfl⟩ := reads_ok.mp h
    exact ⟨[t, _], rfl, .anchor hfirst⟩
  · rename_i heat
    obtain ⟨_, rfl⟩ := of_eat?_eq_some heat
    obtain ⟨rfl, rfl⟩ := reads_ok.mp h
    exact ⟨[t, _], rfl, .anchor hlast⟩
  · exact absurd h not_reads_error

theorem spelled_keywordElement {k : Keyword} {position : Position} {n : Node}
    (h : Reads (keywordElement finish k position ts) n rest) :
    Spelled (SingleForm · n) (⟨.keyword k, position⟩ :: ts) rest := by
  unfold keywordElement at h
  split at h
  · simp only [reads_bind, reads_pure] at h
    obtain ⟨_, _, _, hnegated, rfl, rfl⟩ := h
    exact spelled_negatedElement hnegated rfl
  · simp only [reads_bind, reads_pure] at h
    obtain ⟨items, _, _, hitems, rfl, rfl⟩ := h
    exact (spelled_listItems hitems).cons fun _ => .oneOf
  · obtain ⟨rfl, rfl⟩ := reads_ok.mp h
    exact .token (.anchor .sol)
  · obtain ⟨rfl, rfl⟩ := reads_ok.mp h
    exact .token (.anchor .eol)
  · obtain ⟨rfl, rfl⟩ := reads_ok.mp h
    exact .token (.anchor .sof)
  · obtain ⟨rfl, rfl⟩ := reads_ok.mp h
    exact .token (.anchor .eof)
  · simp only [reads_bind, reads_pure] at h
    obtain ⟨_, _, _, hside, rfl, rfl⟩ := h
    exact spelled_anchorSide hside .lineStart .lineEnd
  · simp only [reads_bind, reads_pure] at h
    obtain ⟨_, _, _, hside, rfl, rfl⟩ := h
    exact spelled_anchorSide hside .fileStart .fileEnd
  · split at h
    · rename_i c hc
      obtain ⟨rfl, rfl⟩ := reads_ok.mp h
      obtain rfl := keyword_of_ofKeyword? hc
      exact .token (.item (.byteClass c))
    · exact absurd h not_reads_error

/-- The names behind a bound element leave a bound element. -/
theorem spelled_binders {ts mid rest : List Token} {node n : Node}
    (hnode : Spelled (BoundForm · node) ts mid) (h : Reads (binders finish node mid) n rest) :
    Spelled (BoundForm · n) ts rest := by
  unfold binders at h
  split at h
  · simp only [reads_bind, reads_pure] at h
    obtain ⟨_, _, _, hmore, rfl, rfl⟩ := h
    exact spelled_binders (hnode.extend [_, _] fun _ => .capture _) hmore
  · simp only [reads_bind, reads_pure] at h
    obtain ⟨_, _, _, hmore, rfl, rfl⟩ := h
    exact spelled_binders (hnode.extend [_, _] fun _ => .define _) hmore
  · exact absurd h not_reads_error
  · obtain ⟨rfl, rfl⟩ := reads_ok.mp h
    exact hnode
termination_by mid.length

theorem patternEnd_iff : atEnd ts = true ↔ PatternEnd (lexemes ts) := by
  constructor
  · intro h
    unfold atEnd at h
    split at h
    · exact .finish
    · exact .rightParen _
    · rename_i k position more
      cases k <;> first
        | exact absurd h (by decide)
        | exact .with _
        | exact .statement (by constructor) _
    · cases h
  · intro h
    generalize hls : lexemes ts = ls at h
    cases h with
    | finish => rw [List.map_eq_nil_iff.mp hls]; rfl
    | rightParen more =>
      obtain ⟨position, rest, rfl, -⟩ := lexemes_eq_cons_iff.mp hls
      rfl
    | «with» more =>
      obtain ⟨position, rest, rfl, -⟩ := lexemes_eq_cons_iff.mp hls
      rfl
    | statement hk more =>
      obtain ⟨position, rest, rfl, -⟩ := lexemes_eq_cons_iff.mp hls
      cases hk <;> rfl

/-! ## Elements and chains -/

mutual
theorem spelled_chain {ts rest : List Token} {c : Chain} (h : Reads (chain finish ts) c rest) :
    Spelled (ChainForm · c) ts rest ∧ PatternEnd (lexemes rest) := by
  rw [chain] at h
  split at h
  · exact absurd h not_reads_error
  · simp only [reads_bind] at h
    obtain ⟨first, ts₁, h₁, hfirst, h⟩ := h
    have hfirst := spelled_element hfirst
    split at h
    · rename_i hend
      obtain ⟨rfl, rfl⟩ := reads_pure.mp h
      exact ⟨hfirst.imp fun _ => .last, patternEnd_iff.mp hend⟩
    · simp only [reads_bind, reads_pure] at h
      obtain ⟨others, ts₂, h₂, hothers, rfl, rfl⟩ := h
      obtain ⟨hothers, hend⟩ := spelled_chain hothers
      exact ⟨hfirst.append hothers fun _ _ => .cons, hend⟩
termination_by (ts.length, 4)

theorem spelled_element {ts rest : List Token} {n : Node} (h : Reads (element finish ts) n rest) :
    Spelled (ElementForm · n) ts rest := by
  rw [element] at h
  simp only [reads_bind] at h
  obtain ⟨left, ts₁, h₁, hleft, h⟩ := h
  have hleft := spelled_bound hleft
  split at h
  · obtain ⟨rfl, rfl⟩ := reads_pure.mp h
    exact hleft.imp fun _ => .alone
  · rename_i ts₂ h₂ heat
    obtain ⟨position, rfl⟩ := of_eat?_eq_some heat
    simp only [reads_bind, reads_pure] at h
    obtain ⟨right, ts₃, h₃, hright, rfl, rfl⟩ := h
    exact hleft.around (spelled_element hright) fun _ _ => .or
termination_by (ts.length, 3)

theorem spelled_bound {ts rest : List Token} {n : Node} (h : Reads (bound finish ts) n rest) :
    Spelled (BoundForm · n) ts rest := by
  rw [bound] at h
  simp only [reads_bind, reads_pure] at h
  obtain ⟨node, ts₁, h₁, hnode, _, _, _, hmore, rfl, rfl⟩ := h
  exact spelled_binders ((spelled_quantified hnode).imp fun _ => .free) hmore
termination_by (ts.length, 2)

theorem spelled_quantified {ts rest : List Token} {n : Node}
    (h : Reads (quantified finish ts) n rest) : Spelled (QuantifiedForm · n) ts rest := by
  rw [quantified] at h
  split at h
  · exact (spelled_single h).imp fun _ => .once
  · rename_i outcome hq
    simp only [reads_bind] at h
    obtain ⟨q, ts₁, h₁, hquantifier, body, ts₂, h₂, hbody, h⟩ := h
    have hquantifier := spelled_quantifier hq hquantifier
    have hbody := spelled_single hbody
    split at h
    · obtain ⟨rfl, rfl⟩ := reads_pure.mp h
      exact hquantifier.append hbody fun _ _ => .most
    · rename_i ts₃ h₃ heat
      obtain ⟨position, rfl⟩ := of_eat?_eq_some heat
      obtain ⟨rfl, rfl⟩ := reads_pure.mp h
      have hfewest : Spelled (fun ls => ∃ ms, ls = ms ++ [.keyword .fewest] ∧ SingleForm ms body)
          ts₁ ts₃ := hbody.extend [_] fun ms hms => ⟨ms, rfl, hms⟩
      refine hquantifier.append hfewest ?_
      rintro ls _ hls ⟨ms, rfl, hms⟩
      exact .fewest hls hms
termination_by (ts.length, 1)

theorem spelled_single {ts rest : List Token} {n : Node} (h : Reads (single finish ts) n rest) :
    Spelled (SingleForm · n) ts rest := by
  rw [single.eq_def] at h
  split at h
  · rename_i more
    simp only [reads_bind, reads_pure, reads_expectSymbol] at h
    obtain ⟨inner, ts₁, h₁, hinner, _, ts₂, _, ⟨_, rfl⟩, rfl, rfl⟩ := h
    have hclosed : Spelled (fun ls => ∃ ms, ls = ms ++ [.symbol .rightParen] ∧ ChainForm ms inner)
        more ts₂ := (spelled_chain hinner).1.extend [_] fun ms hms => ⟨ms, rfl, hms⟩
    refine hclosed.cons ?_
    rintro _ ⟨ms, rfl, hms⟩
    exact .group hms
  · exact spelled_keywordElement h
  · simp only [reads_bind, reads_pure] at h
    obtain ⟨i, _, _, hitem, rfl, rfl⟩ := h
    exact (spelled_item hitem).imp fun _ => .item
  · obtain ⟨rfl, rfl⟩ := reads_ok.mp h
    exact .token (.variableText _)
  · obtain ⟨rfl, rfl⟩ := reads_ok.mp h
    exact .token (.call _)
  · exact absurd h not_reads_error
termination_by (ts.length, 0)
end

end WordPattern.Pattern
