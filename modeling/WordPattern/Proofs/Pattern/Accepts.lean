import WordPattern.Proofs.Pattern.Derives

/-!
# What spells a pattern is read as it

Every parser reads its form off the front of tokens that spell it, in front of tokens that do not
make the form longer. The first lexeme of an element is enough to tell that it does not belong to
the element before it.
-/

namespace WordPattern

/-- A single element begins with this lexeme. -/
def Lexeme.beginsSingle : Lexeme → Bool
  | .keyword k =>
    (ByteClass.ofKeyword? k).isSome ||
      [.not, .«in», .sol, .eol, .sof, .eof, .line, .file].contains k
  | .literal _ | .variableName _ | .subroutineName _ => true
  | .symbol s => s == .leftParen
  | _ => false

/-- A quantifier begins with this lexeme. -/
def Lexeme.beginsQuantifier : Lexeme → Bool
  | .keyword k => [.«at», .between, .exactly, .maybe].contains k
  | .number _ => true
  | _ => false

/-- An element begins with this lexeme. -/
def Lexeme.beginsElement (l : Lexeme) : Bool := l.beginsSingle || l.beginsQuantifier

namespace Pattern

/-- What an element goes on with. -/
def continuations : List Lexeme :=
  [.keyword .«to», .symbol .comma, .keyword .fewest, .symbol .assign, .keyword .or]

variable {finish : Position} {front rest : List Token} {ls : List Lexeme}

/-! ## First lexemes -/

@[simp] theorem ofKeyword?_keyword (c : ByteClass) :
    ByteClass.ofKeyword? c.keyword = some c := by cases c <;> rfl

theorem SingleForm.begins {n : Node} (h : SingleForm ls n) :
    ∃ l more, ls = l :: more ∧ l.beginsSingle = true := by
  cases h with
  | item item =>
    cases item with
    | byteClass c => exact ⟨_, _, rfl, by simp [Lexeme.beginsSingle]⟩
    | literal bytes => exact ⟨_, _, rfl, rfl⟩
    | range low high => exact ⟨_, _, rfl, rfl⟩
  | notItem => exact ⟨_, _, rfl, rfl⟩
  | oneOf => exact ⟨_, _, rfl, rfl⟩
  | noneOf => exact ⟨_, _, rfl, rfl⟩
  | anchor anchor => cases anchor <;> exact ⟨_, _, rfl, rfl⟩
  | variableText => exact ⟨_, _, rfl, rfl⟩
  | call => exact ⟨_, _, rfl, rfl⟩
  | group => exact ⟨_, _, rfl, rfl⟩

theorem QuantifierForm.begins {q : Quantifier} (h : QuantifierForm ls q) :
    ∃ l more, ls = l :: more ∧ l.beginsQuantifier = true := by
  cases h with
  | number count => cases count; exact ⟨_, _, rfl, rfl⟩
  | atLeast => exact ⟨_, _, rfl, rfl⟩
  | atMost => exact ⟨_, _, rfl, rfl⟩
  | between => exact ⟨_, _, rfl, rfl⟩
  | exactly => exact ⟨_, _, rfl, rfl⟩
  | maybe => exact ⟨_, _, rfl, rfl⟩

theorem QuantifiedForm.begins {n : Node} (h : QuantifiedForm ls n) :
    ∃ l more, ls = l :: more ∧ l.beginsElement = true := by
  cases h with
  | once single =>
    obtain ⟨l, more, rfl, hl⟩ := single.begins
    exact ⟨l, more, rfl, Bool.or_eq_true_iff.mpr (.inl hl)⟩
  | most quantifier _ =>
    obtain ⟨l, more, rfl, hl⟩ := quantifier.begins
    exact ⟨l, _, rfl, Bool.or_eq_true_iff.mpr (.inr hl)⟩
  | fewest quantifier _ =>
    obtain ⟨l, more, rfl, hl⟩ := quantifier.begins
    exact ⟨l, _, rfl, Bool.or_eq_true_iff.mpr (.inr hl)⟩

theorem BoundForm.begins {ls : List Lexeme} {n : Node} (h : BoundForm ls n) :
    ∃ l more, ls = l :: more ∧ l.beginsElement = true := by
  match h with
  | .free quantified => exact quantified.begins
  | .capture _ bound =>
    obtain ⟨l, more, rfl, hl⟩ := bound.begins
    exact ⟨l, _, rfl, hl⟩
  | .define _ bound =>
    obtain ⟨l, more, rfl, hl⟩ := bound.begins
    exact ⟨l, _, rfl, hl⟩

theorem ElementForm.begins {n : Node} (h : ElementForm ls n) :
    ∃ l more, ls = l :: more ∧ l.beginsElement = true := by
  cases h with
  | alone bound => exact bound.begins
  | or first _ =>
    obtain ⟨l, more, rfl, hl⟩ := first.begins
    exact ⟨l, _, rfl, hl⟩

theorem ChainForm.begins {c : Chain} (h : ChainForm ls c) :
    ∃ l more, ls = l :: more ∧ l.beginsElement = true := by
  cases h with
  | last element => exact element.begins
  | cons element _ =>
    obtain ⟨l, more, rfl, hl⟩ := element.begins
    exact ⟨l, _, rfl, hl⟩

theorem notMem_continuations {l : Lexeme} (h : l.beginsElement = true) : l ∉ continuations := by
  intro hl
  simp only [continuations, List.mem_cons, List.not_mem_nil, or_false] at hl
  obtain rfl | rfl | rfl | rfl | rfl := hl <;> exact absurd h (by decide)

theorem not_atEnd {l : Lexeme} {position : Position} (h : l.beginsElement = true) :
    atEnd (⟨l, position⟩ :: rest) = false := by
  refine Bool.eq_false_iff.mpr fun hend => ?_
  cases patternEnd_iff.mp hend with
  | rightParen => exact absurd h (by decide)
  | «with» => exact absurd h (by decide)
  | statement hk => cases hk <;> exact absurd h (by decide)

theorem PatternEnd.avoids (h : PatternEnd (lexemes rest)) : Avoids continuations rest := by
  cases rest with
  | nil => exact avoids_nil
  | cons t more =>
    refine avoids_cons.mpr ?_
    generalize hls : lexemes (t :: more) = ls at h
    cases h with
    | finish => cases hls
    | rightParen =>
      injection hls with ht
      rw [ht]
      decide
    | «with» =>
      injection hls with ht
      rw [ht]
      decide
    | statement hk =>
      injection hls with ht
      rw [ht]
      cases hk <;> decide

theorem quantifier?_eq_none {l : Lexeme} {position : Position} (h : l.beginsSingle = true) :
    quantifier? finish (⟨l, position⟩ :: rest) = none := by
  cases l with
  | keyword k => cases k <;> first | rfl | exact absurd h (by decide)
  | number => cases h
  | word | variableName | subroutineName | literal | symbol => rfl

/-! ## Forms without a pattern inside -/

theorem reads_item_literal {bytes : List UInt8} {position : Position}
    (stop : Avoids [.keyword .«to»] rest) :
    Reads (item finish (⟨.literal bytes, position⟩ :: rest)) (.literal bytes) rest := by
  refine .bind (reads_expectLiteral.mpr ⟨position, rfl⟩) fun _ => ?_
  simp only [stop.eat? (.head _)]
  exact reads_pure.mpr ⟨rfl, rfl⟩

theorem reads_item_range {low high : List UInt8} {position position' position'' : Position} :
    Reads (item finish (⟨.literal low, position⟩ :: ⟨.keyword .«to», position'⟩ ::
      ⟨.literal high, position''⟩ :: rest)) (.range low high) rest := by
  refine .bind (reads_expectLiteral.mpr ⟨position, rfl⟩) fun _ => ?_
  exact .bind (reads_expectLiteral.mpr ⟨position'', rfl⟩) fun _ => reads_pure.mpr ⟨rfl, rfl⟩

/-- The tokens of an item: one for a class, and otherwise those of a literal or a range. -/
theorem ItemForm.tokens {i : Item} (h : ItemForm (lexemes front) i) :
    (∃ c position, i = .byteClass c ∧ front = [⟨.keyword c.keyword, position⟩]) ∨
      ∃ bytes position more, front = ⟨.literal bytes, position⟩ :: more ∧
        ∀ (finish : Position) (rest : List Token), Avoids [.keyword .«to»] rest →
          Reads (item finish (front ++ rest)) i rest := by
  generalize hls : lexemes front = ls at h
  cases h with
  | byteClass c =>
    simp only [lexemes_eq_cons_iff, lexemes_eq_nil_iff] at hls
    obtain ⟨position, _, rfl, rfl⟩ := hls
    exact .inl ⟨c, position, rfl, rfl⟩
  | literal bytes =>
    simp only [lexemes_eq_cons_iff, lexemes_eq_nil_iff] at hls
    obtain ⟨position, _, rfl, rfl⟩ := hls
    exact .inr ⟨bytes, position, _, rfl, fun _ _ => reads_item_literal⟩
  | range low high =>
    simp only [lexemes_eq_cons_iff, lexemes_eq_nil_iff] at hls
    obtain ⟨position, _, rfl, _, _, rfl, _, _, rfl, rfl⟩ := hls
    exact .inr ⟨low, position, _, rfl, fun _ _ _ => reads_item_range⟩

theorem reads_listItem {i : Item} (h : ItemForm (lexemes front) i)
    (stop : Avoids [.keyword .«to»] rest) : Reads (listItem finish (front ++ rest)) i rest := by
  obtain ⟨c, position, rfl, rfl⟩ | ⟨bytes, position, more, rfl, hitem⟩ := h.tokens
  · simp [listItem, Parsed.single]
  · exact hitem finish rest stop

theorem reads_listItems {items : List Item} {ls : List Lexeme} (h : ListForm ls items)
    {front : List Token} (hls : lexemes front = ls)
    (stop : Avoids [.keyword .«to», .symbol .comma] rest) :
    Reads (listItems finish (front ++ rest)) items rest := by
  induction h generalizing front with
  | last hitem =>
    subst hls
    rw [listItems]
    refine .bind (reads_listItem hitem (stop.mono (by simp))) fun _ => ?_
    simp only [stop.eat? (l := .symbol .comma) (by simp)]
    exact reads_pure.mpr ⟨rfl, rfl⟩
  | cons hitem hothers ih =>
    obtain ⟨first, _, rfl, rfl, hback⟩ := lexemes_eq_append_iff.mp hls
    obtain ⟨position, others, rfl, rfl⟩ := lexemes_eq_cons_iff.mp hback
    rw [listItems, List.append_assoc]
    refine .bind (reads_listItem hitem (by simp)) fun _ => ?_
    exact .bind (ih rfl) fun _ => reads_pure.mpr ⟨rfl, rfl⟩

theorem reads_between {l l' : Lexeme} {low high : Nat} {position position' position'' : Position}
    (hlow : l.IsCount low) (hhigh : l'.IsCount high) (hle : low ≤ high) :
    Reads (between finish (⟨l, position⟩ :: ⟨.keyword .and, position'⟩ :: ⟨l', position''⟩ :: rest))
      (.between low high) rest := by
  refine .bind (reads_expectCount.mpr ⟨l, position, rfl, hlow⟩) fun _ => ?_
  refine .bind reads_keyword fun _ => ?_
  refine .bind (reads_expectCount.mpr ⟨l', position'', rfl, hhigh⟩) fun _ => ?_
  simp only [hle, ↓reduceIte]
  exact reads_pure.mpr ⟨rfl, rfl⟩

theorem reads_atLeast {l : Lexeme} {n : Nat} {position position' : Position} (h : l.IsCount n) :
    Reads (atBound finish (⟨.keyword .least, position⟩ :: ⟨l, position'⟩ :: rest)) (.atLeast n)
      rest :=
  .bind (reads_expectCount.mpr ⟨l, position', rfl, h⟩) fun _ => reads_pure.mpr ⟨rfl, rfl⟩

theorem reads_atMost {l : Lexeme} {n : Nat} {position position' : Position} (h : l.IsCount n) :
    Reads (atBound finish (⟨.keyword .most, position⟩ :: ⟨l, position'⟩ :: rest)) (.atMost n)
      rest :=
  .bind (reads_expectCount.mpr ⟨l, position', rfl, h⟩) fun _ => reads_pure.mpr ⟨rfl, rfl⟩

theorem reads_quantifier {q : Quantifier} (finish : Position) (rest : List Token)
    (h : QuantifierForm (lexemes front) q) :
    ∃ outcome, quantifier? finish (front ++ rest) = some outcome ∧ Reads outcome q rest := by
  generalize hls : lexemes front = ls at h
  cases h with
  | atLeast count =>
    simp only [lexemes_eq_cons_iff, lexemes_eq_nil_iff] at hls
    obtain ⟨_, _, rfl, _, _, rfl, position, _, rfl, rfl⟩ := hls
    exact ⟨_, rfl, .bind (reads_atLeast count) fun _ => reads_pure.mpr ⟨rfl, rfl⟩⟩
  | atMost count =>
    simp only [lexemes_eq_cons_iff, lexemes_eq_nil_iff] at hls
    obtain ⟨_, _, rfl, _, _, rfl, position, _, rfl, rfl⟩ := hls
    exact ⟨_, rfl, .bind (reads_atMost count) fun _ => reads_pure.mpr ⟨rfl, rfl⟩⟩
  | between least most hle =>
    simp only [lexemes_eq_cons_iff, lexemes_eq_nil_iff] at hls
    obtain ⟨_, _, rfl, _, _, rfl, _, _, rfl, _, _, rfl, rfl⟩ := hls
    exact ⟨_, rfl, .bind (reads_between least most hle) fun _ => reads_pure.mpr ⟨rfl, rfl⟩⟩
  | exactly count =>
    simp only [lexemes_eq_cons_iff, lexemes_eq_nil_iff] at hls
    obtain ⟨_, _, rfl, position, _, rfl, rfl⟩ := hls
    exact ⟨_, rfl, .bind (reads_expectCount.mpr ⟨_, position, rfl, count⟩)
      fun _ => reads_pure.mpr ⟨rfl, rfl⟩⟩
  | maybe =>
    simp only [lexemes_eq_cons_iff, lexemes_eq_nil_iff] at hls
    obtain ⟨_, _, rfl, rfl⟩ := hls
    exact ⟨_, rfl, reads_ok.mpr ⟨rfl, rfl⟩⟩
  | number count =>
    simp only [lexemes_eq_cons_iff, lexemes_eq_nil_iff] at hls
    obtain ⟨position, _, rfl, rfl⟩ := hls
    cases count with
    | whole digits hlt =>
      exact ⟨_, rfl, .bind (reads_expectCount.mpr ⟨_, position, rfl, .whole digits hlt⟩)
        fun _ => reads_pure.mpr ⟨rfl, rfl⟩⟩

theorem reads_notItem {i : Item} (h : ItemForm (lexemes front) i)
    (stop : Avoids [.keyword .«to»] rest) :
    Reads (negatedElement finish (front ++ rest)) (itemNode true i) rest := by
  obtain ⟨c, position, rfl, rfl⟩ | ⟨bytes, position, more, rfl, hitem⟩ := h.tokens
  · cases c <;> exact reads_ok.mpr ⟨rfl, rfl⟩
  · exact .bind (hitem finish rest stop) fun _ => reads_pure.mpr ⟨rfl, rfl⟩

theorem reads_anchor {a : Anchor} (h : AnchorForm (lexemes front) a) :
    Reads (single finish (front ++ rest)) (.anchor a) rest := by
  generalize hls : lexemes front = ls at h
  cases h <;> simp only [lexemes_eq_cons_iff, lexemes_eq_nil_iff] at hls
  case sol | eol | sof | eof =>
    obtain ⟨position, _, rfl, rfl⟩ := hls
    rw [List.cons_append, single]
    exact reads_ok.mpr ⟨rfl, rfl⟩
  case lineStart | fileStart | lineEnd | fileEnd =>
    obtain ⟨position, _, rfl, position', _, rfl, rfl⟩ := hls
    rw [List.cons_append, single]
    exact .bind (reads_ok.mpr ⟨rfl, rfl⟩) fun _ => reads_pure.mpr ⟨rfl, rfl⟩

theorem reads_no_binders {n : Node} (stop : Avoids [.symbol .assign] rest) :
    Reads (binders finish n rest) n rest := by
  unfold binders
  split
  · exact absurd stop (by simp)
  · exact absurd stop (by simp)
  · exact absurd stop (by simp)
  · exact reads_ok.mpr ⟨rfl, rfl⟩

/-! ## Elements and chains -/

mutual
theorem reads_single {ls : List Lexeme} {n : Node} (h : SingleForm ls n) {front rest : List Token}
    (hls : lexemes front = ls) (stop : Avoids [.keyword .«to», .symbol .comma] rest) :
    Reads (single finish (front ++ rest)) n rest := by
  match h with
  | .item hitem =>
    subst hls
    obtain ⟨c, position, rfl, rfl⟩ | ⟨bytes, position, more, rfl, hitem⟩ := hitem.tokens
    · rw [List.cons_append, single]
      cases c <;> exact reads_ok.mpr ⟨rfl, rfl⟩
    · rw [List.cons_append, single]
      exact .bind (hitem finish rest (stop.mono (by simp))) fun _ => reads_pure.mpr ⟨rfl, rfl⟩
  | .notItem hitem =>
    obtain ⟨position, more, rfl, rfl⟩ := lexemes_eq_cons_iff.mp hls
    rw [List.cons_append, single]
    exact .bind (reads_notItem hitem (stop.mono (by simp))) fun _ => reads_pure.mpr ⟨rfl, rfl⟩
  | .oneOf hitems =>
    obtain ⟨position, more, rfl, hmore⟩ := lexemes_eq_cons_iff.mp hls
    rw [List.cons_append, single]
    exact .bind (reads_listItems hitems hmore stop) fun _ => reads_pure.mpr ⟨rfl, rfl⟩
  | .noneOf hitems =>
    obtain ⟨position, _, rfl, hnot⟩ := lexemes_eq_cons_iff.mp hls
    obtain ⟨position', more, rfl, hmore⟩ := lexemes_eq_cons_iff.mp hnot
    rw [List.cons_append, single]
    refine .bind (.bind (reads_listItems hitems hmore stop) fun _ => reads_pure.mpr ⟨rfl, rfl⟩)
      fun _ => reads_pure.mpr ⟨rfl, rfl⟩
  | .anchor hanchor =>
    subst hls
    exact reads_anchor hanchor
  | .variableText name =>
    simp only [lexemes_eq_cons_iff, lexemes_eq_nil_iff] at hls
    obtain ⟨position, _, rfl, rfl⟩ := hls
    rw [List.cons_append, single]
    exact reads_ok.mpr ⟨rfl, rfl⟩
  | .call name =>
    simp only [lexemes_eq_cons_iff, lexemes_eq_nil_iff] at hls
    obtain ⟨position, _, rfl, rfl⟩ := hls
    rw [List.cons_append, single]
    exact reads_ok.mpr ⟨rfl, rfl⟩
  | .group hchain =>
    obtain ⟨position, _, rfl, hclosed⟩ := lexemes_eq_cons_iff.mp hls
    obtain ⟨inner, _, rfl, hinner, hparen⟩ := lexemes_eq_append_iff.mp hclosed
    simp only [lexemes_eq_cons_iff, lexemes_eq_nil_iff] at hparen
    obtain ⟨position', _, rfl, rfl⟩ := hparen
    rw [List.cons_append, single, List.append_assoc]
    refine .bind (reads_chain hchain hinner (.rightParen _)) fun _ => ?_
    exact .bind reads_symbol fun _ => reads_pure.mpr ⟨rfl, rfl⟩

theorem reads_quantified {ls : List Lexeme} {n : Node} (h : QuantifiedForm ls n)
    {front rest : List Token} (hls : lexemes front = ls)
    (stop : Avoids [.keyword .«to», .symbol .comma, .keyword .fewest] rest) :
    Reads (quantified finish (front ++ rest)) n rest := by
  match h with
  | .once hsingle =>
    have hread : Reads (single finish (front ++ rest)) n rest :=
      reads_single hsingle hls (stop.mono (by simp))
    obtain ⟨l, more, hl, hbegins⟩ := hsingle.begins
    obtain ⟨position, more, rfl, -⟩ := lexemes_eq_cons_iff.mp (hls.trans hl)
    rw [quantified, List.cons_append, quantifier?_eq_none hbegins]
    exact hread
  | .most hquantifier hsingle =>
    obtain ⟨words, body, rfl, rfl, hbody⟩ := lexemes_eq_append_iff.mp hls
    obtain ⟨outcome, hq, hread⟩ := reads_quantifier finish (body ++ rest) hquantifier
    rw [quantified, List.append_assoc, hq]
    refine .bind hread fun _ => ?_
    refine .bind (reads_single hsingle hbody (stop.mono (by simp))) fun _ => ?_
    dsimp only
    rw [stop.eat? (l := .keyword .fewest) (by simp)]
    exact reads_pure.mpr ⟨rfl, rfl⟩
  | .fewest hquantifier hsingle =>
    obtain ⟨words, _, rfl, rfl, hfewest⟩ := lexemes_eq_append_iff.mp hls
    obtain ⟨body, _, rfl, hbody, hfewest⟩ := lexemes_eq_append_iff.mp hfewest
    simp only [lexemes_eq_cons_iff, lexemes_eq_nil_iff] at hfewest
    obtain ⟨position, _, rfl, rfl⟩ := hfewest
    rw [List.append_assoc, List.append_assoc, List.singleton_append]
    obtain ⟨outcome, hq, hread⟩ :=
      reads_quantifier finish (body ++ ⟨.keyword .fewest, position⟩ :: rest) hquantifier
    rw [quantified, hq]
    refine .bind hread fun _ => ?_
    exact .bind (reads_single hsingle hbody (by simp)) fun _ => reads_pure.mpr ⟨rfl, rfl⟩

/-- The names are read from the left and bound from the inside, so a bound element is read together
with the names behind it. -/
theorem reads_bound {ls : List Lexeme} {n : Node} (h : BoundForm ls n) {front mid : List Token}
    (hls : lexemes front = ls)
    (stop : Avoids [.keyword .«to», .symbol .comma, .keyword .fewest] mid)
    {value : Node} {rest : List Token} (hmore : Reads (binders finish n mid) value rest) :
    Reads (bound finish (front ++ mid)) value rest := by
  match h with
  | .free hquantified =>
    rw [bound]
    refine .bind (reads_quantified hquantified hls stop) fun _ => ?_
    exact .bind hmore fun _ => reads_pure.mpr ⟨rfl, rfl⟩
  | .capture name hbound =>
    obtain ⟨node, _, rfl, hnode, hname⟩ := lexemes_eq_append_iff.mp hls
    simp only [lexemes_eq_cons_iff, lexemes_eq_nil_iff] at hname
    obtain ⟨position, _, rfl, position', _, rfl, rfl⟩ := hname
    rw [List.append_assoc]
    refine reads_bound hbound hnode (by simp) ?_
    rw [List.cons_append, List.cons_append, binders]
    exact .bind hmore fun _ => reads_pure.mpr ⟨rfl, rfl⟩
  | .define name hbound =>
    obtain ⟨node, _, rfl, hnode, hname⟩ := lexemes_eq_append_iff.mp hls
    simp only [lexemes_eq_cons_iff, lexemes_eq_nil_iff] at hname
    obtain ⟨position, _, rfl, position', _, rfl, rfl⟩ := hname
    rw [List.append_assoc]
    refine reads_bound hbound hnode (by simp) ?_
    rw [List.cons_append, List.cons_append, binders]
    exact .bind hmore fun _ => reads_pure.mpr ⟨rfl, rfl⟩

theorem reads_element {ls : List Lexeme} {n : Node} (h : ElementForm ls n)
    {front rest : List Token} (hls : lexemes front = ls) (stop : Avoids continuations rest) :
    Reads (element finish (front ++ rest)) n rest := by
  match h with
  | .alone hbound =>
    rw [element]
    refine .bind (reads_bound hbound hls (stop.mono (by simp [continuations]))
      (reads_no_binders (stop.mono (by simp [continuations])))) fun _ => ?_
    simp only [stop.eat? (l := .keyword .or) (by simp [continuations])]
    exact reads_pure.mpr ⟨rfl, rfl⟩
  | .or hbound helement =>
    obtain ⟨left, _, rfl, hleft, hback⟩ := lexemes_eq_append_iff.mp hls
    obtain ⟨position, right, rfl, hright⟩ := lexemes_eq_cons_iff.mp hback
    rw [element, List.append_assoc, List.cons_append]
    refine .bind (reads_bound hbound hleft (by simp) (reads_no_binders (by simp))) fun _ => ?_
    exact .bind (reads_element helement hright stop) fun _ => reads_pure.mpr ⟨rfl, rfl⟩

theorem reads_chain {ls : List Lexeme} {c : Chain} (h : ChainForm ls c) {front rest : List Token}
    (hls : lexemes front = ls) (hend : PatternEnd (lexemes rest)) :
    Reads (chain finish (front ++ rest)) c rest := by
  obtain ⟨l, _, hl, hbegins⟩ := h.begins
  obtain ⟨position, tail, htail, -⟩ := lexemes_eq_cons_iff.mp (hls.trans hl)
  have hgo : atEnd (front ++ rest) = false := by
    rw [htail]
    exact not_atEnd hbegins
  rw [chain, hgo]
  match h with
  | .last helement =>
    refine .bind (reads_element helement hls hend.avoids) fun _ => ?_
    simp only [patternEnd_iff.mpr hend, ↓reduceIte]
    exact reads_pure.mpr ⟨rfl, rfl⟩
  | .cons helement hchain =>
    obtain ⟨first, others, rfl, hfirst, hothers⟩ := lexemes_eq_append_iff.mp hls
    obtain ⟨l', _, hl', hbegins'⟩ := hchain.begins
    obtain ⟨position', tail', rfl, -⟩ := lexemes_eq_cons_iff.mp (hothers.trans hl')
    rw [List.append_assoc]
    refine .bind (reads_element helement hfirst (avoids_cons.mpr (notMem_continuations hbegins')))
      fun _ => ?_
    simp only [List.cons_append, not_atEnd hbegins']
    exact .bind (reads_chain hchain hothers hend) fun _ => reads_pure.mpr ⟨rfl, rfl⟩
end

end Pattern

end WordPattern
