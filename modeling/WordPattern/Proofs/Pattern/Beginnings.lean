import Mathlib
import WordPattern.Proofs.Scan.Leftmost

/-!
# What an item can begin with

A negated list takes one byte with which no item begins. An item is asked for its first byte alone,
which is all there is to know of a literal and of a class. A range keeps a byte out that stands
between the first bytes of its bounds, and so it does where no text lies in it: because both bounds
are empty, or because they are crossed further back.
-/

namespace WordPattern

namespace Item

/-- The places where an item can end, in the order of preference. -/
def ends (text : ByteArray) (start : Nat) : Item → List Nat
  | .range low high => rangeEnds text low high false start
  | i => (i.node.end? text start).toList

/-- The item, tried on its own, matches a text that is not empty and begins with the byte. -/
def CanBegin (i : Item) (byte : UInt8) : Prop :=
  ∃ (b : Buffer) (environment : Environment) (limits : Limits) (finish : Nat)
    (captures : Bindings String),
    b.byteAt? b.position = some byte ∧ b.position < finish ∧
      b.Matches { text := b.bytes, environment, limits } (.last i.node) finish captures

/-- A range in which no text lies, and which keeps the byte out of a negated list all the same. -/
inductive Blocks : Item → UInt8 → Prop
  | empty (byte : UInt8) : Blocks (.range [] []) byte
  | crossed {byte : UInt8} (front : List UInt8) {x y : UInt8} (low high : List UInt8) (h : y < x) :
    Blocks (.range (byte :: (front ++ x :: low)) (byte :: (front ++ y :: high))) byte

end Item

open Search

/-! ## Attempts to match a single element -/

section

variable {c : Setting} {node : Node} {start finish : Nat} {captures : Bindings String}

theorem run_ends (ends : List Nat) (steps : Nat) :
    run c ⟨[.resume ends {} .done 0], [], steps⟩ =
      ⟨match ends.head? with
        | some finish => .found finish .empty
        | none => .missed, steps⟩ := by
  cases ends with
  | nil => rw [run_resume_nil, run_nil]; rfl
  | cons finish ends => rw [run_done]; rfl

theorem Setting.attempt_single_iff {ends : List Nat}
    (hways : ∀ steps, run c ⟨ways c node start {} .done 0, [], steps⟩ =
      run c ⟨[.resume ends {} .done 0], [], steps⟩) :
    (c.attempt (.last node) start).outcome = .found finish captures ↔
      0 < c.limits.steps ∧ ends.head? = some finish ∧ captures = .empty := by
  unfold Setting.attempt
  cases hentry : exceeded? c.limits 0 0 with
  | some cause =>
    -- The step that enters the element is the only one.
    have hsteps : ¬0 < c.limits.steps := by
      intro hpos
      simp [exceeded?, Nat.not_lt.mpr (Nat.succ_le_of_lt hpos)] at hentry
    rw [run_enter_exceeded hentry]
    simp [hsteps]
  | none =>
    have hsteps : 0 < c.limits.steps := (exceeded?_eq_none hentry).1
    rw [run_enter hentry, chainWays, List.append_nil, hways, run_ends]
    cases ends.head? <;> simp [hsteps, eq_comm]

theorem Node.run_end? (node : Node) (steps : Nat)
    (hways : ways c node start {} .done 0 =
      match node.end? c.text start with
      | some finish => [resumeAt finish {} .done 0]
      | none => []) :
    run c ⟨ways c node start {} .done 0, [], steps⟩ =
      run c ⟨[.resume (node.end? c.text start).toList {} .done 0], [], steps⟩ := by
  rw [hways]
  cases node.end? c.text start with
  | none => exact run_resume_nil.symm
  | some finish => rfl

theorem Item.run_ends (i : Item) (steps : Nat) :
    run c ⟨ways c i.node start {} .done 0, [], steps⟩ =
      run c ⟨[.resume (i.ends c.text start) {} .done 0], [], steps⟩ := by
  cases i with
  | literal bytes => exact Node.run_end? (.literal bytes false) steps rfl
  | range low high => rfl
  | byteClass k => exact Node.run_end? (.byteClass k false) steps rfl

end

/-! ## Ranges -/

section

variable {low high candidate : List UInt8} {a b : UInt8}

@[simp] theorem compareShared_self : compareShared low low = .eq := by
  induction low with
  | nil => rfl
  | cons a low ih => simp [compareShared, ih]

theorem compareShared_cons_self :
    compareShared (b :: low) (b :: high) = compareShared low high := by
  simp [compareShared]

theorem compareShared_of_lt (h : a < b) : compareShared (a :: low) (b :: high) = .lt := by
  simp [compareShared, h]

theorem compareShared_of_gt (h : b < a) : compareShared (a :: low) (b :: high) = .gt := by
  simp [compareShared, h, UInt8.lt_asymm h]

/-- One byte string is greater than another one if it is so at the first place where they differ. -/
theorem compareShared_eq_gt_iff :
    compareShared low high = .gt ↔ ∃ front a b low' high',
      low = front ++ a :: low' ∧ high = front ++ b :: high' ∧ b < a := by
  constructor
  · intro h
    fun_induction compareShared low high with
    | case1 => cases h
    | case2 a low b high _ hlt => exact ⟨[], a, b, low, high, rfl, rfl, hlt⟩
    | case3 a low b high hge hle ih =>
      obtain rfl : a = b := UInt8.le_antisymm (UInt8.not_lt.mp hle) (UInt8.not_lt.mp hge)
      obtain ⟨front, x, y, low', high', rfl, rfl, hlt⟩ := ih h
      exact ⟨a :: front, x, y, low', high', rfl, rfl, hlt⟩
    | case4 => cases h
  · rintro ⟨front, a, b, low', high', rfl, rfl, hlt⟩
    induction front with
    | nil => exact compareShared_of_gt hlt
    | cons x front ih => rwa [List.cons_append, List.cons_append, compareShared_cons_self]

theorem inRange_iff : inRange low high candidate = true ↔
    compareShared candidate low ≠ .lt ∧ compareShared candidate high ≠ .gt := by
  simp [inRange]

/-- The first byte of a candidate settles the comparison, or is the first byte of the bound. -/
theorem compareShared_singleton (b : UInt8) (bound : List UInt8) :
    compareShared [b] bound = .eq ∨
      ∀ rest, compareShared (b :: rest) bound = compareShared [b] bound := by
  cases bound with
  | nil => exact .inl rfl
  | cons a bound =>
    by_cases hlt : b < a
    · exact .inr fun rest => by rw [compareShared_of_lt hlt, compareShared_of_lt hlt]
    · by_cases hgt : a < b
      · exact .inr fun rest => by rw [compareShared_of_gt hgt, compareShared_of_gt hgt]
      · exact .inl (by simp [compareShared, hlt, hgt])

/-- A text in a range begins with a byte that lies in the range. -/
theorem inRange_first {rest : List UInt8} (h : inRange low high (b :: rest) = true) :
    inRange low high [b] = true := by
  obtain ⟨hlow, hhigh⟩ := inRange_iff.mp h
  refine inRange_iff.mpr ⟨?_, ?_⟩
  · rcases compareShared_singleton b low with heq | hsame
    · simp [heq]
    · rwa [← hsame rest]
  · rcases compareShared_singleton b high with heq | hsame
    · simp [heq]
    · rwa [← hsame rest]

theorem inRange_bounds {rest : List UInt8} {l h : UInt8}
    (hin : inRange (l :: low) (h :: high) (b :: rest) = true) : l ≤ b ∧ b ≤ h := by
  obtain ⟨hlow, hhigh⟩ := inRange_iff.mp hin
  exact ⟨UInt8.not_lt.mp fun hlt => hlow (compareShared_of_lt hlt),
    UInt8.not_lt.mp fun hlt => hhigh (compareShared_of_gt hlt)⟩

theorem inRange_cons_self :
    inRange (b :: low) (b :: high) (b :: candidate) = inRange low high candidate := by
  rw [inRange, inRange, compareShared_cons_self, compareShared_cons_self]

/-- No text that is long enough to meet the place where two bounds are crossed lies between them. -/
theorem not_inRange_crossed {front low high : List UInt8} {x y : UInt8} (h : y < x)
    {candidate : List UInt8} (hlength : front.length < candidate.length) :
    inRange (front ++ x :: low) (front ++ y :: high) candidate = false := by
  rw [Bool.eq_false_iff]
  intro hin
  induction front generalizing candidate with
  | nil =>
    obtain ⟨a, candidate, rfl⟩ := List.exists_cons_of_length_pos hlength
    obtain ⟨hxa, hay⟩ := inRange_bounds hin
    exact absurd h (UInt8.not_lt.mpr (UInt8.le_trans hxa hay))
  | cons f front ih =>
    obtain ⟨a, candidate, rfl⟩ := List.exists_cons_of_length_pos (Nat.zero_lt_of_lt hlength)
    obtain ⟨hfa, haf⟩ := inRange_bounds hin
    obtain rfl := UInt8.le_antisymm hfa haf
    rw [List.cons_append, List.cons_append, inRange_cons_self] at hin
    exact ih (Nat.lt_of_succ_lt_succ hlength) hin

theorem mem_rangeWidths {width : Nat} : width ∈ rangeWidths low high ↔
    1 ≤ width ∧ min low.length high.length ≤ width ∧ width ≤ max low.length high.length := by
  simp only [rangeWidths, List.mem_reverse, List.mem_range'_1]
  omega

/-- Of the widths that a range tries, one fits a text in the range that begins with the byte, unless
the range keeps the byte out without holding any text. -/
theorem exists_candidate_iff :
    (∃ rest : List UInt8, rest.length + 1 ∈ rangeWidths low high ∧
      inRange low high (b :: rest) = true) ↔
      inRange low high [b] = true ∧ ¬(Item.range low high).Blocks b := by
  simp only [mem_rangeWidths]
  constructor
  · rintro ⟨rest, ⟨-, hleast, hmost⟩, hin⟩
    refine ⟨inRange_first hin, ?_⟩
    rintro (_ | ⟨front, low, high, hxy⟩)
    · simp at hmost
    · rename_i x y
      have hlength : (b :: front).length < (b :: rest).length := by
        simp only [List.length_cons, List.length_append] at hleast ⊢
        omega
      rw [← List.cons_append, ← List.cons_append, not_inRange_crossed hxy hlength] at hin
      cases hin
  · rintro ⟨hin, hblocks⟩
    match low, high with
    | [], [] => exact absurd (.empty b) hblocks
    | [], h :: high => exact ⟨[], by simp, hin⟩
    | l :: low, [] => exact ⟨[], by simp, hin⟩
    | l :: low, h :: high =>
      obtain ⟨hlb, hbh⟩ := inRange_bounds hin
      rcases UInt8.lt_or_eq_of_le hlb with hlt | rfl
      · -- The upper bound itself, but for its first byte, is behind the lower one.
        refine ⟨high, by simp, inRange_iff.mpr ⟨by simp [compareShared_of_gt hlt], ?_⟩⟩
        rcases UInt8.lt_or_eq_of_le hbh with hlt | rfl
        · simp [compareShared_of_lt hlt]
        · simp
      · -- The lower bound itself is in front of the upper one, for they are not crossed.
        refine ⟨low, by simp, inRange_iff.mpr ⟨by simp, fun hgt => hblocks ?_⟩⟩
        rcases UInt8.lt_or_eq_of_le hbh with hlt | rfl
        · rw [compareShared_of_lt hlt] at hgt
          cases hgt
        · rw [compareShared_cons_self] at hgt
          obtain ⟨front, x, y, low', high', rfl, rfl, hxy⟩ := compareShared_eq_gt_iff.mp hgt
          exact .crossed front low' high' hxy

end

/-! ## First bytes of items -/

section

variable {text : ByteArray} {start finish : Nat} {byte : UInt8}

theorem mem_rangeEnds {low high : List UInt8} : finish ∈ rangeEnds text low high false start ↔
    ∃ width ∈ rangeWidths low high, finish = start + width ∧ finish ≤ text.size ∧
      inRange low high (text.extract start finish).toList = true := by
  simp only [rangeEnds, bytesAt?, List.mem_filterMap]
  refine exists_congr fun width => and_congr_right fun _ => ?_
  by_cases hsize : start + width ≤ text.size <;> simp [hsize] <;> grind

theorem toList_extract_all (bytes : List UInt8) :
    ((⟨bytes.toArray⟩ : ByteArray).extract 0 bytes.length).toList = bytes := by
  simp [toList_eq_data, ByteArray.data_extract]

namespace Item

theorem mem_ends_literal {bytes : List UInt8} :
    finish ∈ (Item.literal bytes).ends text start ↔
      finish = start + bytes.length ∧ standsAt text bytes start = true := by
  simp only [ends, node, Node.end?]
  split <;> simp_all

theorem mem_ends_byteClass {k : ByteClass} :
    finish ∈ (Item.byteClass k).ends text start ↔
      finish = start + 1 ∧ ∃ b, text[start]? = some b ∧ k.contains b = true := by
  simp only [ends, node, Node.end?, ByteClass.admits]
  cases text[start]? with
  | none => simp
  | some b => cases hb : k.contains b <;> simp [hb]

/-- An item that ends further on begins with the byte at its start. -/
theorem mayBeginWith_of_ends {i : Item} (hbyte : text[start]? = some byte)
    (hfinish : finish ∈ i.ends text start) (hlong : start < finish) :
    i.mayBeginWith byte = true ∧ ¬i.Blocks byte := by
  cases i with
  | literal bytes =>
    obtain ⟨rfl, hstands⟩ := mem_ends_literal.mp hfinish
    refine ⟨?_, fun hblocks => by cases hblocks⟩
    cases bytes with
    | nil => exact absurd hlong (Nat.lt_irrefl _)
    | cons a bytes =>
      simp only [standsAt, hbyte, Bool.and_eq_true, beq_iff_eq, Option.some.injEq] at hstands
      simp [mayBeginWith, hstands.1]
  | byteClass k =>
    obtain ⟨-, b, hb, hcontains⟩ := mem_ends_byteClass.mp hfinish
    cases hbyte.symm.trans hb
    exact ⟨hcontains, fun hblocks => by cases hblocks⟩
  | range low high =>
    obtain ⟨width, hwidth, rfl, hsize, hin⟩ := mem_rangeEnds.mp hfinish
    obtain ⟨length, rfl⟩ :=
      Nat.exists_eq_succ_of_ne_zero (Nat.ne_of_gt (mem_rangeWidths.mp hwidth).1)
    rw [toList_extract_succ hbyte] at hin
    refine exists_candidate_iff.mp ⟨_, ?_, hin⟩
    rw [length_toList, ByteArray.size_extract]
    convert hwidth using 1
    omega

/-- A byte that an item can begin with is the first one of a text at which the item ends. -/
theorem exists_ends {i : Item} (hbyte : i.mayBeginWith byte = true) (hblocks : ¬i.Blocks byte) :
    ∃ rest : List UInt8, ∃ finish, finish ∈ i.ends ⟨(byte :: rest).toArray⟩ 0 := by
  cases i with
  | literal bytes =>
    obtain ⟨rest, rfl⟩ : ∃ rest, bytes = byte :: rest := by
      cases bytes <;> simp_all [mayBeginWith]
    refine ⟨rest, _, mem_ends_literal.mpr ⟨rfl, standsAt_iff.mpr ?_⟩⟩
    rw [Nat.zero_add, toList_extract_all]
  | byteClass k => exact ⟨[], 1, mem_ends_byteClass.mpr ⟨rfl, byte, rfl, hbyte⟩⟩
  | range low high =>
    obtain ⟨rest, hwidth, hin⟩ := exists_candidate_iff.mpr ⟨hbyte, hblocks⟩
    refine ⟨rest, _, mem_rangeEnds.mpr ⟨_, hwidth, rfl, ?_, ?_⟩⟩
    · exact (Nat.zero_add _).le
    · rwa [Nat.zero_add, ← List.length_cons, toList_extract_all]

/-- The item begins with no byte without going further than it. -/
theorem lt_of_mem_ends {i : Item} (hbyte : i.mayBeginWith byte = true)
    (hfinish : finish ∈ i.ends text start) : start < finish := by
  cases i with
  | literal bytes =>
    obtain ⟨rfl, -⟩ := mem_ends_literal.mp hfinish
    have hne : bytes ≠ [] := by
      rintro rfl
      cases hbyte
    exact Nat.lt_add_of_pos_right (List.length_pos_of_ne_nil hne)
  | byteClass k =>
    obtain ⟨rfl, -⟩ := mem_ends_byteClass.mp hfinish
    exact Nat.lt_succ_self _
  | range low high =>
    obtain ⟨width, hwidth, rfl, -⟩ := mem_rangeEnds.mp hfinish
    exact Nat.lt_add_of_pos_right (mem_rangeWidths.mp hwidth).1

end Item

theorem Item.matches_iff {b : Buffer} {environment : Environment} {limits : Limits}
    {captures : Bindings String} (i : Item) (hb : b.position ≤ b.size) :
    b.Matches { text := b.bytes, environment, limits } (.last i.node) finish captures ↔
      0 < limits.steps ∧ (i.ends b.bytes b.position).head? = some finish ∧ captures = .empty := by
  rw [Buffer.matches_iff (Setting.fits_of rfl) rfl hb]
  exact Setting.attempt_single_iff i.run_ends

/-- The first byte is all there is to know of an item, unless it is a range without any text. -/
theorem Item.canBegin_iff {i : Item} :
    i.CanBegin byte ↔ i.mayBeginWith byte = true ∧ ¬i.Blocks byte := by
  constructor
  · rintro ⟨b, environment, limits, finish, captures, hbyte, hlong, hmatches⟩
    have hb : b.position ≤ b.size := (lt_size_of_getElem? hbyte).le
    obtain ⟨-, hhead, -⟩ := (i.matches_iff hb).mp hmatches
    exact mayBeginWith_of_ends hbyte (List.mem_of_head? hhead) hlong
  · rintro ⟨hbyte, hblocks⟩
    obtain ⟨rest, finish, hfinish⟩ := exists_ends hbyte hblocks
    obtain ⟨first, hfirst⟩ := Option.isSome_iff_exists.mp
      (List.isSome_head?.mpr (List.ne_nil_of_mem hfinish))
    exact ⟨.ofBytes ⟨(byte :: rest).toArray⟩, {}, {}, first, .empty, rfl,
      lt_of_mem_ends hbyte (List.mem_of_head? hfirst),
      (i.matches_iff (Nat.zero_le _)).mpr ⟨by decide, hfirst, rfl⟩⟩

end

/-! ## Negated lists -/

section

variable {items : List Item} {byte : UInt8}

/-- A range that keeps a byte out keeps out every byte between its first ones. -/
theorem Item.Blocks.of_mayBeginWith {i : Item} (h : i.Blocks byte) {other : UInt8}
    (hother : i.mayBeginWith other = true) : i.Blocks other := by
  cases h with
  | empty => exact .empty other
  | crossed front low high hxy =>
    obtain ⟨hle, hge⟩ := inRange_bounds hother
    obtain rfl := UInt8.le_antisymm hle hge
    exact .crossed front low high hxy

theorem Item.Blocks.mayBeginWith {i : Item} (h : i.Blocks byte) : i.mayBeginWith byte = true := by
  cases h with
  | empty => rfl
  | crossed front low high hxy =>
    exact inRange_iff.mpr ⟨by simp [compareShared], by simp [compareShared]⟩

theorem any_mayBeginWith_iff : items.any (·.mayBeginWith byte) = false ↔
    ∀ i ∈ items, ¬i.CanBegin byte ∧ ¬i.Blocks byte := by
  rw [List.any_eq_false]
  refine forall₂_congr fun i _ => ?_
  rw [Item.canBegin_iff]
  constructor
  · exact fun h => ⟨fun hbegin => h hbegin.1, fun hblocks => h hblocks.mayBeginWith⟩
  · exact fun ⟨hbegin, hblocks⟩ h => hbegin ⟨h, hblocks⟩

/-- A negated list ends behind the byte at its start, or nowhere. -/
theorem noneOf_end?_iff {text : ByteArray} {start finish : Nat} (hbyte : text[start]? = some byte) :
    (Node.noneOf items).end? text start = some finish ↔
      finish = start + 1 ∧ ∀ i ∈ items, ¬i.CanBegin byte ∧ ¬i.Blocks byte := by
  rw [← any_mayBeginWith_iff]
  simp only [Node.end?, hbyte]
  cases items.any (·.mayBeginWith byte) <;> simp [eq_comm]

end

/-- A negated list takes exactly one byte, and it takes the byte at its start if no item of the list
can match a text that is not empty and begins with it. Only a range in which no text lies keeps a
byte out for no such text. -/
theorem negated_list_takes_what_no_item_begins (items : List Item) (byte : UInt8) :
    (∀ (b : Buffer) (environment : Environment) (limits : Limits),
      b.byteAt? b.position = some byte → 0 < limits.steps → ∀ finish captures,
        b.Matches { text := b.bytes, environment, limits } (.last (.noneOf items)) finish
            captures ↔
          finish = b.position + 1 ∧ captures = .empty ∧
            ∀ i ∈ items, ¬i.CanBegin byte ∧ ¬i.Blocks byte) ∧
    (∀ (s : Walk.State) (texts : Bindings String) (trail : Trail),
      s.buffer.byteAt? s.position = some byte → ∀ consumed t,
        Walk.single texts trail (.noneOf items) s = (some consumed, t) ↔
          consumed = 1 ∧ t = s.moved (s.position + 1) ∧
            ∀ i ∈ items, ¬i.CanBegin byte ∧ ¬i.Blocks byte) ∧
    ∀ i : Item, i.Blocks byte → ∀ other, ¬i.CanBegin other := by
  refine ⟨fun b environment limits hbyte hsteps finish captures => ?_,
    fun s texts trail hbyte consumed t => ?_, fun i hblocks other hbegin => ?_⟩
  · have hb : b.position ≤ b.size := (lt_size_of_getElem? hbyte).le
    rw [Buffer.matches_iff (Setting.fits_of rfl) rfl hb,
      Setting.attempt_single_iff fun steps => Node.run_end? (.noneOf items) steps rfl]
    have hhead : ∀ o : Option Nat, o.toList.head? = o := fun o => by cases o <;> rfl
    rw [hhead, noneOf_end?_iff hbyte]
    tauto
  · have hs : s.position ≤ s.buffer.size := (lt_size_of_getElem? hbyte).le
    have hend {finish : Nat} :
        (Node.noneOf items).end? s.buffer.bytes s.position = some finish ↔
          finish = s.position + 1 ∧ ∀ i ∈ items, ¬i.CanBegin byte ∧ ¬i.Blocks byte :=
      noneOf_end?_iff hbyte
    rw [Walk.single_eq texts trail _ hs]
    change s.endAt ((Node.noneOf items).end? s.buffer.bytes s.position) = _ ↔ _
    cases hcase : (Node.noneOf items).end? s.buffer.bytes s.position with
    | none =>
      have hkept : ¬∀ i ∈ items, ¬i.CanBegin byte ∧ ¬i.Blocks byte := by
        intro hfree
        cases hcase.symm.trans (hend.mpr ⟨rfl, hfree⟩)
      simp [Walk.State.endAt, hkept]
    | some finish =>
      obtain ⟨rfl, hfree⟩ := hend.mp hcase
      rw [Walk.State.endAt, Nat.add_sub_cancel_left, Prod.mk.injEq, Option.some.injEq]
      constructor
      · rintro ⟨rfl, rfl⟩
        exact ⟨rfl, rfl, hfree⟩
      · rintro ⟨rfl, rfl, -⟩
        exact ⟨rfl, rfl⟩
  · obtain ⟨hother, hfree⟩ := Item.canBegin_iff.mp hbegin
    exact hfree (hblocks.of_mayBeginWith hother)

/-- Between crossed bounds there is no text, and yet the list leaves out the byte that both bounds
begin with. It takes any other one. -/
theorem crossed_range_keeps_byte_out :
    let items := [Item.range [97, 98] [97, 97]]
    let b := Buffer.ofText "ab"
    b.byteAt? 0 = some 97 ∧ (∀ i ∈ items, ¬i.CanBegin 97) ∧
      (∀ finish captures,
        ¬b.Matches { text := b.bytes } (.last (.noneOf items)) finish captures) ∧
      b.byteAt? 1 = some 98 ∧
      Buffer.Matches ⟨b.storage, 1⟩ { text := b.bytes } (.last (.noneOf items)) 2 .empty := by
  intro items b
  obtain ⟨htakes, -, hempty⟩ := negated_list_takes_what_no_item_begins items 97
  obtain ⟨htakes', -, -⟩ := negated_list_takes_what_no_item_begins items 98
  have hblocks : (Item.range [97, 98] [97, 97]).Blocks 97 := .crossed [] [] [] (by decide)
  have hcan : ∀ byte, ¬(Item.range [97, 98] [97, 97]).CanBegin byte := hempty _ hblocks
  have hfree : ¬(Item.range [97, 98] [97, 97]).Blocks 98 :=
    fun h => absurd h.mayBeginWith (by decide)
  refine ⟨by decide +kernel, by simpa [items] using hcan 97, fun finish captures h => ?_,
    by decide +kernel, ?_⟩
  · obtain ⟨-, -, hkept⟩ := (htakes b {} {} (by decide +kernel) (by decide) _ _).mp h
    exact (hkept _ List.mem_cons_self).2 hblocks
  · exact (htakes' ⟨b.storage, 1⟩ {} {} (by decide +kernel) (by decide) _ _).mpr
      ⟨rfl, rfl, by simpa [items] using ⟨hcan 98, hfree⟩⟩

end WordPattern
