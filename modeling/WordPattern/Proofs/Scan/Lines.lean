import Mathlib
import WordPattern.Buffer
import WordPattern.Proofs.Scan.Turns
import WordPattern.Proofs.Text.Bytes

/-!
# Lines of matches

A scan counts the line breaks that each turn passes over, and a turn begins where the one before it
has ended. So the line of a match is told by the line breaks in front of it, whatever the turns
before have matched or kept.
-/

namespace WordPattern

namespace Scan

/-- The number of line breaks below a position. -/
def breaksBelow (text : ByteArray) (position : Nat) : Nat :=
  (List.range position).countP fun p => text[p]? == some 10

variable {text : ByteArray} {c : Setting} {pattern : Chain} {amount : Amount} {s t : State}

theorem breaksBelow_succ (position : Nat) :
    breaksBelow text (position + 1) =
      breaksBelow text position + if text[position]? == some 10 then 1 else 0 := by
  rw [breaksBelow, List.range_succ, List.countP_append, List.countP_singleton]
  rfl

theorem newlines_succ (start length : Nat) :
    newlines text start (start + (length + 1)) =
      (if text[start]? == some 10 then 1 else 0) +
        newlines text (start + 1) (start + 1 + length) := by
  by_cases hstart : start < text.size
  · have hbyte := getElem?_pos text start hstart
    rw [newlines, toList_extract_succ hbyte, hbyte, List.count_cons, Nat.add_comm]
    rfl
  · -- Behind the end of the text both spans are empty.
    have hempty : ∀ first last, text.size ≤ first → newlines text first last = 0 := by
      intro first last hfirst
      have hlength : (text.extract first last).toList.length = 0 := by
        rw [length_toList, ByteArray.size_extract]
        omega
      rw [newlines, List.eq_nil_of_length_eq_zero hlength, List.count_nil]
    have hend : text.size ≤ start := Nat.le_of_not_lt hstart
    rw [getElem?_neg text start hstart, hempty _ _ hend, hempty _ _ (Nat.le_succ_of_le hend)]
    rfl

/-- The line breaks that are passed over are those that come to lie below. -/
theorem breaksBelow_add_newlines (start length : Nat) :
    breaksBelow text start + newlines text start (start + length) =
      breaksBelow text (start + length) := by
  induction length generalizing start with
  | zero => simp [newlines, toList_eq_data]
  | succ length ih =>
    rw [newlines_succ, ← Nat.add_assoc, ← breaksBelow_succ, ih, Nat.add_right_comm start 1,
      Nat.add_assoc start]

/-! ## Turns -/

/-- A scan is on the line of its position, and has given every match kept the line it begins on. -/
structure State.OnLine (c : Setting) (s : State) : Prop where
  line : s.line = 1 + breaksBelow c.text s.position
  kept : ∀ m ∈ s.kept, m.line = 1 + breaksBelow c.text m.offset

theorem State.OnLine.start : State.OnLine c {} := ⟨rfl, fun _ => nofun⟩

theorem State.OnLine.move {next : Nat} (h : s.OnLine c) (hnext : s.position ≤ next) :
    (s.move c.text next).OnLine c := by
  refine ⟨?_, h.kept⟩
  obtain ⟨length, rfl⟩ := Nat.exists_eq_add_of_le hnext
  change s.line + newlines c.text s.position (s.position + length) = _
  rw [h.line, Nat.add_assoc, breaksBelow_add_newlines]
  rfl

theorem State.OnLine.record (h : s.OnLine c) (finish : Nat) (captures : Bindings String) :
    (s.record amount c.text finish captures).OnLine c := by
  refine ⟨?_, ?_⟩
  · rw [State.record_line, State.record_position]
    exact h.line
  · rw [State.record_kept]
    split
    · exact List.forall_mem_cons.mpr ⟨h.line, h.kept⟩
    · exact h.kept

theorem Turn.onLine (hturn : Turn c pattern amount s t) (h : s.OnLine c) : t.OnLine c := by
  cases hturn with
  | missed => exact h.move (Nat.le_succ _)
  | @found finish captures =>
    refine (h.record finish captures).move ?_
    rw [State.record_position]
    exact (s.lt_behind finish).le

theorem Turns.onLine (h : Turns c pattern amount {} t) : t.OnLine c :=
  h.keep (fun _ _ hturn hs => hturn.onLine hs) State.OnLine.start

end Scan

/-- The line of every match that a scan gives is one more than the number of line breaks at the
positions below its offset, whatever the amount and the limits are. -/
theorem lines_count_breaks_below (b : Buffer) (environment : Environment) (limits : Limits)
    (pattern : Chain) (amount : Amount) (found : List Match) :
    let c : Setting := { text := b.bytes, environment, limits }
    c.scan pattern amount = .ok found →
      ∀ m ∈ found, m.line = 1 + (List.range m.offset).countP fun p => b.byteAt? p == some 10 := by
  intro c hscan m hm
  obtain ⟨t, hturns, -, rfl⟩ := Scan.scan_ok_iff.mp hscan
  exact hturns.onLine.kept m (List.mem_reverse.mp hm)

/-- The first match is empty and dropped, the second one lies on two line breaks, and the third one
is empty and stands behind them. -/
theorem breaks_are_counted_once :
    let b := Buffer.ofText "\na\n\nb"
    let c : Setting := { text := b.bytes }
    let pattern := Chain.last (.or (.literal [10, 10] false) (.anchor .lineEnd))
    let found : List Match :=
      [⟨2, 2, "\n\n", .empty, 2, 2, none⟩, ⟨5, 0, "", .empty, 4, 3, none⟩]
    c.scan pattern { skip := 1 } = .ok found ∧
      ∀ m ∈ found, m.line = 1 + (List.range m.offset).countP fun p => b.byteAt? p == some 10 := by
  intro b c pattern found
  have hscan : c.scan pattern { skip := 1 } = .ok found := by cbv
  exact ⟨hscan, lines_count_breaks_below b {} {} pattern { skip := 1 } found hscan⟩

end WordPattern
