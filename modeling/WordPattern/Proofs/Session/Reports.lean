import Mathlib
import WordPattern.Proofs.Text.Quoted
import WordPattern.Proofs.Token.Written
import WordPattern.Session.Run

/-!
# Reports tell their matches

The line breaks of a report are those between its lines: the texts of a match stand between quotes,
and its names are words. So a line says by its beginning whether a match, a capture or a replacement
is shown on it, and every field is told in front of what stands behind it.
-/

namespace WordPattern

open Text

/-! ## Lines moved to the right -/

/-- The characters of a text whose lines are moved to the right, all but the first one. -/
def indented (chars : List Char) : List Char :=
  chars.flatMap fun c => if c == '\n' then ['\n', ' ', ' '] else [c]

theorem toList_indentLines (text : String) : (indentLines text).toList = indented text.toList :=
  String.toList_ofList

theorem indented_cons (c : Char) (chars : List Char) :
    indented (c :: chars) = (if c == '\n' then ['\n', ' ', ' '] else [c]) ++ indented chars :=
  List.flatMap_cons

theorem indented_append (front back : List Char) :
    indented (front ++ back) = indented front ++ indented back := List.flatMap_append

theorem indented_flatMap {α : Type} (list : List α) (write : α → List Char) :
    indented (list.flatMap write) = list.flatMap fun a => indented (write a) :=
  List.flatMap_assoc

theorem indented_of_notMem {chars : List Char} (h : '\n' ∉ chars) : indented chars = chars := by
  induction chars with
  | nil => rfl
  | cons c chars ih =>
    rw [List.mem_cons, not_or] at h
    have hc : ¬ (c == '\n') = true := fun hc => h.1 (eq_of_beq hc).symm
    rw [indented_cons, ih h.2, if_neg hc, List.singleton_append]

@[simp] theorem indented_quote (text : String) :
    indented (quote text).toList = (quote text).toList :=
  indented_of_notMem (newline_notMem_quote text)

@[simp] theorem indented_count (n : Nat) : indented (Nat.toDigits 10 n) = Nat.toDigits 10 n :=
  indented_of_notMem fun h => Bool.false_ne_true (isDigit_of_mem_toDigits _ h)

/-! ## The lines of a match -/

namespace Match

/-- A name that a capture can have. -/
def IsName (name : String) : Prop := IsRun continuesWord name.toList

theorem indented_name {name : String} (h : IsName name) : indented name.toList = name.toList :=
  indented_of_notMem fun hmem => Bool.false_ne_true (h.2 _ hmem)

/-- What the lines of captures and replacements begin with. -/
def margin : List Char := '\n' :: List.replicate 6 ' '

/-- The line with the fields of a match. -/
def headLine (m : Match) : List Char :=
  '#' :: (Nat.toDigits 10 m.number ++ ' ' :: ("offset ".toList ++ (Nat.toDigits 10 m.offset ++
    ' ' :: ("line ".toList ++ (Nat.toDigits 10 m.line ++ ' ' :: ("length ".toList ++
      (Nat.toDigits 10 m.length ++ ':' :: ' ' :: (quote m.value).toList)))))))

def captureLine (entry : String × String) : List Char :=
  margin ++ '@' :: (entry.1.toList ++ ' ' :: ("= ".toList ++ (quote entry.2).toList))

def replacementLine : Option String → List Char
  | some text => margin ++ ("replaced with ".toList ++ (quote text).toList)
  | none => []

/-- A match as it stands in a report. -/
def lines (m : Match) : List Char :=
  m.headLine ++ (m.captures.entries.flatMap captureLine ++ replacementLine m.replacement)

/-- Its captures have names. -/
def Named (m : Match) : Prop := ∀ entry ∈ m.captures.entries, IsName entry.1

theorem indented_capture {entry : String × String} (h : IsName entry.1) :
    indented ("\n    @" ++ entry.1 ++ " = " ++ quote entry.2).toList = captureLine entry := by
  simp [indented_append, indented_cons, indented_name h, captureLine, margin]

theorem indented_captures {m : Match} (h : m.Named) :
    indented ((m.captures.entries.map fun entry =>
      "\n    @" ++ entry.1 ++ " = " ++ quote entry.2).flatMap String.toList) =
      m.captures.entries.flatMap captureLine := by
  rw [List.flatMap_map, indented_flatMap]
  exact List.flatMap_congr fun entry hentry => indented_capture (h entry hentry)

theorem indented_display {m : Match} (h : m.Named) : indented m.display.toList = m.lines := by
  have hcaptures := indented_captures h
  cases hreplacement : m.replacement <;>
    simp [display, hreplacement, hcaptures, indented_append, indented_cons, lines, headLine,
      replacementLine, margin]

/-! ## Told in front of what follows -/

variable {a b : Match} {s t : List Char}

/-- No line of a capture or a replacement stands at the front. -/
def Outside (s : List Char) : Prop := ∀ r, s ≠ margin ++ r

theorem headLine_append_inj (h : a.headLine ++ s = b.headLine ++ t) :
    (a.number = b.number ∧ a.offset = b.offset ∧ a.line = b.line ∧ a.length = b.length ∧
      a.value = b.value) ∧ s = t := by
  have hspace (chars : List Char) : StopsAt Char.isDigit (' ' :: chars) := stopsAt_cons rfl
  have hcolon (chars : List Char) : StopsAt Char.isDigit (':' :: chars) := stopsAt_cons rfl
  simp only [headLine, List.cons_append, List.append_assoc] at h
  obtain ⟨hnumber, h⟩ := count_append_inj (hspace _) (hspace _) (List.cons_injective h)
  have h := List.append_cancel_left (List.cons_injective h)
  obtain ⟨hoffset, h⟩ := count_append_inj (hspace _) (hspace _) h
  have h := List.append_cancel_left (List.cons_injective h)
  obtain ⟨hline, h⟩ := count_append_inj (hspace _) (hspace _) h
  have h := List.append_cancel_left (List.cons_injective h)
  obtain ⟨hlength, h⟩ := count_append_inj (hcolon _) (hcolon _) h
  obtain ⟨hvalue, h⟩ := quote_append_inj (List.cons_injective (List.cons_injective h))
  exact ⟨⟨hnumber, hoffset, hline, hlength, hvalue⟩, h⟩

theorem tells_captureLine :
    Tells (fun entry => IsName entry.1) (fun _ => True) captureLine := by
  intro x y s t hx hy _ _ h
  have hspace (chars : List Char) : StopsAt continuesWord (' ' :: chars) :=
    stopsAt_cons rfl
  simp only [captureLine, List.append_assoc, List.cons_append] at h
  have h := List.cons_injective (List.append_cancel_left h)
  obtain ⟨hname, h⟩ := run_append_inj hx.2 hy.2 (hspace _) (hspace _) h
  obtain ⟨hvalue, h⟩ := quote_append_inj (List.append_cancel_left (List.cons_injective h))
  exact ⟨Prod.ext (String.toList_injective hname) hvalue, h⟩

theorem replacement_append_ne {replacement : Option String} (hs : Outside s)
    (entry : String × String) (r : List Char) :
    replacementLine replacement ++ s ≠ captureLine entry ++ r := by
  intro h
  cases replacement with
  | none =>
    rw [captureLine, List.append_assoc] at h
    exact hs _ h
  | some text =>
    simp only [replacementLine, captureLine, List.append_assoc] at h
    have h := List.append_cancel_left h
    cases h

theorem replacement_append_inj {first second : Option String} (hs : Outside s) (ht : Outside t)
    (h : replacementLine first ++ s = replacementLine second ++ t) : first = second ∧ s = t := by
  cases first <;> cases second
  case none.none => exact ⟨rfl, h⟩
  case none.some text =>
    rw [replacementLine, replacementLine, List.append_assoc] at h
    exact absurd h (hs _)
  case some.none text =>
    rw [replacementLine, replacementLine, List.append_assoc] at h
    exact absurd h.symm (ht _)
  case some.some text other =>
    simp only [replacementLine, List.append_assoc] at h
    obtain ⟨htext, h⟩ := quote_append_inj (List.append_cancel_left (List.append_cancel_left h))
    exact ⟨congrArg some htext, h⟩

theorem tells_lines : Tells Named Outside lines := by
  intro a b s t ha hb hs ht h
  have hends {s : List Char} (hs : Outside s) (replacement : Option String) :
      EndsList (fun entry => IsName entry.1) (fun _ => True) captureLine
        (replacementLine replacement ++ s) :=
    ⟨trivial, fun entry r _ => replacement_append_ne hs entry r⟩
  simp only [lines, List.append_assoc] at h
  obtain ⟨⟨hnumber, hoffset, hline, hlength, hvalue⟩, h⟩ := headLine_append_inj h
  obtain ⟨hcaptures, h⟩ := tells_captureLine.flatMap_append_inj (fun _ _ _ => trivial) ha hb
    (hends hs _) (hends ht _) h
  obtain ⟨hreplacement, h⟩ := replacement_append_inj hs ht h
  have hbindings : a.captures = b.captures := congrArg Bindings.mk hcaptures
  cases a
  cases b
  simp_all

theorem outside_nil : Outside [] := by
  rintro r ⟨⟩

theorem outside_cons {c : Char} (h : c ≠ ' ') : Outside ('\n' :: ' ' :: ' ' :: c :: s) := by
  intro r heq
  simp only [margin, List.replicate, List.cons_append, List.cons.injEq, h, false_and,
    and_false] at heq

/-- A match as it follows the line that sums the report up. -/
def below (m : Match) : List Char := '\n' :: ' ' :: ' ' :: m.lines

theorem tells_below : Tells Named Outside below := by
  intro a b s t ha hb hs ht h
  have h := List.cons_injective (List.cons_injective (List.cons_injective h))
  exact tells_lines ha hb hs ht h

theorem endsList_nil : EndsList Named Outside below [] := by
  refine ⟨outside_nil, ?_⟩
  rintro m r - ⟨⟩

theorem below_inj {first second : List Match} (hfirst : ∀ m ∈ first, m.Named)
    (hsecond : ∀ m ∈ second, m.Named) (h : first.flatMap below = second.flatMap below) :
    first = second := by
  have htail (m : Match) (s : List Char) : Outside (below m ++ s) :=
    outside_cons (by decide)
  rw [← List.append_nil (first.flatMap below), ← List.append_nil (second.flatMap below)] at h
  exact (tells_below.flatMap_append_inj (fun m s _ => htail m s) hfirst hsecond endsList_nil
    endsList_nil h).1

end Match

/-! ## Reports -/

theorem Report.toList_display {r : Report} (h : ∀ m ∈ r.found, m.Named) :
    r.display.toList = r.input.toList ++ (": statement ".toList ++
      (Nat.toDigits 10 r.statement ++ (": ".toList ++ (Nat.toDigits 10 r.found.length ++
        ((if r.found.length = 1 then " match" else " matches").toList ++
          r.found.flatMap Match.below))))) := by
  have hfound : (r.found.map fun m => "\n  " ++ indentLines m.display).flatMap String.toList =
      r.found.flatMap Match.below := by
    rw [List.flatMap_map]
    refine List.flatMap_congr fun m hm => ?_
    simp [toList_indentLines, Match.indented_display (h m hm), Match.below]
  simp only [display, String.toList_append, String.toList_join, hfound, Nat.toString_eq_repr,
    Nat.toList_repr, List.append_assoc]

theorem stopsAt_matches {n : Nat} {s : List Char} :
    StopsAt Char.isDigit ((if n = 1 then " match" else " matches").toList ++ s) := by
  split <;> exact stopsAt_cons rfl

/-- Reports on one input and one statement that look alike show the same matches, whatever texts
were matched. -/
theorem reports_tell_their_matches (input : String) (statement : Nat) {first second : List Match}
    (hnames : ∀ m ∈ first ++ second, ∀ entry ∈ m.captures.entries,
      (Lexeme.variableName entry.1).Occurs)
    (h : (Report.mk input statement first).display = (Report.mk input statement second).display) :
    first = second := by
  have hnamed : ∀ m ∈ first ++ second, m.Named := fun m hm entry hentry =>
    Lexeme.occurs_iff.mp (hnames m hm entry hentry)
  obtain ⟨hfirst, hsecond⟩ := List.forall_mem_append.mp hnamed
  have hchars := congrArg String.toList h
  rw [Report.toList_display hfirst, Report.toList_display hsecond] at hchars
  have hchars := List.append_cancel_left (List.append_cancel_left hchars)
  have hchars := List.append_cancel_left (List.append_cancel_left hchars)
  obtain ⟨hlength, hchars⟩ := count_append_inj stopsAt_matches stopsAt_matches hchars
  simp only [hlength] at hchars
  exact Match.below_inj hfirst hsecond (List.append_cancel_left hchars)

/-- A match whose value looks like lines of a report. -/
def Match.imitation (captures : List (String × String)) : Match where
  offset := 7
  length := 40
  value := "\"\n      @b = \"2\"\n  #2 offset 9"
  captures := .ofList captures
  line := 2
  number := 1
  replacement := some "\\"

/-- The order in which names were bound is not shown, and it is not a difference. -/
theorem imitations_are_told :
    (Report.mk "log.txt" 1 [.imitation [("b", "2"), ("a", "\n")]]).display =
        (Report.mk "log.txt" 1 [.imitation [("a", "\n"), ("b", "2")]]).display ∧
      [Match.imitation [("b", "2"), ("a", "\n")]] = [Match.imitation [("a", "\n"), ("b", "2")]] := by
  have h : (Report.mk "log.txt" 1 [.imitation [("b", "2"), ("a", "\n")]]).display =
      (Report.mk "log.txt" 1 [.imitation [("a", "\n"), ("b", "2")]]).display := by
    decide +kernel
  have hnames : ∀ m ∈ [Match.imitation [("b", "2"), ("a", "\n")]] ++
      [Match.imitation [("a", "\n"), ("b", "2")]], ∀ entry ∈ m.captures.entries,
      (Lexeme.variableName entry.1).Occurs := by
    have hlast : (Match.imitation [("b", "2"), ("a", "\n")]).captures.entries =
      [("a", "\n"), ("b", "2")] := by decide +kernel
    have hfirst : (Match.imitation [("a", "\n"), ("b", "2")]).captures.entries =
      [("a", "\n"), ("b", "2")] := by decide +kernel
    have ha : (Lexeme.variableName "a").Occurs := Lexeme.occurs_iff.mpr (isRun_of_all rfl rfl)
    have hb : (Lexeme.variableName "b").Occurs := Lexeme.occurs_iff.mpr (isRun_of_all rfl rfl)
    rw [List.forall_mem_append, List.forall_mem_singleton, List.forall_mem_singleton, hlast, hfirst]
    exact ⟨by simp [ha, hb], by simp [ha, hb]⟩
  exact ⟨h, reports_tell_their_matches "log.txt" 1 hnames h⟩

end WordPattern
