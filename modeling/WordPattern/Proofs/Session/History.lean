import WordPattern.Proofs.Session.Flush
import WordPattern.Session.Recorded

/-!
# Histories of sessions

Whatever is done with a session comes down to small changes, and whatever is asked of the files
belongs to one of them. A history lists the changes, the last one first.
-/

namespace WordPattern

/-- Something has been read, or could not be written. -/
def Exchange.isIdle : Exchange → Bool
  | .read .. => true
  | .write _ _ (.error _) => true
  | .write _ _ (.ok _) => false

theorem Exchange.isIdle_of_mem_given {files : List (String × ByteArray)} {x : Exchange}
    (hx : x ∈ files.map Exchange.given) : x.isIdle = true := by
  obtain ⟨file, -, rfl⟩ := List.mem_map.mp hx
  rfl

namespace Change

/-- What a change asks of the files. -/
def exchanges : Change → List Exchange
  | addFile _ file => [.given file]
  | save _ file => [.written file]
  | take files => files.map .given
  | ask x => [x]
  | _ => []

@[simp] theorem of_written (place : Nat) (file : String × ByteArray) :
    Change.of place (.written file) = save place file := rfl

/-- The file that is opened at a place. -/
def opened? (k : Nat) : Change → Option (String × ByteArray)
  | addFile place file => if place = k then some file else none
  | take files => files[k]?
  | _ => none

/-- What is at a place from now on has not been there before. -/
def begins (k : Nat) : Change → Bool
  | addFile place _ => place == k
  | take _ => true
  | _ => false

/-- The contents of the input at a place are replaced. -/
def rewrites (k : Nat) : Change → Bool
  | rewrite place _ => place == k
  | _ => false

/-- The file that the input at a place is written to, and what is written. -/
def saved? (k : Nat) : Change → Option (String × ByteArray)
  | save place file => if place = k then some file else none
  | _ => none

/-- The part of a history in which an input has been at its place. -/
def since (k : Nat) (history : List Change) : List Change :=
  history.takeWhile fun c => !c.begins k

theorem since_cons {k : Nat} {c : Change} {history : List Change} (h : c.begins k = false) :
    since k (c :: history) = c :: since k history := by
  rw [since, List.takeWhile_cons_of_pos (by simp [h])]
  rfl

theorem since_of_begins {k : Nat} {c : Change} {history : List Change} (h : c.begins k = true) :
    since k (c :: history) = [] := by
  rw [since, List.takeWhile_cons_of_neg (by simp [h])]

/-- The input at a place has been replaced since it was opened. -/
def isReplaced (k : Nat) (history : List Change) : Bool := (since k history).any (·.rewrites k)

/-- What has last been written of the input at a place since it was opened. -/
def lastSaved? (k : Nat) (history : List Change) : Option (String × ByteArray) :=
  (since k history).findSome? (·.saved? k)

end Change

namespace Session

/-- A session after a change. -/
def after (s : Session) : Change → Session
  | .addText name text => s.addText name text
  | .addFile _ file => { s with inputs := s.inputs ++ [.ofFile file.1 file.2] }
  | .rewrite place contents => { s with inputs := s.inputs.modify place (·.replace contents) }
  | .save place file =>
    { s with inputs := s.inputs.modify place Input.saved, written := s.written ++ [file.1] }
  | .take files => { s with inputs := files.map fun file => .ofFile file.1 file.2 }
  | .assign globals => { s with globals }
  | .ask _ => s

/-- A change that can happen at a session. What is written is what is pending. -/
def Admits (s : Session) : Change → Prop
  | .addFile place _ => place = s.inputs.length
  | .rewrite place _ => place < s.inputs.length
  | .save place file => ∃ i, s.inputs[place]? = some i ∧ i.pending? = some file
  | .ask x => x.isIdle = true
  | _ => True

/-- A history with all its exchanges leads from one session to another. -/
inductive Leads (s : Session) : List Change → List Exchange → Session → Prop
  | start : s.Leads [] [] s
  | change {history : List Change} {xs : List Exchange} {s' : Session} {c : Change}
    (h : s.Leads history xs s') (hc : s'.Admits c) :
    s.Leads (c :: history) (xs ++ c.exchanges) (s'.after c)

/-- No input that has a file is dirty. -/
def IsSaved (s : Session) : Prop := ∀ i ∈ s.inputs, i.path = none ∨ i.dirty = false

theorem isSaved_of_flush_ok {s s' : Session} {xs : List Exchange}
    (h : (s.flush : Dialogue _).ComesTo xs (s', none)) : s'.IsSaved :=
  fun i hi => Input.pending?_eq_none_iff.mp (pending?_of_flush_ok h i hi)

/-- A history leads from one session to another, and gives inputs up only where they are saved. -/
structure LeadsSafely (s : Session) (history : List Change) (xs : List Exchange) (s' : Session) :
    Prop where
  leads : s.Leads history xs s'
  takes : ∀ later files earlier, history = later ++ .take files :: earlier →
    ∃ ys s₀, s.Leads earlier ys s₀ ∧ s₀.IsSaved

/-! ## Histories in a row -/

variable {s s₁ s' : Session} {xs ys : List Exchange} {earlier later : List Change}

theorem Leads.trans (h : s.Leads earlier xs s₁) (h' : s₁.Leads later ys s') :
    s.Leads (later ++ earlier) (xs ++ ys) s' := by
  induction h' with
  | start => rwa [List.append_nil]
  | change _ hc ih =>
    rw [← List.append_assoc]
    exact ih.change hc

namespace LeadsSafely

theorem refl (s : Session) : s.LeadsSafely [] [] s where
  leads := .start
  takes := by simp

theorem trans (h : s.LeadsSafely earlier xs s₁) (h' : s₁.LeadsSafely later ys s') :
    s.LeadsSafely (later ++ earlier) (xs ++ ys) s' where
  leads := h.leads.trans h'.leads
  takes := by
    intro behind files before heq
    -- The files are taken in the later part, in front of which stands all of the earlier one, or in
    -- the earlier part.
    rcases List.append_eq_append_iff.mp heq with
      ⟨front, rfl, hearlier⟩ | ⟨_ | ⟨c, front⟩, rfl, hearlier⟩
    · exact h.takes front files before hearlier
    · exact h.takes [] files before hearlier.symm
    · cases hearlier
      obtain ⟨zs, s₀, hleads, hsaved⟩ := h'.takes behind files front rfl
      exact ⟨xs ++ zs, s₀, h.leads.trans hleads, hsaved⟩

theorem of_change {c : Change} (hc : s.Admits c) (htake : ∀ files, c ≠ .take files) :
    s.LeadsSafely [c] c.exchanges (s.after c) where
  leads := Leads.start.change hc
  takes := by
    intro later files earlier heq
    have hmem : .take files ∈ [c] := heq ▸ List.mem_append_right _ List.mem_cons_self
    exact absurd (List.mem_singleton.mp hmem).symm (htake files)

theorem of_take (files : List (String × ByteArray)) (hs : s.IsSaved) :
    s.LeadsSafely [.take files] (files.map .given) (s.after (.take files)) where
  leads := Leads.start.change trivial
  takes := by
    intro later files' earlier heq
    obtain ⟨rfl, heq⟩ | ⟨_, -, hnil⟩ := List.cons_eq_append_iff.mp heq
    · cases heq
      exact ⟨[], s, .start, hs⟩
    · simp at hnil

theorem of_idle (h : ∀ x ∈ xs, x.isIdle = true) :
    s.LeadsSafely (xs.map .ask).reverse xs s := by
  induction xs with
  | nil => exact .refl s
  | cons x rest ih =>
    obtain ⟨hx, hrest⟩ := List.forall_mem_cons.mp h
    rw [List.map_cons, List.reverse_cons]
    exact (of_change (c := .ask x) hx fun _ => Change.noConfusion).trans (ih hrest)

end LeadsSafely

end Session

end WordPattern
