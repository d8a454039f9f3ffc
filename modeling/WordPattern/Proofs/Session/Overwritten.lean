import Mathlib
import WordPattern.Proofs.Session.Recorded

/-!
# Files of inputs that are written over

The file of an input is left as it is, unless it is the file in which another input is saved.
-/

namespace WordPattern

/-- The contents of files, by the spots where the files are. Several paths may lead to one spot. -/
def Disk (α : Type) : Type := α → Option ByteArray

namespace Disk

variable {α : Type} [DecidableEq α] {spot : String → α} {disk disk' : Disk α}
  {xs ys : List Exchange}

/-- A disk with contents at a spot. -/
def put (disk : Disk α) (a : α) (contents : ByteArray) : Disk α :=
  fun b => if b = a then some contents else disk b

/-- Exchanges take one disk to another: what is read stands there, what has been written stands
there from then on, and nothing else changes. -/
inductive Follows (spot : String → α) : Disk α → List Exchange → Disk α → Prop
  | nil {disk : Disk α} : Follows spot disk [] disk
  | given {disk disk' : Disk α} {path : String} {contents : ByteArray} {rest : List Exchange}
    (hread : disk (spot path) = some contents) (h : Follows spot disk rest disk') :
    Follows spot disk (.read path (.ok contents) :: rest) disk'
  | written {disk disk' : Disk α} {path : String} {contents : ByteArray} {rest : List Exchange}
    (h : Follows spot (disk.put (spot path) contents) rest disk') :
    Follows spot disk (.write path contents (.ok ()) :: rest) disk'
  | unread {disk disk' : Disk α} {path : String} {fault : Fault} {rest : List Exchange}
    (h : Follows spot disk rest disk') :
    Follows spot disk (.read path (.error fault) :: rest) disk'
  | unwritten {disk disk' : Disk α} {path : String} {contents : ByteArray} {fault : Fault}
    {rest : List Exchange} (h : Follows spot disk rest disk') :
    Follows spot disk (.write path contents (.error fault) :: rest) disk'

theorem Follows.split (h : Follows spot disk (xs ++ ys) disk') :
    ∃ disk₁, Follows spot disk xs disk₁ ∧ Follows spot disk₁ ys disk' := by
  induction xs generalizing disk with
  | nil => exact ⟨disk, .nil, h⟩
  | cons x rest ih =>
    cases h with
    | given hread h =>
      obtain ⟨disk₁, hfirst, hlast⟩ := ih h
      exact ⟨disk₁, .given hread hfirst, hlast⟩
    | written h =>
      obtain ⟨disk₁, hfirst, hlast⟩ := ih h
      exact ⟨disk₁, .written hfirst, hlast⟩
    | unread h =>
      obtain ⟨disk₁, hfirst, hlast⟩ := ih h
      exact ⟨disk₁, .unread hfirst, hlast⟩
    | unwritten h =>
      obtain ⟨disk₁, hfirst, hlast⟩ := ih h
      exact ⟨disk₁, .unwritten hfirst, hlast⟩

/-- Where nothing is written, nothing changes, and what is read stands there. -/
theorem Follows.of_idle (h : Follows spot disk xs disk') (hidle : ∀ x ∈ xs, x.isIdle = true) :
    disk' = disk ∧ ∀ file, .given file ∈ xs → disk (spot file.1) = some file.2 := by
  induction h with
  | nil => exact ⟨rfl, fun _ hfile => absurd hfile List.not_mem_nil⟩
  | given hread _ ih =>
    obtain ⟨rfl, hrest⟩ := ih (List.forall_mem_cons.mp hidle).2
    refine ⟨rfl, fun file hfile => ?_⟩
    rcases List.mem_cons.mp hfile with heq | hfile
    · cases heq
      exact hread
    · exact hrest file hfile
  | written => cases (List.forall_mem_cons.mp hidle).1
  | unread _ ih | unwritten _ ih =>
    obtain ⟨rfl, hrest⟩ := ih (List.forall_mem_cons.mp hidle).2
    refine ⟨rfl, fun file hfile => ?_⟩
    rcases List.mem_cons.mp hfile with heq | hfile
    · cases heq
    · exact hrest file hfile

end Disk

namespace Change

variable {α : Type} [DecidableEq α]

/-- The file that the input at a place has been opened from, as it was then. -/
def openedAs? (k : Nat) (history : List Change) : Option (String × ByteArray) :=
  (history.find? (·.begins k)).bind (·.opened? k)

/-- The contents that a change puts at a spot. -/
def put? (spot : String → α) (a : α) : Change → Option ByteArray
  | save _ file => if a = spot file.1 then some file.2 else none
  | _ => none

/-- The contents last put at a spot since the input at a place was opened. -/
def lastPut? (spot : String → α) (a : α) (k : Nat) (history : List Change) : Option ByteArray :=
  (since k history).findSome? (·.put? spot a)

variable {spot : String → α} {a : α} {k : Nat} {c : Change} {history : List Change}
  {s s' : Session} {disk disk' : Disk α}

theorem openedAs?_of_begins (h : c.begins k = true) :
    openedAs? k (c :: history) = c.opened? k := by
  rw [openedAs?, List.find?_cons_of_pos h]
  rfl

theorem openedAs?_cons (h : c.begins k = false) :
    openedAs? k (c :: history) = openedAs? k history := by
  rw [openedAs?, List.find?_cons_of_neg (by simp [h])]
  rfl

theorem lastPut?_of_begins (h : c.begins k = true) :
    lastPut? spot a k (c :: history) = none := by
  rw [lastPut?, since_of_begins h]
  rfl

theorem lastPut?_cons (h : c.begins k = false) :
    lastPut? spot a k (c :: history) = (c.put? spot a).or (lastPut? spot a k history) := by
  rw [lastPut?, since_cons h, List.findSome?_cons]
  cases c.put? spot a <;> rfl

/-- The file of the input at a place holds what it held when it was opened, or what has been put
there since. -/
def StandsAt (spot : String → α) (k : Nat) (history : List Change) (s : Session) (disk : Disk α) :
    Prop :=
  ∀ i path, s.inputs[k]? = some i → i.path = some path →
    ∃ contents, openedAs? k history = some (path, contents) ∧
      disk (spot path) = some ((lastPut? spot (spot path) k history).getD contents)

theorem isIdle_of_mem_exchanges (hc : s.Admits c) (hsave : ∀ place file, c ≠ .save place file)
    {x : Exchange} (hx : x ∈ c.exchanges) : x.isIdle = true := by
  cases c with
  | addFile place file =>
    obtain rfl := List.mem_singleton.mp hx
    rfl
  | save place file => exact absurd rfl (hsave place file)
  | take files => exact Exchange.isIdle_of_mem_given hx
  | ask y =>
    obtain rfl := List.mem_singleton.mp hx
    exact hc
  | addText | rewrite | assign => cases hx

/-- A disk changes at the spot where an input is saved. -/
theorem disk_after (hc : s.Admits c) (h : Disk.Follows spot disk c.exchanges disk') (a : α) :
    disk' a = (c.put? spot a).or (disk a) := by
  by_cases hsave : ∃ place file, c = .save place file
  · obtain ⟨place, file, rfl⟩ := hsave
    cases h with
    | written h =>
      cases h
      rw [put?, Disk.put]
      split <;> rfl
  · simp only [not_exists] at hsave
    obtain ⟨rfl, -⟩ := h.of_idle fun _ hx => isIdle_of_mem_exchanges hc hsave hx
    cases c with
    | save place file => exact absurd rfl (hsave place file)
    | _ => rfl

theorem input_further {inputs : List Input} {last i : Input}
    (h : (inputs ++ [last])[k]? = some i) : inputs[k]? = some i ∨ k = inputs.length ∧ i = last := by
  rw [List.getElem?_append] at h
  split at h
  · exact .inl h
  · obtain ⟨hk, rfl⟩ := List.getElem?_eq_some_iff.mp h
    simp only [List.length_singleton] at hk
    exact .inr ⟨by omega, List.getElem_singleton _⟩

theorem input_modified {inputs : List Input} {place : Nat} {f : Input → Input} {i' : Input}
    (hf : ∀ i, (f i).path = i.path) (h : (inputs.modify place f)[k]? = some i') :
    ∃ i, inputs[k]? = some i ∧ i.path = i'.path := by
  rw [List.getElem?_modify] at h
  obtain ⟨i, hi, rfl⟩ := Option.map_eq_some_iff.mp h
  refine ⟨i, hi, ?_⟩
  split
  · exact (hf i).symm
  · rfl

/-- An input with a file that is not opened by a change has been there before. -/
theorem input_before (hc : s.Admits c) (hbegins : c.begins k = false) {i' : Input} {path : String}
    (hi' : (s.after c).inputs[k]? = some i') (hpath : i'.path = some path) :
    ∃ i, s.inputs[k]? = some i ∧ i.path = some path := by
  cases c with
  | addText name text =>
    rcases input_further hi' with hi | ⟨-, rfl⟩
    · exact ⟨i', hi, hpath⟩
    · cases hpath
  | addFile place file =>
    rcases input_further hi' with hi | ⟨rfl, -⟩
    · exact ⟨i', hi, hpath⟩
    · exact absurd hc (beq_eq_false_iff_ne.mp hbegins)
  | rewrite place contents =>
    obtain ⟨i, hi, heq⟩ := input_modified (f := (·.replace contents)) (fun _ => rfl) hi'
    exact ⟨i, hi, heq.trans hpath⟩
  | save place file =>
    obtain ⟨i, hi, heq⟩ := input_modified Input.saved_path hi'
    exact ⟨i, hi, heq.trans hpath⟩
  | take files => cases hbegins
  | assign | ask => exact ⟨i', hi', hpath⟩

/-- An input with a file that is opened by a change has been read from that file. -/
theorem input_begun (hc : s.Admits c) (hbegins : c.begins k = true) {i : Input} {path : String}
    (hi : (s.after c).inputs[k]? = some i) (hpath : i.path = some path) :
    ∃ contents, c.opened? k = some (path, contents) ∧ .given (path, contents) ∈ c.exchanges := by
  cases c with
  | addFile place file =>
    obtain rfl := beq_iff_eq.mp hbegins
    obtain rfl : Input.ofFile file.1 file.2 = i := by simpa [Session.after, hc.symm] using hi
    cases hpath
    exact ⟨file.2, if_pos rfl, List.mem_singleton.mpr rfl⟩
  | take files =>
    rw [Session.after, List.getElem?_map] at hi
    obtain ⟨file, hfile, rfl⟩ := Option.map_eq_some_iff.mp hi
    cases hpath
    exact ⟨file.2, hfile, List.mem_map_of_mem (List.mem_of_getElem? hfile)⟩
  | _ => cases hbegins

theorem StandsAt.after (h : StandsAt spot k history s disk) (hc : s.Admits c)
    (hdisk : Disk.Follows spot disk c.exchanges disk') :
    StandsAt spot k (c :: history) (s.after c) disk' := by
  intro i' path hi' hpath
  cases hbegins : c.begins k with
  | true =>
    obtain ⟨contents, hopened, hgiven⟩ := input_begun hc hbegins hi' hpath
    refine ⟨contents, (openedAs?_of_begins hbegins).trans hopened, ?_⟩
    have hsave : ∀ place file, c ≠ .save place file := by
      rintro place file rfl
      cases hbegins
    obtain ⟨rfl, hstands⟩ := hdisk.of_idle fun _ hx => isIdle_of_mem_exchanges hc hsave hx
    rw [lastPut?_of_begins hbegins]
    exact hstands _ hgiven
  | false =>
    obtain ⟨i, hi, hpath⟩ := input_before hc hbegins hi' hpath
    obtain ⟨contents, hopened, hstands⟩ := h i path hi hpath
    refine ⟨contents, (openedAs?_cons hbegins).trans hopened, ?_⟩
    rw [lastPut?_cons hbegins, disk_after hc hdisk, hstands]
    cases c.put? spot (spot path) <;> rfl

theorem standsAt_of_leads {limits : Limits} {xs : List Exchange}
    (h : Session.Leads { limits } history xs s) (hdisk : Disk.Follows spot disk xs disk')
    (k : Nat) : StandsAt spot k history s disk' := by
  induction h generalizing disk' with
  | start =>
    intro i path hi
    cases hi
  | change _ hc ih =>
    obtain ⟨disk₁, hbefore, hlast⟩ := hdisk.split
    exact (ih hbefore).after hc hlast

/-! ## Siblings of opened files -/

/-- The files of inputs have been opened, and what is saved is saved beside an opened file. -/
structure Opened (history : List Change) (xs : List Exchange) (s : Session) : Prop where
  inputs : ∀ i ∈ s.inputs, ∀ path, i.path = some path →
    ∃ contents, .given (path, contents) ∈ xs
  saves : ∀ place file, .save place file ∈ history →
    ∃ path contents, .given (path, contents) ∈ xs ∧ file.1 = siblingPath path

theorem Opened.after {xs : List Exchange} (h : Opened history xs s) (hc : s.Admits c) :
    Opened (c :: history) (xs ++ c.exchanges) (s.after c) := by
  refine ⟨fun i' hi' path hpath => ?_, fun place file hmem => ?_⟩
  · obtain ⟨k, hk⟩ := List.getElem?_of_mem hi'
    cases hbegins : c.begins k with
    | true =>
      obtain ⟨contents, -, hgiven⟩ := input_begun hc hbegins hk hpath
      exact ⟨contents, List.mem_append_right _ hgiven⟩
    | false =>
      obtain ⟨i, hi, hpath⟩ := input_before hc hbegins hk hpath
      obtain ⟨contents, hgiven⟩ := h.inputs i (List.mem_of_getElem? hi) path hpath
      exact ⟨contents, List.mem_append_left _ hgiven⟩
  · rcases List.mem_cons.mp hmem with rfl | hmem
    · obtain ⟨i, hi, hpending⟩ := hc
      obtain ⟨-, path, hpath, rfl⟩ := Input.pending?_eq_some_iff.mp hpending
      obtain ⟨contents, hgiven⟩ := h.inputs i (List.mem_of_getElem? hi) path hpath
      exact ⟨path, contents, List.mem_append_left _ hgiven, rfl⟩
    · obtain ⟨path, contents, hgiven, hfile⟩ := h.saves place file hmem
      exact ⟨path, contents, List.mem_append_left _ hgiven, hfile⟩

theorem opened_of_leads {limits : Limits} {xs : List Exchange}
    (h : Session.Leads { limits } history xs s) : Opened history xs s := by
  induction h with
  | start =>
    exact ⟨fun _ hi => absurd hi List.not_mem_nil, fun _ _ hc => absurd hc List.not_mem_nil⟩
  | change _ hc ih => exact ih.after hc

/-- Nothing is put at a spot where no opened file has its sibling. -/
theorem lastPut?_eq_none {xs : List Exchange} (h : Opened history xs s)
    (hspot : ∀ path contents, .given (path, contents) ∈ xs → spot (siblingPath path) ≠ a) :
    lastPut? spot a k history = none := by
  refine List.findSome?_eq_none_iff.mpr fun c hc => ?_
  have hmem := (List.takeWhile_sublist _).subset hc
  cases c with
  | save place file =>
    obtain ⟨path, contents, hgiven, hfile⟩ := h.saves place file hmem
    rw [put?, hfile, if_neg (hspot path contents hgiven).symm]
  | _ => rfl

end Change

/-- The file of an input holds what it held when the input was opened, or else what has last been
saved in it since, beside another opened file; with no such file it is never written over. -/
theorem files_stand_unless_beside_opened {α : Type} [DecidableEq α] (spot : String → α)
    (disk disk' : Disk α) (limits : Limits) (ops : List Operation) (xs : List Exchange)
    (s : Session) (h : (ops.foldlM Session.operate { limits } : Dialogue _).ComesTo xs s)
    (hdisk : Disk.Follows spot disk xs disk') :
    (∃ history, Session.Records { limits } ops history xs s ∧
      Session.Leads { limits } history xs s) ∧
      ∀ history, Session.Leads { limits } history xs s → ∀ k i path, s.inputs[k]? = some i →
        i.path = some path → ∃ contents, Change.openedAs? k history = some (path, contents) ∧
          disk' (spot path) =
            some ((Change.lastPut? spot (spot path) k history).getD contents) ∧
          ((∀ other bytes, .given (other, bytes) ∈ xs → spot (siblingPath other) ≠ spot path) →
            disk' (spot path) = some contents) := by
  obtain ⟨record, hrecord, -⟩ := Session.exists_unique_record h
  refine ⟨⟨record, hrecord, hrecord.leadsSafely.leads⟩, fun history hleads k i path hi hpath => ?_⟩
  obtain ⟨contents, hopened, hstands⟩ := Change.standsAt_of_leads hleads hdisk k i path hi hpath
  refine ⟨contents, hopened, hstands, fun hspot => ?_⟩
  rw [hstands, Change.lastPut?_eq_none (Change.opened_of_leads hleads) hspot]
  rfl

theorem sibling_of_letter_is_written_over :
    let ops : List Operation := [.addFile "a.txt", .addFile "a.vore.txt",
      .execute ⟨[.replace .all (.last (.literal [120] false)) [.text "y"]]⟩]
    let first := ("a.txt", "x".toUTF8)
    let second := ("a.vore.txt", "keep".toUTF8)
    let saved := ("a.vore.txt", "y".toUTF8)
    let xs : List Exchange := [.given first, .given second, .written saved]
    let history : List Change :=
      [.save 0 saved, .rewrite 0 "y".toUTF8, .addFile 1 second, .addFile 0 first]
    let disk : Disk String := fun path =>
      if path = first.1 then some first.2 else if path = second.1 then some second.2 else none
    ∃ s i disk', (ops.foldlM Session.operate {} : Dialogue _).ComesTo xs s ∧
      Disk.Follows id disk xs disk' ∧ Session.Leads {} history xs s ∧
      s.inputs[1]? = some i ∧ i.path = some second.1 ∧ i.contents = second.2 ∧
      Change.openedAs? 1 history = some second ∧ disk' second.1 = some saved.2 := by
  intro ops first second saved xs history disk
  let i : Input := .ofFile first.1 first.2
  let j : Input := .ofFile second.1 second.2
  let replaced := i.replace "y".toUTF8
  let s : Session := { inputs := [replaced.saved, j], written := ["a.vore.txt"] }
  have hfirst : (Session.operate {} (.addFile "a.txt") : Dialogue _).follow?
      [.given first] = some { inputs := [i] } := by cbv
  have hsecond : (Session.operate { inputs := [i] } (.addFile "a.vore.txt") : Dialogue _).follow?
      [.given second] = some { inputs := [i, j] } := by cbv
  have hexecute : (Session.operate { inputs := [i, j] }
      (.execute ⟨[.replace .all (.last (.literal [120] false)) [.text "y"]]⟩) : Dialogue _).follow?
      [.written saved] = some s := by
    simp only [Session.operate, Session.execute, Run.statements, Run.statement, Run.replace,
      Run.replaceAll, Run.replaceIn, Match.withReplacement_text]
    cbv
  have hcomes : (ops.foldlM Session.operate {} : Dialogue _).ComesTo xs s := by
    simp only [ops, List.foldlM_cons, List.foldlM_nil, bind_pure, Dialogue.comesTo_bind]
    exact ⟨_, _, _, Dialogue.follow?_eq_some_iff.mp hfirst, ⟨_, _, _,
      Dialogue.follow?_eq_some_iff.mp hsecond, Dialogue.follow?_eq_some_iff.mp hexecute, rfl⟩, rfl⟩
  have hpending : replaced.pending? = some saved := by cbv
  have hopened : Session.Leads {} _ _ _ :=
    Session.Leads.start.change (show Session.Admits {} (.addFile 0 first) from rfl)
  have hboth := hopened.change (c := .addFile 1 second) rfl
  have hrewritten := hboth.change (c := .rewrite 0 "y".toUTF8) Nat.zero_lt_two
  have hleads : Session.Leads {} history xs s :=
    hrewritten.change (c := .save 0 saved) ⟨replaced, rfl, hpending⟩
  have hdisk : Disk.Follows id disk xs (disk.put "a.vore.txt" "y".toUTF8) :=
    .given rfl (.given rfl (.written .nil))
  obtain ⟨-, hstands⟩ := files_stand_unless_beside_opened id disk _ {} ops xs s hcomes hdisk
  obtain ⟨contents, -, hlast, -⟩ := hstands history hleads 1 j second.1 rfl rfl
  exact ⟨s, j, _, hcomes, hdisk, hleads, rfl, rfl, rfl, rfl, hlast⟩

end WordPattern
