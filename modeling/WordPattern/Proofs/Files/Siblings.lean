import WordPattern.Files.Path

/-!
# Siblings of files

Replaced contents are written beside the file that they come from. A file name goes into the name of
its sibling whole, with a mark in front of its extension or behind it, so no two files have the same
sibling, and none is its own.
-/

namespace WordPattern

namespace Path

/-! ## Segments -/

section

variable {mark : Char} {part : List Char}

theorem splitAt_cons_of_ne {c : Char} (h : mark ≠ c) {rest first : List Char}
    {others : List (List Char)} (hrest : splitAt mark rest = first :: others) :
    splitAt mark (c :: rest) = (c :: first) :: others := by
  rw [splitAt, if_neg (by simpa using h.symm), hrest]

theorem splitAt_of_notMem (h : mark ∉ part) : splitAt mark part = [part] := by
  induction part with
  | nil => rfl
  | cons c rest ih =>
    rw [List.mem_cons, not_or] at h
    exact splitAt_cons_of_ne h.1 (ih h.2)

theorem splitAt_append (h : mark ∉ part) (more : List Char) :
    splitAt mark (part ++ mark :: more) = part :: splitAt mark more := by
  induction part with
  | nil => exact if_pos (beq_self_eq_true mark)
  | cons c rest ih =>
    rw [List.mem_cons, not_or] at h
    exact splitAt_cons_of_ne h.1 (ih h.2)

theorem exists_splitAt (mark : Char) (chars : List Char) :
    ∃ first others, splitAt mark chars = first :: others := by
  induction chars with
  | nil => exact ⟨[], [], rfl⟩
  | cons c rest ih =>
    obtain ⟨first, others, hrest⟩ := ih
    by_cases hc : mark = c
    · exact ⟨[], splitAt mark rest, if_pos (by simp [hc])⟩
    · exact ⟨c :: first, others, splitAt_cons_of_ne hc hrest⟩

theorem notMem_of_mem_splitAt {chars : List Char} (h : part ∈ splitAt mark chars) :
    mark ∉ part := by
  induction chars generalizing part with
  | nil =>
    obtain rfl := List.mem_singleton.mp h
    exact List.not_mem_nil
  | cons c rest ih =>
    by_cases hc : mark = c
    · rw [splitAt, if_pos (by simp [hc])] at h
      cases h with
      | head => exact List.not_mem_nil
      | tail _ h => exact ih h
    · obtain ⟨first, others, hrest⟩ := exists_splitAt mark rest
      rw [splitAt_cons_of_ne hc hrest] at h
      cases h with
      | head =>
        have hfirst : first ∈ splitAt mark rest := by simp [hrest]
        exact List.not_mem_cons_of_ne_of_not_mem hc (ih hfirst)
      | tail _ h => exact ih (by rw [hrest]; exact List.mem_cons_of_mem first h)

end

/-- A path that is put together from segments is taken apart into them again. -/
theorem segments_ofSegments {parts : List (List Char)} (hne : parts ≠ [])
    (h : ∀ part ∈ parts, '/' ∉ part) : segments (ofSegments parts) = parts := by
  rw [segments, ofSegments, String.toList_ofList]
  induction parts with
  | nil => exact absurd rfl hne
  | cons first others ih =>
    obtain ⟨hfirst, hothers⟩ := List.forall_mem_cons.mp h
    cases others with
    | nil =>
      rw [List.intercalate_singleton]
      exact splitAt_of_notMem hfirst
    | cons second others =>
      rw [List.intercalate_cons_cons, List.append_assoc, List.singleton_append,
        splitAt_append hfirst, ih (by simp) hothers]

/-! ## Components -/

/-- A segment that names a file. -/
def IsName (segment : List Char) : Prop := component? segment = some (.name segment)

theorem isName_iff {segment : List Char} :
    IsName segment ↔ segment ≠ [] ∧ segment ≠ ['.'] ∧ segment ≠ ['.', '.'] := by
  unfold IsName component? isIdle
  by_cases hnil : segment = [] <;> by_cases hdot : segment = ['.'] <;>
    by_cases hdots : segment = ['.', '.'] <;> simp [*]

theorem componentsOf_snoc {parts : List (List Char)} (h : parts ≠ []) (last : List Char) :
    componentsOf (parts ++ [last]) = componentsOf parts ++ (component? last).toList := by
  obtain ⟨first, rest, rfl⟩ := List.exists_cons_of_ne_nil h
  have hlast : [last].filterMap component? = (component? last).toList := by
    cases hlast : component? last <;> simp [hlast]
  rw [List.cons_append, componentsOf, componentsOf, List.filterMap_append, hlast,
    List.append_assoc]

theorem componentsOf_name (parts : List (List Char)) {name : List Char} (h : IsName name) :
    componentsOf (parts ++ [name]) = componentsOf parts ++ [.name name] := by
  by_cases hparts : parts = []
  · subst hparts
    obtain ⟨hnil, hdot, -⟩ := isName_iff.mp h
    simp [componentsOf, firstComponent?, hnil, hdot, show component? name = _ from h]
  · rw [componentsOf_snoc hparts, h]
    rfl

/-- Segments at the end that name nothing add no component. -/
theorem componentsOf_dropIdle (parts : List (List Char)) :
    componentsOf (dropIdle parts).reverse = componentsOf parts.reverse := by
  fun_induction dropIdle parts with
  | case1 => rfl
  | case2 => rfl
  | case3 last rest hrest hidle ih =>
    have hnone : component? last = none := if_pos hidle
    have hne : rest.reverse ≠ [] := by simpa using hrest
    rw [ih, List.reverse_cons, componentsOf_snoc hne, hnone]
    exact (List.append_nil _).symm
  | case4 => rfl

theorem dropIdle_suffix (parts : List (List Char)) : dropIdle parts <:+ parts := by
  fun_induction dropIdle parts with
  | case1 => exact List.suffix_rfl
  | case2 => exact List.suffix_rfl
  | case3 last rest _ _ ih => exact ih.trans (List.suffix_cons last rest)
  | case4 => exact List.suffix_rfl

/-- Only the first segment is idle where idle ones at the end are left out. -/
theorem eq_nil_of_isIdle {parts rest : List (List Char)} {last : List Char}
    (h : dropIdle parts = last :: rest) (hidle : isIdle last = true) : rest = [] := by
  fun_induction dropIdle parts with
  | case1 => cases h
  | case2 =>
    cases h
    rfl
  | case3 _ _ _ _ ih => exact ih h
  | case4 last' rest' _ hidle' =>
    cases h
    exact absurd hidle hidle'

theorem components_ofSegments {parts : List (List Char)} (hne : parts ≠ [])
    (hnil : parts ≠ [[]]) (h : ∀ part ∈ parts, '/' ∉ part) :
    components (ofSegments parts) = componentsOf parts := by
  have hsegments := segments_ofSegments hne h
  have hpath : ¬(ofSegments parts).isEmpty = true := by
    intro hempty
    rw [String.isEmpty_iff.mp hempty] at hsegments
    exact hnil hsegments.symm
  rw [components, if_neg hpath, hsegments]

/-- A path that ends in a file name is taken apart into this name and the segments before it. -/
theorem split?_of_endsInName {path : String} (h : EndsInName path) :
    ∃ name before, split? path = some (name, before) ∧ IsName name ∧
      (∀ part ∈ name :: before, '/' ∉ part) ∧
      components path = componentsOf before.reverse ++ [.name name] := by
  obtain ⟨file, hlast⟩ := h
  have hpath : ¬path.isEmpty = true := by
    intro hempty
    rw [components, if_pos hempty] at hlast
    cases hlast
  have htrimmed : components path = componentsOf (trimmed path).reverse := by
    rw [components, if_neg hpath, trimmed, componentsOf_dropIdle, List.reverse_reverse]
  rw [htrimmed] at hlast ⊢
  cases hparts : trimmed path with
  | nil =>
    rw [hparts] at hlast
    cases hlast
  | cons name rest =>
    rw [hparts, List.reverse_cons] at hlast
    have hname : IsName name := by
      refine isName_iff.mpr ⟨?_, ?_, ?_⟩
      · rintro rfl
        obtain rfl := eq_nil_of_isIdle hparts rfl
        cases hlast
      · rintro rfl
        obtain rfl := eq_nil_of_isIdle hparts rfl
        cases hlast
      · rintro rfl
        by_cases hrest : rest = []
        · subst hrest
          cases hlast
        · rw [componentsOf_snoc (by simpa using hrest)] at hlast
          simp [component?, isIdle] at hlast
    obtain ⟨hnil, hdot, hdots⟩ := isName_iff.mp hname
    have hslash : ∀ part ∈ trimmed path, '/' ∉ part := fun part hpart =>
      notMem_of_mem_splitAt (List.mem_reverse.mp ((dropIdle_suffix _).subset hpart))
    rw [hparts] at hslash
    refine ⟨name, dropIdle rest, ?_, hname, ?_, ?_⟩
    · simp [split?, hparts, isIdle, hnil, hdot, hdots]
    · obtain ⟨hfirst, hrest⟩ := List.forall_mem_cons.mp hslash
      exact List.forall_mem_cons.mpr
        ⟨hfirst, fun part hpart => hrest part ((dropIdle_suffix rest).subset hpart)⟩
    · rw [List.reverse_cons, componentsOf_name _ hname, componentsOf_dropIdle]

/-! ## Names and their extensions -/

/-- The characters behind the last dot are those in front of the first one from behind. -/
theorem extension_append (stem : List Char) {extension : List Char} (h : '.' ∉ extension) :
    ((stem ++ '.' :: extension).reverse.takeWhile (· != '.')).reverse = extension := by
  have hdotless : ∀ c ∈ extension.reverse, (c != '.') = true := by
    intro c hc
    rw [bne_iff_ne]
    rintro rfl
    exact h (List.mem_reverse.mp hc)
  rw [List.reverse_append, List.reverse_cons, List.append_assoc,
    List.takeWhile_append_of_pos hdotless]
  simp

theorem splitName_append (stem : List Char) {extension : List Char} (h : '.' ∉ extension) :
    splitName (stem ++ '.' :: extension) =
      if stem.isEmpty then (stem ++ '.' :: extension, none) else (stem, some extension) := by
  have hlength : (stem ++ '.' :: extension).length - extension.length - 1 = stem.length := by
    rw [List.length_append, List.length_cons]
    omega
  have hshorter : extension.length ≠ (stem ++ '.' :: extension).length := by
    rw [List.length_append, List.length_cons]
    omega
  simp only [splitName, extension_append stem h, hlength, List.take_left, hshorter, decide_false,
    Bool.false_or]

theorem splitName_of_notMem {name : List Char} (h : '.' ∉ name) : splitName name = (name, none) := by
  have hall : ∀ c ∈ name.reverse, (c != '.') = true := by
    intro c hc
    rw [bne_iff_ne]
    rintro rfl
    exact h (List.mem_reverse.mp hc)
  have htake : name.reverse.takeWhile (· != '.') = name.reverse := by
    rw [← List.append_nil name.reverse, List.takeWhile_append_of_pos hall, List.takeWhile_nil]
  simp only [splitName, htake, List.reverse_reverse, decide_true, Bool.true_or, if_true]

theorem exists_last_dot {name : List Char} (h : '.' ∈ name) :
    ∃ stem extension, '.' ∉ extension ∧ name = stem ++ '.' :: extension := by
  induction name with
  | nil => cases h
  | cons c rest ih =>
    by_cases hrest : '.' ∈ rest
    · obtain ⟨stem, extension, hextension, rfl⟩ := ih hrest
      exact ⟨c :: stem, extension, hextension, rfl⟩
    · obtain rfl : '.' = c := (List.mem_cons.mp h).resolve_right hrest
      exact ⟨[], rest, hrest, rfl⟩

end Path

open WordPattern.Path

/-! ## Names of siblings -/

/-- What a file name gets for its sibling. -/
def siblingMark : List Char := ".vore".toList

/-- The name of a sibling has the mark in front of the extension of the name, or at the end. A name
has an extension if it has a dot that does not begin it. -/
inductive Marked : List Char → List Char → Prop
  | extension {stem extension : List Char} (hstem : stem ≠ []) (hextension : '.' ∉ extension) :
    Marked (stem ++ '.' :: extension) ((stem ++ siblingMark) ++ '.' :: extension)
  | whole {name : List Char}
    (h : ∀ stem extension, stem ≠ [] → '.' ∉ extension → name ≠ stem ++ '.' :: extension) :
    Marked name (name ++ siblingMark)

theorem marked_siblingName (name : List Char) : Marked name (siblingName name) := by
  by_cases hdot : '.' ∈ name
  · obtain ⟨stem, extension, hextension, rfl⟩ := exists_last_dot hdot
    rw [siblingName, splitName_append stem hextension]
    cases stem with
    | nil =>
      refine .whole fun stem' extension' hstem' hextension' heq => ?_
      obtain ⟨c, stem', rfl⟩ := List.exists_cons_of_ne_nil hstem'
      obtain ⟨-, rfl⟩ := List.cons.inj heq
      exact hextension (by simp)
    | cons c stem =>
      have hmarked := Marked.extension (List.cons_ne_nil c stem) hextension
      rw [List.append_assoc] at hmarked
      rw [if_neg (by simp)]
      dsimp only
      rw [List.append_assoc]
      exact hmarked
  · rw [siblingName, splitName_of_notMem hdot]
    refine .whole fun stem extension _ _ heq => ?_
    rw [heq] at hdot
    exact hdot (by simp)

theorem Marked.length {name sibling : List Char} (h : Marked name sibling) :
    sibling.length = name.length + siblingMark.length := by
  cases h with
  | extension =>
    simp only [List.length_append, List.length_cons]
    omega
  | whole => exact List.length_append

/-- The extension of a sibling's name is that of the name, and the mark if the name has none. -/
theorem Marked.splitName {name sibling : List Char} (h : Marked name sibling) (hname : name ≠ []) :
    (∃ stem extension, stem ≠ [] ∧ '.' ∉ extension ∧ name = stem ++ '.' :: extension ∧
      splitName sibling = (stem ++ siblingMark, some extension)) ∨
    ((∀ stem extension, stem ≠ [] → '.' ∉ extension → name ≠ stem ++ '.' :: extension) ∧
      splitName sibling = (name, some "vore".toList)) := by
  cases h with
  | @extension stem extension hstem hextension =>
    refine .inl ⟨stem, extension, hstem, hextension, rfl, ?_⟩
    rw [splitName_append _ hextension, if_neg (by simp [hstem])]
  | whole h =>
    refine .inr ⟨h, ?_⟩
    have hdotless : '.' ∉ "vore".toList := by decide
    have hsplit := splitName_append name hdotless
    rwa [if_neg (by simpa using hname)] at hsplit

/-- The name of a sibling tells the name that it was made from. -/
theorem Marked.unique {m n sibling : List Char} (hm : Marked m sibling) (hn : Marked n sibling)
    (hm₀ : m ≠ []) (hn₀ : n ≠ []) : m = n := by
  have hmark {stem : List Char} : stem ++ siblingMark = stem ++ '.' :: "vore".toList := rfl
  rcases hm.splitName hm₀ with ⟨stem, extension, hstem, -, rfl, hsplit⟩ | ⟨hwhole, hsplit⟩ <;>
    rcases hn.splitName hn₀
      with ⟨stem', extension', hstem', -, rfl, hsplit'⟩ | ⟨hwhole', hsplit'⟩ <;>
    obtain ⟨hfront, hback⟩ := Prod.mk.inj (hsplit.symm.trans hsplit')
  · rw [List.append_cancel_right hfront, Option.some.inj hback]
  · -- The mark of the one would be the extension of the other.
    exact absurd (hfront.symm.trans hmark) (hwhole' _ _ hstem (by decide))
  · exact absurd (hfront.trans hmark) (hwhole _ _ hstem' (by decide))
  · exact hfront

theorem siblingName_injective {m n : List Char} (hm : m ≠ []) (hn : n ≠ [])
    (h : siblingName m = siblingName n) : m = n := by
  have hmarked := marked_siblingName m
  rw [h] at hmarked
  exact hmarked.unique (marked_siblingName n) hm hn

theorem isName_siblingName (name : List Char) : IsName (siblingName name) := by
  have hlength := (marked_siblingName name).length
  have hmark : siblingMark.length = 5 := rfl
  refine isName_iff.mpr ⟨?_, ?_, ?_⟩ <;>
  · intro heq
    rw [heq, hmark] at hlength
    simp at hlength

theorem Marked.notMem {name sibling : List Char} {c : Char} (h : Marked name sibling)
    (hc : c ∉ siblingMark) (hname : c ∉ name) : c ∉ sibling := by
  cases h with
  | extension =>
    rw [List.mem_append, not_or] at hname
    rw [List.mem_append, List.mem_append]
    rintro ((hstem | hmark) | hback)
    · exact hname.1 hstem
    · exact hc hmark
    · exact hname.2 hback
  | whole =>
    rw [List.mem_append]
    rintro (hfront | hmark)
    · exact hname hfront
    · exact hc hmark

/-! ## Siblings -/

/-- The sibling of a path has its components, but for the name at the end. -/
theorem components_siblingPath {path : String} (h : EndsInName path) :
    ∃ before name, IsName name ∧ components path = before ++ [.name name] ∧
      components (siblingPath path) = before ++ [.name (siblingName name)] := by
  obtain ⟨name, before, hsplit, hname, hslash, hcomponents⟩ := split?_of_endsInName h
  obtain ⟨hfirst, hbefore⟩ := List.forall_mem_cons.mp hslash
  have hsibling := isName_siblingName name
  refine ⟨_, name, hname, hcomponents, ?_⟩
  rw [siblingPath, hsplit]
  dsimp only
  rw [List.reverse_cons, components_ofSegments, componentsOf_name _ hsibling]
  · exact List.append_ne_nil_of_right_ne_nil _ (List.cons_ne_nil _ _)
  · intro heq
    have hlast := congrArg List.getLast? heq
    rw [List.getLast?_concat] at hlast
    exact (isName_iff.mp hsibling).1 (Option.some.inj hlast)
  · intro part hpart
    rcases List.mem_append.mp hpart with hpart | hpart
    · exact hbefore part (List.mem_reverse.mp hpart)
    · obtain rfl := List.mem_singleton.mp hpart
      exact (marked_siblingName name).notMem (by decide) hfirst

/-- The sibling of a file is another file in the same directory, and no two files have the same one,
however their paths are written. -/
theorem siblings_never_collide (p q : String) (hp : EndsInName p) (hq : EndsInName q) :
    (components (siblingPath p)).dropLast = (components p).dropLast ∧
      EndsInName (siblingPath p) ∧
      components (siblingPath p) ≠ components p ∧
      (components (siblingPath p) = components (siblingPath q) → components p = components q) := by
  obtain ⟨before, name, hname, hp, hsibling⟩ := components_siblingPath hp
  obtain ⟨before', name', hname', hq, hsibling'⟩ := components_siblingPath hq
  rw [hp, hq, hsibling, hsibling']
  refine ⟨?_, ⟨siblingName name, ?_⟩, ?_, ?_⟩
  · rw [List.dropLast_concat, List.dropLast_concat]
  · rw [hsibling, List.getLast?_concat]
  · intro heq
    have hlength := (marked_siblingName name).length
    rw [Component.name.inj (List.append_singleton_inj.mp heq).2] at hlength
    have hmark : siblingMark.length = 5 := rfl
    omega
  · intro heq
    obtain ⟨rfl, hlast⟩ := List.append_singleton_inj.mp heq
    rw [siblingName_injective (isName_iff.mp hname).1 (isName_iff.mp hname').1
      (Component.name.inj hlast)]

/-- Names with and without an extension, one of them with the mark of a sibling. -/
theorem marked_names_have_siblings_apart :
    let p := "/notes//x.vore"
    let q := "/./notes/x"
    EndsInName p ∧ EndsInName q ∧ siblingPath p = "/notes/x.vore.vore" ∧
      siblingPath q = "/./notes/x.vore" ∧
      components (siblingPath p) ≠ components (siblingPath q) := by
  intro p q
  have hp : EndsInName p := ⟨"x.vore".toList, by decide⟩
  have hq : EndsInName q := ⟨"x".toList, by decide⟩
  refine ⟨hp, hq, by decide, by decide, fun heq => ?_⟩
  have hcomponents := (siblings_never_collide p q hp hq).2.2.2 heq
  revert hcomponents
  decide

end WordPattern
