import Mathlib
import Facet.Files.Folder
import Facet.Proofs.Outcomes

/-!
# Paths and folders

A path leads to a place step by step, and every place on the way has to be a directory. Where no file
stands on the way the missing directories can be made, and then a file can be written, unless its
place is that of a directory. What was written is read again by the same steps, and all other files
are still there.
-/

namespace Facet

/-! ## Parts of a path -/

/-- What is appended without a separator goes to the last part. -/
theorem exists_splitOn_append {β : Type} [BEq β] [LawfulBEq β] {a : β} {tail : List β}
    (h : a ∉ tail) (l : List β) :
    ∃ before last, l.splitOn a = before ++ [last] ∧
      (l ++ tail).splitOn a = before ++ [last ++ tail] := by
  induction l with
  | nil =>
    refine ⟨[], [], List.splitOn_nil a, ?_⟩
    rw [List.nil_append, List.splitOn_eq_singleton h]
    rfl
  | cons x l ih =>
    obtain ⟨before, last, hl, happend⟩ := ih
    rw [List.cons_append, List.splitOn_cons_eq_if_modifyHead, List.splitOn_cons_eq_if_modifyHead,
      hl, happend]
    split
    · exact ⟨[] :: before, last, rfl, rfl⟩
    · cases before with
      | nil => exact ⟨[], x :: last, rfl, rfl⟩
      | cons first before => exact ⟨(x :: first) :: before, last, rfl, rfl⟩

namespace Path

theorem exists_parts_append {tail : String} (h : '/' ∉ tail.toList) (s : String) :
    ∃ before last, parts s = before ++ [last] ∧ parts (s ++ tail) = before ++ [last ++ tail] := by
  obtain ⟨before, last, hs, happend⟩ := exists_splitOn_append h s.toList
  refine ⟨before.map String.ofList, String.ofList last, ?_, ?_⟩
  · rw [parts, hs, List.map_append]
    rfl
  · rw [parts, String.toList_append, happend, List.map_append, List.map_singleton,
      String.ofList_append, String.ofList_toList]

/-- Whether the last part of a path is a step. -/
def EndsInStep (s : String) : Prop := ∃ before last, parts s = before ++ [last] ∧ isStep last = true

/-- The steps of a path that ends in a step, with and without an ending. -/
theorem EndsInStep.exists_steps {s tail : String} (hs : EndsInStep s) (htail : '/' ∉ tail.toList)
    (hstep : ∀ last, isStep (last ++ tail) = true) :
    ∃ before last, steps s = before ++ [last] ∧ steps (s ++ tail) = before ++ [last ++ tail] := by
  obtain ⟨before, last, hparts, hlast⟩ := hs
  obtain ⟨before', last', hparts', happend⟩ := exists_parts_append htail s
  obtain ⟨rfl, hlasts⟩ := List.append_inj' (hparts'.symm.trans hparts) rfl
  obtain rfl := List.head_eq_of_cons_eq hlasts
  refine ⟨before'.filter isStep, last', ?_, ?_⟩
  · rw [steps, hparts', List.filter_append, List.filter_singleton, hlast]
    rfl
  · rw [steps, happend, List.filter_append, List.filter_singleton, hstep]
    rfl

/-- With such an ending every path ends in a step. -/
theorem endsInStep_append {tail : String} (htail : '/' ∉ tail.toList)
    (hstep : ∀ last, isStep (last ++ tail) = true) (s : String) : EndsInStep (s ++ tail) := by
  obtain ⟨before, last, -, happend⟩ := exists_parts_append htail s
  exact ⟨before, last ++ tail, happend, hstep last⟩

/-- The place to which steps lead by themselves. -/
def place (steps : List String) : Path := steps.foldl follow []

theorem place_append_singleton (steps : List String) (last : String) :
    place (steps ++ [last]) = (place steps).follow last := List.foldl_append

/-- Steps that end differently lead to different places, if one of them does not lead back. -/
theorem place_ne {before : List String} {last other : String} (hother : other ≠ "..")
    (h : last ≠ other) : place (before ++ [last]) ≠ place (before ++ [other]) := by
  rw [place_append_singleton, place_append_singleton, follow, follow, if_neg hother]
  split
  · intro hplace
    have hlength := congrArg List.length hplace
    rw [List.length_dropLast, List.length_append, List.length_singleton] at hlength
    omega
  · intro hplace
    exact h (List.head_eq_of_cons_eq (List.append_cancel_left hplace))

end Path

/-- Without the entries of one key the others are found as before. -/
theorem lookup_filter_ne {κ β : Type} [BEq κ] [LawfulBEq κ] {p q : κ} (h : q ≠ p)
    (entries : List (κ × β)) :
    (entries.filter fun other => other.1 != p).lookup q = entries.lookup q := by
  induction entries with
  | nil => rfl
  | cons entry rest ih =>
    obtain ⟨k, b⟩ := entry
    rw [List.filter_cons, List.lookup_cons]
    by_cases hk : k = p
    · have hq : (q == k) = false := by simpa [hk] using h
      rw [if_neg (by simp [hk]), ih, hq]
    · rw [if_pos (by simp [hk]), List.lookup_cons, ih]

/-! ## Following steps -/

namespace Folder

variable {β : Type}

theorem at?_nil {f : Folder β} (h : ∀ content, f.at? [] ≠ .file content) :
    f.at? [] = .directory := by
  unfold at? at h ⊢
  split at h
  · rename_i content _
    exact absurd rfl (h content)
  · rfl

/-- Whether steps lead from directory to directory, and end at one. -/
def Leads (f : Folder β) (steps : List String) : Prop :=
  ∀ before, before <+: steps → f.at? (Path.place before) = .directory

/-- Whether no file stands on the way of steps or at their end. -/
def Clear (f : Folder β) (steps : List String) : Prop :=
  ∀ before, before <+: steps → ∀ content, f.at? (Path.place before) ≠ .file content

theorem leads_nil_iff {f : Folder β} : f.Leads [] ↔ f.at? [] = .directory := by
  simp [Leads, Path.place]

theorem leads_append_singleton_iff {f : Folder β} {steps : List String} {last : String} :
    f.Leads (steps ++ [last]) ↔
      f.Leads steps ∧ f.at? (Path.place (steps ++ [last])) = .directory := by
  simp only [Leads, List.prefix_concat_iff]
  constructor
  · intro h
    exact ⟨fun before hbefore => h before (.inr hbefore), h _ (.inl rfl)⟩
  · rintro ⟨hsteps, hlast⟩ before (rfl | hbefore)
    · exact hlast
    · exact hsteps before hbefore

theorem Clear.of_append {f : Folder β} {steps : List String} {last : String}
    (h : f.Clear (steps ++ [last])) : f.Clear steps := fun before hbefore =>
  h before (hbefore.trans (List.prefix_append _ _))

theorem advance_eq_ok_iff {f : Folder β} {p q : Path} {step : String} :
    f.advance p step = .ok q ↔ f.at? p = .directory ∧ q = p.follow step := by
  unfold advance
  cases f.at? p with
  | directory => simp [eq_comm]
  | file content => simp
  | nothing => simp

theorem locate_append_singleton (f : Folder β) (steps : List String) (last : String) :
    f.locate (steps ++ [last]) = f.locate steps >>= fun p => f.advance p last := by
  simp only [locate, List.foldlM_append, List.foldlM_cons, List.foldlM_nil, bind_pure]

/-- Steps lead to their place if those before the last lead from directory to directory. -/
theorem locate_eq_ok_iff {f : Folder β} {steps : List String} {last : String} {p : Path} :
    f.locate (steps ++ [last]) = .ok p ↔
      f.Leads steps ∧ p = Path.place (steps ++ [last]) := by
  induction steps using List.reverseRecOn generalizing last p with
  | nil =>
    rw [leads_nil_iff, Path.place_append_singleton]
    exact (bind_eq_ok (x := f.advance [] last) (f := Except.ok)).trans (by
      simp [advance_eq_ok_iff, Path.place])
  | append_singleton steps middle ih =>
    rw [locate_append_singleton, bind_eq_ok, leads_append_singleton_iff,
      Path.place_append_singleton (steps ++ [middle])]
    constructor
    · rintro ⟨q, hq, hp⟩
      obtain ⟨hleads, rfl⟩ := ih.1 hq
      obtain ⟨hdirectory, rfl⟩ := advance_eq_ok_iff.1 hp
      exact ⟨⟨hleads, hdirectory⟩, rfl⟩
    · rintro ⟨⟨hleads, hdirectory⟩, rfl⟩
      exact ⟨_, ih.2 ⟨hleads, rfl⟩, advance_eq_ok_iff.2 ⟨hdirectory, rfl⟩⟩

/-- Where no file stands on the way, steps lead nowhere only because a directory is missing. -/
theorem locate_eq_missing {f : Folder β} {steps : List String} (h : f.Clear steps)
    (hleads : ¬f.Leads steps) (last : String) : f.locate (steps ++ [last]) = .error .missing := by
  induction steps using List.reverseRecOn generalizing last with
  | nil => exact absurd (leads_nil_iff.2 (at?_nil (h [] List.prefix_rfl))) hleads
  | append_singleton steps middle ih =>
    rw [locate_append_singleton]
    by_cases hbefore : f.Leads steps
    · have hmiddle : f.at? (Path.place (steps ++ [middle])) ≠ .directory := fun hdirectory =>
        hleads (leads_append_singleton_iff.2 ⟨hbefore, hdirectory⟩)
      rw [locate_eq_ok_iff.2 ⟨hbefore, rfl⟩, ok_bind, advance]
      have hfile := h _ List.prefix_rfl
      cases hat : f.at? (Path.place (steps ++ [middle])) with
      | nothing => rfl
      | directory => exact absurd hat hmiddle
      | file content => exact absurd hat (hfile content)
    · rw [ih h.of_append hbefore]
      rfl

/-- A file is read by steps that lead from directory to directory and end at it. -/
theorem readAt_eq_ok_iff {f : Folder β} {steps : List String} {last : String} {content : β} :
    f.readAt (steps ++ [last]) = .ok content ↔
      f.Leads steps ∧ f.at? (Path.place (steps ++ [last])) = .file content := by
  rw [readAt, bind_eq_ok]
  constructor
  · rintro ⟨p, hp, hread⟩
    obtain ⟨hleads, rfl⟩ := locate_eq_ok_iff.1 hp
    refine ⟨hleads, ?_⟩
    split at hread
    · rename_i hat
      cases hread
      exact hat
    · cases hread
    · cases hread
  · rintro ⟨hleads, hat⟩
    refine ⟨_, locate_eq_ok_iff.2 ⟨hleads, rfl⟩, ?_⟩
    rw [hat]
    rfl

/-! ## Making directories -/

theorem at?_eq_file_iff {f : Folder β} {p : Path} {content : β} :
    f.at? p = .file content ↔ f.files.lookup p = some content := by
  unfold at?
  split
  · rename_i other hlookup
    rw [hlookup]
    simp
  · rename_i hlookup
    rw [hlookup]
    split <;> simp

/-- What becomes of a folder when directories are made along some steps. -/
structure Extends (f made : Folder β) (steps : List String) : Prop where
  /-- The files are the same. -/
  files : made.files = f.files
  /-- What was a directory still is one. -/
  kept : ∀ p, f.at? p = .directory → made.at? p = .directory
  /-- New directories are along the steps. -/
  new : ∀ p, made.at? p = .directory →
    f.at? p = .directory ∨ ∃ before, before <+: steps ∧ p = Path.place before
  /-- The steps lead to a directory now. -/
  leads : made.Leads steps

theorem Extends.at?_file_iff {f made : Folder β} {steps : List String} (h : f.Extends made steps)
    {p : Path} {content : β} : made.at? p = .file content ↔ f.at? p = .file content := by
  rw [at?_eq_file_iff, at?_eq_file_iff, h.files]

theorem Extends.clear {f made : Folder β} {steps further : List String}
    (h : f.Extends made steps) (hclear : f.Clear further) : made.Clear further :=
  fun before hbefore content hat => hclear before hbefore content (h.at?_file_iff.1 hat)

theorem extends_self {f : Folder β} {steps : List String} (h : f.Leads steps) :
    f.Extends f steps := ⟨rfl, fun _ hp => hp, fun _ hp => .inl hp, h⟩

theorem Extends.trans {f made more : Folder β} {steps : List String} {last : String}
    (h : f.Extends made steps) (hmore : made.Extends more (steps ++ [last])) :
    f.Extends more (steps ++ [last]) where
  files := hmore.files.trans h.files
  kept p hp := hmore.kept p (h.kept p hp)
  new p hp := by
    rcases hmore.new p hp with hmade | halong
    · rcases h.new p hmade with hp | ⟨before, hbefore, rfl⟩
      · exact .inl hp
      · exact .inr ⟨before, hbefore.trans (List.prefix_append _ _), rfl⟩
    · exact .inr halong
  leads := hmore.leads

/-- One more directory at a place where nothing is. -/
theorem at?_addDirectory {f : Folder β} {p : Path} (hp : f.at? p = .nothing) (q : Path) :
    ({ f with directories := p :: f.directories } : Folder β).at? q =
      if q = p then .directory else f.at? q := by
  have hlookup : f.files.lookup p = none := by
    unfold at? at hp
    split at hp
    · cases hp
    · assumption
  by_cases hq : q = p
  · subst hq
    rw [if_pos rfl, at?]
    dsimp only
    rw [hlookup]
    simp
  · rw [if_neg hq, at?, at?]
    simp [hq]

/-- The last directory can be made once the steps before it lead to one. -/
theorem exists_makeLast {f : Folder β} {steps : List String} {last : String}
    (h : f.Clear (steps ++ [last])) (hleads : f.Leads steps) :
    ∃ made, f.makeLast (steps ++ [last]) = .ok made ∧ f.Extends made (steps ++ [last]) := by
  unfold makeLast
  rw [locate_eq_ok_iff.2 ⟨hleads, rfl⟩, ok_bind]
  have hfile := h _ List.prefix_rfl
  cases hat : f.at? (Path.place (steps ++ [last])) with
  | directory => exact ⟨f, rfl, extends_self (leads_append_singleton_iff.2 ⟨hleads, hat⟩)⟩
  | file content => exact absurd hat (hfile content)
  | nothing =>
    have hmade := at?_addDirectory hat
    have hkept (p : Path) (hp : f.at? p = .directory) :
        ({ f with directories := Path.place (steps ++ [last]) :: f.directories } :
          Folder β).at? p = .directory := by
      rw [hmade]
      split
      · rfl
      · exact hp
    refine ⟨_, rfl, rfl, hkept, fun p hp => ?_, ?_⟩
    · rw [hmade] at hp
      split at hp
      · rename_i hplace
        exact .inr ⟨_, List.prefix_rfl, hplace⟩
      · exact .inl hp
    · refine leads_append_singleton_iff.2 ⟨fun before hbefore => ?_, ?_⟩
      · exact hkept _ (hleads before hbefore)
      · rw [hmade, if_pos rfl]

/-- Where no file stands on the way, all missing directories are made. -/
theorem exists_makeFrom {f : Folder β} {backwards : List String} (h : f.Clear backwards.reverse) :
    ∃ made, f.makeFrom backwards = (.ok (), made) ∧ f.Extends made backwards.reverse := by
  induction backwards with
  | nil => exact ⟨f, rfl, extends_self (leads_nil_iff.2 (at?_nil (h [] List.prefix_rfl)))⟩
  | cons last before ih =>
    rw [List.reverse_cons] at h ⊢
    rw [makeFrom, List.reverse_cons]
    by_cases hleads : f.Leads before.reverse
    · obtain ⟨made, hmade, hextends⟩ := exists_makeLast h hleads
      refine ⟨made, ?_, hextends⟩
      dsimp only
      rw [hmade]
    · obtain ⟨made, hbefore, hextends⟩ := ih h.of_append
      obtain ⟨more, hmore, hfurther⟩ := exists_makeLast (hextends.clear h) hextends.leads
      have hmissing : f.makeLast (before.reverse ++ [last]) = .error .missing := by
        rw [makeLast, locate_eq_missing h.of_append hleads]
        rfl
      refine ⟨more, ?_, hextends.trans hfurther⟩
      dsimp only
      rw [hmissing, hbefore]
      dsimp only
      rw [hmore]

/-! ## Writing files -/

theorem at?_put_self (f : Folder β) (p : Path) (content : β) :
    (f.put p content).at? p = .file content := by
  rw [at?_eq_file_iff]
  simp [put]

theorem at?_put_of_ne {f : Folder β} {p q : Path} (h : q ≠ p) (content : β) :
    (f.put p content).at? q = f.at? q := by
  have hq : (q == p) = false := by simpa using h
  have hlookup : (f.put p content).files.lookup q = f.files.lookup q := by
    rw [put, List.lookup_cons, hq]
    exact lookup_filter_ne h f.files
  rw [at?, at?, hlookup]
  rfl

/-- A file at a place where no directory is leaves all directories what they are. -/
theorem Leads.put {f : Folder β} {steps : List String} (h : f.Leads steps) {p : Path}
    (hp : f.at? p ≠ .directory) (content : β) : (f.put p content).Leads steps := by
  intro before hbefore
  have hdirectory := h before hbefore
  rw [at?_put_of_ne ?_, hdirectory]
  rintro rfl
  exact hp hdirectory

/-- Whether a file can be written at the end of steps: no file stands where a directory is needed,
none of these directories is where the file is to be, and no directory is there either. -/
structure Admits (f : Folder β) (steps : List String) : Prop where
  /-- No file stands on the way. -/
  way : f.Clear steps.dropLast
  /-- The way does not lead through the place of the file. -/
  apart : ∀ before, before <+: steps.dropLast → Path.place before ≠ Path.place steps
  /-- There is no directory in the place of the file. -/
  free : f.at? (Path.place steps) ≠ .directory

theorem at?_empty_ne_file {root : String} {p : Path} {content : β} :
    (empty root).at? p ≠ .file content := by
  rw [Ne, at?_eq_file_iff]
  exact nofun

/-- Into an empty folder a file can be written at the end of any steps that do not lead there
twice. -/
theorem empty_admits {root : String} {steps : List String}
    (hapart : ∀ before, before <+: steps.dropLast → Path.place before ≠ Path.place steps)
    (hplace : Path.place steps ≠ []) : (empty root : Folder β).Admits steps where
  way _ _ _ := at?_empty_ne_file
  apart := hapart
  free := by simp [at?, empty, hplace]

/-- Then it is written, in directories that are made if need be; it is read by the same steps, and
the files at all other places are as before. -/
theorem Admits.exists_written {f : Folder β} {steps : List String} {last : String}
    (h : f.Admits (steps ++ [last])) (content : β) :
    ∃ made saved, f.makeDirectory steps = (.ok (), made) ∧
      made.writeAt (steps ++ [last]) content = .ok saved ∧
      saved.readAt (steps ++ [last]) = .ok content ∧
      ∀ p, p ≠ Path.place (steps ++ [last]) → ∀ other,
        saved.at? p = .file other ↔ f.at? p = .file other := by
  obtain ⟨hway, hapart, hfree⟩ := h
  rw [List.dropLast_concat] at hway hapart
  rw [← steps.reverse_reverse] at hway
  obtain ⟨made, hmake, hextends⟩ := exists_makeFrom hway
  rw [List.reverse_reverse] at hextends
  have hplace : made.at? (Path.place (steps ++ [last])) ≠ .directory := by
    intro hdirectory
    rcases hextends.new _ hdirectory with hdirectory | ⟨before, hbefore, hplace⟩
    · exact hfree hdirectory
    · exact hapart before hbefore hplace.symm
  refine ⟨made, made.put (Path.place (steps ++ [last])) content, hmake, ?_, ?_, ?_⟩
  · rw [writeAt, locate_eq_ok_iff.2 ⟨hextends.leads, rfl⟩, ok_bind]
    split
    · exact absurd ‹_› hplace
    · rfl
  · exact readAt_eq_ok_iff.2 ⟨hextends.leads.put hplace content, at?_put_self _ _ _⟩
  · intro p hp other
    rw [at?_put_of_ne hp, hextends.at?_file_iff]

end Folder

end Facet
