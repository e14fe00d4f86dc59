import Mathlib
import Facet.Files.Archive
import Facet.Proofs.BestFits
import Facet.Proofs.Folders
import Facet.Proofs.Histories

/-!
# Archives that are read again

The archive of an extractor is found again under the name under which it was written, with the
features, the order, the window and the stride of the extractor, unless one of its numbers is too
great for a word. This is the name that was given only if it has the ending; under another name that
was given there is nothing that was not there before.
-/

namespace Facet

namespace Archive

/-! ## Names -/

theorem slash_notMem_ending : '/' ∉ ending.toList := by decide

theorem length_append_ending (part : String) : (part ++ ending).length = part.length + 4 := by
  rw [String.length_append]
  rfl

theorem isStep_append_ending (part : String) : Path.isStep (part ++ ending) = true := by
  have hlength := length_append_ending part
  have hempty : part ++ ending ≠ "" := by
    intro h
    rw [h, String.length_empty] at hlength
    omega
  have hdot : part ++ ending ≠ "." := by
    intro h
    rw [h, show ".".length = 1 from rfl] at hlength
    omega
  simp [Path.isStep, hempty, hdot]

theorem append_ending_ne_back (part : String) : part ++ ending ≠ ".." := by
  intro h
  have hlength := length_append_ending part
  rw [h, show "..".length = 2 from rfl] at hlength
  omega

theorem ne_append_ending (part : String) : part ≠ part ++ ending := by
  intro h
  have hlength := length_append_ending part
  rw [← h] at hlength
  omega

/-- A path with the ending leads somewhere with its last part. -/
theorem endsInStep_of_endsWith {path : String} (h : path.endsWith ending = true) :
    Path.EndsInStep path := by
  rw [String.endsWith_eq_endsWith_toSlice, String.Slice.endsWith_string_iff,
    String.copy_toSlice] at h
  obtain ⟨front, hfront⟩ := h
  have hpath : path = String.ofList front ++ ending := by
    rw [← String.toList_inj, String.toList_append, String.toList_ofList, hfront]
  rw [hpath]
  exact Path.endsInStep_append slash_notMem_ending isStep_append_ending _

/-- An archive is written into the directory of the path that is given, under the last part of it
with the ending. -/
theorem exists_steps_writtenName {path : String} (h : Path.EndsInStep path) :
    ∃ directory last written, Path.steps path = directory ++ [last] ∧
      Path.steps (writtenName path) = directory ++ [written] ∧
      (path.endsWith ending = false → last ≠ written ∧ written ≠ "..") := by
  obtain ⟨directory, last, hpath, happend⟩ :=
    h.exists_steps slash_notMem_ending isStep_append_ending
  cases hending : path.endsWith ending with
  | true =>
    rw [writtenName, hending, if_pos rfl]
    exact ⟨directory, last, last, hpath, hpath, nofun⟩
  | false =>
    rw [writtenName, hending, if_neg Bool.false_ne_true]
    exact ⟨directory, last, last ++ ending, hpath, happend, fun _ =>
      ⟨ne_append_ending last, append_ending_ne_back last⟩⟩

/-! ## Numbers -/

variable {α : Type}

theorem isReadable_ofExtractor [Scalar α] (x : Extractor α) :
    (ofExtractor x).isReadable = true ↔ x.window.side < 2 ^ 64 ∧ x.stride.step < 2 ^ 64 := by
  have hcount : Word.count 64 = 2 ^ 64 := rfl
  have horder : x.order.degree < 2 ^ 64 := x.order.le_six.trans_lt (by norm_num)
  simp only [isReadable, ofExtractor, hcount, List.all_cons, List.all_nil, Bool.and_true,
    Bool.and_eq_true, decide_eq_true_eq]
  exact and_iff_right horder

theorem load_of_readAt {f : Folder (Archive α)} {path : String} {a : Archive α}
    (h : f.readAt (Path.steps path) = .ok a) :
    load f path = if a.isReadable then .ok a else .error (.file .storedObject) := by
  rw [load, h, mapError_ok, ok_bind]
  rfl

/-! ## Round trip -/

/-- **An archive is read again under the name under which it was written.** Let the archive of any
extractor be saved under a path that has the ending, or at least ends in a step, into a folder that
admits a file there. Then it is written, the other files are as before, and under the written name
the features, the order, the window and the stride of the extractor are loaded, if window and stride
are words of 64 bits; if not, the archive is refused. The written name is the path itself if that has
the ending. If it does not, and no file was at the path before, loading it is refused. -/
theorem load_save [Scalar α] (x : Extractor α) (f : Folder (Archive α)) (path : String)
    (hpath : path.endsWith ending = true ∨ Path.EndsInStep path)
    (hf : f.Admits (Path.steps (writtenName path))) :
    ∃ saved, save f path (ofExtractor x) = (.ok (), saved) ∧
      load saved (writtenName path) =
        (if x.window.side < 2 ^ 64 ∧ x.stride.step < 2 ^ 64 then
          .ok ⟨x.features, x.order.degree, x.window.side, x.stride.step⟩
        else .error (.file .storedObject)) ∧
      (path.endsWith ending = true → writtenName path = path) ∧
      (path.endsWith ending = false → (∀ b, f.at? (Path.ofText path) ≠ .file b) →
        ∃ cause, load saved path = .error (.file cause)) ∧
      ∀ p, p ≠ Path.ofText (writtenName path) → ∀ b, saved.at? p = .file b ↔ f.at? p = .file b := by
  have hends : Path.EndsInStep path := hpath.elim endsInStep_of_endsWith id
  obtain ⟨directory, last, written, hsteps, hwritten, hother⟩ := exists_steps_writtenName hends
  rw [hwritten] at hf
  obtain ⟨made, saved, hmake, hwrite, hread, hfiles⟩ := hf.exists_written (ofExtractor x)
  have hplace : Path.ofText (writtenName path) = Path.place (directory ++ [written]) :=
    congrArg Path.place hwritten
  refine ⟨saved, ?_, ?_, fun hending => if_pos hending, fun hending hnone => ?_, ?_⟩
  · rw [save, hsteps, List.dropLast_concat, hmake]
    dsimp only
    rw [hwritten, hwrite]
  · rw [← hwritten] at hread
    rw [load_of_readAt hread]
    exact if_congr (isReadable_ofExtractor x) rfl rfl
  · obtain ⟨hne, hback⟩ := hother hending
    cases hresult : saved.readAt (Path.steps path) with
    | ok b =>
      rw [hsteps] at hresult
      have hfile := (hfiles _ (Path.place_ne hback hne) b).1 (Folder.readAt_eq_ok_iff.1 hresult).2
      rw [← hsteps] at hfile
      exact absurd hfile (hnone b)
    | error o =>
      refine ⟨o.fault (saved.shown path), ?_⟩
      rw [load, hresult]
      rfl
  · rw [hplace]
    exact hfiles

/-- An extractor with the features of an image, saved into a directory that is made for it: the
archive is read again under the path with the ending, while under the path without it there is
none. -/
theorem load_save_six_by_seven :
    letI := Decomposition.byColumns
    let image : ArrayLike (Exact ℚ) :=
      .array (Samples.ofMatrix ⟨6, 7, Table.ofFn fun r c => .number ((r.val : ℚ) * c.val + 1)⟩)
    let s : Store (Exact ℚ) := Store.empty.run
      [.construct "a" (some (.int 1)) (some (.int 5)) (some (.int 2)) none, .load "a" image]
    let f : Folder (Archive (Exact ℚ)) := .empty "folder"
    ∃ x, s.extractor? "a" = some x ∧ x.features.shape = [1, 2, 2] ∧
      (∃ saved, save f "results/a.npz" (ofExtractor x) = (.ok (), saved) ∧
        load saved "results/a.npz" = .ok ⟨x.features, 1, 5, 2⟩) ∧
      ∃ saved cause, save f "results/a" (ofExtractor x) = (.ok (), saved) ∧
        load saved "results/a" = .error (.file cause) := by
  intro image s f
  let := Decomposition.byColumns
  have hrun : (s.extractor? "a").map (fun x =>
      (x.features.shape, x.order.degree, x.window.side, x.stride.step)) =
        some ([1, 2, 2], 1, 5, 2) := by
    decide +kernel
  obtain ⟨x, hx, hvalues⟩ := Option.map_eq_some_iff.1 hrun
  simp only [Prod.mk.injEq] at hvalues
  obtain ⟨hshape, horder, hwindow, hstride⟩ := hvalues
  have hadmits : f.Admits ["results", "a.npz"] := by
    refine Folder.empty_admits (fun before hbefore => ?_) (by decide)
    rcases List.prefix_concat_iff.1 (show before <+: [] ++ ["results"] from hbefore) with
      rfl | hnil
    · decide
    · rw [List.prefix_nil.1 hnil]
      decide
  have hwith : Path.steps (writtenName "results/a.npz") = ["results", "a.npz"] := by
    decide +kernel
  have hwithout : Path.steps (writtenName "results/a") = ["results", "a.npz"] := by
    decide +kernel
  have hends : Path.EndsInStep "results/a" := ⟨["results"], "a", by decide +kernel, by decide⟩
  refine ⟨x, hx, hshape, ?_, ?_⟩
  · obtain ⟨saved, hsave, hload, hname, -⟩ :=
      load_save x f "results/a.npz" (.inl (by decide +kernel)) (hwith ▸ hadmits)
    refine ⟨saved, hsave, ?_⟩
    rw [hname (by decide +kernel), horder, hwindow, hstride] at hload
    exact hload
  · obtain ⟨saved, hsave, -, -, hrefused, -⟩ :=
      load_save x f "results/a" (.inr hends) (hwithout ▸ hadmits)
    obtain ⟨cause, hload⟩ := hrefused (by decide +kernel) fun b => Folder.at?_empty_ne_file
    exact ⟨saved, cause, hsave, hload⟩

/-- Not every archive is read again under the path that was given: one of a new extractor that is
saved as `features` into an empty folder is not. -/
theorem not_load_save_features :
    letI := Decomposition.byColumns
    ¬∀ (commands : List (Command (Exact ℚ))) (name : String) (x : Extractor (Exact ℚ)),
      (Store.empty.run commands).extractor? name = some x →
      ∀ (f : Folder (Archive (Exact ℚ))) (path : String), Path.EndsInStep path →
        f.Admits (Path.steps (writtenName path)) →
        ∃ saved, save f path (ofExtractor x) = (.ok (), saved) ∧
          load saved path = .ok (ofExtractor x) := by
  let := Decomposition.byColumns
  intro h
  let commands : List (Command (Exact ℚ)) :=
    [.construct "a" (some (.int 1)) (some (.int 3)) none none]
  have hmade : ((Store.empty.run commands).extractor? "a").isSome = true := by decide +kernel
  obtain ⟨x, hx⟩ := Option.isSome_iff_exists.1 hmade
  have hends : Path.EndsInStep "features" := ⟨[], "features", by decide +kernel, by decide⟩
  have hname : Path.steps (writtenName "features") = ["features.npz"] := by decide +kernel
  have hadmits : (Folder.empty "folder" : Folder (Archive (Exact ℚ))).Admits ["features.npz"] := by
    refine Folder.empty_admits (fun before hbefore => ?_) (by decide)
    rw [List.prefix_nil.1 hbefore]
    decide
  obtain ⟨saved, hsave, hload⟩ := h commands "a" x hx _ "features" hends (hname ▸ hadmits)
  have hpath : Path.steps "features" = ["features"] := by decide +kernel
  have hmake : (Folder.empty "folder" : Folder (Archive (Exact ℚ))).makeDirectory
      ["features"].dropLast = (.ok (), .empty "folder") := rfl
  have hwrite : (Folder.empty "folder" : Folder (Archive (Exact ℚ))).writeAt ["features.npz"]
      (ofExtractor x) = .ok ⟨"folder", [(["features.npz"], ofExtractor x)], []⟩ := rfl
  have hsaved : saved = ⟨"folder", [(["features.npz"], ofExtractor x)], []⟩ := by
    simp only [save, hpath, hmake, hname, hwrite] at hsave
    exact (congrArg Prod.snd hsave).symm
  rw [hsaved, load, hpath] at hload
  cases hload

end Archive

end Facet
