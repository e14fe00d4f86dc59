import Mathlib
import Facet.Files.Document
import Facet.Proofs.Keys

/-!
# Which documents are configurations

A document is a configuration if it has no content, or if it is a mapping of mappings whose keys are
sections that exist. Everything else is refused, and nearly always as an invalid configuration. But
the keys that are no sections are put in order first, and then shown, so that they can be reported;
keys of which some are numbers and others texts, say, have no order, and a whole number can be too
long to be shown. Exactly then the document is refused under another class.
-/

namespace Facet

/-! ## Keys that have an order -/

/-- The kinds of keys that can be compared with each other. -/
inductive KeyFamily where
  /-- Truth values, whole numbers and doubles. -/
  | number
  /-- Texts. -/
  | text
  /-- Byte strings. -/
  | bytes
  /-- Days. -/
  | date
  /-- Times, if their distance from universal time is known or if it is not. -/
  | moment (zoned : Bool)

namespace Value

variable {a b : Value}

/-- The kind of keys that a value belongs to. -/
def family? : Value → Option KeyFamily
  | .bool _ | .int _ | .float _ => some .number
  | .text _ => some .text
  | .bytes _ => some .bytes
  | .date _ => some .date
  | .moment m => some (.moment m.ahead.isSome)
  | .null | .list _ | .mapping _ => none

/-- Whether some keys can be put in order: there is nothing to compare, or they all belong to one
kind. -/
def Sortable (keys : List Value) : Prop :=
  keys.length ≤ 1 ∨ ∃ f, ∀ key ∈ keys, key.family? = some f

theorem Sortable.of_subperm {keys more : List Value} (h : Sortable more)
    (hkeys : List.Subperm keys more) : Sortable keys := by
  rcases h with hfew | ⟨f, hf⟩
  · exact .inl (hkeys.length_le.trans hfew)
  · exact .inr ⟨f, fun key hkey => hf key (hkeys.subset hkey)⟩

theorem family?_of_dyadic? {d : Int × Int} (h : a.dyadic? = some d) : a.family? = some .number := by
  cases a with
  | bool _ | int _ | float _ => rfl
  | null | text _ | bytes _ | date _ | moment _ | list _ | mapping _ => cases h

/-- Two keys can be compared exactly if they belong to one kind. -/
theorem isSome_sortsBefore?_iff :
    (a.sortsBefore? b).isSome ↔ ∃ f, a.family? = some f ∧ b.family? = some f := by
  unfold sortsBefore?
  cases ha : a.dyadic? with
  | some d =>
    rw [family?_of_dyadic? ha]
    cases hb : b.dyadic? with
    | some e => exact ⟨fun _ => ⟨_, rfl, family?_of_dyadic? hb⟩, fun _ => rfl⟩
    | none =>
      cases b with
      | bool _ | int _ => cases hb
      | null | float _ | text _ | bytes _ | date _ | moment _ | list _ | mapping _ =>
        simp [family?]
  | none =>
    cases hb : b.dyadic? with
    | some e =>
      rw [family?_of_dyadic? hb]
      cases a with
      | bool _ | int _ => cases ha
      | null | float _ | text _ | bytes _ | date _ | moment _ | list _ | mapping _ =>
        simp [family?]
    | none =>
      cases a with
      | bool _ | int _ => cases ha
      | moment m =>
        cases b with
        | bool _ | int _ => cases hb
        | moment n =>
          by_cases hzones : m.ahead.isSome = n.ahead.isSome
          · simp [family?, Moment.comparable, hzones]
          · simp [family?, Moment.comparable, hzones, Ne.symm hzones]
        | null | float _ | text _ | bytes _ | date _ | list _ | mapping _ => simp [family?]
      | null | float _ | text _ | bytes _ | date _ | list _ | mapping _ =>
        cases b with
        | bool _ | int _ => cases hb
        | null | float _ | text _ | bytes _ | date _ | moment _ | list _ | mapping _ =>
          simp [family?]

end Value

namespace Settings

open Value

theorem kind_orderFault (a b : Value) : (orderFault a b).kind = .type := by
  unfold orderFault
  split <;> rfl

/-- A key finds its place among sorted keys of its own kind. -/
theorem placeKey_eq_ok {key : Value} {sorted : List Value} (h : Sortable (key :: sorted)) :
    ∃ out, placeKey key sorted = .ok out ∧ out.Perm (key :: sorted) := by
  induction sorted with
  | nil => exact ⟨[key], rfl, .refl _⟩
  | cons last before ih =>
    obtain hfew | ⟨f, hf⟩ := h
    · simp at hfew
    have hcompares : (key.sortsBefore? last).isSome :=
      isSome_sortsBefore?_iff.2 ⟨f, hf key (by simp), hf last (by simp)⟩
    rw [placeKey]
    cases hbefore : key.sortsBefore? last with
    | none => simp [hbefore] at hcompares
    | some earlier =>
      cases earlier with
      | false => exact ⟨_, rfl, .refl _⟩
      | true =>
        have hrest : Sortable (key :: before) := .inr ⟨f, fun v hv => hf v (by
          rcases List.mem_cons.1 hv with rfl | hv
          · exact List.mem_cons_self
          · exact List.mem_cons_of_mem _ (List.mem_cons_of_mem _ hv))⟩
        obtain ⟨out, hout, hperm⟩ := ih hrest
        refine ⟨last :: out, ?_, ?_⟩
        · dsimp only
          rw [hout]
          rfl
        · exact (hperm.cons last).trans (List.Perm.swap key last before)

/-- A key of another kind than those that are sorted already is refused when it is compared with the
last of them. -/
theorem placeKey_eq_error {key : Value} {sorted : List Value} (hsorted : Sortable sorted)
    (h : ¬Sortable (key :: sorted)) :
    ∃ last, placeKey key sorted = .error (orderFault key last) := by
  cases sorted with
  | nil => exact absurd (.inl le_rfl) h
  | cons last before =>
    refine ⟨last, ?_⟩
    rw [placeKey]
    cases hbefore : key.sortsBefore? last with
    | none => rfl
    | some earlier =>
      obtain ⟨f, hkey, hlast⟩ := isSome_sortsBefore?_iff.1 (Option.isSome_iff_exists.2 ⟨_, hbefore⟩)
      refine absurd (.inr ⟨f, fun v hv => ?_⟩) h
      rcases List.mem_cons.1 hv with rfl | hv
      · exact hkey
      rcases hsorted with hfew | ⟨g, hg⟩
      · obtain rfl : before = [] := by simpa using hfew
        rw [List.mem_singleton.1 hv, hlast]
      · rw [hg v hv, ← hg last List.mem_cons_self, hlast]

/-- Keys are added one by one to those that are sorted already. -/
theorem foldlM_placeKey (keys sorted : List Value) (hsorted : Sortable sorted) :
    (Sortable (sorted ++ keys) → ∃ out,
      keys.foldlM (fun sorted key => placeKey key sorted) sorted = .ok out ∧
        out.Perm (sorted ++ keys)) ∧
    (¬Sortable (sorted ++ keys) → ∃ a b,
      keys.foldlM (fun sorted key => placeKey key sorted) sorted = .error (orderFault a b)) := by
  induction keys generalizing sorted with
  | nil =>
    rw [List.append_nil]
    exact ⟨fun _ => ⟨sorted, rfl, .refl _⟩, fun h => absurd hsorted h⟩
  | cons key rest ih =>
    rw [List.foldlM_cons]
    by_cases hfirst : Sortable (key :: sorted)
    · obtain ⟨next, hnext, hperm⟩ := placeKey_eq_ok hfirst
      have hall : (next ++ rest).Perm (sorted ++ key :: rest) :=
        (hperm.append_right rest).trans List.perm_middle.symm
      obtain ⟨hok, herror⟩ := ih next (hfirst.of_subperm hperm.subperm)
      rw [hnext, ok_bind]
      refine ⟨fun h => ?_, fun h => herror fun h' => h (h'.of_subperm hall.symm.subperm)⟩
      obtain ⟨out, hout, hperm'⟩ := hok (h.of_subperm hall.subperm)
      exact ⟨out, hout, hperm'.trans hall⟩
    · -- what cannot be sorted now cannot be sorted with more keys either
      obtain ⟨last, hlast⟩ := placeKey_eq_error hsorted hfirst
      rw [hlast, error_bind]
      refine ⟨fun h => absurd (h.of_subperm ?_) hfirst, fun _ => ⟨key, last, rfl⟩⟩
      have hmiddle : (key :: sorted).Perm (sorted ++ [key]) :=
        (List.perm_append_singleton key sorted).symm
      refine hmiddle.subperm.trans (List.Sublist.subperm ?_)
      exact (List.Sublist.refl sorted).append (List.singleton_sublist.2 List.mem_cons_self)

theorem sortKeys_eq_ok {keys : List Value} (h : Sortable keys) :
    ∃ sorted, sortKeys keys = .ok sorted ∧ sorted.Perm keys := by
  obtain ⟨out, hout, hperm⟩ := (foldlM_placeKey keys [] (.inl (Nat.zero_le 1))).1 h
  refine ⟨out.reverse, ?_, (List.reverse_perm out).trans hperm⟩
  rw [sortKeys, hout]
  rfl

theorem sortKeys_eq_error {keys : List Value} (h : ¬Sortable keys) :
    ∃ a b, sortKeys keys = .error (orderFault a b) := by
  obtain ⟨a, b, herror⟩ := (foldlM_placeKey keys [] (.inl (Nat.zero_le 1))).2 h
  refine ⟨a, b, ?_⟩
  rw [sortKeys, herror]
  rfl

end Settings

/-! ## Documents -/

namespace Value

/-- A text is the same key as no value but itself. -/
theorem sameKey_text_iff (s : String) (v : Value) : (text s).sameKey v = true ↔ v = .text s := by
  have hs : (text s).dyadic? = none := rfl
  unfold sameKey
  rw [hs]
  cases hv : v.dyadic? with
  | some d =>
    have hnumber := family?_of_dyadic? hv
    refine ⟨nofun, ?_⟩
    rintro rfl
    cases hnumber
  | none =>
    cases v with
    | text t => simpa using eq_comm
    | null | bool _ | int _ | float _ | bytes _ | date _ | moment _ | list _ | mapping _ => simp

/-- The entries of a document: none if it is no mapping. -/
def documentEntries : Value → List (Value × Value)
  | .mapping entries => entries
  | _ => []

end Value

namespace Settings

open Value

/-- The keys under which the defaults have sections. -/
def sections : List Value := defaultTree.map Prod.fst

theorem isSection_iff (key : Value) : isSection key = true ↔ key ∈ sections := by
  have htext : ∀ entry ∈ defaultTree, entry.1.sameKey key = true ↔ key = entry.1 := by
    intro entry hentry
    obtain ⟨field, -, rfl⟩ := List.mem_map.1 hentry
    exact sameKey_text_iff _ _
  rw [isSection, isSome_lookup?_iff, sections, List.mem_map]
  constructor
  · rintro ⟨entry, hentry, hsame⟩
    exact ⟨entry, hentry, ((htext entry hentry).1 hsame).symm⟩
  · rintro ⟨entry, hentry, rfl⟩
    exact ⟨entry, hentry, (htext entry hentry).2 rfl⟩

/-- What a document has to be: without content, or a mapping of mappings whose keys are sections that
exist. -/
def Accepts (document : Value) : Prop :=
  (document = .null ∨ document.isMapping = true) ∧
    ∀ entry ∈ document.documentEntries, entry.1 ∈ sections ∧ entry.2.isMapping = true

/-- The keys of a document that are no sections. -/
def unknownSections (document : Value) : List Value :=
  (document.documentEntries.map Prod.fst).filter fun key => !isSection key

/-- Whether a result is a refusal under a class. -/
def RefusedAs {β : Type} (result : Except Fault β) (kind : Fault.Kind) : Prop :=
  ∃ e, result = .error e ∧ e.kind = kind

theorem unknownSections_eq_nil_iff (document : Value) :
    unknownSections document = [] ↔ ∀ entry ∈ document.documentEntries, entry.1 ∈ sections := by
  simp [unknownSections, List.filter_eq_nil_iff, isSection_iff]

theorem ofDocument_of_accepts (path : String) {document : Value} (h : Accepts document) :
    ofDocument path document = .ok (merge defaultTree document.documentEntries) := by
  obtain ⟨hkind, hentries⟩ := h
  cases document with
  | null => rfl
  | mapping given =>
    have hunknown := (unknownSections_eq_nil_iff (.mapping given)).2 fun e he => (hentries e he).1
    rw [unknownSections, documentEntries] at hunknown
    simp only [ofDocument, hunknown, List.isEmpty_nil, Bool.not_true, Bool.false_eq_true, if_false]
    split
    · next name value hfind =>
      have hmapping : value.isMapping = true := (hentries _ (List.mem_of_find?_eq_some hfind)).2
      exact absurd hmapping (by simpa using List.find?_some hfind)
    · rfl
  | bool _ | int _ | float _ | text _ | bytes _ | date _ | moment _ | list _ =>
    rcases hkind with hnull | hmapping
    · cases hnull
    · cases hmapping

/-- Keys that are no sections are put in order, and then shown. -/
theorem ofDocument_of_unknown (path : String) {document : Value}
    (h : unknownSections document ≠ []) :
    ofDocument path document =
      match sortKeys (unknownSections document) with
      | .ok sorted => .error (.showing sorted (.setting (.unknownSections sorted)))
      | .error cause => .error (.argument cause) := by
  cases document with
  | mapping given =>
    have hsome : (unknownSections (.mapping given)).isEmpty = false := by
      rw [← Bool.not_eq_true, List.isEmpty_iff]
      exact h
    rw [unknownSections, documentEntries] at hsome ⊢
    simp only [ofDocument, hsome, Bool.not_false, if_true]
    cases hsort : sortKeys ((given.map Prod.fst).filter fun key => !isSection key) with
    | error cause => rfl
    | ok sorted => rfl
  | null | bool _ | int _ | float _ | text _ | bytes _ | date _ | moment _ | list _ =>
    exact absurd rfl h

/-- What is no mapping, or has a section that is none, is an invalid configuration. -/
theorem ofDocument_of_known (path : String) {document : Value} (h : ¬Accepts document)
    (hunknown : unknownSections document = []) :
    RefusedAs (ofDocument path document) .invalidConfiguration := by
  have hsections := (unknownSections_eq_nil_iff document).1 hunknown
  cases document with
  | null => exact absurd ⟨.inl rfl, nofun⟩ h
  | mapping given =>
    rw [unknownSections, documentEntries] at hunknown
    simp only [ofDocument, hunknown, List.isEmpty_nil, Bool.not_true, Bool.false_eq_true, if_false]
    split
    · next name value hfind => exact ⟨.setting (.badSection name), rfl, rfl⟩
    · next hfind =>
      refine absurd ⟨.inr rfl, fun e he => ⟨hsections e he, ?_⟩⟩ h
      simpa using List.find?_eq_none.1 hfind e he
  | bool _ | int _ | float _ | text _ | bytes _ | date _ | moment _ | list _ =>
    exact ⟨_, rfl, rfl⟩

/-- What is refused is refused under one class only. -/
theorem RefusedAs.iff_eq {β : Type} {result : Except Fault β} {kind other : Fault.Kind}
    (h : RefusedAs result kind) : RefusedAs result other ↔ other = kind := by
  obtain ⟨e, rfl, rfl⟩ := h
  constructor
  · rintro ⟨e', he, rfl⟩
    cases he
    rfl
  · rintro rfl
    exact ⟨e, rfl, rfl⟩

theorem refusedAs_type (path : String) {document : Value}
    (h : ¬Sortable (unknownSections document)) : RefusedAs (ofDocument path document) .type := by
  have hsome : unknownSections document ≠ [] := by
    intro hnone
    rw [hnone] at h
    exact h (.inl (Nat.zero_le 1))
  obtain ⟨a, b, hsort⟩ := sortKeys_eq_error h
  refine ⟨.argument (orderFault a b), ?_, kind_orderFault a b⟩
  rw [ofDocument_of_unknown path hsome, hsort]

theorem refusedAs_value (path : String) {document : Value}
    (h : Sortable (unknownSections document))
    (hlong : ∃ key ∈ unknownSections document, ¬key.isShowable = true) :
    RefusedAs (ofDocument path document) .value := by
  obtain ⟨key, hkey, hshown⟩ := hlong
  obtain ⟨sorted, hsort, hperm⟩ := sortKeys_eq_ok h
  have hsorted : ¬areShowable sorted = true := by
    rw [areShowable_iff]
    exact fun hall => hshown (hall key (hperm.mem_iff.2 hkey))
  refine ⟨.argument .notShowable, ?_, rfl⟩
  rw [ofDocument_of_unknown path (List.ne_nil_of_mem hkey), hsort]
  exact congrArg Except.error (Fault.showing_of_not_showable hsorted _)

theorem refusedAs_invalid (path : String) {document : Value} (hrefused : ¬Accepts document)
    (h : Sortable (unknownSections document))
    (hshort : ∀ key ∈ unknownSections document, key.isShowable = true) :
    RefusedAs (ofDocument path document) .invalidConfiguration := by
  by_cases hunknown : unknownSections document = []
  · exact ofDocument_of_known path hrefused hunknown
  · obtain ⟨sorted, hsort, hperm⟩ := sortKeys_eq_ok h
    have hsorted : areShowable sorted = true :=
      (areShowable_iff sorted).2 fun key hkey => hshort key (hperm.mem_iff.1 hkey)
    refine ⟨.setting (.unknownSections sorted), ?_, rfl⟩
    rw [ofDocument_of_unknown path hunknown, hsort]
    exact congrArg Except.error (Fault.showing_of_showable hsorted _)

/-- **Documents are configurations, or invalid ones, unless their unknown keys cannot be reported.**
Let a file hold a document of any content. If the document has no content, or is a mapping of
mappings whose keys are sections that exist, the file is loaded, and its document laid over the
defaults. Otherwise it is refused: as an invalid configuration exactly if its keys that are no
sections can be put in order and are short enough to be shown; under the class of arguments of the
wrong kind exactly if they cannot be put in order; and under that of wrong values exactly if one of
them, though they can be put in order, is too long. -/
theorem load_document {folder : Folder String} {path text : String} {document : Value}
    (hfile : folder.find (Path.steps path) = .file text)
    (hread : Yaml.read (Text.withLineFeeds text) = .ok document) :
    let result := load folder path
    let unknown := unknownSections document
    (Accepts document → result = .ok (merge defaultTree document.documentEntries)) ∧
    (¬Accepts document →
      (RefusedAs result .invalidConfiguration ↔
        Sortable unknown ∧ ∀ key ∈ unknown, key.isShowable = true) ∧
      (RefusedAs result .type ↔ ¬Sortable unknown) ∧
      (RefusedAs result .value ↔ Sortable unknown ∧ ∃ key ∈ unknown, ¬key.isShowable = true)) := by
  intro result unknown
  have hresult : result = ofDocument (folder.shown path) document := by
    simp only [result, load, hfile, hread, ok_bind]
  rw [hresult]
  refine ⟨ofDocument_of_accepts _, fun hrefused => ?_⟩
  by_cases hsortable : Sortable unknown
  · by_cases hshort : ∀ key ∈ unknown, key.isShowable = true
    · have hinvalid := refusedAs_invalid (folder.shown path) hrefused hsortable hshort
      rw [hinvalid.iff_eq, hinvalid.iff_eq, hinvalid.iff_eq]
      refine ⟨iff_of_true rfl ⟨hsortable, hshort⟩, iff_of_false nofun (not_not.2 hsortable),
        iff_of_false nofun ?_⟩
      rintro ⟨-, key, hkey, hlong⟩
      exact hlong (hshort key hkey)
    · have hlong : ∃ key ∈ unknown, ¬key.isShowable = true := by simpa using hshort
      have hvalue := refusedAs_value (folder.shown path) hsortable hlong
      rw [hvalue.iff_eq, hvalue.iff_eq, hvalue.iff_eq]
      exact ⟨iff_of_false nofun fun h => hshort h.2, iff_of_false nofun (not_not.2 hsortable),
        iff_of_true rfl ⟨hsortable, hlong⟩⟩
  · have htype := refusedAs_type (folder.shown path) hsortable
    rw [htype.iff_eq, htype.iff_eq, htype.iff_eq]
    exact ⟨iff_of_false nofun fun h => hsortable h.1, iff_of_true rfl hsortable,
      iff_of_false nofun fun h => hsortable h.1⟩

/-- A whole number and a truth value are no sections, but they can be put in order. -/
theorem load_document_two_and_true :
    let text := "2: 1\ntrue: {}\n"
    let document : Value := .mapping [(.int 2, .int 1), (.bool true, .mapping [])]
    let folder : Folder String := ⟨"home", [(["a.yaml"], text)], []⟩
    (folder.find (Path.steps "a.yaml") = .file text ∧
      Yaml.read (Text.withLineFeeds text) = .ok document) ∧
    ¬Accepts document ∧ RefusedAs (load folder "a.yaml") .invalidConfiguration := by
  intro text document folder
  have hfile : folder.find (Path.steps "a.yaml") = .file text := by cbv
  have hread : Yaml.read (Text.withLineFeeds text) = .ok document := by cbv
  have hrefused : ¬Accepts document := by
    intro h
    have htwo := (isSection_iff (.int 2)).2 (h.2 _ List.mem_cons_self).1
    cases htwo
  have hunknown : unknownSections document = [.int 2, .bool true] := rfl
  obtain ⟨hinvalid, -⟩ := (load_document hfile hread).2 hrefused
  refine ⟨⟨hfile, hread⟩, hrefused, hinvalid.2 ?_⟩
  rw [hunknown]
  refine ⟨.inr ⟨.number, ?_⟩, ?_⟩
  · simp [family?]
  · decide +kernel

/-- Not every document that is no configuration is refused as an invalid one: with a number and a
text for keys it is not. -/
theorem not_invalid_zero_and_foo :
    ¬∀ (folder : Folder String) (path text : String) (document : Value),
      folder.find (Path.steps path) = .file text →
      Yaml.read (Text.withLineFeeds text) = .ok document →
      (RefusedAs (load folder path) .invalidConfiguration ↔ ¬Accepts document) := by
  intro h
  let text := "0: 1\nfoo: 2\n"
  let document : Value := .mapping [(.int 0, .int 1), (.text "foo", .int 2)]
  let folder : Folder String := ⟨"home", [(["a.yaml"], text)], []⟩
  have hfile : folder.find (Path.steps "a.yaml") = .file text := by cbv
  have hread : Yaml.read (Text.withLineFeeds text) = .ok document := by cbv
  have hload : load folder "a.yaml" = .error (.argument (.incomparable "<" "str" "int")) := by
    simp only [load, hfile, hread, ok_bind]
    rfl
  have hrefused : ¬Accepts document := by
    intro haccepts
    have hzero := (isSection_iff (.int 0)).2 (haccepts.2 _ List.mem_cons_self).1
    cases hzero
  obtain ⟨e, he, hkind⟩ := (h folder "a.yaml" text document hfile hread).2 hrefused
  rw [hload] at he
  cases he
  cases hkind

end Settings

end Facet
