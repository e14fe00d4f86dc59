import Mathlib
import Facet.Proofs.Documents
import Facet.Proofs.Keys

/-!
# Merging

A merge lays what is given over a base and goes through both at once, as long as both have a mapping
at the same place. So what is found under a key afterwards is what was given for it, unless both are
mappings, which are merged in turn; and what is found at the end of a path is known by induction on
the path. A second merge finds at every place what the first has left there.
-/

namespace Facet

namespace Value

/-- The value to which a path of keys leads, mapping by mapping. -/
def follow? : List Value → Value → Option Value
  | [], v => some v
  | key :: rest, v => (lookup? key v.documentEntries).bind (follow? rest)

/-- Whether a path leads to a value that is no mapping. -/
def HasLeaf (v : Value) (path : List Value) (x : Value) : Prop :=
  follow? path v = some x ∧ x.isMapping = false

/-- Whether a path leads, through mappings that both trees have, to a key for which nothing is given. -/
inductive Uncovered : (base given : List (Value × Value)) → (path : List Value) → Prop where
  /-- Nothing is given for the key. -/
  | missing {base given : List (Value × Value)} {key : Value} {rest : List Value}
      (h : lookup? key given = none) : Uncovered base given (key :: rest)
  /-- Both trees have a mapping under the key, and in these the path goes on. -/
  | deeper {base given old new : List (Value × Value)} {key : Value} {rest : List Value}
      (hgiven : lookup? key given = some (.mapping new))
      (hbase : lookup? key base = some (.mapping old)) (h : Uncovered old new rest) :
      Uncovered base given (key :: rest)

variable {base given old new entries : List (Value × Value)} {key v x : Value} {rest : List Value}

theorem not_hasLeaf_nil : ¬HasLeaf (.mapping entries) [] x := by
  rintro ⟨h, hx⟩
  cases h
  cases hx

theorem hasLeaf_cons_iff : HasLeaf (.mapping entries) (key :: rest) x ↔
    ∃ v, lookup? key entries = some v ∧ HasLeaf v rest x := by
  simp only [HasLeaf, follow?, documentEntries, Option.bind_eq_some_iff]
  grind

theorem uncovered_cons_iff (hv : lookup? key given = some v) :
    Uncovered base given (key :: rest) ↔
      ∃ old new, lookup? key base = some (.mapping old) ∧ v = .mapping new ∧
        Uncovered old new rest := by
  constructor
  · intro h
    cases h with
    | missing h =>
      rw [hv] at h
      cases h
    | deeper hgiven hbase h =>
      rw [hv] at hgiven
      exact ⟨_, _, hbase, Option.some.inj hgiven, h⟩
  · rintro ⟨old, new, hbase, rfl, h⟩
    exact .deeper hv hbase h

end Value

namespace Settings

open Value

variable {base given old new : List (Value × Value)} {key v x : Value}

/-! ## One mapping -/

theorem mergeValue_mapping (old new : List (Value × Value)) :
    mergeValue (some (.mapping old)) (.mapping new) = .mapping (merge old new) := by
  simp [mergeValue]

/-- Unless both are mappings, what is given takes the place of what was there. -/
theorem mergeValue_of_not_both {b : Option Value}
    (h : ∀ old new, b = some (.mapping old) → v ≠ .mapping new) : mergeValue b v = v := by
  rw [mergeValue]
  exact fun new old hv hb => h old new hb hv

theorem mergeValue_of_not_mapping (h : v.isMapping = false) (b : Option Value) :
    mergeValue b v = v := by
  refine mergeValue_of_not_both fun old new _ => ?_
  rintro rfl
  cases h

/-- What is found under a key after a merge: what was there, if nothing is given for the key, and
otherwise the two values merged. -/
theorem lookup?_merge (hgiven : Apart (given.map Prod.fst)) (key : Value)
    (base : List (Value × Value)) :
    lookup? key (merge base given) =
      match lookup? key given with
      | none => lookup? key base
      | some v => some (mergeValue (lookup? key base) v) := by
  induction given generalizing base with
  | nil => rw [merge, lookup?]
  | cons entry rest ih =>
    obtain ⟨k, v⟩ := entry
    obtain ⟨hkeys, hdistinct⟩ := hgiven
    rw [List.map_cons] at hkeys hdistinct
    obtain ⟨hk, hrest⟩ := List.pairwise_cons.1 hdistinct
    rw [merge, ih ⟨fun key hkey => hkeys key (List.mem_cons_of_mem _ hkey), hrest⟩,
      lookup?_insert, lookup?]
    by_cases hkey : k.sameKey key = true
    · -- the other entries have other keys, so they leave what is written now
      have hnone : lookup? key rest = none := by
        rw [← Option.not_isSome_iff_eq_none, isSome_lookup?_iff]
        rintro ⟨other, hother, hsame⟩
        refine hk other.1 (List.mem_map_of_mem hother) ?_
        rwa [sameKey_congr hkey, sameKey_comm]
      rw [hnone, if_pos hkey, if_pos hkey, lookup?_congr hkey]
    · rw [if_neg hkey, if_neg hkey]

/-! ## Merging twice -/

/-- Entries that change nothing one by one change nothing together. -/
theorem merge_eq_self (h : ∀ entry ∈ given, ∃ v, lookup? entry.1 base = some v ∧
    mergeValue (some v) entry.2 = v) : merge base given = base := by
  induction given with
  | nil => rw [merge]
  | cons entry rest ih =>
    obtain ⟨v, hv, hmerged⟩ := h entry List.mem_cons_self
    rw [merge, hv, hmerged, insert_of_lookup? hv]
    exact ih fun other hother => h other (List.mem_cons_of_mem _ hother)

/-- A value that was merged once is merged again without effect. -/
theorem mergeValue_mergeValue (hv : WellKeyed v) (b : Option Value) :
    mergeValue (some (mergeValue b v)) v = mergeValue b v := by
  induction hv generalizing b with
  | leaf h => rw [mergeValue_of_not_mapping h, mergeValue_of_not_mapping h]
  | @mapping entries keys values ih =>
    by_cases hb : ∃ old, b = some (.mapping old)
    · obtain ⟨old, rfl⟩ := hb
      rw [mergeValue_mapping, mergeValue_mapping]
      congr 1
      refine merge_eq_self fun entry hentry => ?_
      refine ⟨mergeValue (lookup? entry.1 old) entry.2, ?_, ih entry hentry _⟩
      rw [lookup?_merge keys, keys.lookup? hentry]
    · rw [mergeValue_of_not_both fun old _ hold => absurd ⟨old, hold⟩ hb, mergeValue_mapping]
      congr 1
      refine merge_eq_self fun entry hentry => ⟨entry.2, keys.lookup? hentry, ?_⟩
      have hnone : mergeValue none entry.2 = entry.2 := mergeValue_of_not_both nofun
      have hentry := ih entry hentry none
      rwa [hnone] at hentry

theorem merge_merge (hgiven : WellKeyed (.mapping given)) (base : List (Value × Value)) :
    merge (merge base given) given = merge base given := by
  have h := mergeValue_mergeValue hgiven (some (.mapping base))
  rw [mergeValue_mapping, mergeValue_mapping] at h
  exact Value.mapping.inj h

/-! ## What is merged is a mapping again -/

theorem wellKeyed_merge_of (hbase : WellKeyed (.mapping base))
    (hkeys : ∀ entry ∈ given, entry.1.isKey = true)
    (hvalues : ∀ entry ∈ given, ∀ b, (∀ w, b = some w → WellKeyed w) →
      WellKeyed (mergeValue b entry.2)) : WellKeyed (.mapping (merge base given)) := by
  induction given generalizing base with
  | nil => rwa [merge]
  | cons entry rest ih =>
    have hvalue : WellKeyed (mergeValue (lookup? entry.1 base) entry.2) :=
      hvalues entry List.mem_cons_self _ fun w hw => hbase.of_lookup? hw
    rw [merge]
    exact ih (hbase.insert (hkeys entry List.mem_cons_self) hvalue)
      (fun other hother => hkeys other (List.mem_cons_of_mem _ hother))
      fun other hother => hvalues other (List.mem_cons_of_mem _ hother)

theorem wellKeyed_mergeValue (hv : WellKeyed v) (b : Option Value)
    (hb : ∀ w, b = some w → WellKeyed w) : WellKeyed (mergeValue b v) := by
  induction hv generalizing b with
  | leaf h =>
    rw [mergeValue_of_not_mapping h]
    exact .leaf h
  | @mapping entries keys values ih =>
    by_cases hold : ∃ old, b = some (.mapping old)
    · obtain ⟨old, rfl⟩ := hold
      rw [mergeValue_mapping]
      refine wellKeyed_merge_of (hb _ rfl) (fun entry hentry => ?_) ih
      exact keys.isKey _ (List.mem_map_of_mem hentry)
    · rw [mergeValue_of_not_both fun old _ hb => absurd ⟨old, hb⟩ hold]
      exact .mapping keys values

/-- No key of a merged mapping is there twice. -/
theorem wellKeyed_merge (hbase : WellKeyed (.mapping base)) (hgiven : WellKeyed (.mapping given)) :
    WellKeyed (.mapping (merge base given)) := by
  have h := wellKeyed_mergeValue hgiven (some (.mapping base)) fun w hw => by
    cases hw
    exact hbase
  rwa [mergeValue_mapping] at h

/-! ## Paths -/

theorem hasLeaf_merge_iff (hgiven : WellKeyed (.mapping given)) {path : List Value} :
    HasLeaf (.mapping (merge base given)) path x ↔
      HasLeaf (.mapping given) path x ∨
        HasLeaf (.mapping base) path x ∧ Uncovered base given path := by
  induction path generalizing base given with
  | nil => simp [not_hasLeaf_nil]
  | cons key rest ih =>
    rw [hasLeaf_cons_iff, hasLeaf_cons_iff, hasLeaf_cons_iff, lookup?_merge hgiven.keys]
    cases hkey : lookup? key given with
    | none => simp [Uncovered.missing hkey]
    | some v =>
      rw [uncovered_cons_iff hkey]
      by_cases hboth : ∃ old new, lookup? key base = some (.mapping old) ∧ v = .mapping new
      · obtain ⟨old, new, hold, rfl⟩ := hboth
        simp [hold, mergeValue_mapping, ih (hgiven.of_lookup? hkey)]
      · have hv : mergeValue (lookup? key base) v = v :=
          mergeValue_of_not_both fun old new hold hnew => hboth ⟨old, new, hold, hnew⟩
        have hcovered : ¬∃ old new, lookup? key base = some (.mapping old) ∧ v = .mapping new ∧
            Uncovered old new rest := fun ⟨old, new, hold, hnew, _⟩ => hboth ⟨old, new, hold, hnew⟩
        rw [eq_false hcovered, and_false, or_false]
        simp [hv]

/-! ## Configurations -/

/-- Two steps into a merged mapping, if the second has only mappings where the first has some whose
values are none. -/
theorem follow?_merge_pair (hgiven : WellKeyed (.mapping given)) {name : Value}
    (hname : ∀ v, lookup? name given = some v → v.isMapping = true ∧
      ∃ old, lookup? name base = some (.mapping old))
    (hbase : ∀ old, lookup? name base = some (.mapping old) →
      ∀ v, lookup? key old = some v → v.isMapping = false) :
    follow? [name, key] (.mapping (merge base given)) =
      (follow? [name, key] (.mapping given)).or (follow? [name, key] (.mapping base)) := by
  simp only [follow?, documentEntries]
  rw [lookup?_merge hgiven.keys]
  cases hgivenName : lookup? name given with
  | none => simp
  | some v =>
    obtain ⟨hv, old, hold⟩ := hname v hgivenName
    obtain ⟨new, rfl⟩ := isMapping_iff.1 hv
    simp only [hold, Option.bind_some, mergeValue_mapping]
    rw [lookup?_merge (hgiven.of_lookup? hgivenName).keys]
    cases hkey : lookup? key new with
    | none => simp
    | some w =>
      have hmerged : mergeValue (lookup? key old) w = w := by
        refine mergeValue_of_not_both fun entries _ hentries => ?_
        cases hbase old hold _ hentries
      simp [hmerged]

/-- Different texts are different keys. -/
theorem wellKeyed_entries {fields : List (String × Value)} (hnames : (fields.map Prod.fst).Nodup)
    (hvalues : ∀ field ∈ fields, WellKeyed field.2) : WellKeyed (.mapping (entries fields)) := by
  have hkeys : (entries fields).map Prod.fst = (fields.map Prod.fst).map Value.text := by
    simp [entries]
  refine .mapping ?_ fun entry hentry => ?_
  · rw [hkeys]
    refine ⟨fun key hkey => ?_, ?_⟩
    · obtain ⟨name, -, rfl⟩ := List.mem_map.1 hkey
      rfl
    · rw [List.pairwise_map]
      refine hnames.imp fun hne hsame => hne ?_
      exact (Value.text.inj ((sameKey_text_iff _ _).1 hsame)).symm
  · obtain ⟨field, hfield, rfl⟩ := List.mem_map.1 hentry
    exact hvalues field hfield

theorem wellKeyed_defaultTree : WellKeyed (.mapping defaultTree) := by
  refine wellKeyed_entries (by decide) ?_
  simp only [List.forall_mem_cons]
  refine ⟨wellKeyed_entries (by decide) ?_, wellKeyed_entries (by decide) ?_, nofun⟩
  · simp only [List.forall_mem_cons]
    exact ⟨.leaf rfl, .leaf rfl, .leaf rfl, .leaf rfl, nofun⟩
  · simp only [List.forall_mem_cons]
    exact ⟨.leaf rfl, .leaf rfl, nofun⟩

/-- The defaults are sections whose values are no mappings. -/
theorem exists_section {name v : Value} (h : lookup? name defaultTree = some v) :
    ∃ values, v = .mapping values ∧
      ∀ key w, lookup? key values = some w → w.isMapping = false := by
  have hsections : ∀ entry ∈ defaultTree, ∃ values, entry.2 = .mapping values ∧
      ∀ field ∈ values, field.2.isMapping = false := by
    simp only [defaultTree, entries, List.map_cons, List.map_nil, List.forall_mem_cons]
    refine ⟨⟨_, rfl, ?_⟩, ⟨_, rfl, ?_⟩, nofun⟩
    · simp only [List.forall_mem_cons]
      exact ⟨rfl, rfl, rfl, rfl, nofun⟩
    · simp only [List.forall_mem_cons]
      exact ⟨rfl, rfl, nofun⟩
  obtain ⟨other, hmem, -⟩ := exists_mem_of_lookup? h
  obtain ⟨values, rfl, hvalues⟩ := hsections _ hmem
  refine ⟨values, rfl, fun key w hw => ?_⟩
  obtain ⟨field, hfield, -⟩ := exists_mem_of_lookup? hw
  exact hvalues _ hfield

theorem mem_sections_iff {name : Value} :
    name ∈ sections ↔ ∃ values, lookup? name defaultTree = some (.mapping values) := by
  rw [← isSection_iff, isSection, Option.isSome_iff_exists]
  constructor
  · rintro ⟨v, hv⟩
    obtain ⟨values, rfl, -⟩ := exists_section hv
    exact ⟨values, hv⟩
  · rintro ⟨values, hvalues⟩
    exact ⟨_, hvalues⟩

/-- What is found in a document that is accepted is a mapping under the name of a section. -/
theorem Accepts.exists_sections {document name v : Value} (h : Accepts document)
    (hv : lookup? name document.documentEntries = some v) :
    v.isMapping = true ∧ ∃ old, lookup? name defaultTree = some (.mapping old) := by
  obtain ⟨other, hmem, hsame⟩ := exists_mem_of_lookup? hv
  obtain ⟨hother, hmapping⟩ := h.2 _ hmem
  obtain ⟨values, hvalues⟩ := mem_sections_iff.1 hother
  rw [lookup?_congr hsame] at hvalues
  exact ⟨hmapping, values, hvalues⟩

theorem Accepts.wellKeyed {document : Value} (h : Accepts document) (hkeys : WellKeyed document) :
    WellKeyed (.mapping document.documentEntries) := by
  rcases h.1 with rfl | hmapping
  · exact .empty
  · obtain ⟨entries, rfl⟩ := isMapping_iff.1 hmapping
    exact hkeys

/-- The sections of a loaded configuration are those of the defaults. -/
theorem Accepts.exists_section_iff {document name : Value} (h : Accepts document)
    (hkeys : WellKeyed document) :
    (∃ values, lookup? name (merge defaultTree document.documentEntries) =
      some (.mapping values)) ↔ name ∈ sections := by
  rw [lookup?_merge (h.wellKeyed hkeys).keys, mem_sections_iff]
  cases hname : lookup? name document.documentEntries with
  | none => rfl
  | some v =>
    obtain ⟨hv, old, hold⟩ := h.exists_sections hname
    obtain ⟨new, rfl⟩ := isMapping_iff.1 hv
    simp [hold, mergeValue_mapping]

/-- **A merge keeps what is not given anew.** Let a mapping be laid over a base, both of any depth,
and let no key be given twice. A path leads to a value that is no mapping exactly if it does so in what
is given, or if it does so in the base and, followed through both, meets a key for which nothing is
given before it meets a place where one of them has no mapping. Laying the same over the result changes
nothing, and if no key of the base is there twice, none of the result is.

So it is with a configuration that is loaded from a document. It has the sections of the defaults, and
under every key of a section the value of the document or, where that has none, the default; and
wherever the document has a value that is no mapping, at any depth, it has the same. -/
theorem leaves_of_merge :
    (∀ base given : List (Value × Value), WellKeyed (.mapping given) →
      (∀ path x, HasLeaf (.mapping (merge base given)) path x ↔
        HasLeaf (.mapping given) path x ∨
          HasLeaf (.mapping base) path x ∧ Uncovered base given path) ∧
      merge (merge base given) given = merge base given ∧
      (WellKeyed (.mapping base) → WellKeyed (.mapping (merge base given)))) ∧
    ∀ (folder : Folder String) (path text : String) (document : Value),
      folder.find (Path.steps path) = .file text →
      Yaml.read (Text.withLineFeeds text) = .ok document → Accepts document →
      ∃ config, load folder path = .ok config ∧ WellKeyed (.mapping config) ∧
        (∀ name, (∃ values, lookup? name config = some (.mapping values)) ↔ name ∈ sections) ∧
        (∀ name key, follow? [name, key] (.mapping config) =
          (follow? [name, key] document).or (follow? [name, key] (.mapping defaultTree))) ∧
        ∀ keys x, HasLeaf (.mapping document.documentEntries) keys x →
          HasLeaf (.mapping config) keys x := by
  refine ⟨fun base given hgiven => ⟨fun path x => hasLeaf_merge_iff hgiven,
    merge_merge hgiven base, fun hbase => wellKeyed_merge hbase hgiven⟩, ?_⟩
  intro folder path text document hfile hread haccepts
  have hkeys : WellKeyed document := Yaml.wellKeyed_read hread
  have hgiven := haccepts.wellKeyed hkeys
  have hload : load folder path = .ok (merge defaultTree document.documentEntries) := by
    simp only [load, hfile, hread, ok_bind]
    exact ofDocument_of_accepts _ haccepts
  refine ⟨_, hload, wellKeyed_merge wellKeyed_defaultTree hgiven,
    fun name => haccepts.exists_section_iff hkeys, fun name key => ?_, fun keys x hx => ?_⟩
  · have hbase (old : List (Value × Value)) (hold : lookup? name defaultTree = some (.mapping old))
        (v : Value) (hv : lookup? key old = some v) : v.isMapping = false := by
      obtain ⟨values, hvalues, hleaf⟩ := exists_section hold
      cases hvalues
      exact hleaf key v hv
    exact follow?_merge_pair hgiven (fun v hv => haccepts.exists_sections hv) hbase
  · exact (hasLeaf_merge_iff hgiven).2 (.inl hx)

/-- A mapping in place of a number, a number in place of a mapping, and mappings on both sides; then a
document that gives a key twice, and one that the defaults do not have. -/
theorem leaves_of_merge_in_place_of_numbers :
    let base := entries [("a", .int 1), ("b", .mapping (entries [("x", .int 2), ("y", .int 3)])),
      ("c", .mapping (entries [("z", .int 4)]))]
    let given := entries [("a", .mapping []), ("b", .mapping (entries [("y", .mapping [])])),
      ("c", .int 5)]
    let text := "'poly_image':\n  'order': 1\n  'order': 2\n  'x': {}\n"
    let document : Value := .mapping [(.text "poly_image", .mapping
      [(.text "order", .int 2), (.text "x", .mapping [])])]
    let folder : Folder String := ⟨"home", [(["a.yaml"], text)], []⟩
    WellKeyed (.mapping given) ∧
    merge (merge base given) given = merge base given ∧
    HasLeaf (.mapping (merge base given)) [.text "b", .text "x"] (.int 2) ∧
    ¬HasLeaf (.mapping (merge base given)) [.text "b", .text "y"] (.int 3) ∧
    folder.find (Path.steps "a.yaml") = .file text ∧
    Yaml.read (Text.withLineFeeds text) = .ok document ∧ Accepts document ∧
    ∃ config, load folder "a.yaml" = .ok config ∧
      follow? [.text "poly_image", .text "order"] (.mapping config) = some (.int 2) ∧
      follow? [.text "poly_image", .text "downsample"] (.mapping config) = some (.int 1) := by
  intro base given text document folder
  have hgiven : WellKeyed (.mapping given) := by
    refine wellKeyed_entries (by decide) ?_
    simp only [List.forall_mem_cons]
    refine ⟨.empty, wellKeyed_entries (by decide) ?_, .leaf rfl, nofun⟩
    simp only [List.forall_mem_cons]
    exact ⟨.empty, nofun⟩
  have hfile : folder.find (Path.steps "a.yaml") = .file text := by cbv
  have hread : Yaml.read (Text.withLineFeeds text) = .ok document := by cbv
  have haccepts : Accepts document := by
    refine ⟨.inr rfl, fun entry hentry => ?_⟩
    obtain rfl := List.mem_singleton.1 hentry
    exact ⟨List.mem_cons_self, rfl⟩
  obtain ⟨hmerge, hload⟩ := leaves_of_merge
  obtain ⟨hleaves, htwice, -⟩ := hmerge base given hgiven
  obtain ⟨config, hconfig, -, -, hfollow, -⟩ :=
    hload folder "a.yaml" text document hfile hread haccepts
  refine ⟨hgiven, htwice, (hleaves _ _).2 (.inr ⟨⟨?_, rfl⟩, ?_⟩), fun h => ?_, hfile, hread, haccepts,
    config, hconfig, ?_, ?_⟩
  · rfl
  · exact .deeper rfl rfl (.missing rfl)
  · have hempty : follow? [.text "b", .text "y"] (.mapping (merge base given)) =
        some (.mapping []) := rfl
    cases hempty.symm.trans h.1
  · rw [hfollow]
    rfl
  · rw [hfollow]
    rfl

end Settings

end Facet
