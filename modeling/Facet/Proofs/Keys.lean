import Mathlib
import Facet.Proofs.Outcomes
import Facet.Yaml.Document

/-!
# Keys

Two values are one key if they stand for the same: numbers for a rational number whatever their kind,
times for an instant, all else for itself. So being the same key is an equivalence between all values
that can be keys, and writing under a key changes what is found under this key and under no other.
A mapping that is made by writing entries has no key twice, and so it is, at every depth, with the
mappings in a document.
-/

namespace Facet

/-- What a key stands for. -/
inductive Key where
  /-- Nothing. -/
  | null
  /-- A number. -/
  | number (q : ℚ)
  /-- An infinity, or what is not a number. -/
  | special (x : Decimal.Binary)
  /-- A text. -/
  | text (s : String)
  /-- A byte string. -/
  | bytes (data : List UInt8)
  /-- A day. -/
  | date (d : Date)
  /-- An instant, told from universal time or from a time that is not known. -/
  | moment (zoned : Bool) (instant : Int)

namespace Value

variable {a b k key v w : Value} {entries : List (Value × Value)}

/-- What a value stands for as a key. -/
def key? (v : Value) : Option Key :=
  match v.dyadic? with
  | some x => some (.number (x.1 * 2 ^ x.2))
  | none =>
    match v with
    | .null => some .null
    | .float x => some (.special (Decimal.Binary.ofFloat x))
    | .text s => some (.text s)
    | .bytes data => some (.bytes data)
    | .date d => some (.date d)
    | .moment m => some (.moment m.ahead.isSome m.instant)
    | .bool _ | .int _ | .list _ | .mapping _ => none

/-- Numbers that were brought to one exponent are equal exactly if they were. -/
theorem align_eq_iff (x y : Int × Int) :
    (align x y).1 = (align x y).2 ↔ (x.1 * 2 ^ x.2 : ℚ) = y.1 * 2 ^ y.2 := by
  have hscale (n low e : Int) (h : low ≤ e) :
      (n * 2 ^ e : ℚ) = ((n * Nat.pow 2 (e - low).toNat : Int) : ℚ) * 2 ^ low := by
    have he : e = ((e - low).toNat : Int) + low := by omega
    have hpow : (2 : ℚ) ^ e = 2 ^ (e - low).toNat * 2 ^ low := by
      conv_lhs => rw [he, zpow_add₀ two_ne_zero, zpow_natCast]
    rw [hpow, ← mul_assoc]
    simp
  rw [hscale x.1 (min x.2 y.2) x.2 (min_le_left _ _),
    hscale y.1 (min x.2 y.2) y.2 (min_le_right _ _),
    mul_left_inj' (zpow_ne_zero _ two_ne_zero), Int.cast_inj]
  rfl

theorem sameKey_iff : a.sameKey b = true ↔ ∃ k, b.key? = some k ∧ a.key? = some k := by
  unfold sameKey key?
  cases ha : a.dyadic? with
  | some x =>
    cases hb : b.dyadic? with
    | some y => simp [align_eq_iff]
    | none => cases b <;> simp
  | none =>
    cases hb : b.dyadic? with
    | some y => cases a <;> simp
    | none => cases a <;> cases b <;> simp [Moment.same, Moment.comparable]

theorem sameKey_comm : a.sameKey b = b.sameKey a := by
  rw [Bool.eq_iff_iff, sameKey_iff, sameKey_iff]
  simp only [and_comm]

/-- The same keys are the same as the same values. -/
theorem sameKey_congr (h : a.sameKey b = true) (v : Value) : a.sameKey v = b.sameKey v := by
  obtain ⟨k, hb, ha⟩ := sameKey_iff.1 h
  rw [Bool.eq_iff_iff, sameKey_iff, sameKey_iff, ha, hb]

theorem isKey_iff : v.isKey = true ↔ ∃ k, v.key? = some k := by
  unfold key?
  cases hv : v.dyadic? with
  | some x => cases v <;> simp_all [isKey, dyadic?, integer?]
  | none => cases v <;> simp_all [isKey, dyadic?, integer?]

theorem sameKey_self (h : v.isKey = true) : v.sameKey v = true := by
  obtain ⟨k, hk⟩ := isKey_iff.1 h
  exact sameKey_iff.2 ⟨k, hk, hk⟩

/-! ## Entries -/

theorem isSome_lookup?_iff (key : Value) (entries : List (Value × Value)) :
    (lookup? key entries).isSome ↔ ∃ entry ∈ entries, entry.1.sameKey key = true := by
  induction entries with
  | nil => simp [lookup?]
  | cons entry rest ih =>
    obtain ⟨k, v⟩ := entry
    rw [lookup?]
    by_cases h : k.sameKey key = true
    · simp [h]
    · simp [h, ih]

theorem lookup?_congr (h : a.sameKey b = true) (entries : List (Value × Value)) :
    lookup? a entries = lookup? b entries := by
  induction entries with
  | nil => rfl
  | cons entry rest ih =>
    obtain ⟨k, v⟩ := entry
    rw [lookup?, lookup?, ih, sameKey_comm, sameKey_congr h, sameKey_comm]

/-- What is written under a key is found under it, and under all other keys what was there. -/
theorem lookup?_insert (k v key : Value) (entries : List (Value × Value)) :
    lookup? key (insert k v entries) =
      if k.sameKey key = true then some v else lookup? key entries := by
  induction entries with
  | nil => rfl
  | cons entry rest ih =>
    obtain ⟨other, w⟩ := entry
    rw [insert]
    by_cases hother : other.sameKey k = true
    · rw [if_pos hother, lookup?, lookup?, sameKey_congr hother key]
      split <;> rfl
    · rw [if_neg hother, lookup?, lookup?, ih]
      by_cases hkey : k.sameKey key = true
      · have hne : ¬other.sameKey key = true := by
          rwa [sameKey_comm, ← sameKey_congr hkey, sameKey_comm]
        rw [if_neg hne, if_pos hkey, if_pos hkey]
      · rw [if_neg hkey, if_neg hkey]

/-- Writing what is there already changes nothing. -/
theorem insert_of_lookup? (h : lookup? k entries = some v) : insert k v entries = entries := by
  induction entries with
  | nil => cases h
  | cons entry rest ih =>
    obtain ⟨other, w⟩ := entry
    rw [lookup?] at h
    rw [insert]
    by_cases hother : other.sameKey k = true
    · rw [if_pos hother] at h ⊢
      cases h
      rfl
    · rw [if_neg hother] at h ⊢
      rw [ih h]

theorem exists_mem_of_lookup? (h : lookup? k entries = some v) :
    ∃ other, (other, v) ∈ entries ∧ other.sameKey k = true := by
  induction entries with
  | nil => cases h
  | cons entry rest ih =>
    obtain ⟨other, w⟩ := entry
    rw [lookup?] at h
    split at h
    · cases h
      exact ⟨other, List.mem_cons_self, by assumption⟩
    · obtain ⟨other, hmem, hsame⟩ := ih h
      exact ⟨other, List.mem_cons_of_mem _ hmem, hsame⟩

theorem mem_insert {entry : Value × Value} (h : entry ∈ insert k v entries) :
    entry.2 = v ∨ entry ∈ entries := by
  induction entries with
  | nil =>
    obtain rfl := List.mem_singleton.1 h
    exact .inl rfl
  | cons first rest ih =>
    obtain ⟨other, w⟩ := first
    rw [insert] at h
    split at h
    · rcases List.mem_cons.1 h with rfl | h
      · exact .inl rfl
      · exact .inr (List.mem_cons_of_mem _ h)
    · rcases List.mem_cons.1 h with rfl | h
      · exact .inr List.mem_cons_self
      · exact (ih h).imp_right (List.mem_cons_of_mem _)

/-- A new key goes to the end, and a known one stays where it is. -/
theorem keys_insert (k v : Value) (entries : List (Value × Value)) :
    (insert k v entries).map Prod.fst =
      if (lookup? k entries).isSome then entries.map Prod.fst
      else entries.map Prod.fst ++ [k] := by
  induction entries with
  | nil => rfl
  | cons entry rest ih =>
    obtain ⟨other, w⟩ := entry
    rw [insert, lookup?]
    by_cases hother : other.sameKey k = true
    · simp [hother]
    · rw [if_neg hother, if_neg hother, List.map_cons, ih]
      split <;> simp

/-! ## Mappings without a key twice -/

theorem isMapping_iff : v.isMapping = true ↔ ∃ entries, v = .mapping entries := by
  cases v <;> simp [isMapping]

/-- Whether some values can be the keys of one mapping: they are keys, and no two of them are the
same. -/
structure Apart (keys : List Value) : Prop where
  /-- They are keys. -/
  isKey : ∀ key ∈ keys, key.isKey = true
  /-- No two are the same. -/
  distinct : keys.Pairwise fun a b => ¬a.sameKey b = true

/-- Whether no mapping has a key twice: neither a value itself, if it is one, nor those within it. -/
inductive WellKeyed : Value → Prop where
  /-- What is no mapping has no keys. -/
  | leaf {v : Value} (h : v.isMapping = false) : WellKeyed v
  /-- A mapping has keys of its own. -/
  | mapping {entries : List (Value × Value)} (keys : Apart (entries.map Prod.fst))
      (values : ∀ entry ∈ entries, WellKeyed entry.2) : WellKeyed (.mapping entries)

theorem WellKeyed.empty : WellKeyed (.mapping []) := .mapping ⟨nofun, .nil⟩ nofun

theorem WellKeyed.keys (h : WellKeyed (.mapping entries)) : Apart (entries.map Prod.fst) := by
  cases h with
  | leaf h => cases h
  | mapping keys values => exact keys

theorem WellKeyed.values (h : WellKeyed (.mapping entries)) :
    ∀ entry ∈ entries, WellKeyed entry.2 := by
  cases h with
  | leaf h => cases h
  | mapping keys values => exact values

theorem WellKeyed.of_lookup? (h : WellKeyed (.mapping entries)) (hv : lookup? k entries = some v) :
    WellKeyed v := by
  obtain ⟨other, hmem, -⟩ := exists_mem_of_lookup? hv
  exact h.values _ hmem

/-- Every entry is found under its key. -/
theorem Apart.lookup? (h : Apart (entries.map Prod.fst)) (hmem : (k, v) ∈ entries) :
    lookup? k entries = some v := by
  induction entries with
  | nil => cases hmem
  | cons entry rest ih =>
    obtain ⟨other, w⟩ := entry
    obtain ⟨hkeys, hdistinct⟩ := h
    rw [List.map_cons] at hkeys hdistinct
    obtain ⟨hother, hrest⟩ := List.pairwise_cons.1 hdistinct
    rw [Value.lookup?]
    rcases List.mem_cons.1 hmem with heq | hmem
    · cases heq
      rw [if_pos (sameKey_self (hkeys _ List.mem_cons_self))]
    · rw [if_neg (hother k (List.mem_map_of_mem hmem))]
      exact ih ⟨fun key hkey => hkeys key (List.mem_cons_of_mem _ hkey), hrest⟩ hmem

theorem Apart.append_singleton {keys : List Value} (h : Apart keys) (hk : k.isKey = true)
    (hnew : ∀ key ∈ keys, ¬key.sameKey k = true) : Apart (keys ++ [k]) where
  isKey key hkey := by
    rcases List.mem_append.1 hkey with hkey | hkey
    · exact h.isKey key hkey
    · rwa [List.mem_singleton.1 hkey]
  distinct := List.pairwise_append.2 ⟨h.distinct, List.pairwise_singleton _ _, fun a ha b hb => by
    rw [List.mem_singleton.1 hb]
    exact hnew a ha⟩

/-- Writing an entry keeps the keys apart. -/
theorem WellKeyed.insert (h : WellKeyed (.mapping entries)) (hk : k.isKey = true)
    (hv : WellKeyed v) : WellKeyed (.mapping (Value.insert k v entries)) := by
  refine .mapping ?_ fun entry hentry => ?_
  · rw [keys_insert]
    split
    · exact h.keys
    · rename_i hnone
      refine h.keys.append_singleton hk fun key hkey hsame => hnone ?_
      obtain ⟨entry, hentry, rfl⟩ := List.mem_map.1 hkey
      exact (isSome_lookup?_iff k entries).2 ⟨entry, hentry, hsame⟩
  · rcases mem_insert hentry with heq | hmem
    · rwa [heq]
    · exact h.values entry hmem

end Value

/-! ## Documents -/

namespace Yaml

open Value

theorem isMapping_timestampOf {s : String} {v : Value} (h : timestampOf s = .ok v) :
    v.isMapping = false := by
  unfold timestampOf at h
  split at h
  · next d _ =>
    cases hd : d.check <;> rw [hd] at h <;> cases h
    rfl
  · next m _ =>
    cases hm : m.check <;> rw [hm] at h <;> cases h
    rfl
  · cases h

theorem isMapping_scalarValue {kind : ScalarKind} {s : String} {v : Value}
    (h : scalarValue kind s = .ok v) : v.isMapping = false := by
  cases kind with
  | null | text =>
    cases h
    rfl
  | bool | int | float =>
    obtain ⟨x, -, hx⟩ := bind_eq_ok.1 h
    cases hx
    rfl
  | timestamp => exact isMapping_timestampOf h
  | merge | value => cases h

theorem isMapping_scalarOf {tag : Tag} {text : String} {v : Value}
    (h : scalarOf tag text = .ok v) : v.isMapping = false := by
  cases tag with
  | none => exact isMapping_scalarValue h
  | text =>
    cases h
    rfl
  | named name =>
    rw [scalarOf] at h
    split at h
    · exact isMapping_scalarValue h
    · cases h

/-- What is gathered from entries has no key twice, however often a key was written. -/
theorem wellKeyed_gather {entries : List (Value × Value)}
    (h : ∀ entry ∈ entries, entry.1.isKey = true ∧ entry.2.WellKeyed) :
    (Value.mapping (gather entries)).WellKeyed := by
  rw [gather]
  refine List.foldlRecOn (motive := fun gathered => (Value.mapping gathered).WellKeyed) entries _
    .empty fun gathered hgathered entry hentry => ?_
  obtain ⟨hkey, hvalue⟩ := h entry hentry
  exact hgathered.insert hkey hvalue

theorem Node.wellKeyed_value {depth : Nat} {node : Node} {v : Value}
    (h : node.value depth = .ok v) : v.WellKeyed := by
  induction depth generalizing node v with
  | zero =>
    cases node with
    | scalar tag text => exact .leaf (isMapping_scalarOf h)
    | sequence tag items => cases h
    | mapping tag entries => cases h
  | succ depth ih =>
    cases node with
    | scalar tag text => exact .leaf (isMapping_scalarOf h)
    | sequence tag items =>
      rw [Node.value] at h
      split at h
      · obtain ⟨values, -, hv⟩ := bind_eq_ok.1 h
        cases hv
        exact .leaf rfl
      · cases h
    | mapping tag entries =>
      rw [Node.value] at h
      split at h
      · cases h
      · obtain ⟨all, -, h⟩ := bind_eq_ok.1 h
        obtain ⟨values, hvalues, hv⟩ := bind_eq_ok.1 h
        cases hv
        refine wellKeyed_gather (forall_mem_of_mapM ?_ hvalues)
        rintro ⟨key, value⟩ entry hentry
        obtain ⟨k, -, hentry⟩ := bind_eq_ok.1 hentry
        split at hentry
        · cases hentry
        · rename_i hkey
          obtain ⟨w, hw, hentry⟩ := bind_eq_ok.1 hentry
          cases hentry
          exact ⟨by simpa using hkey, ih hw⟩

/-- No mapping in a document has a key twice. -/
theorem wellKeyed_read {text : String} {document : Value} (h : read text = .ok document) :
    document.WellKeyed := by
  rw [read] at h
  obtain ⟨tokens, -, h⟩ := bind_eq_ok.1 h
  obtain ⟨node, -, h⟩ := bind_eq_ok.1 h
  split at h
  · cases h
    exact .leaf rfl
  · next root =>
    obtain ⟨level, -, h⟩ := bind_eq_ok.1 h
    obtain ⟨-, -, h⟩ := bind_eq_ok.1 h
    exact root.wellKeyed_value h

end Yaml

end Facet
