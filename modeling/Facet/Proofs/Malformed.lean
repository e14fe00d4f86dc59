import Mathlib
import Facet.Proofs.Records
import Facet.Proofs.Refusals

/-!
# Values that are no records

A value of any kind either configures an extractor or is refused, and then no extractor is changed.
What is no sequence of numbers, what does not have the length of a record, and a record without a
valid configuration are malformed records. But a value is turned into bytes first, and that may go
wrong in another way: a sequence can come upon a number that is no byte, and a number of bytes can be
negative or greater than that of any byte string. Exactly these values are refused under another
class.
-/

namespace Facet

/-! ## Values out of the range of bytes -/

namespace Value

/-- Whether an item of a sequence stands for a byte. -/
def IsByte (v : Value) : Prop := ∃ n, v.integer? = some n ∧ 0 ≤ n ∧ n < 256

/-- Whether an item of a sequence is a number but no byte. -/
def BeyondByte (v : Value) : Prop := ∃ n, v.integer? = some n ∧ ¬(0 ≤ n ∧ n < 256)

/-- Whether a sequence comes upon a number that is no byte, with nothing but bytes before it. -/
def LeavesBytes (items : List Value) : Prop :=
  ∃ before v after, items = before ++ v :: after ∧ (∀ b ∈ before, b.IsByte) ∧ v.BeyondByte

/-- Whether a value asks for bytes that there are not: as a number of bytes that is negative, or does
not fit in 64 bits with a sign together with the 33 that every byte string needs besides, or as a
list or the keys of a mapping. -/
def OutOfBytes : Value → Prop
  | .int n => n < 0 ∨ 2 ^ 63 ≤ n + 33
  | .list items => LeavesBytes items
  | .mapping entries => LeavesBytes (entries.map Prod.fst)
  | _ => False

theorem not_leavesBytes_nil : ¬LeavesBytes [] := by
  rintro ⟨before, v, after, h, -⟩
  cases before <;> cases h

theorem leavesBytes_cons {v : Value} {rest : List Value} :
    LeavesBytes (v :: rest) ↔ v.BeyondByte ∨ v.IsByte ∧ LeavesBytes rest := by
  constructor
  · rintro ⟨before, w, after, h, hbefore, hw⟩
    cases before with
    | nil =>
      cases h
      exact .inl hw
    | cons b before =>
      cases h
      have hrest := fun x hx => hbefore x (List.mem_cons_of_mem _ hx)
      exact .inr ⟨hbefore _ List.mem_cons_self, before, w, after, rfl, hrest, hw⟩
  · rintro (hv | ⟨hv, before, w, after, rfl, hbefore, hw⟩)
    · exact ⟨[], v, rest, rfl, nofun, hv⟩
    · refine ⟨v :: before, w, after, rfl, fun b hb => ?_, hw⟩
      rcases List.mem_cons.1 hb with rfl | hb
      · exact hv
      · exact hbefore b hb

/-- Where the first item is no number, a sequence does not come upon one. -/
theorem not_leavesBytes_of_none {v : Value} {rest : List Value} (h : v.integer? = none) :
    ¬LeavesBytes (v :: rest) := by
  rw [leavesBytes_cons]
  rintro (⟨n, hn, -⟩ | ⟨⟨n, hn, -⟩, -⟩)
  · cases h.symm.trans hn
  · cases h.symm.trans hn

/-- Behind a byte it depends on the rest. -/
theorem leavesBytes_cons_of_byte {v : Value} {n : Int} {rest : List Value}
    (h : v.integer? = some n) (hn : 0 ≤ n ∧ n < 256) :
    LeavesBytes (v :: rest) ↔ LeavesBytes rest := by
  rw [leavesBytes_cons]
  refine ⟨?_, fun hrest => .inr ⟨⟨n, h, hn⟩, hrest⟩⟩
  rintro (⟨m, hm, hbeyond⟩ | ⟨-, hrest⟩)
  · cases h.symm.trans hm
    exact absurd hn hbeyond
  · exact hrest

end Value

/-! ## How values are read -/

namespace Record

open Value

/-- Whether what becomes of a value goes with its asking for bytes that there are not: then it is
refused for that, and otherwise at most as a malformed record. -/
def Sorts {β : Type} (out : Prop) : Except Fault β → Prop
  | .ok _ => ¬out
  | .error e => (out → e.kind = .value ∨ e.kind = .overflow) ∧ (¬out → e.kind = .corruptData)

variable {out : Prop}

theorem Sorts.bind {β γ : Type} {x : Except Fault β} {f : β → Except Fault γ} (h : Sorts out x)
    (hf : ∀ b, ¬out → Sorts out (f b)) : Sorts out (x >>= f) := by
  cases x with
  | ok b => exact hf b h
  | error e => exact h

/-- Whatever the bytes of a value are, they are refused as a malformed record only. -/
theorem sorts_decode (h : ¬out) (b : List UInt8) : Sorts out ((decode b).mapError .record) := by
  cases decode b with
  | ok r => exact h
  | error cause => exact ⟨fun hout => absurd hout h, fun _ => rfl⟩

/-- A sequence is read item by item, up to the first that is no byte. -/
theorem sorts_bytesOf (kind : String) (items : List Value) :
    Sorts (LeavesBytes items) (bytesOf kind items) := by
  induction items with
  | nil => exact not_leavesBytes_nil
  | cons v rest ih =>
    rw [bytesOf]
    cases hv : v.integer? with
    | none => exact ⟨fun h => absurd h (not_leavesBytes_of_none hv), fun _ => rfl⟩
    | some n =>
      dsimp only
      split
      · rename_i hn
        rw [leavesBytes_cons_of_byte hv hn]
        exact ih.bind fun _ hrest => hrest
      · rename_i hn
        have hleaves : LeavesBytes (v :: rest) := leavesBytes_cons.2 (.inl ⟨n, hv, hn⟩)
        exact ⟨fun _ => .inl rfl, fun h => absurd hleaves h⟩

/-- A number of bytes is looked at as a number first. -/
theorem sorts_ofCount (n : Int) : Sorts (n < 0 ∨ 2 ^ 63 ≤ n + 33) (ofCount n) := by
  unfold ofCount
  split
  · rename_i hn
    rw [Bool.not_eq_true', ← Bool.not_eq_true, fitsSigned_iff, FitsWord] at hn
    exact ⟨fun _ => .inr rfl, fun h => absurd (by omega) h⟩
  split
  · rename_i hn
    exact ⟨fun _ => .inl rfl, fun h => absurd (.inl hn) h⟩
  split
  · rename_i hnegative hn
    rw [Bool.not_eq_true', ← Bool.not_eq_true, fitsSigned_iff, FitsWord, overhead] at hn
    exact ⟨fun _ => .inr rfl, fun h => absurd (by omega) h⟩
  · rename_i hnegative hn
    have hn : FitsWord (n + overhead) := by simpa [fitsSigned_iff] using hn
    rw [FitsWord, overhead] at hn
    have hrange : ¬(n < 0 ∨ 2 ^ 63 ≤ n + 33) := by omega
    split
    · exact sorts_decode hrange _
    · exact ⟨fun h => absurd h hrange, fun _ => rfl⟩

/-- A value is refused as a malformed record unless it asks for bytes that there are not. -/
theorem sorts_ofValue (v : Value) : Sorts v.OutOfBytes (ofValue v) := by
  cases v with
  | bytes data => exact sorts_decode id data
  | bool b =>
    have hcount : ¬((if b then 1 else 0 : Int) < 0 ∨ 2 ^ 63 ≤ (if b then 1 else 0 : Int) + 33) := by
      cases b <;> decide
    have hsorts := sorts_ofCount (if b then 1 else 0)
    rw [eq_false hcount] at hsorts
    exact hsorts
  | int n => exact sorts_ofCount n
  | list items => exact (sorts_bytesOf _ items).bind fun b hin => sorts_decode hin b
  | mapping entries =>
    exact (sorts_bytesOf _ (entries.map Prod.fst)).bind fun b hin => sorts_decode hin b
  | null | float _ | text _ | date _ | moment _ => exact ⟨False.elim, fun _ => rfl⟩

end Record

/-! ## Configuration by values -/

namespace Store

variable {α : Type} [Scalar α] [Decomposition α]

/-- Whatever a value is, an extractor that exists or a new one is either configured by it or the
value is refused, as a malformed record or for the bytes that it asks for. -/
theorem keep_ofData_sorts (hα : Decomposition.Reliable α) {s : Store α} (name : String)
    (hs : s.session.Sound) (data : Value) (target : Option (Extractor α)) :
    let result := s.keep name (Extractor.ofData data target)
    Record.Sorts data.OutOfBytes result.1 ∧ (result.1 = .ok () →
      ∃ y, result.2.extractor? name = some y ∧ y.Canonical none ∧
        Record.ofValue data = .ok y.record) := by
  intro result
  have hvalue := Record.sorts_ofValue data
  have hdefault := FitModel.canBuild_default hα
  cases hrun : ((Extractor.ofData data target).run s.session).1 with
  | ok y =>
    obtain ⟨hok, -, -, hname, -, hcoherent, hrecord, -⟩ := keep_ofData_of_ok name hs hrun
    rw [hrecord] at hvalue
    refine ⟨?_, fun _ => ⟨y, hname, hcoherent.canonical, hrecord⟩⟩
    rw [hok]
    exact hvalue
  | error e =>
    have herror : result.1 = .error e := keep_of_error name hrun
    rw [herror]
    refine ⟨⟨fun hout => ?_, fun hin => ?_⟩, nofun⟩
    · -- the value is read before anything else is done
      cases hread : Record.ofValue data with
      | ok r =>
        rw [hread] at hvalue
        exact absurd hout hvalue
      | error e' =>
        rw [hread] at hvalue
        rw [Extractor.ofData, hread] at hrun
        cases hrun
        exact hvalue.1 hout
    · have hfails : Run.FailsOnly (Extractor.ofData data target) fun e => e.kind = .corruptData := by
        refine Extractor.ofData_failsOnly_of_ofValue (fun _ => hdefault) (fun e' he' => ?_)
          fun _ => rfl
        rw [he'] at hvalue
        exact hvalue.2 hin
      exact hfails s.session e hrun

/-- **What is no record is a malformed record, unless it asks for bytes that there are not.** After
any run, let a value of any kind configure a new extractor or the one of a name. If it does not ask
for bytes out of range, it is read as a record, and the extractor of the name is then in its
canonical state for the order and the window of the record, or it is refused as a malformed record.
If it does, it is always refused under another class. A refused value changes no extractor. -/
theorem decode_value (hα : Decomposition.Reliable α) (commands : List (Command α))
    {name : String} {data : Value} {c : Command α}
    (hc : c = .decode name data ∨
      c = .decodeInto name data ∧ ∃ z, (empty.run commands).extractor? name = some z) :
    let s := empty.run commands
    let t := (s.step c).2
    (¬data.OutOfBytes →
      ((s.step c).1 = .ok () ∧ ∃ y, t.extractor? name = some y ∧ y.Canonical none ∧
        Record.ofValue data = .ok y.record) ∨
      ∃ e, (s.step c).1 = .error e ∧ e.kind = .corruptData) ∧
    (data.OutOfBytes → ∃ e, (s.step c).1 = .error e ∧ (e.kind = .value ∨ e.kind = .overflow)) ∧
    ∀ e, (s.step c).1 = .error e → t.extractors = s.extractors := by
  intro s t
  obtain ⟨target, hstep⟩ : ∃ target, s.step c = s.keep name (Extractor.ofData data target) := by
    rcases hc with rfl | ⟨rfl, z, hz⟩
    · exact ⟨none, rfl⟩
    · refine ⟨some z, ?_⟩
      rw [step, update, hz]
  obtain ⟨hsorts, hok⟩ := keep_ofData_sorts hα name (run_consistent commands).sound data target
  rw [← hstep] at hsorts hok
  refine ⟨fun hin => ?_, fun hout => ?_, step_unchanged s c⟩
  · cases hresult : (s.step c).1 with
    | ok u => exact .inl ⟨rfl, hok hresult⟩
    | error e =>
      rw [hresult] at hsorts
      exact .inr ⟨e, rfl, hsorts.2 hin⟩
  · cases hresult : (s.step c).1 with
    | ok u =>
      rw [hresult] at hsorts
      exact absurd hout hsorts
    | error e =>
      rw [hresult] at hsorts
      exact ⟨e, rfl, hsorts.1 hout⟩

/-- A text among the bytes makes a list a malformed record if it stands before a number that is no
byte, but not if it stands behind it. -/
theorem decode_value_text_and_256 :
    letI := Decomposition.real
    let before : Value := .list [.int 1, .text "b", .int 256]
    let behind : Value := .list [.int 1, .int 256, .text "b"]
    let s : Store (Exact ℝ) := empty
    Decomposition.Reliable (Exact ℝ) ∧
    (∃ e, (s.step (.decode "a" before)).1 = .error e ∧ e.kind = .corruptData) ∧
    ∃ e, (s.step (.decode "a" behind)).1 = .error e ∧ (e.kind = .value ∨ e.kind = .overflow) := by
  let := Decomposition.real
  intro before behind s
  have hreliable : Decomposition.Reliable (Exact ℝ) := Decomposition.reliable_real
  have hbefore : ¬before.OutOfBytes := by
    rw [show before.OutOfBytes ↔ _ from Value.leavesBytes_cons_of_byte rfl (by decide)]
    exact Value.not_leavesBytes_of_none rfl
  have hbehind : behind.OutOfBytes := by
    rw [show behind.OutOfBytes ↔ _ from Value.leavesBytes_cons_of_byte rfl (by decide)]
    exact Value.leavesBytes_cons.2 (.inl ⟨256, rfl, by decide⟩)
  refine ⟨hreliable, ?_, (decode_value hreliable [] (.inl rfl)).2.1 hbehind⟩
  rcases (decode_value hreliable [] (.inl rfl)).1 hbefore with ⟨-, y, -, -, hrecord⟩ | hrefused
  · cases hrecord
  · exact hrefused

/-- Not every value that is refused is a malformed record: a list with the number 256 is not. -/
theorem not_corrupt_list_256 :
    ¬∀ (commands : List (Command Float)) (name : String) (data : Value) (e : Fault),
      ((empty.run commands).step (.decode name data)).1 = .error e → e.kind = .corruptData := by
  intro h
  have hrefused := h [] "a" (.list [.int 256]) (.argument .byteRange) rfl
  cases hrefused

end Store

end Facet
