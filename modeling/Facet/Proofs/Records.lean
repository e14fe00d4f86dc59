import Mathlib
import Facet.Proofs.Canonical
import Facet.Proofs.RealDecompositions
import Facet.Proofs.Successes
import Facet.Proofs.Words

/-!
# Configuration records

A byte string configures an extractor exactly if it is sixteen bytes long and spells a valid order
and a valid window, and the bytes of the extractor are then the byte string again. All other byte
strings are refused as malformed records. An extractor that is configured by the bytes of another
one makes the same of every image, if it has the same stride and backend.
-/

namespace Facet

variable {α : Type} [Scalar α] [Decomposition α]

/-! ## Byte strings as records -/

theorem Record.ofValue_bytes_eq_ok_iff {b : List UInt8} {r : Record} :
    ofValue (.bytes b) = .ok r ↔ decode b = .ok r := mapError_eq_ok

/-- A byte string is refused as a malformed record only. -/
theorem Record.kind_of_ofValue_bytes {b : List UInt8} {e : Fault}
    (h : ofValue (.bytes b) = .error e) : e.kind = .corruptData := by
  have hdecode : (decode b).mapError Fault.record = .error e := h
  cases hresult : decode b with
  | ok r =>
    rw [hresult] at hdecode
    cases hdecode
  | error cause =>
    rw [hresult] at hdecode
    cases hdecode
    rfl

/-- Whatever is read as a record is read from bytes. -/
theorem Record.exists_decode_of_ofValue {v : Value} {r : Record} (h : ofValue v = .ok r) :
    ∃ b, decode b = .ok r := by
  have hcount {n : Int} (h : ofCount n = .ok r) : ∃ b, decode b = .ok r := by
    unfold ofCount at h
    split at h
    · cases h
    split at h
    · cases h
    split at h
    · cases h
    split at h
    · exact ⟨_, mapError_eq_ok.1 h⟩
    · cases h
  cases v with
  | bytes data => exact ⟨data, mapError_eq_ok.1 h⟩
  | bool b => exact hcount h
  | int n => exact hcount h
  | list items | mapping entries =>
    obtain ⟨b, -, hb⟩ := bind_eq_ok.1 h
    exact ⟨b, mapError_eq_ok.1 hb⟩
  | null | float _ | text _ | date _ | moment _ => cases h

theorem Record.areShowable_of_ofValue {v : Value} {r : Record} (h : ofValue v = .ok r) :
    Value.areShowable [.int r.order, .int r.window] = true := by
  obtain ⟨b, hb⟩ := exists_decode_of_ofValue h
  exact areShowable_of_decode hb

namespace Extractor

/-- Whether the configuration of an extractor, or of a new one, comes as far as its record. -/
def ReachesRecord (α : Type) [Scalar α] [Decomposition α] (target : Option (Extractor α)) : Prop :=
  target = none → FitModel.CanBuild α Settings.defaultOrder Settings.defaultWindow

/-- An extractor or a new one, to be configured by a value of any kind, is refused because the value
cannot be read, or for the record that it is. -/
theorem ofData_failsOnly_of_ofValue {bad : Fault → Prop} {data : Value}
    {target : Option (Extractor α)} (htarget : ReachesRecord α target)
    (hvalue : ∀ e, Record.ofValue data = .error e → bad e)
    (hrecord : ∀ cause, bad (.record (.refused cause))) :
    Run.FailsOnly (ofData data target) bad := by
  refine Run.failsOnly_check_bind hvalue fun r hread => ?_
  have hconfigure (x : Extractor α) : Run.FailsOnly (x.configure r) bad := by
    refine (x.configure_failsOnly (Record.areShowable_of_ofValue hread)).mono ?_
    rintro _ ⟨cause, rfl⟩
    exact hrecord cause
  cases target with
  | some x => exact hconfigure x
  | none =>
    exact Run.failsOnly_bind ((construct_failsOnly (htarget rfl)).mono fun _ h => h.elim) hconfigure

/-- An extractor or a new one, to be configured by a byte string, is refused for the byte string
only. -/
theorem ofData_failsOnly (b : List UInt8) (target : Option (Extractor α))
    (hdefault : FitModel.CanBuild α Settings.defaultOrder Settings.defaultWindow) :
    Run.FailsOnly (ofData (.bytes b) target) fun e => e.kind = .corruptData :=
  ofData_failsOnly_of_ofValue (fun _ => hdefault) (fun _ he => Record.kind_of_ofValue_bytes he)
    fun _ => rfl

/-- A record of an order and a window whose model can be computed is not refused. -/
theorem ofData_failsOnly_false {b : List UInt8} {k : Order} {w : Window}
    (hb : Record.decode b = .ok ⟨k.degree, w.side⟩) (target : Option (Extractor α))
    (hdefault : FitModel.CanBuild α Settings.defaultOrder Settings.defaultWindow)
    (hbuild : FitModel.CanBuild α k w) :
    Run.FailsOnly (ofData (.bytes b) target) fun _ => False := by
  have hvalue := Record.ofValue_bytes_eq_ok_iff.2 hb
  unfold ofData
  rw [hvalue, Run.check, pure_bind]
  cases target with
  | some x => exact x.configure_failsOnly_false hbuild
  | none =>
    refine Run.failsOnly_bind (construct_failsOnly hdefault) fun x => ?_
    exact x.configure_failsOnly_false hbuild

/-! ## Records of configured extractors -/

/-- An extractor that is set up has the order and the window that were asked for. -/
theorem setup_yields_values (x : Extractor α) (order window : Value) :
    Run.Yields Session.Sound (x.setup order window) fun y =>
      y.order.value = order ∧ y.window.value = window := by
  have hprepare : Run.Yields Session.Sound (x.prepare order window) fun result =>
      result.1.order.value = order ∧ result.1.window.value = window := by
    refine Run.yields_bind Run.yields_check fun s hs => ?_
    refine Run.yields_bind (Run.yields_under (modelFor_yields s.order s.window)) fun _ _ => ?_
    exact Run.yields_pure (Settings.value_of_ofValues hs)
  refine Run.yields_bind (Run.yields_outcome hprepare) fun result hresult => ?_
  rcases result with e | ⟨s, model⟩
  · exact reject_yields order window e
  · refine Run.yields_bind (Run.yields_share fun _ h => h) fun shared hshared => ?_
    refine Run.yields_bind (Run.yields_note fun _ h => h) fun _ _ => Run.yields_pure ?_
    rw [Extractor.order, Extractor.window, hshared]
    exact hresult _ rfl

theorem configure_yields_record (x : Extractor α) (r : Record) :
    Run.Yields Session.Sound (x.configure r) fun y => y.record = r := by
  refine Run.yields_bind (Run.yields_outcome (x.setup_yields_values _ _)) fun result hresult => ?_
  rcases result with e | y
  · exact rejectRecord_yields r e
  · obtain ⟨horder, hwindow⟩ := hresult y rfl
    refine Run.yields_pure ?_
    rw [record, Value.int.inj horder, Value.int.inj hwindow]

/-- An extractor that is configured by a value has the record that the value is. -/
theorem ofData_yields_record (data : Value) (target : Option (Extractor α)) :
    Run.Yields Session.Sound (ofData data target) fun y => Record.ofValue data = .ok y.record := by
  refine Run.yields_bind Run.yields_check fun r hr => ?_
  cases target with
  | some x =>
    refine (x.configure_yields_record r).mono fun y hy => ?_
    rw [hy, hr]
  | none =>
    refine Run.yields_bind (construct_yields _ _ _ _) fun x _ => ?_
    refine (x.configure_yields_record r).mono fun y hy => ?_
    rw [hy, hr]

theorem Coherent.size_eq_zero {x : Extractor α} (h : x.Coherent none) : x.size = 0 := by
  rw [size, h.empty rfl]
  rfl

omit [Scalar α] [Decomposition α] in
/-- The record of an extractor is found again in its bytes. -/
theorem decode_bytes {x : Extractor α} (h : x.window.side < 2 ^ 63) :
    Record.decode x.bytes = .ok x.record := by
  have hone := x.order.one_le
  have hsix := x.order.le_six
  refine Record.decode_encode ?_ ?_ <;> simp only [record] <;> omega

omit [Scalar α] [Decomposition α] in
/-- Extractors with equal records have the same order and the same window. -/
theorem config_eq_of_record {x y : Extractor α} (h : y.record = x.record) :
    y.order = x.order ∧ y.window = x.window := by
  obtain ⟨horder, hwindow⟩ := Record.mk.inj h
  exact ⟨Order.value_injective (congrArg Value.int horder),
    Window.value_injective (congrArg Value.int hwindow)⟩

end Extractor

/-! ## Byte strings in a store -/

namespace Store

/-- Whether a command is not refused, and the extractor of its name is then as stated. -/
def Leaves (s : Store α) (c : Command α) (good : Extractor α → Prop) : Prop :=
  s.accepts c ∧ ∃ name y, c.target? = some name ∧ (s.step c).2.extractor? name = some y ∧ good y

/-- Whether a command is refused under a class. -/
def Refuses (s : Store α) (c : Command α) (kind : Fault.Kind) : Prop :=
  ∃ e, (s.step c).1 = .error e ∧ e.kind = kind

omit [Scalar α] [Decomposition α] in
/-- If an operation is not refused, the extractor that it yields has the name, and neither a stream
nor any other extractor is changed. -/
theorem keep_of_ok {s : Store α} (name : String) {op : Run α Fault (Extractor α)} {y : Extractor α}
    (hy : (op.run s.session).1 = .ok y) :
    let result := s.keep name op
    result.1 = .ok () ∧ result.2.session = (op.run s.session).2 ∧
      result.2.streams = s.streams ∧ result.2.extractor? name = some y ∧
      ∀ other, other ≠ name → result.2.extractor? other = s.extractor? other := by
  rw [keep]
  rcases hrun : op.run s.session with ⟨result, session⟩
  rw [hrun] at hy
  obtain rfl : result = .ok y := hy
  refine ⟨rfl, rfl, rfl, ?_, fun other hother => ?_⟩
  · exact lookup_assign_self name y s.extractors
  · exact lookup_assign_of_ne hother y s.extractors

/-- If an operation that configures an extractor by a value is not refused, the extractor that it
yields has the name and the record that the value is, and no other is changed. -/
theorem keep_ofData_of_ok {s : Store α} (name : String) {data : Value}
    {target : Option (Extractor α)} (hs : s.session.Sound) {y : Extractor α}
    (hy : ((Extractor.ofData data target).run s.session).1 = .ok y) :
    let result := s.keep name (Extractor.ofData data target)
    result.1 = .ok () ∧ result.2.session.Sound ∧ result.2.streams = s.streams ∧
      result.2.extractor? name = some y ∧
      (∀ other, other ≠ name → result.2.extractor? other = s.extractor? other) ∧
      y.Coherent none ∧ Record.ofValue data = .ok y.record ∧
      ∀ z, target = some z → z.SameSampling y := by
  obtain ⟨hsound, hyields⟩ := Extractor.ofData_yields data target s.session hs
  obtain ⟨hcoherent, hsampling⟩ := hyields y hy
  have hrecord := (Extractor.ofData_yields_record data target s.session hs).2 y hy
  obtain ⟨hok, hsession, hstreams, hname, hothers⟩ := keep_of_ok name hy
  rw [← hsession] at hsound
  exact ⟨hok, hsound, hstreams, hname, hothers, hcoherent, hrecord, hsampling⟩

/-- The record of an order and a window whose model can be computed configures an extractor that has
them. -/
theorem keep_ofData_of_decode (hα : Decomposition.Reliable α) {s : Store α} (name : String)
    {b : List UInt8} (target : Option (Extractor α)) (hs : s.session.Sound) {k : Order}
    {w : Window} (hb : Record.decode b = .ok ⟨k.degree, w.side⟩) (hbuild : FitModel.CanBuild α k w) :
    let result := s.keep name (Extractor.ofData (.bytes b) target)
    result.1 = .ok () ∧ result.2.session.Sound ∧ result.2.streams = s.streams ∧
      ∃ y, result.2.extractor? name = some y ∧ y.order = k ∧ y.window = w ∧ y.Coherent none := by
  obtain ⟨y, hy⟩ := (Extractor.ofData_failsOnly_false hb target (FitModel.canBuild_default hα)
    hbuild).exists_ok s.session
  obtain ⟨hok, hsound, hstreams, hname, -, hcoherent, hrecord, -⟩ := keep_ofData_of_ok name hs hy
  have hvalue := Record.ofValue_bytes_eq_ok_iff.1 hrecord
  rw [hb] at hvalue
  obtain ⟨horder, hwindow⟩ := Record.mk.inj (Except.ok.inj hvalue)
  exact ⟨hok, hsound, hstreams, y, hname, (Order.value_injective (congrArg Value.int horder)).symm,
    (Window.value_injective (congrArg Value.int hwindow)).symm, hcoherent⟩

omit [Scalar α] [Decomposition α] in
/-- If an operation is refused, so is the command that keeps what it yields. -/
theorem keep_of_error {s : Store α} (name : String) {op : Run α Fault (Extractor α)} {e : Fault}
    (he : (op.run s.session).1 = .error e) : (s.keep name op).1 = .error e := by
  rw [keep]
  rcases hrun : op.run s.session with ⟨result, session⟩
  rw [hrun] at he
  obtain rfl : result = .error e := he
  rfl

omit [Scalar α] [Decomposition α] in
/-- It is refused for nothing else. -/
theorem error_of_keep {s : Store α} {name : String} {op : Run α Fault (Extractor α)} {e : Fault}
    (he : (s.keep name op).1 = .error e) : (op.run s.session).1 = .error e := by
  cases hrun : (op.run s.session).1 with
  | ok y =>
    rw [(keep_of_ok name hrun).1] at he
    cases he
  | error e' =>
    rw [keep_of_error name hrun] at he
    cases he
    rfl

variable {s : Store α} {name : String} {b : List UInt8} {target : Option (Extractor α)}
  {c : Command α}

/-- A command that configures an extractor by a byte string: a new one, or the one of the name. -/
inductive Decodes (s : Store α) (name : String) (b : List UInt8) :
    Option (Extractor α) → Command α → Prop
  /-- A new extractor gets the name. -/
  | fresh : Decodes s name b none (.decode name (.bytes b))
  /-- The extractor of the name is changed. -/
  | into {z : Extractor α} (found : s.extractor? name = some z) :
    Decodes s name b (some z) (.decodeInto name (.bytes b))

theorem Decodes.step_eq (hc : s.Decodes name b target c) :
    s.step c = s.keep name (Extractor.ofData (.bytes b) target) := by
  cases hc with
  | fresh => rfl
  | into found => rw [step, update, found]

/-- If it is not refused, the extractor of the name has the record, and no other is changed. -/
theorem Decodes.of_ok (hc : s.Decodes name b target c) (hs : s.session.Sound) {y : Extractor α}
    (hy : ((Extractor.ofData (.bytes b) target).run s.session).1 = .ok y) :
    s.accepts c = true ∧ (s.step c).2.extractor? name = some y ∧
      (∀ other, other ≠ name → (s.step c).2.extractor? other = s.extractor? other) ∧
      y.Coherent none ∧ Record.decode b = .ok y.record ∧
      ∀ z, target = some z → z.SameSampling y := by
  obtain ⟨hok, -, -, hname, hothers, hcoherent, hrecord, hsampling⟩ :=
    keep_ofData_of_ok name hs hy
  rw [accepts, hc.step_eq, hok]
  exact ⟨rfl, hname, hothers, hcoherent, Record.ofValue_bytes_eq_ok_iff.1 hrecord, hsampling⟩

theorem Decodes.of_error (hc : s.Decodes name b target c) {e : Fault}
    (he : ((Extractor.ofData (.bytes b) target).run s.session).1 = .error e) :
    s.accepts c = false ∧ (s.step c).1 = .error e := by
  rw [accepts, hc.step_eq, keep_of_error name he]
  exact ⟨rfl, rfl⟩

/-- **Records are what byte strings have to be, and configurations survive them.** After any run, let
a byte string configure a new extractor or the one of a name. Unless it is sixteen bytes long and
asks for a window of `2 ^ 26` pixels on a side or more, it is accepted if and only if it is the
record of a valid configuration; whatever it is, it is refused as a malformed record if it is not.
If it is accepted the extractor has the order and the window of the record, no features, and the
bytes that it was configured by; an extractor that was there before keeps its stride and backend,
and no other extractor is changed. The bytes of an extractor from any run, however large its window
is as long as its side has 64 bits, are always accepted and give back its order and window, so that
with the same stride and backend the same is made of every image. -/
theorem decode_codec (hα : Decomposition.Reliable α) (commands : List (Command α))
    {name : String} {b : List UInt8} {target : Option (Extractor α)} {c : Command α}
    (hc : (empty.run commands).Decodes name b target c) :
    let s := empty.run commands
    let t := (s.step c).2
    ((b.length = 16 → Record.secondField b < 2 ^ 26) → (s.accepts c ↔ Record.Valid b)) ∧
    (¬Record.Valid b → ∃ e, (s.step c).1 = .error e ∧ e.kind = .corruptData) ∧
    (s.accepts c → ∃ y, t.extractor? name = some y ∧ y.bytes = b ∧ y.size = 0 ∧
      (y.order.degree = Record.firstField b ∧ y.window.side = Record.secondField b) ∧
      (∀ z, target = some z → y.stride = z.stride ∧ y.backend = z.backend) ∧
      ∀ other, other ≠ name → t.extractor? other = s.extractor? other) ∧
    ∀ (others : List (Command α)) (source : String) (x : Extractor α),
      (empty.run others).extractor? source = some x → x.window.side < 2 ^ 63 → x.bytes = b →
      s.accepts c ∧ ∃ y, t.extractor? name = some y ∧ y.order = x.order ∧ y.window = x.window ∧
        y.size = 0 ∧ (y.stride = x.stride → y.backend = x.backend →
          ∀ (image : ArrayLike α) (u v : Session α),
            ((y.load image).run u).1.map Extractor.features =
              ((x.load image).run v).1.map Extractor.features) := by
  intro s t
  have hsound : s.session.Sound := (run_consistent commands).sound
  have hdefault := FitModel.canBuild_default hα
  have hfails := Extractor.ofData_failsOnly b target hdefault s.session
  have hresult (haccept : s.accepts c = true) :
      ∃ y, ((Extractor.ofData (.bytes b) target).run s.session).1 = .ok y := by
    cases hrun : ((Extractor.ofData (.bytes b) target).run s.session).1 with
    | ok y => exact ⟨y, rfl⟩
    | error e =>
      rw [(hc.of_error hrun).1] at haccept
      cases haccept
  have hvalid (y : Extractor α) (hy : Record.decode b = .ok y.record) :
      Record.Valid b ∧ Record.firstField b = y.order.degree ∧
        Record.secondField b = y.window.side := Record.valid_of_decode hy
  refine ⟨fun hbound => ⟨fun haccept => ?_, fun hb => ?_⟩, fun hb => ?_, fun haccept => ?_,
    fun others source x hx hside hbytes => ?_⟩
  · obtain ⟨y, hy⟩ := hresult haccept
    obtain ⟨-, -, -, -, hrecord, -⟩ := hc.of_ok hsound hy
    exact (hvalid y hrecord).1
  · obtain ⟨k, w, hdecode⟩ := hb.exists_decode
    have hside : w.side < 2 ^ 26 := by
      have hsecond := hbound hb.1
      rw [(Record.valid_of_decode hdecode).2.2] at hsecond
      exact_mod_cast hsecond
    obtain ⟨y, hy⟩ := (Extractor.ofData_failsOnly_false hdecode target hdefault
      (FitModel.canBuild_of_side_lt hα k hside)).exists_ok s.session
    exact (hc.of_ok hsound hy).1
  · cases hrun : ((Extractor.ofData (.bytes b) target).run s.session).1 with
    | ok y =>
      obtain ⟨-, -, -, -, hrecord, -⟩ := hc.of_ok hsound hrun
      exact absurd (hvalid y hrecord).1 hb
    | error e => exact ⟨e, (hc.of_error hrun).2, hfails e hrun⟩
  · obtain ⟨y, hy⟩ := hresult haccept
    obtain ⟨-, hname, hothers, hcoherent, hrecord, hsampling⟩ := hc.of_ok hsound hy
    obtain ⟨-, hfirst, hsecond⟩ := hvalid y hrecord
    exact ⟨y, hname, Record.encode_of_decode hrecord, hcoherent.size_eq_zero,
      ⟨hfirst.symm, hsecond.symm⟩, hsampling, hothers⟩
  · have hsource := (run_consistent others).coherent source x hx
    have hdecode : Record.decode b = .ok x.record := by
      rw [← hbytes]
      exact Extractor.decode_bytes hside
    obtain ⟨y, hy⟩ := (Extractor.ofData_failsOnly_false hdecode target hdefault
      hsource.canBuild).exists_ok s.session
    obtain ⟨haccept, hname, -, hcoherent, hrecord, -⟩ := hc.of_ok hsound hy
    rw [hdecode] at hrecord
    obtain ⟨horder, hwindow⟩ := Extractor.config_eq_of_record (Except.ok.inj hrecord).symm
    refine ⟨haccept, y, hname, horder, hwindow, hcoherent.size_eq_zero,
      fun hstride hbackend image u v => ?_⟩
    have hmodel := hcoherent.model_eq hsource horder hwindow
    rw [Extractor.load_features, Extractor.load_features, hmodel, hwindow, hstride, hbackend]

/-- The bytes of order two and a window of five pixels on a side make an extractor; those of an order
of minus one are refused as a record for it. -/
theorem decode_codec_two_by_five :
    letI := Decomposition.real
    let b : List UInt8 := 2 :: List.replicate 7 0 ++ 5 :: List.replicate 7 0
    let wrong : List UInt8 := List.replicate 8 255 ++ 5 :: List.replicate 7 0
    let make : Command (Exact ℝ) := .decode "a" (.bytes b)
    let change : Command (Exact ℝ) := .decodeInto "a" (.bytes wrong)
    Decomposition.Reliable (Exact ℝ) ∧
    empty.Decodes "a" b none make ∧ empty.accepts make ∧
    ∃ y, (empty.run [make]).extractor? "a" = some y ∧ y.order.degree = 2 ∧ y.window.side = 5 ∧
      (empty.run [make]).Decodes "a" wrong (some y) change ∧
      ∃ e, ((empty.run [make]).step change).1 = .error e ∧ e.kind = .corruptData := by
  let := Decomposition.real
  intro b wrong make change
  have hreliable : Decomposition.Reliable (Exact ℝ) := Decomposition.reliable_real
  have hfirst : Record.firstField b = 2 := (Record.fields_eq rfl).1.trans (by decide)
  have hsecond : Record.secondField b = 5 := (Record.fields_eq rfl).2.trans (by decide)
  have hwrong : Record.firstField wrong = -1 := (Record.fields_eq rfl).1.trans (by decide)
  have hmake : (empty.run []).Decodes "a" b none make := .fresh
  obtain ⟨haccepts, -, hresult, -⟩ := decode_codec hreliable [] hmake
  have haccept : empty.accepts make := by
    refine (haccepts fun _ => ?_).2 ⟨rfl, ⟨?_, ?_⟩, ?_, ?_⟩ <;> omega
  obtain ⟨y, hy, -, -, ⟨horder, hwindow⟩, -, -⟩ := hresult haccept
  have hrun : empty.run [make] = ((empty.run []).step make).2 := empty.run_append_singleton [] make
  rw [← hrun] at hy
  have hchange : (empty.run [make]).Decodes "a" wrong (some y) change := .into hy
  obtain ⟨-, hrefused, -, -⟩ := decode_codec hreliable [make] hchange
  refine ⟨hreliable, hmake, haccept, y, hy, ?_, ?_, hchange, hrefused fun hvalid => ?_⟩
  · omega
  · omega
  · have hone := hvalid.2.1.1
    omega

end Store

end Facet
