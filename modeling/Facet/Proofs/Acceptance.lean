import Mathlib
import Facet.Proofs.Records
import Facet.Proofs.RealDecompositions

/-!
# Which configurations are accepted

An order and a window come into the library in many ways: a new extractor is made for them, directly,
by a configuration or by a record; one that exists is set up; or their model, their settings or their
design matrix are asked for. All ways accept the same orders and windows, and what they lead to
belongs to the same order, window and monomials. Whatever else they are given is refused as a
configuration, or as a malformed record where it was one; but what has too many digits to be shown in
the message is refused for the message only. That no fit is refused is a property of the design
matrices: none of them is zero, so none has the numerical rank zero.
-/

namespace Facet

/-! ## Admitted values -/

namespace Settings

/-- What an order has to be: a whole number from one to six. -/
def IsOrder (v : Value) : Prop := ∃ a : Int, v = .int a ∧ 1 ≤ a ∧ a ≤ 6

/-- What the side of a window has to be: an odd whole number, three at least. -/
def IsSide (v : Value) : Prop := ∃ b : Int, v = .int b ∧ 3 ≤ b ∧ b % 2 = 1

/-- Whether two values are an order and the side of a window. -/
def Admits (order window : Value) : Prop := IsOrder order ∧ IsSide window

/-- Whether a message can say what is wrong with two values that should be an order and the side of a
window. It shows the first if that is no order, and otherwise the second. -/
def Tells (order window : Value) : Prop :=
  (¬IsOrder order → order.isShowable = true) ∧ (IsOrder order → window.isShowable = true)

theorem isOrder_value (k : Order) : IsOrder k.value := by
  have hone := k.one_le
  have hsix := k.le_six
  refine ⟨k.degree, rfl, ?_, ?_⟩ <;> omega

theorem isSide_value (w : Window) : IsSide w.value := by
  have hthree := w.three_le_side
  have hside : w.side = 2 * w.margin + 1 := rfl
  refine ⟨w.side, rfl, ?_, ?_⟩ <;> omega

theorem admits_value (k : Order) (w : Window) : Admits k.value w.value :=
  ⟨isOrder_value k, isSide_value w⟩

variable {order window : Value}

theorem IsOrder.exists_eq_value (h : IsOrder order) : ∃ k : Order, order = k.value := by
  obtain ⟨a, rfl, hone, hsix⟩ := h
  refine ⟨⟨a.toNat, by omega, by omega⟩, ?_⟩
  rw [Order.value, Int.toNat_of_nonneg (by omega)]

theorem IsSide.exists_eq_value (h : IsSide window) : ∃ w : Window, window = w.value := by
  obtain ⟨b, rfl, hthree, hodd⟩ := h
  have hside : ((2 * (b / 2).toNat + 1 : Nat) : Int) = b := by omega
  refine ⟨⟨(b / 2).toNat, by omega⟩, ?_⟩
  rw [Window.value, Window.side, hside]

theorem Admits.exists_eq_value (h : Admits order window) :
    ∃ (k : Order) (w : Window), order = k.value ∧ window = w.value := by
  obtain ⟨k, hk⟩ := h.1.exists_eq_value
  obtain ⟨w, hw⟩ := h.2.exists_eq_value
  exact ⟨k, w, hk, hw⟩

/-- What is no order cannot be read as one. -/
theorem exists_error_of_not_isOrder (h : ¬IsOrder order) :
    ∃ e, Order.ofValue order = .error e := by
  cases hk : Order.ofValue order with
  | error e => exact ⟨e, rfl⟩
  | ok k =>
    rw [← Order.value_of_ofValue hk] at h
    exact absurd (isOrder_value k) h

theorem exists_error_of_not_isSide (h : ¬IsSide window) :
    ∃ e, Window.ofValue window = .error e := by
  cases hw : Window.ofValue window with
  | error e => exact ⟨e, rfl⟩
  | ok w =>
    rw [← Window.value_of_ofValue hw] at h
    exact absurd (isSide_value w) h

/-- What becomes of values that are not admitted: they are refused as a setting if a message can say
so, and for the message otherwise. -/
def IsRefusal (told : Prop) (e : Fault) : Prop :=
  (told → ∃ cause, e = .setting cause) ∧ (¬told → e = .argument .notShowable)

theorem isRefusal_of_isSetting {e : Fault} {v : Value} (h : e.IsSetting v) :
    IsRefusal (v.isShowable = true) e := ⟨h.exists_eq, h.eq_notShowable⟩

/-- Such a refusal is of the class of invalid configurations, or else that of wrong values. -/
theorem IsRefusal.kind {told : Prop} {e : Fault} (h : IsRefusal told e) :
    (told → e.kind = .invalidConfiguration) ∧ (¬told → e.kind = .value) := by
  refine ⟨fun htold => ?_, fun hlong => ?_⟩
  · obtain ⟨cause, rfl⟩ := h.1 htold
    rfl
  · rw [h.2 hlong]
    rfl

/-- Nothing that reads an order and the side of a window first goes on from values that are not
admitted. -/
theorem bind_eq_error_of_not_admits {β : Type} (h : ¬Admits order window)
    (next : Order → Window → Except Fault β) :
    ∃ e, (do next (← Order.ofValue order) (← Window.ofValue window)) = .error e ∧
      IsRefusal (Tells order window) e := by
  by_cases horder : IsOrder order
  · obtain ⟨k, rfl⟩ := horder.exists_eq_value
    obtain ⟨e, he⟩ := exists_error_of_not_isSide fun hside => h ⟨horder, hside⟩
    have htells : Tells k.value window ↔ window.isShowable = true :=
      ⟨fun htold => htold.2 horder, fun hshown => ⟨absurd horder, fun _ => hshown⟩⟩
    refine ⟨e, ?_, ?_⟩
    · rw [Order.ofValue_value, ok_bind, he, error_bind]
    · rw [htells]
      exact isRefusal_of_isSetting (Window.isSetting_of_ofValue he)
  · obtain ⟨e, he⟩ := exists_error_of_not_isOrder horder
    have htells : Tells order window ↔ order.isShowable = true :=
      ⟨fun htold => htold.1 horder, fun hshown => ⟨fun _ => hshown, fun h => absurd h horder⟩⟩
    refine ⟨e, ?_, ?_⟩
    · rw [he, error_bind]
    · rw [htells]
      exact isRefusal_of_isSetting (Order.isSetting_of_ofValue he)

end Settings

variable {α : Type} [Scalar α] [Decomposition α]

/-! ## Models -/

/-- Whether a model is that of an order and a window: it has both, the monomials up to the order as
its exponents, and a dimension for each of them but the constant one. -/
structure FitModel.IsFor (m : FitModel α) (k : Order) (w : Window) : Prop where
  order : m.order = k
  window : m.window = w
  exponents : m.order.monomials.toList = Monomial.upTo k.degree
  dimensions : m.dimensions = (Monomial.upTo k.degree).length - 1

omit [Scalar α] [Decomposition α] in
theorem FitModel.isFor_of_eq {m : FitModel α} {k : Order} {w : Window} (horder : m.order = k)
    (hwindow : m.window = w) : m.IsFor k w where
  order := horder
  window := hwindow
  exponents := by rw [horder]; rfl
  dimensions := by
    rw [dimensions, horder, Monomial.length_upTo]
    rfl

theorem modelOf_value (k : Order) (w : Window) :
    modelOf (α := α) k.value w.value = (modelFor k w).under .fit := by
  rw [modelOf, Order.ofValue_value, Window.ofValue_value]
  rfl

/-- The model of an admitted order and window is found in every session. -/
theorem modelOf_eq_ok {k : Order} {w : Window} (hbuild : FitModel.CanBuild α k w) {s : Session α}
    (hs : s.Sound) :
    ∃ m, ((modelOf k.value w.value).run s).1 = .ok m ∧ m.value.IsFor k w := by
  obtain ⟨m, hm⟩ := (modelFor_failsOnly hbuild).exists_ok s
  obtain ⟨-, horder, hwindow⟩ := (modelFor_yields k w s hs).2 m hm
  refine ⟨m, ?_, FitModel.isFor_of_eq horder hwindow⟩
  rw [modelOf_value, Run.run_under, hm]
  rfl

theorem modelOf_eq_error {order window : Value} (h : ¬Settings.Admits order window)
    (s : Session α) : ∃ e, ((modelOf order window).run s).1 = .error e ∧
      Settings.IsRefusal (Settings.Tells order window) e := by
  obtain ⟨e, he, hrefusal⟩ :=
    Settings.bind_eq_error_of_not_admits h fun k w => .ok (k, w)
  refine ⟨e, ?_, hrefusal⟩
  cases hk : Order.ofValue order with
  | error e' =>
    rw [hk] at he
    cases he
    rw [modelOf, hk]
    rfl
  | ok k =>
    cases hw : Window.ofValue window with
    | error e' =>
      rw [hk, hw] at he
      cases he
      rw [modelOf, hk, hw]
      rfl
    | ok w =>
      rw [hk, hw] at he
      cases he

/-! ## Extractors -/

namespace Extractor

theorem Coherent.isFor {x : Extractor α} {image : Option (ArrayLike α)} (h : x.Coherent image)
    {k : Order} {w : Window} (horder : x.order = k) (hwindow : x.window = w) :
    x.model.value.IsFor k w :=
  FitModel.isFor_of_eq (h.order.trans horder) (h.window.trans hwindow)

/-- Whether an operation makes an extractor of an order and a window of any kind exactly if they are
admitted, where it can be told under some condition that they are not. -/
structure TakesFit (op : Run α Fault (Extractor α)) (order window : Value) (told : Prop) : Prop where
  /-- It is not refused if their model can be computed. -/
  accepted : ∀ k w, order = k.value → window = w.value → FitModel.CanBuild α k w →
    Run.FailsOnly op fun _ => False
  /-- It is refused if they are not admitted. -/
  refused : ¬Settings.Admits order window →
    ∀ s, ∃ e, (op.run s).1 = .error e ∧ Settings.IsRefusal told e
  /-- What it makes has both. -/
  yields : Run.Yields Session.Sound op fun y =>
    y.Coherent none ∧ y.order.value = order ∧ y.window.value = window

variable {order window : Value}

theorem construct_takesFit {stride backend : Option Value} {d : Stride} {b : Backend}
    (hstride : Stride.ofValue (stride.getD Settings.defaultStride.value) = .ok d)
    (hbackend : Backend.ofValue? backend = .ok b) :
    TakesFit (construct (α := α) (some order) (some window) stride backend) order window
      (Settings.Tells order window) where
  accepted := by
    rintro k w rfl rfl hbuild
    have hsettings : Settings.ofValues (some k.value) (some w.value) stride = .ok ⟨k, w, d⟩ := by
      simp only [Settings.ofValues, Option.getD_some, Order.ofValue_value, Window.ofValue_value,
        hstride, ok_bind]
      rfl
    rw [construct, hsettings, Run.check, pure_bind]
    exact ofSettings_failsOnly hbuild hbackend
  refused h s := by
    obtain ⟨e, he, hrefusal⟩ : ∃ e, Settings.ofValues (some order) (some window) stride = .error e ∧
        Settings.IsRefusal (Settings.Tells order window) e :=
      Settings.bind_eq_error_of_not_admits h _
    refine ⟨e, ?_, hrefusal⟩
    rw [construct, he]
    rfl
  yields := by
    refine Run.yields_bind Run.yields_check fun t ht => ?_
    refine (ofSettings_yields t backend).mono fun y hy => ⟨hy.1, ?_⟩
    rw [Extractor.order, Extractor.window, hy.2]
    exact Settings.value_of_ofValues ht

omit [Scalar α] [Decomposition α] in
/-- A note on a refused setting shows both values, so both have to be short enough. -/
theorem reject_eq_error {β : Type} {e : Fault}
    (h : Settings.IsRefusal (Settings.Tells order window) e) (s : Session α) :
    ∃ e', ((reject order window e : Run α Fault β).run s).1 = .error e' ∧
      Settings.IsRefusal (order.isShowable = true ∧ window.isShowable = true) e' := by
  have hshowable : Value.areShowable [order, window] = true ↔
      order.isShowable = true ∧ window.isShowable = true := by
    simp [Value.areShowable_iff]
  by_cases hshown : order.isShowable = true ∧ window.isShowable = true
  · obtain ⟨cause, rfl⟩ := h.1 ⟨fun _ => hshown.1, fun _ => hshown.2⟩
    refine ⟨.setting cause, ?_, fun _ => ⟨cause, rfl⟩, fun hlong => absurd hshown hlong⟩
    simp only [reject, Run.answer, Fault.setup?, if_pos (hshowable.2 hshown)]
    rfl
  · refine ⟨.argument .notShowable, ?_, fun h => absurd h hshown, fun _ => rfl⟩
    by_cases htold : Settings.Tells order window
    · obtain ⟨cause, rfl⟩ := h.1 htold
      simp only [reject, Run.answer, Fault.setup?, if_neg (mt hshowable.1 hshown)]
      rfl
    · rw [h.2 htold]
      rfl

theorem setup_takesFit (x : Extractor α) :
    TakesFit (x.setup order window) order window
      (order.isShowable = true ∧ window.isShowable = true) where
  accepted := by
    rintro k w rfl rfl hbuild
    exact x.setup_failsOnly hbuild
  refused h s := by
    obtain ⟨e, he, hrefusal⟩ : ∃ e, x.settings.value.withFit order window = .error e ∧
        Settings.IsRefusal (Settings.Tells order window) e :=
      Settings.bind_eq_error_of_not_admits h _
    obtain ⟨e', he', hrefusal'⟩ := reject_eq_error (β := Extractor α) hrefusal s
    refine ⟨e', ?_, hrefusal'⟩
    rw [setup, prepare, he]
    exact he'
  yields := by
    have hboth := (x.setup_yields order window).and (x.setup_yields_values order window)
    exact hboth.mono fun y hy => ⟨hy.1.1, hy.2⟩

/-- A configuration makes what its section makes. -/
theorem fromConfiguration_eq_construct {config entries : List (Value × Value)}
    (hsection : (Value.field? "poly_image" config).getD (.mapping config) = .mapping entries) :
    fromConfiguration (α := α) (.mapping config) =
      construct (Value.field? "order" entries) (Value.field? "window_size" entries)
        (Value.field? "downsample" entries) (Value.field? "backend" entries) := by
  rw [fromConfiguration, entriesOf, Run.check, pure_bind, hsection, entriesOf, Run.check, pure_bind]
  rfl

end Extractor

/-! ## Extractors in a store -/

namespace Store

/-- Whether a section of a configuration gives an order and a window, and besides them a stride and a
backend that are valid or nothing at all. -/
structure Gives (entries : List (Value × Value)) (order window : Value) : Prop where
  order : Value.field? "order" entries = some order
  window : Value.field? "window_size" entries = some window
  stride : ∃ d, Stride.ofValue
    ((Value.field? "downsample" entries).getD Settings.defaultStride.value) = .ok d
  backend : ∃ b, Backend.ofValue? (Value.field? "backend" entries) = .ok b

/-- A command that is given an order and a window of any kind for an extractor. -/
inductive Takes (s : Store α) (order window : Value) : Command α → Prop
  /-- A new extractor is made for them. -/
  | construct (name : String) :
    Takes s order window (.construct name (some order) (some window) none none)
  /-- One that exists is set up. -/
  | setup {name : String} {x : Extractor α} (found : s.extractor? name = some x) :
    Takes s order window (.setup name order window)
  /-- A new extractor is made by a section of a configuration. -/
  | ofSection {name : String} {entries : List (Value × Value)}
    (gives : Gives entries order window) (flat : Value.field? "poly_image" entries = none) :
    Takes s order window (.fromConfiguration name (.mapping entries))
  /-- A new extractor is made by a configuration with such a section. -/
  | ofConfiguration {name : String} {config entries : List (Value × Value)}
    (gives : Gives entries order window)
    (nested : Value.field? "poly_image" config = some (.mapping entries)) :
    Takes s order window (.fromConfiguration name (.mapping config))

/-- Whether it can be told why such a command is refused. All of them show the value that is refused;
a setup shows both. -/
def CanTell (order window : Value) : Command α → Prop
  | .setup .. => order.isShowable = true ∧ window.isShowable = true
  | _ => Settings.Tells order window

/-- A command that is given an order and a window of 64 bits as the bytes of a record. -/
def Unpacks (s : Store α) (order window : Value) (c : Command α) : Prop :=
  ∃ a b : Int, order = .int a ∧ window = .int b ∧ (-2 ^ 63 ≤ a ∧ a < 2 ^ 63) ∧
    (-2 ^ 63 ≤ b ∧ b < 2 ^ 63) ∧ ∃ name target, s.Decodes name (Record.encode ⟨a, b⟩) target c

/-- Whether a command leaves an extractor of an order and a window. -/
def Makes (s : Store α) (c : Command α) (k : Order) (w : Window) : Prop :=
  s.Leaves c fun y => y.order = k ∧ y.window = w ∧ y.model.value.IsFor k w

variable {s : Store α} {order window : Value} {c : Command α}

theorem Gives.takesFit {entries config : List (Value × Value)}
    (h : Gives entries order window)
    (hsection : (Value.field? "poly_image" config).getD (.mapping config) = .mapping entries) :
    Extractor.TakesFit (Extractor.fromConfiguration (α := α) (.mapping config)) order window
      (Settings.Tells order window) := by
  obtain ⟨d, hd⟩ := h.stride
  obtain ⟨b, hb⟩ := h.backend
  rw [Extractor.fromConfiguration_eq_construct hsection, h.order, h.window]
  exact Extractor.construct_takesFit hd hb

theorem Takes.exists_step_eq (hc : s.Takes order window c) : ∃ name op,
    c.target? = some name ∧ s.step c = s.keep name op ∧
      Extractor.TakesFit op order window (CanTell order window c) := by
  cases hc with
  | construct name => exact ⟨name, _, rfl, rfl, Extractor.construct_takesFit rfl rfl⟩
  | @setup name x found =>
    refine ⟨name, _, rfl, ?_, x.setup_takesFit⟩
    rw [step, update, found]
  | @ofSection name entries gives flat =>
    refine ⟨name, _, rfl, rfl, gives.takesFit ?_⟩
    rw [flat, Option.getD_none]
  | @ofConfiguration name config entries gives nested =>
    refine ⟨name, _, rfl, rfl, gives.takesFit ?_⟩
    rw [nested, Option.getD_some]

theorem Takes.makes (hs : s.session.Sound) {k : Order} {w : Window}
    (hbuild : FitModel.CanBuild α k w) (hc : s.Takes k.value w.value c) : s.Makes c k w := by
  obtain ⟨name, op, htarget, hstep, htakes⟩ := hc.exists_step_eq
  obtain ⟨y, hy⟩ := (htakes.accepted k w rfl rfl hbuild).exists_ok s.session
  obtain ⟨hcoherent, horder, hwindow⟩ := (htakes.yields s.session hs).2 y hy
  have horder := Order.value_injective horder
  have hwindow := Window.value_injective hwindow
  obtain ⟨hok, -, -, hname, -⟩ := keep_of_ok name hy
  rw [Makes, Leaves, accepts, hstep, hok]
  exact ⟨rfl, name, y, htarget, hname, horder, hwindow, hcoherent.isFor horder hwindow⟩

theorem Takes.refuses (h : ¬Settings.Admits order window) (hc : s.Takes order window c) :
    (CanTell order window c → s.Refuses c .invalidConfiguration) ∧
      (¬CanTell order window c → s.Refuses c .value) := by
  obtain ⟨name, op, -, hstep, htakes⟩ := hc.exists_step_eq
  obtain ⟨e, he, hrefusal⟩ := htakes.refused h s.session
  have hkept := keep_of_error name he
  rw [← hstep] at hkept
  exact ⟨fun htold => ⟨e, hkept, hrefusal.kind.1 htold⟩,
    fun hlong => ⟨e, hkept, hrefusal.kind.2 hlong⟩⟩

omit [Scalar α] [Decomposition α] in
theorem Decodes.target_eq {name : String} {b : List UInt8} {target : Option (Extractor α)}
    (hc : s.Decodes name b target c) : c.target? = some name := by
  cases hc <;> rfl

/-- The record of an order and a window whose model can be computed makes an extractor of them. -/
theorem Unpacks.makes (hα : Decomposition.Reliable α) (hs : s.session.Sound) {k : Order}
    {w : Window} (hbuild : FitModel.CanBuild α k w) (hc : s.Unpacks k.value w.value c) :
    s.Makes c k w := by
  obtain ⟨a, b, ha, hb, hafits, hbfits, name, target, hc⟩ := hc
  obtain rfl : (k.degree : Int) = a := Value.int.inj ha
  obtain rfl : (w.side : Int) = b := Value.int.inj hb
  have hdecode := Record.decode_encode (r := ⟨k.degree, w.side⟩) hafits hbfits
  obtain ⟨hok, -, -, y, hname, horder, hwindow, hcoherent⟩ :=
    keep_ofData_of_decode hα name target hs hdecode hbuild
  rw [Makes, Leaves, accepts, hc.step_eq, hok]
  exact ⟨rfl, name, y, hc.target_eq, hname, horder, hwindow, hcoherent.isFor horder hwindow⟩

/-- A record whose numbers are not admitted is malformed. -/
theorem Unpacks.refuses (hα : Decomposition.Reliable α) (hs : s.session.Sound)
    (h : ¬Settings.Admits order window) (hc : s.Unpacks order window c) :
    s.Refuses c .corruptData := by
  obtain ⟨a, b, rfl, rfl, hafits, hbfits, name, target, hc⟩ := hc
  have hdecode := Record.decode_encode (r := ⟨a, b⟩) hafits hbfits
  have hdefault := FitModel.canBuild_default hα
  cases hrun : ((Extractor.ofData (.bytes (Record.encode ⟨a, b⟩)) target).run s.session).1 with
  | ok y =>
    obtain ⟨-, -, -, -, -, -, hrecord, -⟩ := keep_ofData_of_ok name hs hrun
    have hvalue := Record.ofValue_bytes_eq_ok_iff.1 hrecord
    rw [hdecode] at hvalue
    obtain ⟨rfl, rfl⟩ := Record.mk.inj (Except.ok.inj hvalue)
    exact absurd (Settings.admits_value y.order y.window) h
  | error e =>
    exact ⟨e, (hc.of_error hrun).2, Extractor.ofData_failsOnly _ target hdefault s.session e hrun⟩

end Store

/-! ## All ways together -/

section Exact

variable {K : Type} [Field K] [LinearOrder K] [IsStrictOrderedRing K] [Decomposition (Exact K)]

/-- **There is one set of accepted configurations.** Let numbers be exact and matrices be taken apart
into their singular values. After any run, let an order and a window of any kind be given, the window
with a side of less than `2 ^ 26` pixels if it is a number. If they are admitted, then an extractor
can be made for them, directly, by a section of a configuration or by a configuration with that
section; every extractor can be set up with them, and its settings can be changed to them; their
model and their design matrix can be had; and if both have 64 bits, an extractor can be configured
by their record. All of these have the same order and window, the same exponents and the same number
of dimensions. If they are not admitted, each of these is refused, so it is never the fit that is
refused: the record as malformed, and all others as an invalid configuration if the message can be
written. It cannot where it has to show a whole number of more than 4300 digits, as the order, the
window, or a part of them; then the refusal is that of a wrong value. -/
theorem Store.makes_iff_admits
    (hα : ∀ {m n : Nat} (a : Table (Exact K) m n), Decomposition.TakesApart a)
    (commands : List (Command (Exact K))) (order window : Value)
    (hbound : ∀ n, window = .int n → n < 2 ^ 26) :
    let s := empty.run commands
    let told := Settings.Tells order window
    (Settings.Admits order window → ∃ k w, order = k.value ∧ window = w.value ∧
      (∀ c, s.Takes order window c → s.Makes c k w) ∧
      (∀ c, s.Unpacks order window c → s.Makes c k w) ∧
      (∃ m, ((modelOf order window).run s.session).1 = .ok m ∧ m.value.IsFor k w) ∧
      (∀ name x, s.extractor? name = some x →
        x.settings.value.withFit order window = .ok ⟨k, w, x.stride⟩) ∧
      Design.ofValues order window = .ok ⟨k, w, designMatrix k w⟩) ∧
    (¬Settings.Admits order window →
      (∀ c, s.Takes order window c →
        (CanTell order window c → s.Refuses c .invalidConfiguration) ∧
        (¬CanTell order window c → s.Refuses c .value)) ∧
      (∀ c, s.Unpacks order window c → s.Refuses c .corruptData) ∧
      (∃ e, ((modelOf order window).run s.session).1 = .error e ∧
        (told → e.kind = .invalidConfiguration) ∧ (¬told → e.kind = .value)) ∧
      (∀ name x, s.extractor? name = some x →
        ∃ e, x.settings.value.withFit order window = .error e ∧
          (told → e.kind = .invalidConfiguration) ∧ (¬told → e.kind = .value)) ∧
      ∃ e, Design.ofValues order window = .error e ∧
        (told → e.kind = .invalidConfiguration) ∧ (¬told → e.kind = .value)) := by
  intro s told
  have hreliable := Decomposition.reliable_of_takesApart hα
  have hsound : s.session.Sound := (run_consistent commands).sound
  constructor
  · intro h
    obtain ⟨k, w, rfl, rfl⟩ := h.exists_eq_value
    have hside : w.side < 2 ^ 26 := by exact_mod_cast hbound w.side rfl
    have hbuild := FitModel.canBuild_of_side_lt hreliable k hside
    refine ⟨k, w, rfl, rfl, fun c hc => hc.makes hsound hbuild,
      fun c hc => hc.makes hreliable hsound hbuild, modelOf_eq_ok hbuild hsound,
      fun _ x _ => Settings.withFit_value x.settings.value k w, ?_⟩
    rw [Design.ofValues, Order.ofValue_value, Window.ofValue_value]
    rfl
  · intro h
    obtain ⟨e, he, hrefusal⟩ := modelOf_eq_error h s.session
    refine ⟨fun c hc => hc.refuses h, fun c hc => hc.refuses hreliable hsound h,
      ⟨e, he, hrefusal.kind⟩, fun _ x _ => ?_, ?_⟩
    · obtain ⟨e, he, hrefusal⟩ := Settings.bind_eq_error_of_not_admits h fun k w => do
        let d ← Stride.ofValue x.settings.value.stride.value
        return (⟨k, w, d⟩ : Settings)
      exact ⟨e, he, hrefusal.kind⟩
    · obtain ⟨e, he, hrefusal⟩ := Settings.bind_eq_error_of_not_admits h fun k w =>
        .ok (⟨k, w, designMatrix k w⟩ : Design)
      exact ⟨e, he, hrefusal.kind⟩

/-- An order of six goes with a window of three pixels on a side, but a truth value is no order. -/
theorem Store.makes_iff_admits_six_by_three :
    letI := Decomposition.real
    let s : Store (Exact ℝ) := empty
    (∀ {m n : Nat} (a : Table (Exact ℝ) m n), Decomposition.TakesApart a) ∧
    (∀ n, Value.int 3 = .int n → n < 2 ^ 26) ∧
    (∃ k w, Order.degree k = 6 ∧ Window.side w = 3 ∧
      s.Makes (.construct "a" (some (.int 6)) (some (.int 3)) none none) k w ∧
      s.Makes (.decode "a" (.bytes (Record.encode ⟨6, 3⟩))) k w) ∧
    s.Refuses (.construct "a" (some (.bool true)) (some (.int 3)) none none)
      .invalidConfiguration := by
  let := Decomposition.real
  intro s
  have hbound : ∀ n, Value.int 3 = .int n → n < 2 ^ 26 := by
    rintro n ⟨⟩
    decide
  have hadmits : Settings.Admits (.int 6) (.int 3) :=
    ⟨⟨6, rfl, by decide, by decide⟩, 3, rfl, by decide, by decide⟩
  have hwrong : ¬Settings.IsOrder (.bool true) := by
    rintro ⟨a, ha, -⟩
    cases ha
  obtain ⟨k, w, hk, hw, htakes, hunpacks, -⟩ :=
    (makes_iff_admits Decomposition.takesApart_real [] (.int 6) (.int 3) hbound).1 hadmits
  have hsix : (6 : Int) = k.degree := Value.int.inj hk
  have hthree : (3 : Int) = w.side := Value.int.inj hw
  obtain ⟨hrefuses, -⟩ :=
    (makes_iff_admits Decomposition.takesApart_real [] (.bool true) (.int 3) hbound).2
      fun hadmits => hwrong hadmits.1
  have hmade := htakes _ (.construct "a")
  have hunpacked := hunpacks _ ⟨6, 3, rfl, rfl, by decide, by decide, "a", none, .fresh⟩
  exact ⟨Decomposition.takesApart_real, hbound, ⟨k, w, by omega, by omega, hmade, hunpacked⟩,
    (hrefuses _ (.construct "a")).1 ⟨fun _ => rfl, fun h => absurd h hwrong⟩⟩

/-- Not all that is not admitted is refused as an invalid configuration: the number `10 ^ 4300` is no
order, but the message cannot show it. -/
theorem Store.not_invalid_long_order :
    ¬∀ (commands : List (Command Float)) (name : String) (order window : Value),
      (∀ n, window = .int n → n < 2 ^ 26) → ¬Settings.Admits order window →
      (empty.run commands).Refuses (.construct name (some order) (some window) none none)
        .invalidConfiguration := by
  intro h
  let long : Int := ((10 ^ 4300 : Nat) : Int)
  have hbound : ∀ n, Value.int 3 = .int n → n < 2 ^ 26 := by
    rintro n ⟨⟩
    decide
  have horder : ¬Settings.IsOrder (.int long) := by
    rintro ⟨a, ha, -, hsix⟩
    obtain rfl : long = a := Value.int.inj ha
    revert hsix
    decide +kernel
  have hwrong : ¬Settings.Admits (.int long) (.int 3) := fun hadmits => horder hadmits.1
  have hlong : ¬Text.isShowable long = true := by decide +kernel
  have hcannot : ¬Settings.Tells (.int long) (.int 3) := fun htold => hlong (htold.1 horder)
  obtain ⟨e, he, hinvalid⟩ := h [] "a" (.int long) (.int 3) hbound hwrong
  have htakes : (empty.run [] : Store Float).Takes (.int long) (.int 3)
      (.construct "a" (some (.int long)) (some (.int 3)) none none) := .construct "a"
  obtain ⟨e', he', hvalue⟩ := (htakes.refuses hwrong).2 hcannot
  cases Except.error.inj (he.symm.trans he')
  cases hinvalid.symm.trans hvalue

end Exact

end Facet
