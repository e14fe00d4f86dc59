import Mathlib
import Facet.Proofs.Outcomes

/-!
# Settings as values

An order, a window and a stride are read back from the values that stand for them, and a change of
order and window keeps the stride. What cannot be read is refused as a setting, with a message in
which it is shown; so it has to be short enough for that.
-/

namespace Facet

theorem Order.ofValue_value (k : Order) : Order.ofValue k.value = .ok k := by
  have h : 1 ≤ (k.degree : Int) ∧ (k.degree : Int) ≤ 6 := by
    have h1 := k.one_le
    have h6 := k.le_six
    omega
  simp only [Order.ofValue, Order.value, wholeSetting, ok_bind, dif_pos h]
  rfl

theorem Window.ofValue_value (w : Window) : Window.ofValue w.value = .ok w := by
  have h : 3 ≤ (w.side : Int) ∧ (w.side : Int) % 2 = 1 := by
    have h1 := w.one_le
    unfold Window.side
    omega
  have hmargin : ((w.side : Int) / 2).toNat = w.margin := by
    unfold Window.side
    omega
  simp only [Window.ofValue, Window.value, wholeSetting, ok_bind, dif_pos h, hmargin]
  rfl

theorem Stride.ofValue_value (d : Stride) : Stride.ofValue d.value = .ok d := by
  have h : 1 ≤ (d.step : Int) := by exact_mod_cast d.one_le
  simp only [Stride.ofValue, Stride.value, wholeSetting, ok_bind, dif_pos h]
  rfl

/-- The order that is read from a value stands for this value. -/
theorem Order.value_of_ofValue {v : Value} {k : Order} (h : Order.ofValue v = .ok k) :
    k.value = v := by
  simp only [Order.ofValue, bind_eq_ok] at h
  obtain ⟨n, hn, h⟩ := h
  obtain rfl : v = .int n := by
    cases v <;> cases hn
    rfl
  split at h
  · cases h
    exact congrArg Value.int (Int.toNat_of_nonneg (by omega))
  · cases h

/-- So does the window. -/
theorem Window.value_of_ofValue {v : Value} {w : Window} (h : Window.ofValue v = .ok w) :
    w.value = v := by
  simp only [Window.ofValue, bind_eq_ok] at h
  obtain ⟨n, hn, h⟩ := h
  obtain rfl : v = .int n := by
    cases v <;> cases hn
    rfl
  split at h
  · cases h
    refine congrArg Value.int ?_
    simp only [Window.side]
    omega
  · cases h

theorem Order.value_injective {k k' : Order} (h : k.value = k'.value) : k = k' := by
  have hread := k.ofValue_value
  rw [h, k'.ofValue_value] at hread
  exact (Except.ok.inj hread).symm

theorem Window.value_injective {w w' : Window} (h : w.value = w'.value) : w = w' := by
  have hread := w.ofValue_value
  rw [h, w'.ofValue_value] at hread
  exact (Except.ok.inj hread).symm

theorem Settings.withFit_value (s : Settings) (k : Order) (w : Window) :
    s.withFit k.value w.value = .ok ⟨k, w, s.stride⟩ := by
  simp only [withFit, ofValues, Option.getD_some, Order.ofValue_value, Window.ofValue_value,
    Stride.ofValue_value, ok_bind]
  rfl

/-- Settings that are read have the order and the window that were given. -/
theorem Settings.value_of_ofValues {t : Settings} {order window : Value} {stride : Option Value}
    (h : ofValues (some order) (some window) stride = .ok t) :
    t.order.value = order ∧ t.window.value = window := by
  simp only [ofValues, Option.getD_some, bind_eq_ok] at h
  obtain ⟨k, hk, w, hw, d, -, h⟩ := h
  cases h
  exact ⟨Order.value_of_ofValue hk, Window.value_of_ofValue hw⟩

theorem Settings.stride_of_withFit {s t : Settings} {order window : Value}
    (h : s.withFit order window = .ok t) : t.stride = s.stride := by
  simp only [withFit, ofValues, Option.getD_some, Stride.ofValue_value, ok_bind, bind_eq_ok] at h
  obtain ⟨k, -, w, -, h⟩ := h
  cases h
  rfl

/-! ## Refused settings -/

/-- What becomes of a value that cannot be read as a setting. -/
def Fault.IsSetting (e : Fault) (v : Value) : Prop := ∃ cause, e = .showing [v] (.setting cause)

/-- A value is refused where it is no whole number, or for this number. -/
theorem isSetting_of_bind {β : Type} {name : SettingName} {v : Value} {e : Fault}
    {read : Int → Except Fault β} (hread : ∀ n e, read n = .error e → e.IsSetting v)
    (h : (wholeSetting name v >>= read) = .error e) : e.IsSetting v := by
  cases v with
  | int n => exact hread n e h
  | null | bool _ | float _ | text _ | bytes _ | date _ | moment _ | list _ | mapping _ =>
    cases h
    exact ⟨_, rfl⟩

theorem Order.isSetting_of_ofValue {v : Value} {e : Fault} (h : Order.ofValue v = .error e) :
    e.IsSetting v := by
  refine isSetting_of_bind (fun n e hn => ?_) h
  split at hn
  · cases hn
  · cases hn
    exact ⟨_, rfl⟩

theorem Window.isSetting_of_ofValue {v : Value} {e : Fault} (h : Window.ofValue v = .error e) :
    e.IsSetting v := by
  refine isSetting_of_bind (fun n e hn => ?_) h
  split at hn
  · cases hn
  · cases hn
    exact ⟨_, rfl⟩

/-- A value that can be shown is refused as a setting. -/
theorem Fault.IsSetting.exists_eq {e : Fault} {v : Value} (h : e.IsSetting v)
    (hv : v.isShowable = true) : ∃ cause, e = .setting cause := by
  obtain ⟨cause, rfl⟩ := h
  refine ⟨cause, showing_of_showable ?_ _⟩
  rw [Value.areShowable_iff]
  simpa using hv

/-- For a value that cannot be shown it is the message that is refused. -/
theorem Fault.IsSetting.eq_notShowable {e : Fault} {v : Value} (h : e.IsSetting v)
    (hv : ¬v.isShowable = true) : e = .argument .notShowable := by
  obtain ⟨cause, rfl⟩ := h
  refine showing_of_not_showable ?_ _
  rw [Value.areShowable_iff]
  simpa using hv

/-- A change of order and window is refused as a setting, unless it cannot be told which. -/
theorem Settings.eq_setting_or_notShowable_of_withFit {s : Settings} {order window : Value}
    {e : Fault} (h : s.withFit order window = .error e) :
    (∃ cause, e = .setting cause) ∨
      e = .argument .notShowable ∧ ¬Value.areShowable [order, window] = true := by
  have hcases {v : Value} (he : e.IsSetting v) (hv : v ∈ [order, window]) :
      (∃ cause, e = .setting cause) ∨
        e = .argument .notShowable ∧ ¬Value.areShowable [order, window] = true := by
    by_cases hshown : v.isShowable = true
    · exact .inl (he.exists_eq hshown)
    · refine .inr ⟨he.eq_notShowable hshown, fun hall => hshown ?_⟩
      exact (Value.areShowable_iff _).1 hall v hv
  simp only [withFit, ofValues, Option.getD_some, Stride.ofValue_value] at h
  cases hk : Order.ofValue order with
  | error e' =>
    rw [hk] at h
    cases h
    exact hcases (Order.isSetting_of_ofValue hk) (by simp)
  | ok k =>
    cases hw : Window.ofValue window with
    | error e' =>
      rw [hk, hw] at h
      cases h
      exact hcases (Window.isSetting_of_ofValue hw) (by simp)
    | ok w =>
      rw [hk, hw] at h
      cases h

end Facet
