import Mathlib
import Facet.Proofs.Operations
import Facet.Proofs.RankTolerance
import Facet.Proofs.RealDecompositions

/-!
# Operations that succeed

What can be refused although all arguments are valid is the fit. For an extractor that exists the
fit of its order and window has succeeded before, and for other windows that can be held in memory
it does wherever numbers and decompositions do what they should. Then no setup and no configuration
with a valid order and window is refused, whatever the session is.
-/

namespace Facet

/-! ## Fits that succeed -/

/-- Whether numbers and decompositions do what they should for whole numbers up to `2 ^ 150`, which
doubles hold: the numbers are finite, and in a matrix of them that is not zero and less than
`2 ^ 52` long on its longer side one finds a singular value beyond the rounding error. -/
structure Decomposition.Reliable (α : Type) [Scalar α] [Decomposition α] : Prop where
  /-- Whole numbers are finite. -/
  finite : ∀ n : Int, |n| ≤ 2 ^ 150 → Scalar.isFinite (Scalar.ofInt n : α) = true
  /-- Some singular value counts. -/
  counts : ∀ {m n : Nat} (a : Table Int m n), (∀ i j, |a.entry i j| ≤ 2 ^ 150) →
    (∃ i j, a.entry i j ≠ 0) → max m n < 2 ^ 52 →
    (svd (a.map fun row => row.map Scalar.ofInt : Table α m n)).rank ≠ 0

theorem Table.entry_map_map {β γ : Type} {m n : Nat} (f : β → γ) (a : Table β m n) (i : Fin m)
    (j : Fin n) : Table.entry (a.map fun row => row.map f) i j = f (a.entry i j) := by
  simp [Table.entry]

/-- Numbers and decompositions over a field do what they should, if matrices are taken apart into
their singular values. -/
theorem Decomposition.reliable_of_takesApart {K : Type} [Field K] [LinearOrder K]
    [IsStrictOrderedRing K] [Decomposition (Exact K)]
    (h : ∀ {m n : Nat} (a : Table (Exact K) m n), TakesApart a) : Reliable (Exact K) where
  finite _ _ := rfl
  counts {m n} a _ hentry hsize := by
    have hnumbers : (a.map fun row => row.map Scalar.ofInt : Table (Exact K) m n) =
        (Table.ofFn fun i j => ((a.entry i j : Int) : K) : Table K m n).numbers := by
      refine Table.ext_entry fun i j => ?_
      rw [Table.entry_map_map, Table.entry_numbers, Table.entry_ofFn]
      rfl
    obtain ⟨d, hsvd, hd⟩ := h _ _ hnumbers
    obtain ⟨i, j, hij⟩ := hentry
    rw [hsvd]
    intro hzero
    have hcast := (hd.rank_eq_zero_iff hsize).1 hzero i j
    rw [Table.entry_ofFn] at hcast
    exact hij (Int.cast_eq_zero.1 hcast)

theorem Decomposition.reliable_real :
    letI := Decomposition.real
    Reliable (Exact ℝ) := by
  let := Decomposition.real
  exact reliable_of_takesApart takesApart_real

theorem Window.abs_eval_le {w : Window} (hside : w.side < 2 ^ 26) {k : Order} {e : Monomial}
    (he : e.x + e.y ≤ k.degree) (p : Fin w.area) :
    |e.eval (w.offsetX p) (w.offsetY p)| ≤ 2 ^ 150 := by
  have hmargin : (w.margin : Int) ^ 2 ≤ (2 ^ 25) ^ 2 := by
    have hbound : w.margin ≤ 2 ^ 25 := by
      unfold Window.side at hside
      omega
    gcongr
    exact_mod_cast hbound
  have hone : (1 : Int) ≤ (2 ^ 25) ^ 2 := by norm_num
  refine abs_le_of_sq_le_sq ?_ (by positivity)
  calc e.eval (w.offsetX p) (w.offsetY p) ^ 2
      ≤ ((w.margin : Int) ^ 2) ^ k.degree := w.sq_eval_le he p
    _ ≤ ((2 ^ 25) ^ 2) ^ k.degree := by gcongr
    _ ≤ ((2 ^ 25) ^ 2) ^ 6 := pow_le_pow_right₀ hone k.le_six
    _ = (2 ^ 150) ^ 2 := by norm_num

variable {α : Type} [Scalar α] [Decomposition α]

/-- Whether the model for an order and a window can be computed. -/
def FitModel.CanBuild (α : Type) [Scalar α] [Decomposition α] (k : Order) (w : Window) : Prop :=
  ∃ built : FitModel α × Fitted α w.area k.terms, FitModel.build k w = .ok built

/-- A window of less than `2 ^ 26` pixels on a side can be fitted. -/
theorem FitModel.canBuild_of_side_lt (h : Decomposition.Reliable α) (k : Order) {w : Window}
    (hside : w.side < 2 ^ 26) : FitModel.CanBuild α k w := by
  have hpixel : 0 < w.area := Nat.mul_pos w.side_pos w.side_pos
  have hterm : 0 < k.terms := termCount_pos _
  have hentry (p : Fin w.area) (i : Fin k.terms) : (designMatrix k w).entry p i =
      (k.monomials.get i).eval (w.offsetX p) (w.offsetY p) := Table.entry_ofFn _ p i
  have hbound (p : Fin w.area) (i : Fin k.terms) : |(designMatrix k w).entry p i| ≤ 2 ^ 150 := by
    rw [hentry]
    exact Window.abs_eval_le hside (k.degree_le i) p
  have hsize := k.max_area_terms_lt hside
  have hfinite : (designOf k w : Table α w.area k.terms).isFinite = true := by
    refine (Table.isFinite_iff _).2 fun p i => ?_
    rw [designOf, Table.entry_map_map]
    exact h.finite _ (hbound p i)
  have hrank : (Decomposition.svd (designOf k w : Table α w.area k.terms)).rank ≠ 0 := by
    -- the column of the constant monomial is not zero
    refine h.counts _ hbound ⟨⟨0, hpixel⟩, ⟨0, hterm⟩, ?_⟩ hsize
    rw [hentry, k.monomials_zero, Monomial.eval_constant]
    exact one_ne_zero
  have husable : ¬(w.area = 0 ∨ k.terms = 0 ∨
      (!(designOf k w : Table α w.area k.terms).isFinite) = true) := by
    rw [hfinite]
    rintro (hzero | hzero | hinfinite)
    · exact hpixel.ne' hzero
    · exact hterm.ne' hzero
    · cases hinfinite
  unfold CanBuild FitModel.build fit fitFrom
  dsimp only
  rw [if_neg husable, if_neg hrank]
  exact ⟨_, rfl⟩

/-- The defaults can be fitted. -/
theorem FitModel.canBuild_default (h : Decomposition.Reliable α) :
    FitModel.CanBuild α Settings.defaultOrder Settings.defaultWindow :=
  canBuild_of_side_lt h _ (show Settings.defaultWindow.side < 2 ^ 26 by decide)

/-! ## Operations that are not refused -/

/-- A model that can be computed is found in every session. -/
theorem modelFor_failsOnly {k : Order} {w : Window}
    (hbuild : FitModel.CanBuild α k w) :
    Run.FailsOnly (modelFor (α := α) k w) fun _ => False := by
  obtain ⟨built, hbuild⟩ := hbuild
  intro s e he
  cases hfind : s.models.find? k w with
  | some kept =>
    rw [run_modelFor_of_some hfind] at he
    cases he
  | none =>
    rw [run_modelFor_of_none hfind, hbuild] at he
    cases he

namespace Extractor

/-- What a setup can be refused for: its configuration or the fit, or else the message, if this has
to show an order or a window that cannot be shown. -/
def SetupRefusal (order window : Value) (e : Fault) : Prop :=
  (Value.areShowable [order, window] = true → ∃ cause, e.setup? = some cause) ∧
    (¬Value.areShowable [order, window] = true → e = .argument .notShowable)

theorem prepare_failsOnly (x : Extractor α) (order window : Value) :
    Run.FailsOnly (x.prepare order window) fun e => (∃ cause, e.setup? = some cause) ∨
      e = .argument .notShowable ∧ ¬Value.areShowable [order, window] = true := by
  refine Run.failsOnly_bind (Run.failsOnly_check fun e he => ?_) fun s => ?_
  · refine (Settings.eq_setting_or_notShowable_of_withFit he).imp_left ?_
    rintro ⟨cause, rfl⟩
    exact ⟨_, rfl⟩
  · refine Run.failsOnly_bind (Run.failsOnly_under fun _ e _ => ?_) fun _ => Run.failsOnly_pure
    exact .inl ⟨_, rfl⟩

omit [Scalar α] [Decomposition α] in
theorem reject_failsOnly {β : Type} {order window : Value} {e : Fault}
    (h : (∃ cause, e.setup? = some cause) ∨
      e = .argument .notShowable ∧ ¬Value.areShowable [order, window] = true) :
    Run.FailsOnly (reject order window e : Run α Fault β) (SetupRefusal order window) := by
  refine Run.failsOnly_answer (fun hnone => ?_) fun cause hcause => ?_
  · obtain ⟨cause, hcause⟩ | ⟨rfl, hlong⟩ := h
    · cases hnone.symm.trans hcause
    · exact ⟨fun hshown => absurd hshown hlong, fun _ => rfl⟩
  · split <;> rename_i hshown
    · refine Run.failsOnly_bind Run.failsOnly_note fun _ => Run.failsOnly_throw ?_
      exact ⟨fun _ => ⟨cause, hcause⟩, fun hlong => absurd hshown hlong⟩
    · exact Run.failsOnly_throw ⟨fun h => absurd h hshown, fun _ => rfl⟩

theorem setup_failsOnly_refusal (x : Extractor α) (order window : Value) :
    Run.FailsOnly (x.setup order window) (SetupRefusal order window) := by
  refine Run.failsOnly_outcome_bind (x.prepare_failsOnly order window) fun result hresult => ?_
  rcases result with e | ⟨s, model⟩
  · exact reject_failsOnly (hresult e rfl)
  · refine Run.failsOnly_bind Run.failsOnly_share fun _ => ?_
    exact Run.failsOnly_bind Run.failsOnly_note fun _ => Run.failsOnly_pure

/-- A setup with a valid order and window whose model can be computed is not refused. -/
theorem setup_failsOnly (x : Extractor α) {k : Order} {w : Window}
    (hbuild : FitModel.CanBuild α k w) :
    Run.FailsOnly (x.setup k.value w.value) fun _ => False := by
  have hprepare : Run.FailsOnly (x.prepare k.value w.value) fun _ => False := by
    unfold prepare
    rw [Settings.withFit_value, Run.check, pure_bind]
    refine Run.failsOnly_bind (Run.failsOnly_under (modelFor_failsOnly hbuild)) fun _ => ?_
    exact Run.failsOnly_pure
  refine Run.failsOnly_outcome_bind hprepare fun r hr => ?_
  rcases r with cause | ⟨s, model⟩
  · exact (hr cause rfl).elim
  · refine Run.failsOnly_bind Run.failsOnly_share fun _ => ?_
    exact Run.failsOnly_bind Run.failsOnly_note fun _ => Run.failsOnly_pure

/-- A configuration by a record whose numbers can be shown is refused for the record only. -/
theorem configure_failsOnly (x : Extractor α) {r : Record}
    (hshown : Value.areShowable [.int r.order, .int r.window] = true) :
    Run.FailsOnly (x.configure r) fun e => ∃ cause, e = .record (.refused cause) := by
  refine Run.failsOnly_outcome_bind (x.setup_failsOnly_refusal _ _) fun result hresult => ?_
  rcases result with e | y
  · obtain ⟨cause, hcause⟩ := (hresult e rfl).1 hshown
    refine Run.failsOnly_answer (fun hnone => ?_) fun cause _ => ?_
    · cases hnone.symm.trans hcause
    · exact Run.failsOnly_bind Run.failsOnly_note fun _ => Run.failsOnly_throw ⟨cause, rfl⟩
  · exact Run.failsOnly_pure

theorem configure_failsOnly_false (x : Extractor α) {k : Order} {w : Window}
    (hbuild : FitModel.CanBuild α k w) :
    Run.FailsOnly (x.configure ⟨k.degree, w.side⟩) fun _ => False := by
  refine Run.failsOnly_outcome_bind (x.setup_failsOnly hbuild) fun result hresult => ?_
  rcases result with cause | y
  · exact (hresult cause rfl).elim
  · exact Run.failsOnly_pure

/-- An extractor is made wherever the model of its settings can be computed and its backend
exists. -/
theorem ofSettings_failsOnly {s : Settings} {backend : Option Value} {b : Backend}
    (hbuild : FitModel.CanBuild α s.order s.window) (hbackend : Backend.ofValue? backend = .ok b) :
    Run.FailsOnly (ofSettings (α := α) s backend) fun _ => False := by
  refine Run.failsOnly_bind Run.failsOnly_share fun _ => ?_
  refine Run.failsOnly_bind (Run.failsOnly_under (modelFor_failsOnly hbuild)) fun _ => ?_
  refine Run.failsOnly_bind (Run.failsOnly_check fun e he => ?_) fun _ => Run.failsOnly_pure
  rw [hbackend] at he
  cases he

/-- An extractor with all defaults is made wherever their model can be computed. -/
theorem construct_failsOnly
    (hbuild : FitModel.CanBuild α Settings.defaultOrder Settings.defaultWindow) :
    Run.FailsOnly (construct (α := α) none none none none) fun _ => False := by
  have hsettings : Settings.ofValues none none none =
      .ok ⟨Settings.defaultOrder, Settings.defaultWindow, Settings.defaultStride⟩ := rfl
  unfold construct
  rw [hsettings, Run.check, pure_bind]
  exact ofSettings_failsOnly hbuild rfl

/-- The model of a coherent extractor can be computed. -/
theorem Coherent.canBuild {x : Extractor α} {image : Option (ArrayLike α)} (h : x.Coherent image) :
    FitModel.CanBuild α x.order x.window := by
  obtain ⟨fitted, hbuild⟩ := h.built
  rw [← h.order, ← h.window]
  exact ⟨_, hbuild⟩

end Extractor

end Facet
