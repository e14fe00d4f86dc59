import Mathlib
import Facet.Proofs.Operations

/-!
# What the cache remembers

The cache does not say which models were asked for, only which are kept. So a log of the calls is
put beside a session: the cache reflects a log if it holds, of the last answers for each
configuration, as many as it has room for, the most recent first. One more call keeps this up. It is
answered by the model of the last call for the same configuration, if that is still kept, and that is
so exactly if fewer other configurations have been used since than there are places. Otherwise a
model is computed, as it would be computed without a cache, and it differs from every model that was
answered before.
-/

namespace Facet

variable {α : Type}

/-! ## Logs -/

/-- A call for the model of an order and a window that was answered. -/
structure ModelCall (α : Type) where
  /-- The order that was asked for. -/
  order : Order
  /-- The window that was asked for. -/
  window : Window
  /-- The answer. -/
  model : Shared (FitModel α)

namespace ModelCall

/-- The configuration whose model was asked for. -/
def config (a : ModelCall α) : Order × Window := (a.order, a.window)

/-- The last call for each configuration, the most recent first. -/
def recent (log : List (ModelCall α)) : List (ModelCall α) :=
  log.foldl (fun kept a => a :: kept.filter fun b => b.config ≠ a.config) []

/-- The number of configurations that were used. -/
def used (log : List (ModelCall α)) : Nat := (log.map config).toFinset.card

/-- The tags of the models that were answered for a configuration. -/
def tags (c : Order × Window) (log : List (ModelCall α)) : Finset Nat :=
  ((log.filter fun a => a.config = c).map fun a => a.model.tag).toFinset

/-- Whether a configuration keeps its place over the calls between two of its uses: in no stretch of
them without a use of it there are uses of as many others as the cache has places. -/
def KeepsPlace (c : Order × Window) (between : List (ModelCall α)) : Prop :=
  ∀ stretch, stretch <:+: between → (∀ a ∈ stretch, a.config ≠ c) →
    used stretch < ModelCache.capacity

variable {log gap : List (ModelCall α)} {a : ModelCall α}

theorem recent_append_singleton (log : List (ModelCall α)) (a : ModelCall α) :
    recent (log ++ [a]) = a :: (recent log).filter fun b => b.config ≠ a.config := by
  simp [recent]

theorem mem_of_mem_recent (h : a ∈ recent log) : a ∈ log := by
  induction log using List.reverseRecOn with
  | nil => exact absurd h List.not_mem_nil
  | append_singleton log b ih =>
    rw [recent_append_singleton] at h
    rcases List.mem_cons.1 h with rfl | h
    · exact List.mem_append_right _ (List.mem_singleton_self _)
    · exact List.mem_append_left _ (ih (List.mem_filter.1 h).1)

/-- Every configuration has one last call only. -/
theorem nodup_recent (log : List (ModelCall α)) : ((recent log).map config).Nodup := by
  induction log using List.reverseRecOn with
  | nil => exact List.nodup_nil
  | append_singleton log a ih =>
    rw [recent_append_singleton, List.map_cons, List.nodup_cons]
    refine ⟨?_, ih.sublist (List.filter_sublist.map config)⟩
    simp

/-- In front of the last call for a configuration there are the last calls for those that were used
after it. -/
theorem recent_append_cons (log : List (ModelCall α)) (hgap : ∀ b ∈ gap, b.config ≠ a.config) :
    ∃ front back, recent (log ++ a :: gap) = front ++ a :: back ∧
      (∀ b ∈ front, b.config ≠ a.config) ∧
      (front.map config).toFinset = (gap.map config).toFinset := by
  induction gap using List.reverseRecOn with
  | nil => exact ⟨[], _, recent_append_singleton log a, nofun, rfl⟩
  | append_singleton gap d ih =>
    obtain ⟨hgap, hlast⟩ := List.forall_mem_append.1 hgap
    have hd : d.config ≠ a.config := hlast d (List.mem_singleton_self d)
    obtain ⟨front, back, hrecent, hfront, hused⟩ := ih hgap
    -- the call comes to the front, and its configuration loses the place that it had
    refine ⟨d :: front.filter fun b => b.config ≠ d.config,
      back.filter fun b => b.config ≠ d.config, ?_, ?_, ?_⟩
    · rw [← List.cons_append, ← List.append_assoc, recent_append_singleton, hrecent,
        List.filter_append, List.filter_cons_of_pos (by simpa using hd.symm), List.cons_append]
    · exact List.forall_mem_cons.2 ⟨hd, fun b hb => hfront b (List.mem_filter.1 hb).1⟩
    · ext c
      have hmem := Finset.ext_iff.1 hused c
      simp only [List.mem_toFinset, List.mem_map, List.mem_cons, List.mem_append, List.mem_filter,
        decide_eq_true_eq] at hmem ⊢
      grind

/-- As many configurations have been used since the last call for one as stand in front of it. -/
theorem find?_take_recent (hgap : ∀ b ∈ gap, b.config ≠ a.config) (n : Nat) :
    ((recent (log ++ a :: gap)).take n).find? (fun b => b.config = a.config) =
      if used gap < n then some a else none := by
  obtain ⟨front, back, hrecent, hfront, hused⟩ := recent_append_cons log hgap
  have hlength : front.length = used gap := by
    have hnodup : (front.map config).Nodup := by
      refine (nodup_recent (log ++ a :: gap)).sublist (List.Sublist.map config ?_)
      rw [hrecent]
      exact List.sublist_append_left _ _
    rw [used, ← hused, List.toFinset_card_of_nodup hnodup, List.length_map]
  have hnone : front.find? (fun b => b.config = a.config) = none :=
    List.find?_eq_none.2 fun b hb => by simpa using hfront b hb
  rw [hrecent, ← hlength]
  split
  · next hlt =>
    obtain ⟨rest, hrest⟩ : ∃ rest, n - front.length = rest + 1 := ⟨n - front.length - 1, by omega⟩
    rw [List.take_append, List.take_of_length_le (Nat.le_of_lt hlt), List.find?_append, hnone,
      hrest, List.take_succ_cons, List.find?_cons_of_pos (by simp), Option.none_or]
  · next hge =>
    rw [List.take_append_of_le_length (Nat.le_of_not_lt hge)]
    exact List.find?_eq_none.2 fun b hb => List.find?_eq_none.1 hnone b (List.mem_of_mem_take hb)

/-- Taking one entry out of a list after it was cut, or before, makes no difference if it is cut once
more, one entry shorter. -/
theorem take_filter_take {β γ : Type} [DecidableEq γ] {f : β → γ} {entries : List β}
    (h : (entries.map f).Nodup) (c : γ) (n : Nat) :
    ((entries.take (n + 1)).filter fun x => f x ≠ c).take n =
      (entries.filter fun x => f x ≠ c).take n := by
  induction entries generalizing n with
  | nil => rfl
  | cons x entries ih =>
    obtain ⟨hx, hrest⟩ := List.nodup_cons.1 h
    rw [List.take_succ_cons]
    by_cases hc : f x = c
    · -- the entry is the first one, and there is no other with its key
      have hothers : ∀ y ∈ entries, decide (f y ≠ c) = true := by
        intro y hy
        refine decide_eq_true fun hyc => hx ?_
        rw [hc, ← hyc]
        exact List.mem_map_of_mem hy
      rw [List.filter_cons_of_neg (by simp [hc]), List.filter_cons_of_neg (by simp [hc]),
        List.filter_eq_self.2 hothers,
        List.filter_eq_self.2 fun y hy => hothers y (List.mem_of_mem_take hy), List.take_take,
        Nat.min_self]
    · rw [List.filter_cons_of_pos (by simp [hc]), List.filter_cons_of_pos (by simp [hc])]
      cases n with
      | zero => rfl
      | succ n => rw [List.take_succ_cons, List.take_succ_cons, ih hrest]

theorem mem_tags_iff {c : Order × Window} {n : Nat} :
    n ∈ tags c log ↔ ∃ a ∈ log, a.config = c ∧ a.model.tag = n := by
  simp [tags, and_assoc]

theorem tags_append_singleton (c : Order × Window) (log : List (ModelCall α)) (a : ModelCall α) :
    tags c (log ++ [a]) = if a.config = c then insert a.model.tag (tags c log) else tags c log := by
  by_cases hc : a.config = c
  · ext n
    simp [mem_tags_iff, hc, or_and_right, exists_or, or_comm, eq_comm (a := n)]
  · ext n
    simp [mem_tags_iff, hc, or_and_right, exists_or]

/-- Of the uses of a configuration there is a last one. -/
theorem exists_last_use {c : Order × Window} (h : ¬∀ b ∈ log, b.config ≠ c) :
    ∃ earlier b gap, log = earlier ++ b :: gap ∧ b.config = c ∧ ∀ d ∈ gap, d.config ≠ c := by
  induction log using List.reverseRecOn with
  | nil => exact absurd nofun h
  | append_singleton log d ih =>
    by_cases hd : d.config = c
    · exact ⟨log, d, [], rfl, hd, nofun⟩
    · have hlog : ¬∀ b ∈ log, b.config ≠ c := fun hnone =>
        h (List.forall_mem_append.2 ⟨hnone, List.forall_mem_singleton.2 hd⟩)
      obtain ⟨earlier, b, gap, rfl, hb, hgap⟩ := ih hlog
      refine ⟨earlier, b, gap ++ [d], by simp, hb, ?_⟩
      exact List.forall_mem_append.2 ⟨hgap, List.forall_mem_singleton.2 hd⟩

theorem used_le_of_subset {some all : List (ModelCall α)} (h : some ⊆ all) : used some ≤ used all :=
  Finset.card_le_card fun _ hc =>
    List.mem_toFinset.2 (List.map_subset config h (List.mem_toFinset.1 hc))

/-- Without a use the whole stretch counts. -/
theorem keepsPlace_iff_of_unused {c : Order × Window} (hgap : ∀ b ∈ gap, b.config ≠ c) :
    KeepsPlace c gap ↔ used gap < ModelCache.capacity :=
  ⟨fun h => h gap List.infix_rfl hgap,
    fun h _ hstretch _ => (used_le_of_subset hstretch.subset).trans_lt h⟩

/-- A configuration keeps its place up to a use and from that use on. -/
theorem keepsPlace_append_cons (hgap : ∀ b ∈ gap, b.config ≠ a.config) :
    KeepsPlace a.config (log ++ a :: gap) ↔
      KeepsPlace a.config log ∧ used gap < ModelCache.capacity := by
  rw [← keepsPlace_iff_of_unused hgap]
  constructor
  · refine fun h => ⟨fun stretch hlog => h stretch ?_, fun stretch hrest => h stretch ?_⟩
    · exact hlog.trans (List.prefix_append log (a :: gap)).isInfix
    · exact hrest.trans ((List.suffix_cons a gap).trans (List.suffix_append log _)).isInfix
  · rintro ⟨hlog, hrest⟩ stretch hstretch hunused
    -- a stretch without the use lies before it or behind it
    have hnone {l : List (ModelCall α)} (hl : l <+: a :: gap) (hsub : l ⊆ stretch) : l = [] := by
      rcases List.prefix_cons_iff.1 hl with hnil | ⟨rest, rfl, -⟩
      · exact hnil
      · exact absurd rfl (hunused a (hsub List.mem_cons_self))
    rcases List.infix_append_iff.1 hstretch with hbefore | hbehind | ⟨l₁, l₂, rfl, hl₁, hl₂⟩
    · exact hlog stretch hbefore hunused
    · rcases List.infix_cons_iff.1 hbehind with hfirst | hbehind
      · rw [hnone hfirst (List.Subset.refl stretch)] at hunused ⊢
        exact hlog [] List.nil_infix hunused
      · exact hrest stretch hbehind hunused
    · rw [hnone hl₂ (List.subset_append_right l₁ l₂), List.append_nil] at hunused ⊢
      exact hlog l₁ hl₁.isInfix hunused

/-- If no more configurations are used at all than the cache has places, each of them keeps its
place. -/
theorem keepsPlace_of_used_le {between : List (ModelCall α)} (hused : used log ≤ ModelCache.capacity)
    (ha : a ∈ log) (hbetween : between ⊆ log) : KeepsPlace a.config between := by
  intro stretch hstretch hunused
  refine (Finset.card_lt_card ⟨fun c hc => ?_, fun h => ?_⟩).trans_le hused
  · have hsub := List.map_subset config fun b hb => hbetween (hstretch.subset hb)
    exact List.mem_toFinset.2 (hsub (List.mem_toFinset.1 hc))
  · have ha := h (List.mem_toFinset.2 (List.mem_map_of_mem ha))
    obtain ⟨b, hb, hconfig⟩ := List.mem_map.1 (List.mem_toFinset.1 ha)
    exact hunused b hb hconfig

end ModelCall

/-! ## One call -/

/-- The configuration whose model an entry of the journal says was computed. -/
def Event.computed? : Event α → Option (Order × Window)
  | .modelReady k w _ => some (k, w)
  | _ => none

/-- The configurations for which models were computed, as the journal has them. -/
def Session.computed (s : Session α) : List (Order × Window) :=
  s.journal.filterMap Event.computed?

variable [Scalar α] [Decomposition α] {k : Order} {w : Window} {s t : Session α}
  {m : Shared (FitModel α)}

/-- What is answered comes to the front, and was either kept or computed. -/
theorem answer_of_modelFor (h : (modelFor k w).run s = (.ok m, t)) :
    t.models = s.models.touch m ∧
      ((s.models.find? k w = some m ∧ t.nextTag = s.nextTag ∧ t.computed = s.computed) ∨
        (s.models.find? k w = none ∧ (∃ fitted, FitModel.build k w = .ok (m.value, fitted)) ∧
          m.tag = s.nextTag ∧ t.nextTag = s.nextTag + 1 ∧ t.computed = (k, w) :: s.computed)) := by
  cases hfind : s.models.find? k w with
  | some kept =>
    rw [run_modelFor_of_some hfind] at h
    cases h
    exact ⟨rfl, .inl ⟨rfl, rfl, rfl⟩⟩
  | none =>
    rw [run_modelFor_of_none hfind] at h
    cases hbuild : FitModel.build (α := α) k w with
    | error e =>
      rw [hbuild] at h
      cases h
    | ok built =>
      obtain ⟨model, fitted⟩ := built
      rw [hbuild] at h
      cases h
      refine ⟨rfl, .inr ⟨rfl, ⟨fitted, rfl⟩, rfl, rfl, ?_⟩⟩
      by_cases hrank : fitted.rank < k.terms
      · rw [if_pos hrank]
        rfl
      · rw [if_neg hrank]
        rfl

/-- A refused call leaves the session as it was. -/
theorem refusal_of_modelFor {e : FitFault} (h : (modelFor k w).run s = (.error e, t)) : t = s := by
  cases hfind : s.models.find? k w with
  | some kept =>
    rw [run_modelFor_of_some hfind] at h
    cases h
  | none =>
    rw [run_modelFor_of_none hfind] at h
    cases hbuild : FitModel.build (α := α) k w with
    | error e =>
      rw [hbuild] at h
      cases h
      rfl
    | ok built =>
      rw [hbuild] at h
      cases h

/-! ## Sessions and logs -/

namespace Session

open ModelCall

/-- The calls that were answered in a session are accounted for by what was computed in it. -/
structure Accounts (s : Session α) (log : List (ModelCall α)) : Prop where
  /-- Every answer is the model that is computed for what was asked. -/
  built : ∀ a ∈ log, ∃ fitted, FitModel.build a.order a.window = .ok (a.model.value, fitted)
  /-- No answer has a tag that is still to be given. -/
  tag_lt : ∀ a ∈ log, a.model.tag < s.nextTag
  /-- No two models have one tag. -/
  eq_of_tag_eq : ∀ a ∈ log, ∀ b ∈ log, a.model.tag = b.model.tag → a = b
  /-- For each configuration as many models were computed as there are among the answers. -/
  computed : ∀ c, s.computed.count c = (tags c log).card

/-- A session reflects the calls that were answered in it. -/
structure Reflects (s : Session α) (log : List (ModelCall α)) : Prop extends s.Accounts log where
  /-- The cache holds the last answers, as many as it has places. -/
  cache : s.models.entries = ((recent log).take ModelCache.capacity).map model
  /-- Two answers for a configuration are one model exactly if it kept its place in between. -/
  shared : ∀ before a between b after, log = before ++ a :: (between ++ b :: after) →
    a.config = b.config → (a.model = b.model ↔ KeepsPlace a.config between)

theorem start_reflects : (start : Session α).Reflects [] where
  built := nofun
  tag_lt := nofun
  eq_of_tag_eq := nofun
  computed _ := rfl
  cache := rfl
  shared before a between b after h := by simp at h

variable {log : List (ModelCall α)} {a : ModelCall α}

/-- A call that was answered with the same model before changes nothing. -/
theorem Accounts.append_of_mem (h : s.Accounts log) (ha : a ∈ log) (htag : t.nextTag = s.nextTag)
    (hcomputed : t.computed = s.computed) : t.Accounts (log ++ [a]) := by
  have hsame : ∀ b ∈ log ++ [a], b ∈ log :=
    List.forall_mem_append.2 ⟨fun _ hb => hb, List.forall_mem_singleton.2 ha⟩
  refine ⟨fun b hb => h.built b (hsame b hb), fun b hb => ?_,
    fun b hb d hd => h.eq_of_tag_eq b (hsame b hb) d (hsame d hd), fun c => ?_⟩
  · rw [htag]
    exact h.tag_lt b (hsame b hb)
  · rw [hcomputed, h.computed, tags_append_singleton]
    split
    · rw [Finset.insert_eq_of_mem (mem_tags_iff.2 ⟨a, ha, ‹_›, rfl⟩)]
    · rfl

/-- A call for which a model was computed adds one to the models of its configuration. -/
theorem Accounts.append_of_new (h : s.Accounts log)
    (ha : ∃ fitted, FitModel.build a.order a.window = .ok (a.model.value, fitted))
    (hnew : a.model.tag = s.nextTag) (htag : t.nextTag = s.nextTag + 1)
    (hcomputed : t.computed = a.config :: s.computed) : t.Accounts (log ++ [a]) := by
  have hother : ∀ b ∈ log, b.model.tag < a.model.tag := fun b hb => hnew ▸ h.tag_lt b hb
  refine ⟨?_, ?_, ?_, fun c => ?_⟩
  · exact List.forall_mem_append.2 ⟨h.built, List.forall_mem_singleton.2 ha⟩
  · rw [htag, ← hnew]
    exact List.forall_mem_append.2
      ⟨fun b hb => (hother b hb).trans (Nat.lt_succ_self _), List.forall_mem_singleton.2 (by omega)⟩
  · intro b hb d hd htags
    rcases List.mem_append.1 hb with hb | hb <;> rcases List.mem_append.1 hd with hd | hd
    · exact h.eq_of_tag_eq b hb d hd htags
    · rw [List.mem_singleton.1 hd] at htags
      exact absurd htags (hother b hb).ne
    · rw [List.mem_singleton.1 hb] at htags
      exact absurd htags (hother d hd).ne'
    · rw [List.mem_singleton.1 hb, List.mem_singleton.1 hd]
  · have hfresh : a.model.tag ∉ tags c log := by
      intro hmem
      obtain ⟨b, hb, -, heq⟩ := mem_tags_iff.1 hmem
      exact absurd heq (hother b hb).ne
    rw [hcomputed, List.count_cons, h.computed, tags_append_singleton]
    by_cases hc : a.config = c
    · rw [if_pos (by simpa using hc), if_pos hc, Finset.card_insert_of_notMem hfresh]
    · rw [if_neg (by simpa using hc), if_neg hc]
      rfl

/-- An answer belongs to the configuration that was asked for. -/
theorem Accounts.fits_iff (h : s.Accounts log) (ha : a ∈ log) :
    ModelCache.fits k w a.model = decide (a.config = (k, w)) := by
  obtain ⟨fitted, hbuild⟩ := h.built a ha
  obtain ⟨-, horder, hwindow⟩ := FitModel.of_build hbuild
  simp [ModelCache.fits, ModelCall.config, horder, hwindow]

/-- The model for a configuration is that of the last call for it, if that is still kept. -/
theorem Reflects.find? (h : s.Reflects log) :
    s.models.find? k w = (((recent log).take ModelCache.capacity).find?
      fun a => a.config = (k, w)).map model := by
  rw [ModelCache.find?, h.cache, List.find?_map]
  refine congrArg _ (List.find?_congr fun a ha => ?_)
  exact h.fits_iff (mem_of_mem_recent (List.mem_of_mem_take ha))

/-- What is put in front is the last call for its configuration. -/
theorem Reflects.touch (h : s.Reflects log)
    (ha : ModelCache.fits a.order a.window a.model = true) :
    (s.models.touch a.model).entries =
      ((recent (log ++ [a])).take ModelCache.capacity).map model := by
  obtain ⟨horder, hwindow⟩ : a.model.value.order = a.order ∧ a.model.value.window = a.window := by
    simpa [ModelCache.fits] using ha
  have hothers : (s.models.entries.filter fun m => !ModelCache.fits a.order a.window m) =
      (((recent log).take ModelCache.capacity).filter fun b => b.config ≠ a.config).map model := by
    rw [h.cache, List.filter_map]
    refine congrArg _ (List.filter_congr fun b hb => ?_)
    rw [Function.comp_apply, h.fits_iff (mem_of_mem_recent (List.mem_of_mem_take hb))]
    exact decide_not.symm
  rw [ModelCache.touch, horder, hwindow, hothers, recent_append_singleton]
  show List.take (31 + 1) (a.model :: _) = List.map model (List.take (31 + 1) (a :: _))
  rw [List.take_succ_cons, List.take_succ_cons, List.map_cons, ← List.map_take]
  exact congrArg (fun rest => a.model :: rest.map model)
    (take_filter_take (nodup_recent log) a.config 31)

/-- The last call for a configuration gives the model again exactly if it is still kept; otherwise a
new one is given. -/
theorem Reflects.answer_of_last (h : s.Reflects log) {before gap : List (ModelCall α)}
    (hlog : log = before ++ a :: gap) (hgap : ∀ b ∈ gap, b.config ≠ a.config)
    (hanswer : (modelFor a.order a.window).run s = (.ok m, t)) :
    if used gap < ModelCache.capacity then a.model = m else m.tag = s.nextTag := by
  have hfind : s.models.find? a.order a.window =
      if used gap < ModelCache.capacity then some a.model else none := by
    rw [h.find?, hlog]
    show ((List.take _ _).find? fun b => decide (b.config = a.config)).map model = _
    rw [find?_take_recent hgap]
    split <;> rfl
  obtain ⟨-, ⟨hkept, -, -⟩ | ⟨hnone, -, htag, -, -⟩⟩ := answer_of_modelFor hanswer
  · rw [hfind] at hkept
    split at hkept
    · rw [if_pos ‹_›]
      exact Option.some.inj hkept
    · cases hkept
  · rw [hfind] at hnone
    split at hnone
    · cases hnone
    · rw [if_neg ‹_›]
      exact htag

/-- **A configuration has one model as long as it keeps its place.** -/
theorem Reflects.eq_iff (h : s.Reflects log) {before between : List (ModelCall α)}
    (hlog : log = before ++ a :: between)
    (hanswer : (modelFor a.order a.window).run s = (.ok m, t)) :
    a.model = m ↔ KeepsPlace a.config between := by
  have hold : a.model.tag < s.nextTag := h.tag_lt a (by simp [hlog])
  -- either the configuration is not used in between, or there is a last use of it
  by_cases hused : ∀ b ∈ between, b.config ≠ a.config
  · have hlast := h.answer_of_last hlog hused hanswer
    rw [keepsPlace_iff_of_unused hused]
    split at hlast
    · exact iff_of_true hlast ‹_›
    · refine iff_of_false ?_ ‹_›
      rintro rfl
      omega
  · obtain ⟨earlier, b, gap, rfl, hb, hgap⟩ := exists_last_use hused
    obtain ⟨horder, hwindow⟩ := Prod.mk.inj hb
    rw [← horder, ← hwindow] at hanswer
    have hshared := h.shared before a earlier b gap hlog hb.symm
    have hsplit : log = (before ++ a :: earlier) ++ b :: gap := by simp [hlog]
    have hlast := h.answer_of_last hsplit (fun d hd => hb ▸ hgap d hd) hanswer
    rw [← hb, keepsPlace_append_cons fun d hd => hb ▸ hgap d hd, hb, ← hshared]
    split at hlast
    · rw [hlast, and_iff_left ‹_›]
    · refine iff_of_false ?_ fun hkept => absurd hkept.2 ‹_›
      rintro rfl
      omega

/-- What is answered was answered before, or else is computed. -/
theorem Reflects.accounts_append (h : s.Reflects log)
    (hanswer : (modelFor k w).run s = (.ok m, t)) : t.Accounts (log ++ [⟨k, w, m⟩]) := by
  obtain ⟨-, ⟨hkept, htag, hcomputed⟩ | ⟨-, hbuild, hnew, htag, hcomputed⟩⟩ :=
    answer_of_modelFor hanswer
  · rw [h.find?] at hkept
    obtain ⟨a, ha, rfl⟩ := Option.map_eq_some_iff.1 hkept
    have hmem := mem_of_mem_recent (List.mem_of_mem_take (List.mem_of_find?_eq_some ha))
    have hconfig : a.config = (k, w) := by simpa using List.find?_some ha
    obtain ⟨rfl, rfl⟩ := Prod.mk.inj hconfig
    exact h.append_of_mem hmem htag hcomputed
  · exact h.append_of_new hbuild hnew htag hcomputed

/-- One more call that is answered is reflected, too. -/
theorem Reflects.append (h : s.Reflects log) (hanswer : (modelFor k w).run s = (.ok m, t)) :
    t.Reflects (log ++ [⟨k, w, m⟩]) := by
  set a : ModelCall α := ⟨k, w, m⟩
  have haccounts : t.Accounts (log ++ [a]) := h.accounts_append hanswer
  refine { haccounts with cache := ?_, shared := ?_ }
  · obtain ⟨fitted, hbuild⟩ := haccounts.built a (by simp)
    obtain ⟨-, horder, hwindow⟩ := FitModel.of_build hbuild
    rw [(answer_of_modelFor hanswer).1]
    exact h.touch (a := a) (by simp [ModelCache.fits, horder, hwindow])
  · intro before b between d after hsplit hconfig
    -- the later of the two calls is the last one, or both are in the log already
    rcases List.eq_nil_or_concat after with rfl | ⟨after, last, rfl⟩
    · have hend : log ++ [a] = (before ++ b :: between) ++ [d] := by simp [hsplit]
      obtain ⟨hlog, hlast⟩ := List.append_inj' hend rfl
      obtain rfl : a = d := by simpa using hlast
      obtain ⟨horder, hwindow⟩ := Prod.mk.inj hconfig
      exact h.eq_iff hlog (by rw [horder, hwindow]; exact hanswer)
    · have hend : log ++ [a] = (before ++ b :: (between ++ d :: after)) ++ [last] := by
        simp [hsplit]
      obtain ⟨hlog, -⟩ := List.append_inj' hend rfl
      exact h.shared before b between d after hlog hconfig

/-- Answers for one configuration are equal, whether or not they are shared. -/
theorem Accounts.value_eq (h : s.Accounts log) {b : ModelCall α} (ha : a ∈ log) (hb : b ∈ log)
    (hconfig : a.config = b.config) : a.model.value = b.model.value := by
  obtain ⟨_, hbuild⟩ := h.built a ha
  obtain ⟨_, hbuild'⟩ := h.built b hb
  obtain ⟨hbuilt, horder, hwindow⟩ := FitModel.of_build hbuild
  obtain ⟨hbuilt', horder', hwindow'⟩ := FitModel.of_build hbuild'
  obtain ⟨hsame, hsame'⟩ := Prod.mk.inj hconfig
  refine hbuilt.unique hbuilt' ?_ ?_
  · rw [horder, horder', hsame]
  · rw [hwindow, hwindow', hsame']

/-- If the cache has a place for every configuration, each of them has one model only. -/
theorem Reflects.model_eq (h : s.Reflects log) (hused : used log ≤ ModelCache.capacity)
    {b : ModelCall α} (ha : a ∈ log) (hb : b ∈ log) (hconfig : a.config = b.config) :
    a.model = b.model := by
  obtain ⟨before, after, rfl⟩ := List.append_of_mem ha
  rcases List.mem_append.1 hb with hbefore | hafter
  · obtain ⟨start, between, rfl⟩ := List.append_of_mem hbefore
    have hshared := h.shared start b between a after (by simp) hconfig.symm
    exact (hshared.2 (keepsPlace_of_used_le hused hb fun d hd => by simp [hd])).symm
  · rcases List.mem_cons.1 hafter with rfl | hafter
    · rfl
    · obtain ⟨between, rest, rfl⟩ := List.append_of_mem hafter
      have hshared := h.shared before a between b rest rfl hconfig
      exact hshared.2 (keepsPlace_of_used_le hused ha fun d hd => by simp [hd])

/-- Then none is computed more than once. -/
theorem Reflects.count_computed_le_one (h : s.Reflects log) (hused : used log ≤ ModelCache.capacity)
    (c : Order × Window) : s.computed.count c ≤ 1 := by
  rw [h.computed, Finset.card_le_one]
  intro n hn n' hn'
  obtain ⟨a, ha, rfl, rfl⟩ := mem_tags_iff.1 hn
  obtain ⟨b, hb, hconfig, rfl⟩ := mem_tags_iff.1 hn'
  rw [h.model_eq hused ha hb hconfig.symm]

end Session

end Facet
