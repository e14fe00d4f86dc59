import Mathlib
import Facet.Extractor.Session

/-!
# Results and refusals

How a result that is put together from several steps came about, and what is true of an operation
within a session. An operation is described by a property of sessions that it keeps, refused or not,
by what is known of its result, and by what it can be refused for; the rules below follow the way in
which operations are put together.
-/

namespace Facet

/-! ## Results outside a session -/

section Except

variable {ε δ β γ : Type}

@[simp] theorem ok_bind (b : β) (f : β → Except ε γ) : (Except.ok b >>= f) = f b := rfl

@[simp] theorem error_bind (e : ε) (f : β → Except ε γ) :
    ((Except.error e : Except ε β) >>= f) = .error e := rfl

@[simp] theorem mapError_ok (f : ε → δ) (b : β) : (Except.ok b).mapError f = .ok b := rfl

@[simp] theorem mapError_error (f : ε → δ) (e : ε) :
    (Except.error e : Except ε β).mapError f = .error (f e) := rfl

/-- A result of two steps is one of the first followed by one of the second. -/
theorem bind_eq_ok {x : Except ε β} {f : β → Except ε γ} {c : γ} :
    (x >>= f) = .ok c ↔ ∃ b, x = .ok b ∧ f b = .ok c := by
  cases x <;> simp

/-- What is known of every single result is known of all results of a list. -/
theorem forall_mem_of_mapM {f : β → Except ε γ} {P : γ → Prop} (hf : ∀ b c, f b = .ok c → P c)
    {bs : List β} {cs : List γ} (h : bs.mapM f = .ok cs) : ∀ c ∈ cs, P c := by
  induction bs generalizing cs with
  | nil =>
    rw [List.mapM_nil] at h
    cases h
    exact nofun
  | cons b bs ih =>
    rw [List.mapM_cons, bind_eq_ok] at h
    obtain ⟨c, hc, h⟩ := h
    obtain ⟨rest, hrest, hcs⟩ := bind_eq_ok.1 h
    cases hcs
    intro d hd
    rcases List.mem_cons.1 hd with rfl | hd
    · exact hf b d hc
    · exact ih hrest d hd

theorem mapError_eq_ok {x : Except ε β} {f : ε → δ} {b : β} :
    x.mapError f = .ok b ↔ x = .ok b := by
  cases x <;> simp

theorem mapError_eq_error {x : Except ε β} {f : ε → δ} {d : δ} :
    x.mapError f = .error d ↔ ∃ e, x = .error e ∧ f e = d := by
  cases x <;> simp

end Except

/-! ## Operations within a session -/

namespace Run

variable {α ε δ β γ : Type}

/-- The second step starts from the session that the first leaves, and only if that gives a
result. -/
theorem run_bind (op : Run α ε β) (next : β → Run α ε γ) (s : Session α) :
    (op >>= next).run s =
      match op.run s with
      | (.ok b, t) => (next b).run t
      | (.error e, t) => (.error e, t) := by
  simp only [bind, ExceptT.bind, ExceptT.mk, ExceptT.run, StateT.bind]
  rcases op s with ⟨_ | _, _⟩ <;> rfl

theorem run_get (s : Session α) : (get : Run α ε (Session α)).run s = (.ok s, s) := rfl

theorem run_under (cause : δ → ε) (op : Run α δ β) (s : Session α) :
    (op.under cause).run s = ((op.run s).1.mapError cause, (op.run s).2) := rfl

theorem run_outcome (op : Run α δ β) (s : Session α) :
    (outcome op : Run α ε (Except δ β)).run s = (.ok (op.run s).1, (op.run s).2) := rfl

/-- From every session with a property the operation leads to one with the same property, whether or
not it is refused, and what it results in is as stated. -/
def Yields (inv : Session α → Prop) (op : Run α ε β) (good : β → Prop) : Prop :=
  ∀ s, inv s → inv (op.run s).2 ∧ ∀ b, (op.run s).1 = .ok b → good b

variable {inv : Session α → Prop} {good : β → Prop}

theorem Yields.mono {op : Run α ε β} {fine : β → Prop} (h : Yields inv op good)
    (hg : ∀ b, good b → fine b) : Yields inv op fine := fun s hs =>
  ⟨(h s hs).1, fun b hb => hg b ((h s hs).2 b hb)⟩

/-- What is known of a result in two ways is known of it together. -/
theorem Yields.and {op : Run α ε β} {fine : β → Prop} (h : Yields inv op good)
    (h' : Yields inv op fine) : Yields inv op fun b => good b ∧ fine b := fun s hs =>
  ⟨(h s hs).1, fun b hb => ⟨(h s hs).2 b hb, (h' s hs).2 b hb⟩⟩

theorem yields_pure {b : β} (h : good b) : Yields inv (pure b : Run α ε β) good := by
  intro s hs
  refine ⟨hs, fun b' hb => ?_⟩
  cases hb
  exact h

theorem yields_throw {e : ε} : Yields inv (throw e : Run α ε β) good := by
  intro s hs
  refine ⟨hs, fun b hb => ?_⟩
  cases hb

/-- The second step starts from what is known of the result of the first. -/
theorem yields_bind {op : Run α ε β} {next : β → Run α ε γ} {fine : γ → Prop}
    (h : Yields inv op good) (hnext : ∀ b, good b → Yields inv (next b) fine) :
    Yields inv (op >>= next) fine := by
  intro s hs
  obtain ⟨hinv, hgood⟩ := h s hs
  rw [run_bind]
  rcases hrun : op.run s with ⟨e | b, t⟩ <;> simp only [hrun] at hinv hgood ⊢
  · exact ⟨hinv, fun c hc => nomatch hc⟩
  · exact hnext b (hgood b rfl) t hinv

theorem yields_modify {f : Session α → Session α} (h : ∀ s, inv s → inv (f s)) :
    Yields inv (modify f : Run α ε PUnit) fun _ => True := fun s hs => ⟨h s hs, fun _ _ => trivial⟩

theorem yields_note {e : Event α} (h : ∀ s, inv s → inv { s with journal := e :: s.journal }) :
    Yields inv (note e : Run α ε Unit) fun _ => True := yields_modify h

theorem yields_share {value : β} (h : ∀ s, inv s → inv { s with nextTag := s.nextTag + 1 }) :
    Yields inv (share value : Run α ε (Shared β)) fun shared => shared.value = value := by
  intro s hs
  refine ⟨h s hs, fun shared hshared => ?_⟩
  cases hshared
  rfl

/-- A computation outside the session leaves the session alone. -/
theorem yields_check {cause : δ → ε} {r : Except δ β} :
    Yields inv (check cause r : Run α ε β) fun b => r = .ok b := by
  cases r with
  | ok b => exact yields_pure rfl
  | error e => exact yields_throw

theorem yields_under {op : Run α δ β} {cause : δ → ε} (h : Yields inv op good) :
    Yields inv (op.under cause) good := by
  intro s hs
  rw [run_under]
  exact ⟨(h s hs).1, fun b hb => (h s hs).2 b (mapError_eq_ok.1 hb)⟩

theorem yields_outcome {op : Run α δ β} (h : Yields inv op good) :
    Yields inv (outcome op : Run α ε (Except δ β)) fun r => ∀ b, r = .ok b → good b := by
  intro s hs
  rw [run_outcome]
  refine ⟨(h s hs).1, fun r hr b hb => (h s hs).2 b ?_⟩
  cases hr
  exact hb

theorem yields_answer {e : Fault} {handler : SetupFault → Run α Fault β}
    (h : ∀ cause, Yields inv (handler cause) good) : Yields inv (answer e handler) good := by
  unfold answer
  split
  · exact h _
  · exact yields_throw

/-! ## Refusals -/

/-- In no session the operation is refused for anything but what is as stated. If nothing is, it is
never refused. -/
def FailsOnly (op : Run α ε β) (bad : ε → Prop) : Prop :=
  ∀ s e, (op.run s).1 = .error e → bad e

variable {bad : ε → Prop}

theorem FailsOnly.exists_ok {op : Run α ε β} (h : FailsOnly op fun _ => False) (s : Session α) :
    ∃ b, (op.run s).1 = .ok b := by
  cases hrun : (op.run s).1 with
  | ok b => exact ⟨b, rfl⟩
  | error e => exact (h s e hrun).elim

theorem FailsOnly.mono {op : Run α ε β} {worse : ε → Prop} (h : FailsOnly op bad)
    (hbad : ∀ e, bad e → worse e) : FailsOnly op worse := fun s e he => hbad e (h s e he)

theorem failsOnly_pure {b : β} : FailsOnly (pure b : Run α ε β) bad := nofun

theorem failsOnly_throw {e : ε} (h : bad e) : FailsOnly (throw e : Run α ε β) bad := by
  intro s e' he
  cases he
  exact h

theorem failsOnly_bind {op : Run α ε β} {next : β → Run α ε γ} (hop : FailsOnly op bad)
    (hnext : ∀ b, FailsOnly (next b) bad) : FailsOnly (op >>= next) bad := by
  intro s e he
  have hfirst := hop s
  rw [run_bind] at he
  rcases hrun : op.run s with ⟨e' | b, t⟩ <;> simp only [hrun] at he hfirst
  · exact hfirst e (congrArg Except.error (Except.error.inj he))
  · exact hnext b t e he

theorem failsOnly_note {event : Event α} : FailsOnly (note event : Run α ε Unit) bad := nofun

theorem failsOnly_share {value : β} : FailsOnly (share value : Run α ε (Shared β)) bad := nofun

theorem failsOnly_check {cause : δ → ε} {r : Except δ β} (h : ∀ e, r = .error e → bad (cause e)) :
    FailsOnly (check cause r : Run α ε β) bad := by
  cases r with
  | ok b => exact failsOnly_pure
  | error e => exact failsOnly_throw (h e rfl)

/-- What comes after a computation outside the session knows its result. -/
theorem failsOnly_check_bind {cause : δ → ε} {r : Except δ β} {next : β → Run α ε γ}
    (h : ∀ e, r = .error e → bad (cause e)) (hnext : ∀ b, r = .ok b → FailsOnly (next b) bad) :
    FailsOnly (check cause r >>= next) bad := by
  cases r with
  | ok b => exact hnext b rfl
  | error e => exact failsOnly_throw (h e rfl)

theorem failsOnly_under {op : Run α δ β} {cause : δ → ε} (h : FailsOnly op fun e => bad (cause e)) :
    FailsOnly (op.under cause) bad := by
  intro s e he
  rw [run_under] at he
  cases hrun : (op.run s).1 with
  | ok b =>
    rw [hrun] at he
    cases he
  | error cause' =>
    rw [hrun] at he
    cases he
    exact h s cause' hrun

/-- What answers the outcome of an operation has to do with its refusals only as far as there are
any. -/
theorem failsOnly_outcome_bind {op : Run α δ β} {wrong : δ → Prop} (hop : FailsOnly op wrong)
    {next : Except δ β → Run α ε γ}
    (hnext : ∀ r, (∀ e, r = .error e → wrong e) → FailsOnly (next r) bad) :
    FailsOnly (outcome op >>= next) bad := by
  intro s e he
  rw [run_bind, run_outcome] at he
  exact hnext _ (hop s) _ e he

/-- A refusal that is not answered is the one that there was. -/
theorem failsOnly_answer {bad : Fault → Prop} {e : Fault} {handler : SetupFault → Run α Fault β}
    (hgoes : e.setup? = none → bad e)
    (h : ∀ cause, e.setup? = some cause → FailsOnly (handler cause) bad) :
    FailsOnly (answer e handler) bad := by
  unfold answer
  split
  · exact h _ ‹_›
  · exact failsOnly_throw (hgoes ‹_›)

end Run

end Facet
