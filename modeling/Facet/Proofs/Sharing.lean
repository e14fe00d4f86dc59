import Mathlib
import Facet.Proofs.Acceptance
import Facet.Proofs.Recency

/-!
# One model for a configuration

Extractors and callers ask for models in many ways, and in every session all of them ask the same
cache. So whatever is done, the calls for models that it comes down to stand in one log, in which
every answer is the model that would be computed for the configuration alone, and two answers for one
configuration are the same shared model exactly if it kept its place in the cache in between. As long
as no more configurations are used than the cache has places, each is computed once; with one more
in turn, a configuration can lose its model between two uses.
-/

namespace Facet

variable {α : Type} [Scalar α] [Decomposition α]

/-! ## Calls within a session -/

/-- One session comes from another by calls for models, which were answered as a log says, and by
nothing else that concerns models. -/
inductive Session.Serves : Session α → List (ModelCall α) → Session α → Prop
  /-- Tags are given, and the journal grows, but no model is asked for. -/
  | rest {s t : Session α} (models : t.models = s.models) (tags : s.nextTag ≤ t.nextTag)
    (computed : t.computed = s.computed) : Serves s [] t
  /-- One model is asked for. -/
  | ask {s t : Session α} {k : Order} {w : Window} {m : Shared (FitModel α)}
    (answer : (modelFor k w).run s = (.ok m, t)) : Serves s [⟨k, w, m⟩] t
  /-- Some calls come after others. -/
  | trans {s t u : Session α} {log more : List (ModelCall α)} (first : Serves s log t)
    (second : Serves t more u) : Serves s (log ++ more) u

namespace Session

variable {s t u : Session α} {log more : List (ModelCall α)}

theorem Serves.refl (s : Session α) : s.Serves [] s := .rest rfl le_rfl rfl

/-- Calls that are served are reflected together with those before them. -/
theorem Serves.reflects (h : s.Serves more t) (hs : s.Reflects log) : t.Reflects (log ++ more) := by
  induction h generalizing log with
  | rest hmodels htags hcomputed =>
    rw [List.append_nil]
    exact
      { hs with
        tag_lt := fun a ha => (hs.tag_lt a ha).trans_le htags
        computed := fun c => by rw [hcomputed, hs.computed]
        cache := by rw [hmodels, hs.cache] }
  | ask hanswer => exact hs.append hanswer
  | trans first second ihfirst ihsecond =>
    rw [← List.append_assoc]
    exact ihsecond (ihfirst hs)

end Session

namespace Run

variable {ε δ β γ : Type} {good : β → List (ModelCall α) → Prop}

/-- From every session an operation comes down to some calls for models, and if it gives a result,
this goes with their log as stated. -/
def Serves (op : Run α ε β) (good : β → List (ModelCall α) → Prop) : Prop :=
  ∀ s, ∃ log, s.Serves log (op.run s).2 ∧ ∀ b, (op.run s).1 = .ok b → good b log

theorem Serves.mono {op : Run α ε β} {fine : β → List (ModelCall α) → Prop} (h : Serves op good)
    (hgood : ∀ b log, good b log → fine b log) : Serves op fine := by
  intro s
  obtain ⟨log, hserves, hb⟩ := h s
  exact ⟨log, hserves, fun b hrun => hgood b log (hb b hrun)⟩

theorem serves_pure {b : β} (h : good b []) : Serves (pure b : Run α ε β) good := by
  refine fun s => ⟨[], .refl s, fun b' hb => ?_⟩
  cases hb
  exact h

theorem serves_throw {e : ε} : Serves (throw e : Run α ε β) good := fun s => ⟨[], .refl s, nofun⟩

theorem serves_note {e : Event α} (h : e.computed? = none) :
    Serves (note e : Run α ε Unit) fun _ log => log = [] := fun _ =>
  ⟨[], .rest rfl le_rfl (List.filterMap_cons_none h), fun _ _ => rfl⟩

theorem serves_share {value : β} :
    Serves (share value : Run α ε (Shared β)) fun shared log => shared.value = value ∧ log = [] := by
  refine fun _ => ⟨[], .rest rfl (Nat.le_succ _) rfl, fun shared hshared => ?_⟩
  cases hshared
  exact ⟨rfl, rfl⟩

theorem serves_check {cause : δ → ε} {r : Except δ β} :
    Serves (check cause r : Run α ε β) fun b log => r = .ok b ∧ log = [] := by
  cases r with
  | ok b => exact serves_pure ⟨rfl, rfl⟩
  | error e => exact serves_throw

theorem serves_under {op : Run α δ β} {cause : δ → ε} (h : Serves op good) :
    Serves (op.under cause) good := by
  intro s
  obtain ⟨log, hserves, hgood⟩ := h s
  exact ⟨log, hserves, fun b hb => hgood b (mapError_eq_ok.1 hb)⟩

theorem serves_outcome {op : Run α δ β} (h : Serves op good) :
    Serves (outcome op : Run α ε (Except δ β)) fun r log => ∀ b, r = .ok b → good b log := by
  intro s
  obtain ⟨log, hserves, hgood⟩ := h s
  refine ⟨log, hserves, fun r hr b hb => hgood b ?_⟩
  cases hr
  exact hb

theorem serves_answer {e : Fault} {handler : SetupFault → Run α Fault β}
    (h : ∀ cause, Serves (handler cause) good) : Serves (answer e handler) good := by
  unfold answer
  split
  · exact h _
  · exact serves_throw

/-- The calls of the second step come after those of the first. -/
theorem serves_bind {op : Run α ε β} {next : β → Run α ε γ} {fine : γ → List (ModelCall α) → Prop}
    (h : Serves op good)
    (hnext : ∀ b log, good b log → Serves (next b) fun c more => fine c (log ++ more)) :
    Serves (op >>= next) fine := by
  intro s
  obtain ⟨log, hserves, hgood⟩ := h s
  rw [run_bind]
  rcases hrun : op.run s with ⟨e | b, t⟩ <;> simp only [hrun] at hserves hgood ⊢
  · exact ⟨log, hserves, nofun⟩
  · obtain ⟨more, hmore, hfine⟩ := hnext b log (hgood b rfl) t
    exact ⟨log ++ more, hserves.trans hmore, hfine⟩

/-- If the first step asks for nothing, the calls are those of the second. -/
theorem serves_bind_of_nil {op : Run α ε β} {next : β → Run α ε γ} {fact : β → Prop}
    {fine : γ → List (ModelCall α) → Prop} (h : Serves op fun b log => fact b ∧ log = [])
    (hnext : ∀ b, fact b → Serves (next b) fine) : Serves (op >>= next) fine := by
  refine serves_bind h fun b log hb => ?_
  obtain ⟨hfact, rfl⟩ := hb
  exact hnext b hfact

end Run

theorem modelFor_serves (k : Order) (w : Window) :
    Run.Serves (modelFor (α := α) k w) fun m log => log = [⟨k, w, m⟩] := by
  intro s
  cases hrun : (modelFor (α := α) k w).run s with
  | mk result t =>
    cases result with
    | error e =>
      rw [refusal_of_modelFor hrun]
      exact ⟨[], .refl s, nofun⟩
    | ok m =>
      refine ⟨[⟨k, w, m⟩], .ask hrun, fun m' hm => ?_⟩
      cases hm
      rfl

/-! ## The calls of extractors -/

namespace Extractor

/-- What the calls for models have to do with the extractor that they are made for: after those for
some other configurations, the last one is for its own and gives its model. -/
def AsksAfter (x : Extractor α) (others : List (Order × Window)) (log : List (ModelCall α)) : Prop :=
  ∃ before, before.map ModelCall.config = others ∧ log = before ++ [⟨x.order, x.window, x.model⟩]

omit [Scalar α] [Decomposition α] in
theorem AsksAfter.reports {x : Extractor α} {others : List (Order × Window)}
    {log : List (ModelCall α)} (h : x.AsksAfter others log) :
    log.map ModelCall.config = others ++ [(x.order, x.window)] ∧
      ∀ a ∈ log.getLast?, a.model = x.model := by
  obtain ⟨before, rfl, rfl⟩ := h
  refine ⟨by rw [List.map_append]; rfl, fun a ha => ?_⟩
  rw [List.getLast?_concat] at ha
  cases ha
  rfl

theorem ofSettings_serves (s : Settings) (backend : Option Value) :
    Run.Serves (ofSettings (α := α) s backend) fun y log =>
      y.settings.value = s ∧ y.AsksAfter [] log := by
  refine Run.serves_bind_of_nil Run.serves_share fun settings hsettings => ?_
  refine Run.serves_bind (Run.serves_under (modelFor_serves s.order s.window)) fun m log hlog => ?_
  refine Run.serves_bind_of_nil Run.serves_check fun backend _ => Run.serves_pure ?_
  refine ⟨hsettings, [], rfl, ?_⟩
  rw [hlog, Extractor.order, Extractor.window, hsettings]
  rfl

theorem construct_serves (order window stride backend : Option Value) :
    Run.Serves (construct (α := α) order window stride backend) fun y log => y.AsksAfter [] log :=
  Run.serves_bind_of_nil Run.serves_check fun s _ =>
    (ofSettings_serves s backend).mono fun _ _ hy => hy.2

theorem fromConfiguration_serves (config : Value) :
    Run.Serves (fromConfiguration (α := α) config) fun y log => y.AsksAfter [] log :=
  Run.serves_bind_of_nil Run.serves_check fun _ _ =>
    Run.serves_bind_of_nil Run.serves_check fun _ _ =>
      Run.serves_bind_of_nil Run.serves_check fun s _ =>
        (ofSettings_serves s _).mono fun _ _ hy => hy.2

theorem reject_serves {β : Type} {good : β → List (ModelCall α) → Prop} (order window : Value)
    (e : Fault) : Run.Serves (reject order window e) good := by
  refine Run.serves_answer fun cause => ?_
  split
  · exact Run.serves_bind (Run.serves_note rfl) fun _ _ _ => Run.serves_throw
  · exact Run.serves_throw

theorem setup_serves (x : Extractor α) (order window : Value) :
    Run.Serves (x.setup order window) fun y log => y.AsksAfter [] log := by
  have hprepare : Run.Serves (x.prepare order window) fun r log =>
      log = [⟨r.1.order, r.1.window, r.2⟩] := by
    refine Run.serves_bind_of_nil Run.serves_check fun s _ => ?_
    refine Run.serves_bind (Run.serves_under (modelFor_serves s.order s.window)) fun m log hlog => ?_
    exact Run.serves_pure (by rw [hlog, List.append_nil])
  refine Run.serves_bind (Run.serves_outcome hprepare) fun r log hr => ?_
  rcases r with e | ⟨s, m⟩
  · exact reject_serves order window e
  · refine Run.serves_bind_of_nil Run.serves_share fun shared hshared => ?_
    refine Run.serves_bind (Run.serves_note rfl) fun _ _ hnil => Run.serves_pure ⟨[], rfl, ?_⟩
    rw [hnil, hr _ rfl, Extractor.order, Extractor.window, hshared]
    rfl

theorem clear_serves (x : Extractor α) : Run.Serves x.clear fun y log => y.AsksAfter [] log := by
  refine Run.serves_bind (setup_serves x _ _) fun y log hy => ?_
  refine Run.serves_bind (Run.serves_note rfl) fun _ _ hnil => Run.serves_pure ?_
  rw [hnil, List.append_nil, List.append_nil]
  exact hy

theorem rejectRecord_serves {β : Type} {good : β → List (ModelCall α) → Prop} (r : Record)
    (e : Fault) : Run.Serves (rejectRecord r e) good :=
  Run.serves_answer fun _ =>
    Run.serves_bind (Run.serves_note rfl) fun _ _ _ => Run.serves_throw

theorem configure_serves (x : Extractor α) (r : Record) :
    Run.Serves (x.configure r) fun y log => y.AsksAfter [] log := by
  refine Run.serves_bind (Run.serves_outcome (setup_serves x _ _)) fun result log hresult => ?_
  rcases result with e | y
  · exact rejectRecord_serves r e
  · refine Run.serves_pure ?_
    rw [List.append_nil]
    exact hresult y rfl

/-- A new extractor has its defaults before it is configured. -/
theorem ofData_serves (data : Value) (target : Option (Extractor α)) :
    Run.Serves (ofData data target) fun y log =>
      y.AsksAfter (if target.isSome then []
        else [(Settings.defaultOrder, Settings.defaultWindow)]) log := by
  refine Run.serves_bind_of_nil Run.serves_check fun r _ => ?_
  cases target with
  | some x => exact configure_serves x r
  | none =>
    let defaults : Settings :=
      ⟨Settings.defaultOrder, Settings.defaultWindow, Settings.defaultStride⟩
    have hdefaults : construct (α := α) none none none none = ofSettings defaults none := rfl
    show Run.Serves (construct none none none none >>= fun x => x.configure r) _
    rw [hdefaults]
    refine Run.serves_bind (ofSettings_serves defaults none) fun x log hx => ?_
    obtain ⟨hsettings, before, hbefore, rfl⟩ := hx
    refine (configure_serves x r).mono fun y more hy => ?_
    obtain ⟨first, hfirst, rfl⟩ := hy
    refine ⟨before ++ [⟨x.order, x.window, x.model⟩] ++ first, ?_, by simp⟩
    rw [List.map_append, List.map_append, hbefore, hfirst, Extractor.order, Extractor.window,
      hsettings]
    rfl

theorem load_serves (x : Extractor α) (image : ArrayLike α) :
    Run.Serves (x.load image) fun _ log => log = [] := by
  refine Run.serves_bind_of_nil Run.serves_check fun _ _ => ?_
  refine Run.serves_bind_of_nil Run.serves_check fun _ _ => ?_
  refine Run.serves_bind (Run.serves_note rfl) fun _ _ hnil => Run.serves_pure ?_
  rw [hnil, List.append_nil]

theorem unload_serves (x : Extractor α) : Run.Serves x.unload fun _ log => log = [] := by
  refine Run.serves_bind (Run.serves_note rfl) fun _ _ hnil => Run.serves_pure ?_
  rw [hnil, List.append_nil]

theorem readFrom_serves (stream : ByteStream) (target : Option (Extractor α)) :
    Run.Serves (readFrom stream target).1 fun y log =>
      y.AsksAfter (if target.isSome then []
        else [(Settings.defaultOrder, Settings.defaultWindow)]) log := by
  unfold readFrom
  split
  split
  · exact Run.serves_throw
  · exact ofData_serves _ _

end Extractor

/-! ## The calls of requests -/

/-- The configurations for whose models a command asks, if it is not refused and leaves an extractor:
before that of the extractor, those of the defaults if a new one is configured by a record. Commands
that only load or drop features, or copy a configuration, ask for none. -/
def Command.configs (y : Extractor α) : Command α → List (Order × Window)
  | .construct .. | .fromConfiguration .. | .setup .. | .clear .. | .decodeInto .. | .readInto .. =>
    [(y.order, y.window)]
  | .decode .. | .read .. =>
    [(Settings.defaultOrder, Settings.defaultWindow), (y.order, y.window)]
  | .load .. | .unload .. | .copy .. | .openStream .. | .seek .. | .write .. => []

/-- What can be asked of a store. -/
inductive Request (α : Type) where
  /-- The model of an order and a window of any kind. -/
  | model (order window : Value)
  /-- That a command is carried out. -/
  | command (c : Command α)

namespace Store

/-- The store after a request. -/
def handle (s : Store α) : Request α → Store α
  | .model order window => { s with session := ((modelOf order window).run s.session).2 }
  | .command c => (s.step c).2

/-- What the log of the calls that a request comes down to has to say, if the request is not refused:
a model that is asked for is the answer of the only call, and the model of an extractor that of the
last one. -/
def Reports (s : Store α) (log : List (ModelCall α)) : Request α → Prop
  | .model order window => ∀ m, ((modelOf order window).run s.session).1 = .ok m →
      ∃ k w, order = k.value ∧ window = w.value ∧ log = [⟨k, w, m⟩]
  | .command c => s.accepts c →
      (c.target? = none → log = []) ∧
      ∀ name y, c.target? = some name → (s.step c).2.extractor? name = some y →
        log.map ModelCall.config = c.configs y ∧ ∀ a ∈ log.getLast?, a.model = y.model

/-- A request comes down to the calls of a log. -/
structure Asks (s : Store α) (r : Request α) (log : List (ModelCall α)) : Prop where
  /-- Nothing but these calls concerns models. -/
  serves : s.session.Serves log (s.handle r).session
  /-- The calls are those of the request. -/
  reports : s.Reports log r

/-- Requests that are made one after the other come down to the calls of a log. -/
def AsksInTurn (s : Store α) : List (Request α) → List (ModelCall α) → Prop
  | [], log => log = []
  | r :: rest, log =>
    ∃ first later, log = first ++ later ∧ s.Asks r first ∧ (s.handle r).AsksInTurn rest later

variable {s u : Store α} {c : Command α}

theorem exists_asks_model (s : Store α) (order window : Value) :
    ∃ log, s.Asks (.model order window) log := by
  have hserves : Run.Serves (modelOf (α := α) order window) fun m log =>
      ∃ k w, order = k.value ∧ window = w.value ∧ log = [⟨k, w, m⟩] := by
    refine Run.serves_bind_of_nil Run.serves_check fun k hk => ?_
    refine Run.serves_bind_of_nil Run.serves_check fun w hw => ?_
    refine (Run.serves_under (modelFor_serves k w)).mono fun m log hlog => ?_
    exact ⟨k, w, (Order.value_of_ofValue hk).symm, (Window.value_of_ofValue hw).symm, hlog⟩
  obtain ⟨log, hlog, hreports⟩ := hserves s.session
  exact ⟨log, hlog, hreports⟩

/-- A command that leaves the session alone and no extractor asks for nothing. -/
theorem asks_nil (hsession : (s.step c).2.session = s.session)
    (htarget : s.accepts c → c.target? = none) : s.Asks (.command c) [] where
  serves := by
    show s.session.Serves [] (s.step c).2.session
    rw [hsession]
    exact .refl _
  reports haccept := by
    refine ⟨fun _ => rfl, fun name y hname => ?_⟩
    rw [htarget haccept] at hname
    cases hname

theorem asks_nil_of_refused {e : Fault} (h : s.step c = (.error e, s)) :
    s.Asks (.command c) [] := by
  refine asks_nil (by rw [h]) fun haccept => ?_
  rw [accepts, h] at haccept
  cases haccept

omit [Scalar α] [Decomposition α] in
theorem session_keep (name : String) (op : Run α Fault (Extractor α)) :
    (u.keep name op).2.session = (op.run u.session).2 := by
  rw [keep]
  rcases op.run u.session with ⟨_ | _, _⟩ <;> rfl

/-- A command asks for what the operation asks for that yields its extractor. -/
theorem exists_asks_keep {name : String} {op : Run α Fault (Extractor α)}
    (hstep : s.step c = u.keep name op) (hsession : u.session = s.session)
    (htarget : c.target? = some name) (hop : Run.Serves op fun y log =>
      log.map ModelCall.config = c.configs y ∧ ∀ a ∈ log.getLast?, a.model = y.model) :
    ∃ log, s.Asks (.command c) log := by
  obtain ⟨log, hserves, hgood⟩ := hop u.session
  refine ⟨log, ?_, fun haccept => ⟨?_, fun other y hother hy => ?_⟩⟩
  · show s.session.Serves log (s.step c).2.session
    rw [hstep, session_keep, ← hsession]
    exact hserves
  · rw [htarget]
    exact nofun
  · rw [htarget] at hother
    cases hother
    cases hrun : (op.run u.session).1 with
    | error e =>
      rw [accepts, hstep, keep_of_error name hrun] at haccept
      cases haccept
    | ok x =>
      obtain ⟨-, -, -, hx, -⟩ := keep_of_ok name hrun
      rw [hstep, hx] at hy
      obtain rfl := Option.some.inj hy
      exact hgood x hrun

theorem exists_asks_update {name : String} {op : Extractor α → Run α Fault (Extractor α)}
    (hstep : s.step c = s.update name op) (htarget : c.target? = some name)
    (hop : ∀ x, s.extractor? name = some x → Run.Serves (op x) fun y log =>
      log.map ModelCall.config = c.configs y ∧ ∀ a ∈ log.getLast?, a.model = y.model) :
    ∃ log, s.Asks (.command c) log := by
  cases hx : s.extractor? name with
  | none => exact ⟨[], asks_nil_of_refused (by rw [hstep, update, hx])⟩
  | some x =>
    exact exists_asks_keep (by rw [hstep, update, hx]) rfl htarget (hop x hx)

theorem exists_asks_readRecord {stream name : String} {target : Option (Extractor α)}
    (hstep : s.step c = s.readRecord stream name target) (htarget : c.target? = some name)
    (hconfigs : ∀ y, c.configs y = (if target.isSome then []
      else [(Settings.defaultOrder, Settings.defaultWindow)]) ++ [(y.order, y.window)]) :
    ∃ log, s.Asks (.command c) log := by
  cases hbytes : s.stream? stream with
  | none => exact ⟨[], asks_nil_of_refused (by rw [hstep, readRecord, hbytes])⟩
  | some bytes =>
    have hkeep : s.step c = (s.setStream stream (Extractor.readFrom bytes target).2).keep name
        (Extractor.readFrom bytes target).1 := by
      rw [hstep, readRecord, hbytes]
    refine exists_asks_keep hkeep rfl htarget ?_
    refine (Extractor.readFrom_serves bytes target).mono fun y log hy => ?_
    rw [hconfigs y]
    exact hy.reports

/-- Whatever is requested comes down to some calls. -/
theorem exists_asks (s : Store α) (r : Request α) : ∃ log, s.Asks r log := by
  cases r with
  | model order window => exact exists_asks_model s order window
  | command c =>
    cases c with
    | construct name order window stride backend =>
      exact exists_asks_keep rfl rfl rfl
        ((Extractor.construct_serves order window stride backend).mono fun _ _ hy => hy.reports)
    | fromConfiguration name config =>
      exact exists_asks_keep rfl rfl rfl
        ((Extractor.fromConfiguration_serves config).mono fun _ _ hy => hy.reports)
    | setup name order window =>
      exact exists_asks_update rfl rfl fun x _ =>
        (Extractor.setup_serves x order window).mono fun _ _ hy => hy.reports
    | clear name =>
      exact exists_asks_update rfl rfl fun x _ =>
        (Extractor.clear_serves x).mono fun _ _ hy => hy.reports
    | load name image =>
      refine exists_asks_update rfl rfl fun x _ => (Extractor.load_serves x image).mono ?_
      rintro y log rfl
      exact ⟨rfl, nofun⟩
    | unload name =>
      refine exists_asks_update rfl rfl fun x _ => (Extractor.unload_serves x).mono ?_
      rintro y log rfl
      exact ⟨rfl, nofun⟩
    | copy name source =>
      cases hsource : s.extractor? source with
      | none => exact ⟨[], asks_nil_of_refused (by rw [step, hsource])⟩
      | some other =>
        refine exists_asks_update (by rw [step, hsource]) rfl fun x _ => ?_
        exact Run.serves_pure ⟨rfl, nofun⟩
    | decode name data =>
      exact exists_asks_keep rfl rfl rfl
        ((Extractor.ofData_serves data none).mono fun _ _ hy => hy.reports)
    | decodeInto name data =>
      exact exists_asks_update rfl rfl fun x _ =>
        (Extractor.ofData_serves data (some x)).mono fun _ _ hy => hy.reports
    | openStream stream bytes => exact ⟨[], asks_nil rfl fun _ => rfl⟩
    | seek stream position =>
      refine ⟨[], asks_nil ?_ fun _ => rfl⟩
      rw [step]
      split
      · split <;> rfl
      · rfl
    | read stream name => exact exists_asks_readRecord rfl rfl fun _ => rfl
    | readInto stream name =>
      cases hx : s.extractor? name with
      | none => exact ⟨[], asks_nil_of_refused (by rw [step, hx])⟩
      | some x => exact exists_asks_readRecord (by rw [step, hx]) rfl fun _ => rfl
    | write name stream =>
      refine ⟨[], asks_nil ?_ fun _ => rfl⟩
      rw [step]
      split <;> rfl

/-- Whatever is requested one after the other comes down to some calls. -/
theorem exists_asksInTurn (s : Store α) (requests : List (Request α)) :
    ∃ log, s.AsksInTurn requests log := by
  induction requests generalizing s with
  | nil => exact ⟨[], rfl⟩
  | cons r rest ih =>
    obtain ⟨first, hfirst⟩ := s.exists_asks r
    obtain ⟨later, hlater⟩ := ih (s.handle r)
    exact ⟨first ++ later, first, later, rfl, hfirst, hlater⟩

/-- After every run of requests the session reflects their calls. -/
theorem AsksInTurn.reflects {requests : List (Request α)} {log more : List (ModelCall α)}
    (h : s.AsksInTurn requests more) (hs : s.session.Reflects log) :
    (requests.foldl handle s).session.Reflects (log ++ more) := by
  induction requests generalizing s log more with
  | nil =>
    obtain rfl : more = [] := h
    rw [List.append_nil]
    exact hs
  | cons r rest ih =>
    obtain ⟨first, later, rfl, hfirst, hlater⟩ := h
    rw [← List.append_assoc]
    exact ih hlater (hfirst.serves.reflects hs)

/-- A model that can be computed is asked for by one call. -/
theorem Asks.eq_singleton {k : Order} {w : Window} {log : List (ModelCall α)}
    (h : s.Asks (.model k.value w.value) log) (hbuild : FitModel.CanBuild α k w) :
    ∃ m, ((modelOf k.value w.value).run s.session).1 = .ok m ∧ log = [⟨k, w, m⟩] := by
  have hfails : Run.FailsOnly (modelOf (α := α) k.value w.value) fun _ => False := by
    rw [modelOf_value]
    exact Run.failsOnly_under (modelFor_failsOnly hbuild)
  obtain ⟨m, hm⟩ := hfails.exists_ok s.session
  obtain ⟨k', w', horder, hwindow, hlog⟩ := h.reports m hm
  obtain rfl := Order.value_injective horder
  obtain rfl := Window.value_injective hwindow
  exact ⟨m, hm, hlog⟩

/-- Requests for models that can be computed come down to one call each. -/
theorem AsksInTurn.map_config {configs : List (Order × Window)} {log : List (ModelCall α)}
    (h : s.AsksInTurn (configs.map fun c => .model c.1.value c.2.value) log)
    (hbuild : ∀ c ∈ configs, FitModel.CanBuild α c.1 c.2) :
    log.map ModelCall.config = configs := by
  induction configs generalizing s log with
  | nil =>
    obtain rfl : log = [] := h
    rfl
  | cons c rest ih =>
    obtain ⟨first, later, rfl, hfirst, hlater⟩ := h
    obtain ⟨hc, hrest⟩ := List.forall_mem_cons.1 hbuild
    obtain ⟨m, -, rfl⟩ := hfirst.eq_singleton hc
    rw [List.map_append, ih hlater hrest]
    rfl

/-! ## One model for a configuration -/

open ModelCall

/-- **The models that are asked for.** Let requests be made one after the other of a store that holds
nothing: for models directly, or for commands. They come down to calls for models, which all give
the model that is computed for their order and window from nothing, with the exponents that belong
to them. Two calls for one configuration give equal models, and they give the same shared model
exactly if the configuration kept its place in between: in no stretch without a call for it there
were calls for as many others as the cache has places. Different calls never share a model, and for
each configuration as many models were computed as there are among the answers. So if there are no
more configurations at all than the cache has places, each is computed at most once, and all calls
for it give the same shared model. -/
theorem models_shared_iff_keepsPlace (requests : List (Request α)) :
    (∃ log, (empty : Store α).AsksInTurn requests log) ∧
    ∀ log, (empty : Store α).AsksInTurn requests log →
      let computed := (requests.foldl handle (empty : Store α)).session.computed
      (∀ a ∈ log, a.model.value.IsFor a.order a.window ∧
        ∃ fitted, FitModel.build a.order a.window = .ok (a.model.value, fitted)) ∧
      (∀ before a between b after, log = before ++ a :: (between ++ b :: after) →
        a.config = b.config → a.model.value = b.model.value ∧
          (a.model = b.model ↔ KeepsPlace a.config between)) ∧
      (∀ a ∈ log, ∀ b ∈ log, a.model.tag = b.model.tag → a = b) ∧
      (∀ c, computed.count c = (tags c log).card) ∧
      (used log ≤ ModelCache.capacity → (∀ c, computed.count c ≤ 1) ∧
        ∀ a ∈ log, ∀ b ∈ log, a.config = b.config → a.model = b.model) := by
  refine ⟨exists_asksInTurn empty requests, fun log hlog => ?_⟩
  have hreflects : (requests.foldl handle empty).session.Reflects log := by
    simpa using hlog.reflects Session.start_reflects
  refine ⟨fun a ha => ?_, fun before a between b after hsplit hconfig => ⟨?_, ?_⟩,
    hreflects.eq_of_tag_eq, hreflects.computed, fun hused => ⟨?_, ?_⟩⟩
  · obtain ⟨fitted, hbuild⟩ := hreflects.built a ha
    obtain ⟨-, horder, hwindow⟩ := FitModel.of_build hbuild
    exact ⟨FitModel.isFor_of_eq horder hwindow, fitted, hbuild⟩
  · exact hreflects.value_eq (by simp [hsplit]) (by simp [hsplit]) hconfig
  · exact hreflects.shared before a between b after hsplit hconfig
  · exact hreflects.count_computed_le_one hused
  · exact fun a ha b hb hconfig => hreflects.model_eq hused ha hb hconfig

/-- An extractor shares its model with a caller who asks for another one in between. -/
theorem models_shared_with_caller :
    letI := Decomposition.real
    let k : Order := ⟨1, by decide, by decide⟩
    let w : Window := ⟨1, by decide⟩
    let v : Window := ⟨2, by decide⟩
    let make : Command (Exact ℝ) := .construct "a" (some k.value) (some w.value) none none
    let requests : List (Request (Exact ℝ)) :=
      [.command make, .model k.value v.value, .model k.value w.value]
    ∃ a b c x, empty.AsksInTurn requests [a, b, c] ∧ a.config = c.config ∧
      KeepsPlace a.config [b] ∧ used [a, b, c] ≤ ModelCache.capacity ∧
      (empty.step make).2.extractor? "a" = some x ∧ x.model = a.model ∧ a.model = c.model ∧ a = c ∧
      (requests.foldl handle empty).session.computed.count a.config ≤ 1 := by
  let := Decomposition.real
  intro k w v make requests
  have hreliable : Decomposition.Reliable (Exact ℝ) := Decomposition.reliable_real
  have hw : FitModel.CanBuild (Exact ℝ) k w := FitModel.canBuild_of_side_lt hreliable k (by decide)
  have hv : FitModel.CanBuild (Exact ℝ) k v := FitModel.canBuild_of_side_lt hreliable k (by decide)
  obtain ⟨⟨log, hlog⟩, hall⟩ := models_shared_iff_keepsPlace requests
  have hasks := hlog
  obtain ⟨first, _, rfl, hfirst, second, _, rfl, hsecond, third, _, rfl, hthird, rfl⟩ := hasks
  -- the extractor asks for its own model only, and each call for one
  obtain ⟨haccept, name, x, hname, hx, horder, hwindow, -⟩ :=
    Takes.makes Session.start_sound hw (.construct "a" : empty.Takes k.value w.value make)
  cases hname
  obtain ⟨hconfigs, hmodel⟩ := (hfirst.reports haccept).2 "a" x rfl hx
  obtain ⟨a, rfl, ha⟩ := List.map_eq_singleton_iff.1 hconfigs
  obtain ⟨m, -, rfl⟩ := hsecond.eq_singleton hv
  obtain ⟨m', -, rfl⟩ := hthird.eq_singleton hw
  rw [horder, hwindow] at ha
  obtain ⟨-, hshared, hunique, -, hfew⟩ := hall _ hlog
  have hconfig : a.config = (k, w) := ha
  have hunused : ∀ d ∈ [(⟨k, v, m⟩ : ModelCall (Exact ℝ))], d.config ≠ a.config := by
    rw [List.forall_mem_singleton, hconfig]
    exact fun h => absurd (congrArg (fun c => c.2.margin) h) (show 2 ≠ 1 by decide)
  have hkeeps : KeepsPlace a.config [⟨k, v, m⟩] :=
    (keepsPlace_iff_of_unused hunused).2 (show 1 < 32 by decide)
  have hsame : a.model = m' := ((hshared [] a [⟨k, v, m⟩] ⟨k, w, m'⟩ [] rfl hconfig).2).2 hkeeps
  have heq : a = ⟨k, w, m'⟩ :=
    hunique a (by simp) ⟨k, w, m'⟩ (by simp) (congrArg Shared.tag hsame)
  have hplaces : used [a, ⟨k, v, m⟩, ⟨k, w, m'⟩] ≤ ModelCache.capacity :=
    (List.toFinset_card_le _).trans (show 3 ≤ 32 by decide)
  exact ⟨a, ⟨k, v, m⟩, ⟨k, w, m'⟩, x, hlog, hconfig, hkeeps, hplaces, hx,
    (hmodel a rfl).symm, hsame, heq, (hfew hplaces).1 _⟩

/-- **A configuration does not keep its model for ever.** Between two calls for the same order and
window let there be one call each for as many other windows as the cache has places: then the model
is computed twice. -/
theorem not_shared_after_others :
    letI := Decomposition.real
    ¬∀ (requests : List (Request (Exact ℝ))) (log : List (ModelCall (Exact ℝ))),
      empty.AsksInTurn requests log →
      ∀ a ∈ log, ∀ b ∈ log, a.config = b.config → a.model = b.model := by
  let := Decomposition.real
  intro hshared
  let first : Order × Window := (⟨1, by decide, by decide⟩, ⟨1, by decide⟩)
  let others : List (Order × Window) :=
    (List.range 32).map fun n => (first.1, ⟨n + 2, Nat.le_add_left 1 (n + 1)⟩)
  let configs := first :: (others ++ [first])
  have hmargins : ∀ c ∈ configs, c.2.margin ≤ 33 := by decide
  have hreliable : Decomposition.Reliable (Exact ℝ) := Decomposition.reliable_real
  have hbuild : ∀ c ∈ configs, FitModel.CanBuild (Exact ℝ) c.1 c.2 := by
    intro c hc
    have hmargin := hmargins c hc
    exact FitModel.canBuild_of_side_lt hreliable c.1 (by rw [Window.side]; omega)
  let requests : List (Request (Exact ℝ)) := configs.map fun c => .model c.1.value c.2.value
  obtain ⟨log, hlog⟩ := exists_asksInTurn empty requests
  have hreflects := hlog.reflects Session.start_reflects
  rw [List.nil_append] at hreflects
  -- the first call and the last one are for the same window
  obtain ⟨a, rest, rfl, ha, hrest⟩ := List.map_eq_cons_iff.1 (hlog.map_config hbuild)
  obtain ⟨between, last, rfl, hbetween, hlast⟩ := List.map_eq_append_iff.1 hrest
  obtain ⟨b, rfl, hb⟩ := List.map_eq_singleton_iff.1 hlast
  have hconfig : a.config = b.config := ha.trans hb.symm
  have hunused : ∀ d ∈ between, d.config ≠ a.config := by
    intro d hd
    have hd : d.config ∈ others := hbetween ▸ List.mem_map_of_mem hd
    rw [ha]
    exact fun h => absurd (h ▸ hd) (by decide)
  have hkept := (hreflects.shared [] a between b [] rfl hconfig).1
    (hshared _ _ hlog a (by simp) b (by simp) hconfig)
  rw [keepsPlace_iff_of_unused hunused, used, hbetween] at hkept
  exact absurd hkept (by decide)

end Store

end Facet
