import Mathlib
import Facet.Proofs.Malformed

/-!
# What the journal says about refusals

Operations only add to the journal. As long as nothing is refused, nothing that they add is a
warning. A refused setup always leaves a warning, and so does a record that was read but does not
configure anything. But a value that cannot be read as a record at all, because it has the wrong kind
or the wrong length, is refused before anything is written down.
-/

namespace Facet

variable {α : Type}

/-! ## Entries -/

/-- Whether none of some entries is a warning. -/
def Calm (entries : List (Event α)) : Prop := ∀ e ∈ entries, e.severity = .debug

/-- Whether one of some entries is a warning. -/
def Warns (entries : List (Event α)) : Prop := ∃ e ∈ entries, e.severity = .warning

theorem calm_nil : Calm ([] : List (Event α)) := nofun

theorem Calm.append {new old : List (Event α)} (hnew : Calm new) (hold : Calm old) :
    Calm (new ++ old) := by
  intro e he
  rcases List.mem_append.1 he with he | he
  · exact hnew e he
  · exact hold e he

/-- A journal has been added to in a way that goes with whether something was accepted: nothing that
is new is a warning if it was; something is if it was not, provided that this is to be heard. -/
def Logged (heard : Prop) (accepted : Bool) (before after : List (Event α)) : Prop :=
  ∃ added, after = added ++ before ∧ (accepted = true → Calm added) ∧
    (accepted = false → heard → Warns added)

namespace Logged

variable {heard : Prop} {accepted : Bool} {before middle after : List (Event α)}

theorem refl : Logged heard true before before := ⟨[], rfl, fun _ => calm_nil, nofun⟩

theorem refl_of_not (h : ¬heard) : Logged heard accepted before before :=
  ⟨[], rfl, fun _ => calm_nil, fun _ hheard => absurd hheard h⟩

theorem mono {less : Prop} (h : Logged heard accepted before after) (hless : less → heard) :
    Logged less accepted before after := by
  obtain ⟨added, hafter, hcalm, hwarns⟩ := h
  exact ⟨added, hafter, hcalm, fun hrefused hheard => hwarns hrefused (hless hheard)⟩

/-- What is added later comes on top of what was added before. -/
theorem trans (h : Logged heard true before middle) (h' : Logged heard accepted middle after) :
    Logged heard accepted before after := by
  obtain ⟨old, rfl, hold, -⟩ := h
  obtain ⟨new, rfl, hnew, hwarns⟩ := h'
  refine ⟨new ++ old, (List.append_assoc new old before).symm, fun haccepted => ?_,
    fun hrefused hheard => ?_⟩
  · exact (hnew haccepted).append (hold rfl)
  · obtain ⟨e, he, hsevere⟩ := hwarns hrefused hheard
    exact ⟨e, List.mem_append_left old he, hsevere⟩

/-- A refusal that is heard later has been heard, whatever was added before. -/
theorem trans_refused (h : Logged False accepted before middle)
    (h' : Logged heard false middle after) : Logged heard false before after := by
  obtain ⟨old, rfl, -⟩ := h
  obtain ⟨new, rfl, -, hwarns⟩ := h'
  refine ⟨new ++ old, (List.append_assoc new old before).symm, nofun, fun _ hheard => ?_⟩
  obtain ⟨e, he, hsevere⟩ := hwarns rfl hheard
  exact ⟨e, List.mem_append_left old he, hsevere⟩

theorem cons_debug {e : Event α} (he : e.severity = .debug) :
    Logged heard true before (e :: before) := by
  refine ⟨[e], rfl, fun _ e' he' => ?_, nofun⟩
  rw [List.mem_singleton.1 he', he]

/-- After a warning a refusal has been heard. -/
theorem cons_warning {e : Event α} (he : e.severity = .warning) :
    Logged heard false before (e :: before) :=
  ⟨[e], rfl, nofun, fun _ _ => ⟨e, List.mem_singleton_self e, he⟩⟩

end Logged

/-! ## Operations -/

namespace Run

variable {ε δ β γ : Type} {heard : Prop}

/-- From every session an operation adds to the journal in a way that goes with its outcome. -/
def Logs (op : Run α ε β) (heard : Prop) : Prop :=
  ∀ s, Logged heard (op.run s).1.isOk s.journal (op.run s).2.journal

theorem Logs.mono {op : Run α ε β} {less : Prop} (h : Logs op heard) (hless : less → heard) :
    Logs op less := fun s => (h s).mono hless

/-- What is never refused is heard as well as not. -/
theorem Logs.of_failsOnly {op : Run α ε β} (h : Logs op False) (hnever : FailsOnly op fun _ => False) :
    Logs op heard := by
  intro s
  obtain ⟨b, hb⟩ := hnever.exists_ok s
  obtain ⟨added, hafter, hcalm, -⟩ := h s
  rw [hb] at hcalm ⊢
  exact ⟨added, hafter, hcalm, nofun⟩

theorem logs_pure {b : β} : Logs (pure b : Run α ε β) heard := fun _ => .refl

theorem logs_throw {e : ε} (h : ¬heard) : Logs (throw e : Run α ε β) heard :=
  fun _ => .refl_of_not h

theorem logs_share {value : β} : Logs (share value : Run α ε (Shared β)) heard := fun _ => .refl

theorem logs_note {e : Event α} (h : e.severity = .debug) :
    Logs (note e : Run α ε Unit) heard := fun _ => .cons_debug h

theorem logs_check {cause : δ → ε} {r : Except δ β} (h : heard → ∃ b, r = .ok b) :
    Logs (check cause r : Run α ε β) heard := by
  cases r with
  | ok b => exact logs_pure
  | error e =>
    refine logs_throw fun hheard => ?_
    obtain ⟨b, hb⟩ := h hheard
    cases hb

theorem logs_check_bind {cause : δ → ε} {r : Except δ β} {next : β → Run α ε γ}
    (h : heard → ∃ b, r = .ok b) (hnext : ∀ b, r = .ok b → Logs (next b) heard) :
    Logs (check cause r >>= next) heard := by
  cases r with
  | ok b => exact hnext b rfl
  | error e =>
    refine logs_throw fun hheard => ?_
    obtain ⟨b, hb⟩ := h hheard
    cases hb

theorem logs_bind {op : Run α ε β} {next : β → Run α ε γ} (hop : Logs op heard)
    (hnext : ∀ b, Logs (next b) heard) : Logs (op >>= next) heard := by
  intro s
  have hfirst := hop s
  rw [run_bind]
  rcases hrun : op.run s with ⟨e | b, t⟩ <;> simp only [hrun] at hfirst ⊢
  · exact hfirst
  · exact hfirst.trans (hnext b t)

theorem logs_under {op : Run α δ β} {cause : δ → ε} (h : Logs op heard) :
    Logs (op.under cause) heard := by
  intro s
  have hsame : ((op.run s).1.mapError cause).isOk = (op.run s).1.isOk := by
    cases (op.run s).1 <;> rfl
  rw [run_under, hsame]
  exact h s

/-- From every session an operation is refused, and that is heard. -/
def Rejects (op : Run α ε β) (heard : Prop) : Prop :=
  ∀ s, (op.run s).1.isOk = false ∧ Logged heard false s.journal (op.run s).2.journal

theorem rejects_throw {e : ε} (h : ¬heard) : Rejects (throw e : Run α ε β) heard :=
  fun _ => ⟨rfl, .refl_of_not h⟩

theorem rejects_note {event : Event α} {e : ε} (h : event.severity = .warning) :
    Rejects (note event >>= fun _ => throw e : Run α ε β) heard :=
  fun _ => ⟨rfl, .cons_warning h⟩

/-- A refusal that has to be heard must be one that is answered. -/
theorem rejects_answer {e : Fault} {handler : SetupFault → Run α Fault β}
    (hanswered : heard → ∃ cause, e.setup? = some cause)
    (h : ∀ cause, Rejects (handler cause) heard) : Rejects (answer e handler) heard := by
  unfold answer
  split
  · exact h _
  · rename_i hnone
    refine rejects_throw fun hheard => ?_
    obtain ⟨cause, hcause⟩ := hanswered hheard
    cases hnone.symm.trans hcause

/-- An operation whose refusals are answered by further ones that are heard is heard itself, whether
or not it was by itself. -/
theorem logs_outcome_bind {op : Run α δ β} {next : Except δ β → Run α ε γ} {wrong : δ → Prop}
    (hop : Logs op False) (hwrong : heard → FailsOnly op wrong)
    (hok : ∀ b, Logs (next (.ok b)) heard)
    (herror : ∀ e, (heard → wrong e) → Rejects (next (.error e)) heard) :
    Logs (outcome op >>= next) heard := by
  intro s
  have hfirst := hop s
  have hcause (e : δ) (he : (op.run s).1 = .error e) (h : heard) : wrong e := hwrong h s e he
  rw [run_bind, run_outcome]
  rcases hrun : op.run s with ⟨e | b, t⟩ <;> simp only [hrun] at hfirst hcause ⊢
  · obtain ⟨hrefused, hheard⟩ := herror e (hcause e rfl) t
    rw [hrefused]
    exact hfirst.trans_refused hheard
  · obtain ⟨added, hafter, hcalm, -⟩ := hfirst
    exact Logged.trans ⟨added, hafter, hcalm, nofun⟩ (hok b t)

end Run

variable [Scalar α] [Decomposition α]

theorem modelFor_logs (k : Order) (w : Window) : Run.Logs (modelFor (α := α) k w) False := by
  intro s
  cases hfind : s.models.find? k w with
  | some kept =>
    rw [run_modelFor_of_some hfind]
    exact .refl
  | none =>
    rw [run_modelFor_of_none hfind]
    cases FitModel.build (α := α) k w with
    | error e => exact .refl_of_not id
    | ok built =>
      obtain ⟨model, fitted⟩ := built
      have hdeficient : Logged False true s.journal
          ((if fitted.rank < k.terms then [.rankDeficient fitted.rank k.terms] else []) ++
            s.journal) := by
        split
        · exact .cons_debug rfl
        · exact .refl
      exact hdeficient.trans (.cons_debug rfl)

namespace Extractor

theorem ofSettings_logs (s : Settings) (backend : Option Value) :
    Run.Logs (ofSettings (α := α) s backend) False := by
  refine Run.logs_bind Run.logs_share fun _ => ?_
  refine Run.logs_bind (Run.logs_under (modelFor_logs s.order s.window)) fun _ => ?_
  exact Run.logs_bind (Run.logs_check False.elim) fun _ => Run.logs_pure

theorem construct_logs (order window stride backend : Option Value) :
    Run.Logs (construct (α := α) order window stride backend) False :=
  Run.logs_bind (Run.logs_check False.elim) fun s => ofSettings_logs s backend

theorem fromConfiguration_logs (config : Value) :
    Run.Logs (fromConfiguration (α := α) config) False := by
  refine Run.logs_bind (Run.logs_check False.elim) fun _ => ?_
  refine Run.logs_bind (Run.logs_check False.elim) fun _ => ?_
  exact Run.logs_bind (Run.logs_check False.elim) fun s => ofSettings_logs s _

theorem prepare_logs (x : Extractor α) (order window : Value) :
    Run.Logs (x.prepare order window) False := by
  refine Run.logs_bind (Run.logs_check False.elim) fun s => ?_
  refine Run.logs_bind (Run.logs_under (modelFor_logs s.order s.window)) fun _ => ?_
  exact Run.logs_pure

omit [Scalar α] [Decomposition α] in
theorem reject_rejects {β : Type} {order window : Value} {e : Fault}
    (h : Value.areShowable [order, window] = true → ∃ cause, e.setup? = some cause) :
    Run.Rejects (reject order window e : Run α Fault β)
      (Value.areShowable [order, window] = true) := by
  refine Run.rejects_answer h fun cause => ?_
  split <;> rename_i hshown
  · exact Run.rejects_note rfl
  · exact Run.rejects_throw hshown

/-- A refused setup leaves a warning, if this can show the order and the window. -/
theorem setup_logs (x : Extractor α) (order window : Value) :
    Run.Logs (x.setup order window) (Value.areShowable [order, window] = true) := by
  have hfails (hshown : Value.areShowable [order, window] = true) :
      Run.FailsOnly (x.prepare order window) fun e => ∃ cause, e.setup? = some cause :=
    (x.prepare_failsOnly order window).mono fun e he => he.resolve_right fun h => h.2 hshown
  refine Run.logs_outcome_bind (prepare_logs x order window) hfails (fun b => ?_)
    fun e he => reject_rejects he
  refine Run.logs_bind Run.logs_share fun _ => ?_
  exact Run.logs_bind (Run.logs_note rfl) fun _ => Run.logs_pure

theorem clear_logs (x : Extractor α) : Run.Logs x.clear False :=
  Run.logs_bind ((setup_logs x _ _).mono False.elim) fun _ =>
    Run.logs_bind (Run.logs_note rfl) fun _ => Run.logs_pure

omit [Decomposition α] in
theorem load_logs (x : Extractor α) (image : ArrayLike α) : Run.Logs (x.load image) False := by
  refine Run.logs_bind (Run.logs_check False.elim) fun _ => ?_
  refine Run.logs_bind (Run.logs_check False.elim) fun _ => ?_
  exact Run.logs_bind (Run.logs_note rfl) fun _ => Run.logs_pure

omit [Scalar α] [Decomposition α] in
theorem unload_logs (x : Extractor α) : Run.Logs x.unload False :=
  Run.logs_bind (Run.logs_note rfl) fun _ => Run.logs_pure

omit [Scalar α] [Decomposition α] in
theorem rejectRecord_rejects {β : Type} {r : Record} {e : Fault} {heard : Prop}
    (h : heard → ∃ cause, e.setup? = some cause) :
    Run.Rejects (rejectRecord r e : Run α Fault β) heard :=
  Run.rejects_answer h fun _ => Run.rejects_note rfl

/-- A record that does not configure an extractor leaves a warning. -/
theorem configure_logs (x : Extractor α) {r : Record}
    (hshown : Value.areShowable [.int r.order, .int r.window] = true) :
    Run.Logs (x.configure r) True :=
  Run.logs_outcome_bind ((setup_logs x _ _).mono False.elim)
    (fun _ => x.setup_failsOnly_refusal _ _) (fun _ => Run.logs_pure)
    fun _ he => rejectRecord_rejects fun h => (he h).1 hshown

/-- Whatever configures an extractor leaves a warning if it is refused after it was read as a
record. -/
theorem ofData_logs (data : Value) (target : Option (Extractor α)) :
    Run.Logs (ofData data target)
      ((∃ r, Record.ofValue data = .ok r) ∧ ReachesRecord α target) := by
  refine Run.logs_check_bind (fun h => h.1) fun r hread => ?_
  have hconfigure (x : Extractor α) := x.configure_logs (Record.areShowable_of_ofValue hread)
  cases target with
  | some x => exact (hconfigure x).mono fun _ => trivial
  | none =>
    refine Run.logs_bind ?_ fun x => (hconfigure x).mono fun _ => trivial
    by_cases hdefault : FitModel.CanBuild α Settings.defaultOrder Settings.defaultWindow
    · exact (construct_logs _ _ _ _).of_failsOnly (construct_failsOnly hdefault)
    · exact (construct_logs _ _ _ _).mono fun h => hdefault (h.2 rfl)

theorem readFrom_logs (s : ByteStream) (target : Option (Extractor α)) :
    Run.Logs (readFrom s target).1 False := by
  unfold readFrom
  split
  split
  · exact Run.logs_throw id
  · exact (ofData_logs _ _).mono False.elim

end Extractor

/-! ## Values that are not read -/

/-- The causes for which a value is refused before there is a record. -/
inductive Fault.Unread : Fault → Prop
  /-- It has the wrong kind. -/
  | notBytes (kind : String) : Unread (.record (.notBytes kind))
  /-- It has the wrong length. -/
  | wrongLength (length : Nat) : Unread (.record (.wrongLength length))
  /-- It asks for bytes that there are not. -/
  | argument (cause : ArgumentFault) : Unread (.argument cause)

/-- Arguments are refused under classes that are not the library's. -/
theorem ArgumentFault.kind_notMem_own (cause : ArgumentFault) : cause.kind ∉ Fault.Kind.own := by
  unfold kind
  split <;> decide

theorem Fault.Unread.of_own {e : Fault} (h : e.Unread) (hown : e.kind ∈ Kind.own) :
    (∃ kind, e = .record (.notBytes kind)) ∨ ∃ length, e = .record (.wrongLength length) := by
  cases h with
  | notBytes kind => exact .inl ⟨kind, rfl⟩
  | wrongLength length => exact .inr ⟨length, rfl⟩
  | argument cause => exact absurd hown cause.kind_notMem_own

namespace Record

variable {e : Fault}

theorem unread_of_decode {b : List UInt8} (h : (decode b).mapError Fault.record = .error e) :
    e.Unread := by
  unfold decode at h
  split at h
  · cases h
  · cases h
    exact .wrongLength _

theorem unread_of_bytesOf {kind : String} {items : List Value} (h : bytesOf kind items = .error e) :
    e.Unread := by
  induction items with
  | nil => cases h
  | cons v rest ih =>
    rw [bytesOf] at h
    split at h
    · cases h
      exact .notBytes kind
    split at h
    · cases hrest : bytesOf kind rest with
      | ok b =>
        rw [hrest] at h
        cases h
      | error e' =>
        rw [hrest] at h
        cases h
        exact ih hrest
    · cases h
      exact .argument _

theorem unread_of_ofCount {n : Int} (h : ofCount n = .error e) : e.Unread := by
  unfold ofCount at h
  split at h
  · cases h
    exact .argument _
  split at h
  · cases h
    exact .argument _
  split at h
  · cases h
    exact .argument _
  split at h
  · exact unread_of_decode h
  · cases h
    exact .wrongLength _

/-- What is read first may be refused, and then what is read from it. -/
theorem unread_of_bind {kind : String} {items : List Value}
    (h : (do (decode (← bytesOf kind items)).mapError Fault.record) = Except.error e) :
    e.Unread := by
  cases hbytes : bytesOf kind items with
  | ok b =>
    rw [hbytes] at h
    exact unread_of_decode h
  | error e' =>
    rw [hbytes] at h
    cases h
    exact unread_of_bytesOf hbytes

theorem unread_of_ofValue {v : Value} (h : ofValue v = .error e) : e.Unread := by
  cases v with
  | bytes data => exact unread_of_decode h
  | bool b => exact unread_of_ofCount h
  | int n => exact unread_of_ofCount h
  | list items => exact unread_of_bind h
  | mapping entries => exact unread_of_bind h
  | null | float _ | text _ | date _ | moment _ =>
    cases h
    exact .notBytes _

end Record

/-! ## Commands -/

namespace Store

variable {s : Store α} {name : String} {heard : Prop}

/-- As for operations: a command adds to the journal in a way that goes with its outcome. -/
def Logs (s : Store α) (result : Except Fault Unit × Store α) (heard : Prop) : Prop :=
  Logged heard result.1.isOk s.session.journal result.2.session.journal

omit [Scalar α] [Decomposition α] in
theorem logs_of_journal {result : Except Fault Unit × Store α}
    (h : result.2.session.journal = s.session.journal) : s.Logs result False := by
  unfold Logs
  rw [h]
  exact .refl_of_not id

omit [Scalar α] [Decomposition α] in
theorem keep_logs {op : Run α Fault (Extractor α)} (h : Run.Logs op heard) :
    s.Logs (s.keep name op) heard := by
  have hop := h s.session
  unfold keep
  rcases hrun : op.run s.session with ⟨e | x, t⟩ <;> simp only [hrun] at hop ⊢
  · exact hop
  · exact hop

omit [Scalar α] [Decomposition α] in
theorem update_logs {op : Extractor α → Run α Fault (Extractor α)}
    (h : ∀ x, Run.Logs (op x) False) : s.Logs (s.update name op) False := by
  unfold update
  cases s.extractor? name with
  | none => exact logs_of_journal rfl
  | some x => exact keep_logs (h x)

theorem readRecord_logs (stream : String) (target : Option (Extractor α)) :
    s.Logs (s.readRecord stream name target) False := by
  unfold readRecord
  cases s.stream? stream with
  | none => exact logs_of_journal rfl
  | some bytes => exact keep_logs (Extractor.readFrom_logs bytes target)

/-- Whatever a command is, if it is accepted then nothing that it writes down is a warning. -/
theorem step_logs (s : Store α) (c : Command α) : s.Logs (s.step c) False := by
  cases c with
  | construct name order window stride backend =>
    exact keep_logs (Extractor.construct_logs order window stride backend)
  | fromConfiguration name config => exact keep_logs (Extractor.fromConfiguration_logs config)
  | setup name order window =>
    exact update_logs fun x => (x.setup_logs order window).mono False.elim
  | clear name => exact update_logs fun x => x.clear_logs
  | load name image => exact update_logs fun x => x.load_logs image
  | unload name => exact update_logs fun x => x.unload_logs
  | copy name source =>
    simp only [step]
    cases s.extractor? source with
    | none => exact logs_of_journal rfl
    | some other => exact update_logs fun _ => Run.logs_pure
  | decode name data => exact keep_logs ((Extractor.ofData_logs data none).mono False.elim)
  | decodeInto name data =>
    exact update_logs fun x => (Extractor.ofData_logs data (some x)).mono False.elim
  | openStream stream bytes => exact logs_of_journal rfl
  | seek stream position =>
    refine logs_of_journal ?_
    simp only [step]
    cases s.stream? stream with
    | none => rfl
    | some bytes =>
      dsimp only
      split <;> rfl
  | read stream name => exact readRecord_logs stream none
  | readInto stream name =>
    simp only [step]
    cases s.extractor? name with
    | none => exact logs_of_journal rfl
    | some x => exact readRecord_logs stream (some x)
  | write name stream =>
    refine logs_of_journal ?_
    simp only [step]
    split <;> rfl

/-- A run in which nothing is refused leaves no warning. -/
theorem calm_run {s : Store α} (hs : Calm s.session.journal) (commands : List (Command α))
    (hall : ∀ before c after, commands = before ++ c :: after →
      ((s.run before).step c).1 = .ok ()) : Calm (s.run commands).session.journal := by
  induction commands using List.reverseRecOn with
  | nil => exact hs
  | append_singleton before c ih =>
    obtain ⟨added, hjournal, hcalm, -⟩ := (s.run before).step_logs c
    rw [hall before c [] rfl] at hcalm
    have hbefore : Calm (s.run before).session.journal := by
      refine ih fun earlier d after hsplit => hall earlier d (after ++ [c]) ?_
      rw [hsplit, List.append_assoc, List.cons_append]
    rw [run_append_singleton, hjournal]
    exact (hcalm rfl).append hbefore

/-! ## Refused commands -/

omit [Scalar α] [Decomposition α] in
/-- What is refused under a class of the library's own was asked of an extractor that exists. -/
theorem exists_extractor_of_own {op : Extractor α → Run α Fault (Extractor α)} {e : Fault}
    (he : (s.update name op).1 = .error e) (hown : e.kind ∈ Fault.Kind.own) :
    ∃ x, s.extractor? name = some x ∧ s.update name op = s.keep name (op x) := by
  unfold update at he ⊢
  cases hx : s.extractor? name with
  | none =>
    rw [hx] at he
    cases he
    exact absurd hown (by decide)
  | some x => exact ⟨x, rfl, rfl⟩

/-- A value that is refused before there is a record leaves the whole session as it was. -/
theorem keep_ofData_of_error {data : Value} {e : Fault} (target : Option (Extractor α))
    (h : Record.ofValue data = .error e) :
    s.keep name (Extractor.ofData data target) = (.error e, s) := by
  unfold keep Extractor.ofData
  rw [h]
  rfl

/-- A value that is refused was refused before there was a record, and then nothing happened, or
there is a warning. -/
theorem keep_ofData_refused {data : Value} {target : Option (Extractor α)} {e : Fault}
    (htarget : Extractor.ReachesRecord α target)
    (he : (s.keep name (Extractor.ofData data target)).1 = .error e) :
    (∃ cause, e = .record (.refused cause)) ∧
        s.Logs (s.keep name (Extractor.ofData data target)) True ∨
      e.Unread ∧ (s.keep name (Extractor.ofData data target)).2 = s := by
  cases hread : Record.ofValue data with
  | ok r =>
    have hlogs := (Extractor.ofData_logs data target).mono fun _ : True => ⟨⟨r, hread⟩, htarget⟩
    have hfails : Run.FailsOnly (Extractor.ofData data target) fun e =>
        ∃ cause, e = .record (.refused cause) := by
      refine Extractor.ofData_failsOnly_of_ofValue htarget (fun e' he' => ?_)
        fun cause => ⟨cause, rfl⟩
      rw [hread] at he'
      cases he'
    exact .inl ⟨hfails s.session e (error_of_keep he), keep_logs hlogs⟩
  | error e' =>
    rw [keep_ofData_of_error target hread] at he ⊢
    cases he
    exact .inr ⟨Record.unread_of_ofValue hread, rfl⟩

/-- The entries that a command adds to the journal are as stated. -/
def Notes (s : Store α) (c : Command α) (good : List (Event α) → Prop) : Prop :=
  ∃ added, (s.step c).2.session.journal = added ++ s.session.journal ∧ good added

theorem Logs.notes_warns {c : Command α} {e : Fault} (h : s.Logs (s.step c) True)
    (he : (s.step c).1 = .error e) : s.Notes c Warns := by
  obtain ⟨added, hjournal, -, hwarns⟩ := h
  rw [he] at hwarns
  exact ⟨added, hjournal, hwarns rfl trivial⟩

/-- **What is written down about refusals.** Whatever a store holds, a command that is accepted adds
no warning to the journal. A setup that is refused under a class of the library's own, for values of
any kind, adds one. So does a value that is refused as the record of an extractor or of a new one, if
it was a record without a valid configuration. The only other values that are refused under such a
class have the wrong kind or the wrong length, and these change nothing at all, the journal
included. -/
theorem refusals_noted (s : Store α) (c : Command α) :
    ((s.step c).1 = .ok () → s.Notes c Calm) ∧
    ∀ e, (s.step c).1 = .error e → e.kind ∈ Fault.Kind.own →
      (∀ name order window, c = .setup name order window → s.Notes c Warns) ∧
      ∀ name data, (c = .decodeInto name data ∨ c = .decode name data ∧
          FitModel.CanBuild α Settings.defaultOrder Settings.defaultWindow) →
        (∃ cause, e = .record (.refused cause)) ∧ s.Notes c Warns ∨
        ((∃ kind, e = .record (.notBytes kind)) ∨ ∃ length, e = .record (.wrongLength length)) ∧
          (s.step c).2 = s := by
  refine ⟨fun hok => ?_, fun e he hown => ⟨?_, ?_⟩⟩
  · obtain ⟨added, hjournal, hcalm, -⟩ := s.step_logs c
    rw [hok] at hcalm
    exact ⟨added, hjournal, hcalm rfl⟩
  · rintro name order window rfl
    obtain ⟨x, -, hstep⟩ := exists_extractor_of_own he hown
    have hkeep : s.step (.setup name order window) = s.keep name (x.setup order window) := hstep
    -- if the warning could not be written, the refusal would not be one of the library's own
    have hshown : Value.areShowable [order, window] = true := by
      by_contra hlong
      rw [hkeep] at he
      obtain rfl := (x.setup_failsOnly_refusal order window _ e (error_of_keep he)).2 hlong
      exact absurd hown (by decide)
    refine Logs.notes_warns ?_ he
    rw [hkeep]
    exact keep_logs ((x.setup_logs order window).mono fun _ => hshown)
  · intro name data hc
    obtain ⟨target, htarget, hstep⟩ : ∃ target, Extractor.ReachesRecord α target ∧
        s.step c = s.keep name (Extractor.ofData data target) := by
      rcases hc with rfl | ⟨rfl, hdefault⟩
      · obtain ⟨x, -, hstep⟩ := exists_extractor_of_own he hown
        exact ⟨some x, fun hnone => absurd hnone (Option.some_ne_none x), hstep⟩
      · exact ⟨none, fun _ => hdefault, rfl⟩
    have hrefused := keep_ofData_refused htarget (hstep ▸ he)
    rw [← hstep] at hrefused
    rcases hrefused with ⟨hcause, hlogs⟩ | ⟨hunread, hsame⟩
    · exact .inl ⟨hcause, hlogs.notes_warns he⟩
    · exact .inr ⟨hunread.of_own hown, hsame⟩

/-- An extractor for planes in windows of three pixels is set up again, and then for the order nine,
which leaves a warning. Sixteen zero bytes leave one, too, but a text leaves the store as it is. -/
theorem refusals_noted_order_nine :
    letI := Decomposition.byColumns
    let s : Store (Exact ℚ) := empty.run [.construct "a" (some (.int 1)) (some (.int 3)) none none]
    s.Notes (.setup "a" (.int 1) (.int 3)) Calm ∧
      s.Notes (.setup "a" (.int 9) (.int 3)) Warns ∧
      s.Notes (.decodeInto "a" (.int 16)) Warns ∧
      (s.step (.decodeInto "a" (.text "b"))).2 = s := by
  intro s
  let := Decomposition.byColumns
  have hkind (c : Command (Exact ℚ)) (kind : Fault.Kind)
      (h : (s.step c).1.mapError Fault.kind = .error kind) (hown : kind ∈ Fault.Kind.own) :
      ∃ e, (s.step c).1 = .error e ∧ e.kind ∈ Fault.Kind.own := by
    obtain ⟨e, he, rfl⟩ := mapError_eq_error.1 h
    exact ⟨e, he, hown⟩
  refine ⟨?_, ?_, ?_, ?_⟩
  · refine (refusals_noted s _).1 (mapError_eq_ok (f := Fault.kind).1 ?_)
    decide +kernel
  · obtain ⟨e, he, hown⟩ := hkind (.setup "a" (.int 9) (.int 3)) .invalidConfiguration
      (by decide +kernel) (by decide)
    exact ((refusals_noted s _).2 e he hown).1 "a" _ _ rfl
  · let c : Command (Exact ℚ) := .decodeInto "a" (.int 16)
    have hlength : (s.step c).2.session.journal.length ≠ s.session.journal.length := by
      decide +kernel
    obtain ⟨e, he, hown⟩ := hkind c .corruptData (by decide +kernel) (by decide)
    rcases ((refusals_noted s c).2 e he hown).2 "a" _ (.inl rfl) with ⟨-, hwarns⟩ | ⟨-, hsame⟩
    · exact hwarns
    · exact absurd (congrArg (fun t => t.session.journal.length) hsame) hlength
  · let c : Command (Exact ℚ) := .decodeInto "a" (.text "b")
    have hmade : (s.extractor? "a").isSome = true := by decide +kernel
    obtain ⟨x, hx⟩ := Option.isSome_iff_exists.1 hmade
    have hstep : s.step c = (.error (.record (.notBytes "str")), s) := by
      simp only [c, step, update, hx]
      exact keep_ofData_of_error (some x) rfl
    have hrefused : (s.step c).1 = .error (.record (.notBytes "str")) := by rw [hstep]
    rcases ((refusals_noted s c).2 _ hrefused (by decide)).2 "a" _ (.inl rfl) with
      ⟨⟨cause, hcause⟩, -⟩ | ⟨-, hsame⟩
    · cases hcause
    · exact hsame

/-- Not every value that is refused as a malformed record leaves a warning: the empty byte string
does not. -/
theorem not_noted_empty_record :
    ¬∀ (commands : List (Command Float)) (name : String) (data : Value) (e : Fault),
      ((empty.run commands).step (.decode name data)).1 = .error e → e.kind ∈ Fault.Kind.own →
      (empty.run commands).Notes (.decode name data) Warns := by
  intro h
  obtain ⟨added, hjournal, entry, hentry, -⟩ :=
    h [] "a" (.bytes []) (.record (.wrongLength 0)) rfl (by decide)
  have hempty : added ++ [] = ([] : List (Event Float)) := hjournal.symm
  rw [List.append_nil] at hempty
  subst hempty
  cases hentry

end Store

end Facet
