import Mathlib
import Facet.Extractor.Program
import Facet.Proofs.Canonical

/-!
# Refused calls

A call writes field by field, and between its first write and its last nothing is refused: what is
looked at there has been looked at before. So a call that is refused has written nothing, and one
that is not has written all that the operation yields. The two together are an equation: the program
of a call runs like the command that puts the result of the operation in place as a whole.

There is one exception. An image is asked for its shape after its features have been written; if it
gave its pixels and refuses to give its shape, the call is refused and the features are lost.
-/

namespace Facet

/-! ## One extractor put in place -/

section Names

variable {β : Type}

theorem assign_assign (name : String) (v w : β) (entries : List (String × β)) :
    assign name w (assign name v entries) = assign name w entries := by
  induction entries with
  | nil => simp [assign]
  | cons entry entries ih =>
    obtain ⟨other, u⟩ := entry
    by_cases h : other = name
    · simp [assign, h]
    · simp only [assign, if_neg h, ih]

/-- Putting back what is there changes nothing. -/
theorem assign_of_lookup {name : String} {v : β} {entries : List (String × β)}
    (h : entries.lookup name = some v) : assign name v entries = entries := by
  induction entries with
  | nil => cases h
  | cons entry entries ih =>
    obtain ⟨other, u⟩ := entry
    by_cases hother : other = name
    · subst hother
      rw [List.lookup_cons_self] at h
      cases h
      simp [assign]
    · have hname : (name == other) = false := by simpa using Ne.symm hother
      simp only [List.lookup, hname] at h
      simp only [assign, if_neg hother, ih h]

end Names

variable {α ε δ β γ : Type}

namespace Store

/-- The store with an extractor under a name and its session in another state. -/
def put (s : Store α) (t : Session α) (name : String) (x : Extractor α) : Store α :=
  { s with session := t, extractors := assign name x s.extractors }

theorem extractor?_put (s : Store α) (t : Session α) (name : String) (x : Extractor α) :
    (s.put t name x).extractor? name = some x := lookup_assign_self name x s.extractors

theorem put_put (s : Store α) (t u : Session α) (name : String) (x y : Extractor α) :
    (s.put t name x).put u name y = s.put u name y := by
  simp only [put, assign_assign]

theorem put_eq {s : Store α} {name : String} {x : Extractor α} (hx : s.extractor? name = some x)
    (t : Session α) : s.put t name x = { s with session := t } := by
  unfold put
  rw [assign_of_lookup hx]

/-- What is left behind when an operation on the extractor `x` of a name ends: the new extractor in
its place, or else the old one. -/
def settle (s : Store α) (name : String) (x : Extractor α) :
    Except ε (Extractor α) × Session α → Except ε Unit × Store α
  | (.ok y, t) => (.ok (), s.put t name y)
  | (.error e, t) => (.error e, s.put t name x)

theorem settle_of_extractor {s : Store α} {name : String} {x : Extractor α}
    (hx : s.extractor? name = some x) (op : Run α Fault (Extractor α)) :
    s.settle name x (op.run s.session) = s.keep name op := by
  unfold keep
  rcases op.run s.session with ⟨e | y, t⟩
  · show (Except.error e, s.put t name x) = _
    rw [put_eq hx]
  · rfl

end Store

/-! ## Running programs -/

namespace Program

theorem run_bind (p : Program α ε β) (next : β → Program α ε γ) (s : Store α) :
    (p >>= next).run s =
      match p.run s with
      | (.ok b, t) => (next b).run t
      | (.error e, t) => (.error e, t) := by
  simp only [bind, ExceptT.bind, ExceptT.mk, ExceptT.run, StateT.bind]
  rcases p s with ⟨_ | _, _⟩ <;> rfl

theorem run_outcome (p : Program α δ β) (s : Store α) :
    (outcome p : Program α ε (Except δ β)).run s = (.ok (p.run s).1, (p.run s).2) := rfl

theorem run_get (s : Store α) : (get : Program α ε (Store α)).run s = (.ok s, s) := rfl

theorem run_modify (f : Store α → Store α) (s : Store α) :
    (modify f : Program α ε PUnit).run s = (.ok (), f s) := rfl

theorem run_extractor {s : Store α} {name : String} {x : Extractor α}
    (hx : s.extractor? name = some x) : (extractor name).run s = (.ok x, s) := by
  unfold extractor
  rw [run_bind, run_get]
  dsimp only
  rw [hx]
  rfl

theorem run_extractor_none {s : Store α} {name : String} (hx : s.extractor? name = none) :
    (extractor name).run s = (.error .unknownName, s) := by
  unfold extractor
  rw [run_bind, run_get]
  dsimp only
  rw [hx]
  rfl

section Put

variable (s : Store α) (t : Session α) (name : String) (x : Extractor α)

theorem run_within_put (op : Run α ε β) :
    (within op).run (s.put t name x) = ((op.run t).1, s.put (op.run t).2 name x) := rfl

theorem run_write_put (change : Extractor α → Extractor α) :
    (write name change : Program α ε Unit).run (s.put t name x) =
      (.ok (), s.put t name (change x)) := by
  unfold write
  rw [run_modify, Store.extractor?_put]
  exact congrArg (Prod.mk _) (s.put_put t t name x (change x))

/-- A write goes on from the extractor that it leaves. -/
theorem run_write_bind (change : Extractor α → Extractor α) (next : Unit → Program α ε β) :
    (write name change >>= next).run (s.put t name x) =
      (next ()).run (s.put t name (change x)) := by
  rw [run_bind, run_write_put]

end Put

/-! ## Programs that write -/

variable [Scalar α] [Decomposition α]

omit [Scalar α] [Decomposition α] in
/-- The window and the stride of a configuration are never refused. -/
theorem mapping_ofValues (settings : Settings) :
    Mapping.ofValues (some settings.window.value) (some settings.stride.value) =
      .ok (.ofSettings settings) := by
  unfold Mapping.ofValues
  rw [Option.getD_some, Option.getD_some, Window.ofValue_value, Stride.ofValue_value]
  rfl

omit [Scalar α] [Decomposition α] in
/-- A setup is refused in the same way whatever it should result in. -/
theorem exists_run_reject (order window : Value) (e : Fault) (t : Session α) :
    ∃ e' u, (Extractor.reject order window e : Run α Fault Unit).run t = (.error e', u) ∧
      (Extractor.reject order window e : Run α Fault (Extractor α)).run t = (.error e', u) := by
  unfold Extractor.reject Run.answer
  split
  · split <;> exact ⟨_, _, rfl, rfl⟩
  · exact ⟨_, _, rfl, rfl⟩

omit [Scalar α] [Decomposition α] in
/-- So is a record. -/
theorem exists_run_rejectRecord (r : Record) (e : Fault) (t : Session α) :
    ∃ e' u, (Extractor.rejectRecord r e : Run α Fault Unit).run t = (.error e', u) ∧
      (Extractor.rejectRecord r e : Run α Fault (Extractor α)).run t = (.error e', u) := by
  unfold Extractor.rejectRecord Run.answer
  split <;> exact ⟨_, _, rfl, rfl⟩

theorem run_setup (s : Store α) (t : Session α) (name : String) (x : Extractor α)
    (order window : Value) :
    (setup name x order window).run (s.put t name x) =
      s.settle name x ((x.setup order window).run t) := by
  unfold setup Extractor.setup
  rw [run_bind, run_outcome, run_within_put, Run.run_bind, Run.run_outcome]
  rcases (x.prepare order window).run t with ⟨e | ⟨settings, model⟩, u⟩
  · obtain ⟨e', v, hunit, hextractor⟩ := exists_run_reject order window e u
    dsimp only
    rw [run_within_put, hunit, hextractor]
    rfl
  · dsimp only
    rw [run_bind, run_within_put, Run.run_bind]
    show (write name _ >>= fun _ => _).run (s.put _ name x) = _
    rw [run_write_bind, run_write_bind, mapping_ofValues, run_bind, run_within_put]
    show (write name _ >>= fun _ => _).run (s.put _ name _) = _
    rw [run_write_bind, run_write_bind, run_within_put]
    rfl

theorem run_clear (s : Store α) (t : Session α) (name : String) (x : Extractor α) :
    (clear name x).run (s.put t name x) = s.settle name x (x.clear.run t) := by
  unfold clear Extractor.clear
  rw [run_bind, run_setup, Run.run_bind]
  rcases (x.setup Settings.defaultOrder.value Settings.defaultWindow.value).run t with ⟨e | y, u⟩
  · rfl
  · rfl

omit [Decomposition α] in
/-- What becomes of a load depends on the pixels, on the features, and on the shape, in turn. What
comes after the features have been written does not take them back. -/
theorem run_load (s : Store α) (t : Session α) (name : String) (x : Extractor α)
    (image : ImageSource α) :
    (load name x image).run (s.put t name x) =
      match image.pixels with
      | .error e => (.error e, s.put t name x)
      | .ok pixels =>
        match extract x.backend pixels x.model.value.matrix x.window x.stride with
        | .error e => (.error e, s.put t name x)
        | .ok g =>
          match image.shape with
          | .error e => (.error e, s.put t name { x with features := g })
          | .ok shape =>
            (.ok (), s.put { t with
              journal := .loaded shape g.rows g.cols x.dimensions :: t.journal } name
                { x with features := g }) := by
  unfold load
  rw [run_bind, run_within_put]
  cases image.pixels with
  | error e => rfl
  | ok pixels =>
    show (within _ >>= fun _ => _).run (s.put t name x) = _
    rw [run_bind, run_within_put]
    dsimp only
    cases extract x.backend pixels x.model.value.matrix x.window x.stride with
    | error e => rfl
    | ok g =>
      show (write name _ >>= fun _ => _).run (s.put t name x) = _
      rw [run_write_bind, run_bind, run_within_put]
      cases image.shape with
      | error e => rfl
      | ok shape => rfl

omit [Decomposition α] in
/-- An image whose features could be extracted can be asked for its shape. -/
theorem exists_samples_of_extract {b : Backend} {image : ArrayLike α} {operator : StoredMatrix α}
    {w : Window} {d : Stride} {g : Grid α} (h : extract b image operator w d = .ok g) :
    ∃ samples, image.toSamples = .ok samples := by
  unfold extract at h
  split at h
  · obtain ⟨samples, hsamples, -⟩ := bind_eq_ok.1 h
    exact ⟨samples, mapError_eq_ok.1 hsamples⟩
  · cases h

omit [Decomposition α] in
/-- So the load of an image that answers the same every time is not refused in between. -/
theorem run_load_ofImage (s : Store α) (t : Session α) (name : String) (x : Extractor α)
    (image : ArrayLike α) :
    (load name x (.ofImage image)).run (s.put t name x) =
      s.settle name x ((x.load image).run t) := by
  rw [run_load]
  unfold Extractor.load ImageSource.ofImage
  rw [Run.run_bind]
  dsimp only
  cases hfeatures : extract x.backend image x.model.value.matrix x.window x.stride with
  | error e => rfl
  | ok features =>
    obtain ⟨samples, hsamples⟩ := exists_samples_of_extract hfeatures
    rw [hsamples]
    rfl

theorem run_configure (s : Store α) (t : Session α) (name : String) (x : Extractor α)
    (r : Record) :
    (configure name x r).run (s.put t name x) = s.settle name x ((x.configure r).run t) := by
  unfold configure Extractor.configure
  rw [run_bind, run_outcome, run_setup, Run.run_bind, Run.run_outcome]
  rcases (x.setup (.int r.order) (.int r.window)).run t with ⟨e | y, u⟩
  · obtain ⟨e', v, hunit, hextractor⟩ := exists_run_rejectRecord r e u
    show (within _).run (s.put u name x) = s.settle name x ((Extractor.rejectRecord r e).run u)
    rw [run_within_put, hunit, hextractor]
    rfl
  · rfl

theorem run_decode (s : Store α) (t : Session α) (name : String) (x : Extractor α)
    (data : Value) :
    (decode name x data).run (s.put t name x) =
      s.settle name x ((Extractor.ofData data (some x)).run t) := by
  unfold decode Extractor.ofData
  rw [run_bind, run_within_put, Run.run_bind]
  cases Record.ofValue data with
  | error e => rfl
  | ok r => exact run_configure s t name x r

theorem run_read (s : Store α) (t : Session α) (name : String) (x : Extractor α)
    (stream : String) (bytes : ByteStream) :
    (read name x stream bytes).run (s.put t name x) =
      (s.setStream stream (Extractor.readFrom bytes (some x)).2).settle name x
        ((Extractor.readFrom bytes (some x)).1.run t) := by
  unfold read Extractor.readFrom
  obtain ⟨data, rest⟩ := bytes.read Record.length
  dsimp only
  rw [run_bind]
  show ((if data.length < Record.length then throw (.record (.endOfStream data.length))
    else decode name x (.bytes data)) : Program α Fault Unit).run
      ((s.setStream stream rest).put t name x) = _
  split
  · rfl
  · exact run_decode _ t name x _

omit [Scalar α] [Decomposition α] in
/-- Field by field, an extractor is read while it is written if it is its own source. -/
theorem run_transfer (s : Store α) (t : Session α) (name source : String) (x : Extractor α)
    {other : Extractor α} (hother : (s.put t name x).extractor? source = some other)
    (field : Extractor α → Extractor α → Extractor α) :
    (transfer name source field).run (s.put t name x) =
      (.ok (), s.put t name (field other x)) := by
  unfold transfer
  rw [run_bind, run_extractor hother]
  exact run_write_put s t name x (field other)

omit [Scalar α] [Decomposition α] in
theorem run_copy (s : Store α) (t : Session α) (name source : String) (x : Extractor α)
    {other : Extractor α} (hother : (s.put t name x).extractor? source = some other) :
    (copy name source).run (s.put t name x) = (.ok (), s.put t name other.copyConfiguration) := by
  unfold copy
  by_cases hsource : source = name
  · -- every field is replaced by itself
    subst hsource
    rw [Store.extractor?_put] at hother
    cases hother
    simp only [run_bind, run_transfer s t source source _ (Store.extractor?_put s t source _)]
    rfl
  · have hkept (y : Extractor α) : (s.put t name y).extractor? source = some other := by
      rw [← hother]
      unfold Store.put Store.extractor?
      rw [lookup_assign_of_ne hsource, lookup_assign_of_ne hsource]
    simp only [run_bind, run_transfer s t name source _ (hkept _)]
    rfl

end Program

/-! ## Calls -/

namespace Store

theorem put_self {s : Store α} {name : String} {x : Extractor α}
    (hx : s.extractor? name = some x) : s.put s.session name x = s := put_eq hx s.session

/-- A program on the extractor of a name that settles as an operation does is the update by this
operation. -/
theorem run_eq_update {s : Store α} {name : String} {p : Extractor α → Program α Fault Unit}
    {op : Extractor α → Run α Fault (Extractor α)}
    (h : ∀ x, s.extractor? name = some x →
      (p x).run (s.put s.session name x) = s.settle name x ((op x).run s.session)) :
    (Program.extractor name >>= p).run s = s.update name op := by
  rw [Program.run_bind]
  unfold update
  cases hx : s.extractor? name with
  | none => rw [Program.run_extractor_none hx]
  | some x =>
    rw [Program.run_extractor hx]
    have hp := h x hx
    rw [put_self hx, settle_of_extractor hx] at hp
    exact hp

variable [Scalar α] [Decomposition α]

/-- A call that carries out a command writes field by field what the command puts in place as a
whole, and is refused when the command is. -/
theorem call_eq_step (s : Store α) {name : String} {c : Call α} {command : Command α}
    (h : c.CarriesOut name command) : s.call name c = s.step command := by
  cases h with
  | setup order window =>
    exact run_eq_update fun x _ => Program.run_setup s s.session name x order window
  | clear => exact run_eq_update fun x _ => Program.run_clear s s.session name x
  | load image => exact run_eq_update fun x _ => Program.run_load_ofImage s s.session name x image
  | copy source =>
    show (Program.extractor source >>= fun _ => _).run s = _
    rw [Program.run_bind]
    cases hsource : s.extractor? source with
    | none =>
      rw [Program.run_extractor_none hsource]
      simp only [step, hsource]
    | some other =>
      rw [Program.run_extractor hsource]
      simp only [step, hsource]
      refine run_eq_update fun x hx => ?_
      refine Program.run_copy s s.session name source x ?_
      rw [put_self hx]
      exact hsource
  | decode data =>
    exact run_eq_update fun x _ => Program.run_decode s s.session name x data
  | read stream =>
    show (Program.extractor name >>= fun _ => _).run s = _
    rw [Program.run_bind]
    cases hx : s.extractor? name with
    | none =>
      rw [Program.run_extractor_none hx]
      simp only [step, hx]
    | some x =>
      rw [Program.run_extractor hx]
      simp only [step, hx]
      show (get >>= fun _ => _ : Program α Fault Unit).run s = s.readRecord stream name (some x)
      rw [Program.run_bind, Program.run_get]
      unfold readRecord
      dsimp only
      cases s.stream? stream with
      | none => rfl
      | some bytes =>
        have hread := Program.run_read s s.session name x stream bytes
        rw [put_self hx] at hread
        exact hread.trans (settle_of_extractor (s := s.setStream stream _) hx _)

/-- Where a command or a call is refused, the extractors are those given. -/
def UnchangedIfRefused (extractors : List (String × Extractor α))
    (result : Except Fault Unit × Store α) : Prop :=
  ∀ e, result.1 = .error e → result.2.extractors = extractors

omit [Scalar α] [Decomposition α] in
theorem keep_unchanged (s : Store α) (name : String) (op : Run α Fault (Extractor α)) :
    UnchangedIfRefused s.extractors (s.keep name op) := by
  intro e h
  unfold keep at h ⊢
  generalize op.run s.session = result at h ⊢
  rcases result with ⟨e' | y, t⟩
  · rfl
  · cases h

omit [Scalar α] [Decomposition α] in
theorem update_unchanged (s : Store α) (name : String)
    (op : Extractor α → Run α Fault (Extractor α)) :
    UnchangedIfRefused s.extractors (s.update name op) := by
  unfold update
  split
  · exact keep_unchanged s name _
  · exact fun e _ => rfl

theorem readRecord_unchanged (s : Store α) (stream name : String)
    (target : Option (Extractor α)) :
    UnchangedIfRefused s.extractors (s.readRecord stream name target) := by
  unfold readRecord
  split
  · exact fun e _ => rfl
  · rename_i bytes _
    exact keep_unchanged (s.setStream stream (Extractor.readFrom bytes target).2) name _

/-- A refused command changes no extractor, whether it is new, changed or read. -/
theorem step_unchanged (s : Store α) (c : Command α) :
    UnchangedIfRefused s.extractors (s.step c) := by
  cases c with
  | construct name | fromConfiguration name | decode name => exact keep_unchanged s name _
  | setup name | clear name | load name | unload name | decodeInto name =>
    exact update_unchanged s name _
  | read stream name => exact readRecord_unchanged s stream name none
  | openStream =>
    intro e h
    cases h
  | copy name source =>
    simp only [step]
    split
    · exact update_unchanged s name _
    · exact fun e _ => rfl
  | readInto stream name =>
    simp only [step]
    split
    · exact readRecord_unchanged s stream name _
    · exact fun e _ => rfl
  | seek stream position =>
    simp only [step]
    split
    · split
      · intro e h
        cases h
      · exact fun e _ => rfl
    · exact fun e _ => rfl
  | write name stream =>
    simp only [step]
    split
    · intro e h
      cases h
    · exact fun e _ => rfl

/-! ## Calls that only read -/

/-- A program that leaves the store as it is, whatever it finds. -/
def OnlyReads (p : Program α ε β) : Prop := ∀ s, (p.run s).2 = s

omit [Scalar α] [Decomposition α] in
theorem onlyReads_pure {b : β} : OnlyReads (pure b : Program α ε β) := fun _ => rfl

omit [Scalar α] [Decomposition α] in
theorem onlyReads_bind {p : Program α ε β} {next : β → Program α ε γ} (hp : OnlyReads p)
    (hnext : ∀ b, OnlyReads (next b)) : OnlyReads (p >>= next) := by
  intro s
  have hfirst := hp s
  rw [Program.run_bind]
  rcases hrun : p.run s with ⟨e | b, t⟩ <;> rw [hrun] at hfirst
  · exact hfirst
  · exact (hnext b t).trans hfirst

omit [Scalar α] [Decomposition α] in
theorem onlyReads_extractor (name : String) :
    OnlyReads (Program.extractor name : Program α Fault (Extractor α)) := by
  intro s
  cases hx : s.extractor? name with
  | none => rw [Program.run_extractor_none hx]
  | some x => rw [Program.run_extractor hx]

omit [Scalar α] [Decomposition α] in
theorem onlyReads_check {cause : δ → ε} {r : Except δ β} :
    OnlyReads (Program.within (Run.check cause r) : Program α ε β) := by
  intro s
  cases r <;> rfl

theorem call_select (s : Store α) (name : String) (index : Value) :
    (s.call name (.select index)).2 = s :=
  onlyReads_bind (onlyReads_extractor name)
    (fun _ => onlyReads_bind onlyReads_check fun _ => onlyReads_pure) s

theorem call_descriptorOf (s : Store α) (name : String) (window : ImageSource α) :
    (s.call name (.descriptorOf window)).2 = s :=
  onlyReads_bind (onlyReads_extractor name) (fun _ => onlyReads_bind onlyReads_check fun _ =>
    onlyReads_bind onlyReads_check fun _ => onlyReads_pure) s

/-! ## Refused calls -/

/-- Whether a call to an extractor is refused after it has written features: it loads an image that
gives its pixels, the features can be extracted from them, and then the image refuses to give its
shape. -/
def RefusedLate (s : Store α) (name : String) (c : Call α) (e : Fault) (x : Extractor α)
    (g : Grid α) : Prop :=
  s.extractor? name = some x ∧ ∃ image pixels, c = .load image ∧ image.pixels = .ok pixels ∧
    extract x.backend pixels x.model.value.matrix x.window x.stride = .ok g ∧
    image.shape = .error e

omit [Decomposition α] in
/-- A load is refused before it has written anything, or else late. -/
theorem load_refused {s t : Store α} {name : String} {x : Extractor α}
    (hx : s.extractor? name = some x) {image : ImageSource α} {e : Fault}
    (h : (Program.load name x image).run (s.put s.session name x) = (.error e, t)) :
    t.extractors = s.extractors ∨ ∃ g, s.RefusedLate name (.load image) e x g := by
  rw [Program.run_load] at h
  cases hpixels : image.pixels with
  | error e' =>
    rw [hpixels] at h
    cases h
    exact .inl (congrArg extractors (put_self hx))
  | ok pixels =>
    rw [hpixels] at h
    dsimp only at h
    cases hg : extract x.backend pixels x.model.value.matrix x.window x.stride with
    | error e' =>
      rw [hg] at h
      cases h
      exact .inl (congrArg extractors (put_self hx))
    | ok g =>
      rw [hg] at h
      dsimp only at h
      cases hshape : image.shape with
      | error e' =>
        rw [hshape] at h
        cases h
        exact .inr ⟨g, hx, image, pixels, rfl, hpixels, hg, hshape⟩
      | ok shape =>
        rw [hshape] at h
        cases h

theorem run_call_load {s : Store α} {name : String} {x : Extractor α}
    (hx : s.extractor? name = some x) (image : ImageSource α) :
    s.call name (.load image) = (Program.load name x image).run (s.put s.session name x) := by
  show (Program.extractor name >>= fun _ => _).run s = _
  rw [Program.run_bind, Program.run_extractor hx, put_self hx]

/-- **A refused call leaves every extractor as it was, unless an image changes its answer.** Whatever
a call asks of an extractor and whatever its arguments are: if an image gives its pixels and then
refuses to give its shape, its load is refused, and exactly the features of the extractor that was
called are those of the image. If a call is refused in any other case, then no field of any extractor
has been written, not even of the one that was called. That is so for every call that is a command,
which is refused exactly as the command. -/
theorem call_refused (s : Store α) (name : String) (c : Call α) :
    (∀ e x g, s.RefusedLate name c e x g → ∃ t, s.call name c = (.error e, t) ∧
      t.extractors = assign name { x with features := g } s.extractors) ∧
    ∀ e t, s.call name c = (.error e, t) →
      ((∀ x g, ¬s.RefusedLate name c e x g) → t.extractors = s.extractors) ∧
      ∀ command, c.CarriesOut name command →
        t.extractors = s.extractors ∧ s.step command = (.error e, t) := by
  refine ⟨?_, fun e t h => ?_⟩
  · rintro e x g ⟨hx, image, pixels, rfl, hpixels, hg, hshape⟩
    refine ⟨s.put s.session name { x with features := g }, ?_, rfl⟩
    rw [run_call_load hx, Program.run_load, hpixels]
    dsimp only
    rw [hg]
    dsimp only
    rw [hshape]
  have hcommand (command : Command α) (hc : c.CarriesOut name command) :
      t.extractors = s.extractors ∧ s.step command = (.error e, t) := by
    have hstep := call_eq_step s hc
    rw [h] at hstep
    have hunchanged := step_unchanged s command e
    rw [← hstep] at hunchanged
    exact ⟨hunchanged rfl, hstep.symm⟩
  refine ⟨fun hlate => ?_, hcommand⟩
  have hstore : t = (s.call name c).2 := by rw [h]
  cases c with
  | setup order window => exact (hcommand _ (.setup order window)).1
  | clear => exact (hcommand _ .clear).1
  | copy source => exact (hcommand _ (.copy source)).1
  | decode data => exact (hcommand _ (.decode data)).1
  | read stream => exact (hcommand _ (.read stream)).1
  | select index => rw [hstore, call_select]
  | descriptorOf window => rw [hstore, call_descriptorOf]
  | load image =>
    cases hx : s.extractor? name with
    | none =>
      have hrun : s.call name (.load image) = (.error .unknownName, s) := by
        show (Program.extractor name >>= fun _ => _).run s = _
        rw [Program.run_bind, Program.run_extractor_none hx]
      rw [hstore, hrun]
    | some x =>
      rw [run_call_load hx] at h
      exact (load_refused hx h).resolve_right fun ⟨g, hg⟩ => hlate x g hg

/-- An image that answers only once: it gives its pixels and not its shape. -/
def answeringOnce (image : ArrayLike α) : ImageSource α where
  pixels := .ok image
  shape := .error (.file (.missing "image.png"))

/-- An extractor with the features of an image, called to take its configuration from a record with
an even window: the record is refused after it was read, and all three features are still there. But
the load of a narrower image that answers only once is refused with the one feature of that image in
their place. -/
theorem call_refused_even_window :
    letI := Decomposition.byColumns
    let image (cols : Nat) : ArrayLike (Exact ℚ) :=
      .array (Samples.ofMatrix ⟨7, cols, Table.ofFn fun r c => .number ((r.val : ℚ) * c.val + 1)⟩)
    let s : Store (Exact ℚ) := Store.empty.run
      [.construct "a" (some (.int 1)) (some (.int 7)) (some (.int 1)) none, .load "a" (image 9)]
    let record : Record := ⟨1, 4⟩
    (∃ e t, s.call "a" (.decode (.bytes record.encode)) = (.error e, t) ∧
      t.extractors = s.extractors ∧
      (t.extractor? "a").map (fun x => x.features.shape) = some [1, 3, 2]) ∧
    ∃ e t, s.call "a" (.load (answeringOnce (image 7))) = (.error e, t) ∧
      (t.extractor? "a").map (fun x => x.features.shape) = some [1, 1, 2] := by
  intro image s record
  let := Decomposition.byColumns
  have hrefused : (s.call "a" (.decode (.bytes record.encode))).1.isOk = false := by
    decide +kernel
  have hshape : (s.extractor? "a").map (fun x => x.features.shape) = some [1, 3, 2] := by
    decide +kernel
  have hfeatures : (s.extractor? "a").bind (fun x =>
      (extract x.backend (image 7) x.model.value.matrix x.window x.stride).toOption.map
        Grid.shape) = some [1, 1, 2] := by
    decide +kernel
  constructor
  · rcases hcall : s.call "a" (.decode (.bytes record.encode)) with ⟨e | u, t⟩
    · have hunchanged := (((call_refused s "a" _).2 e t hcall).2 _ (.decode _)).1
      refine ⟨e, t, rfl, hunchanged, ?_⟩
      rw [extractor?, hunchanged]
      exact hshape
    · rw [hcall] at hrefused
      cases hrefused
  · obtain ⟨x, hx, hgrid⟩ := Option.bind_eq_some_iff.1 hfeatures
    obtain ⟨g, hg, hgshape⟩ := Option.map_eq_some_iff.1 hgrid
    cases hextract : extract x.backend (image 7) x.model.value.matrix x.window x.stride with
    | error e =>
      rw [hextract] at hg
      cases hg
    | ok g' =>
      rw [hextract] at hg
      cases hg
      obtain ⟨t, hcall, ht⟩ := (call_refused s "a" (.load (answeringOnce (image 7)))).1 _ x g
        ⟨hx, _, _, rfl, rfl, hextract, rfl⟩
      refine ⟨_, t, hcall, ?_⟩
      rw [extractor?, ht, lookup_assign_self]
      exact congrArg some hgshape

/-- Not every refused call leaves all extractors as they were: an extractor without features has one
after the refused load of an image that answers only once. -/
theorem not_unchanged_answering_once :
    letI := Decomposition.byColumns
    ¬∀ (commands : List (Command (Exact ℚ))) (name : String) (c : Call (Exact ℚ)) (e : Fault)
      (t : Store (Exact ℚ)), (empty.run commands).call name c = (.error e, t) →
      t.extractors = (empty.run commands).extractors := by
  let := Decomposition.byColumns
  intro h
  let image : ArrayLike (Exact ℚ) :=
    .array (Samples.ofMatrix ⟨3, 3, Table.ofFn fun r c => .number ((r.val : ℚ) * c.val + 1)⟩)
  let commands : List (Command (Exact ℚ)) :=
    [.construct "a" (some (.int 1)) (some (.int 3)) none none]
  let c : Call (Exact ℚ) := .load (answeringOnce image)
  have hrefused : ((empty.run commands).call "a" c).1.isOk = false := by decide +kernel
  have hbefore : ((empty.run commands).extractor? "a").map Extractor.size = some 0 := by
    decide +kernel
  have hafter : (((empty.run commands).call "a" c).2.extractor? "a").map Extractor.size = some 1 := by
    decide +kernel
  rcases hcall : (empty.run commands).call "a" c with ⟨e | u, t⟩
  · have hunchanged := h commands "a" c e t hcall
    rw [hcall, extractor?, hunchanged] at hafter
    cases hbefore.symm.trans hafter
  · rw [hcall] at hrefused
    cases hrefused

end Store

end Facet
