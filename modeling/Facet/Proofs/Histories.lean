import Mathlib
import Facet.Proofs.Operations

/-!
# Histories of a store

A run carries out commands one after the other, and those among them that are not refused are its
accepted commands. All that is known of a store after a run follows from what one command can do to
it: it is refused and changes no extractor, it concerns no extractor, or it puts one coherent
extractor under one name. So every extractor stays coherent, its features are those of the image
that was loaded by the last accepted command about it, if that was a load, and its stride and its
backend stay what they are until its name is taken by another configuration.
-/

namespace Facet

/-! ## Values by name -/

section Names

variable {β : Type}

theorem lookup_assign_self (name : String) (value : β) (entries : List (String × β)) :
    (assign name value entries).lookup name = some value := by
  induction entries with
  | nil => simp [assign]
  | cons entry entries ih =>
    obtain ⟨other, v⟩ := entry
    by_cases h : other = name
    · simp [assign, h]
    · have hname : (name == other) = false := by simpa using Ne.symm h
      simp only [assign, if_neg h, List.lookup, hname, ih]

theorem lookup_assign_of_ne {name other : String} (h : other ≠ name) (value : β)
    (entries : List (String × β)) :
    (assign name value entries).lookup other = entries.lookup other := by
  have hother : (other == name) = false := by simpa using h
  induction entries with
  | nil => simp [assign, List.lookup, hother]
  | cons entry entries ih =>
    obtain ⟨third, v⟩ := entry
    by_cases hthird : third = name
    · simp [assign, hthird, List.lookup, hother]
    · simp only [assign, if_neg hthird, List.lookup, ih]

end Names

variable {α : Type}

/-! ## What a command is about -/

namespace Command

/-- The name of the extractor that a command makes or changes. -/
def target? : Command α → Option String
  | .construct name .. | .fromConfiguration name _ | .setup name .. | .clear name | .load name _
  | .unload name | .copy name _ | .decode name _ | .decodeInto name _ | .read _ name
  | .readInto _ name => some name
  | .openStream .. | .seek .. | .write .. => none

/-- The image that a command loads. -/
def image? : Command α → Option (ArrayLike α)
  | .load _ image => some image
  | _ => none

/-- Whether a command makes a new extractor or copies a configuration into one: only then the
extractor of its name gets another stride or backend. -/
def replaces : Command α → Bool
  | .construct .. | .fromConfiguration .. | .copy .. | .decode .. | .read .. => true
  | _ => false

end Command

/-- The image that the extractor of a name holds the features of after some accepted commands: the
one loaded by the last of them that is about it, unless that is no load. -/
def lastImage (name : String) (accepted : List (Command α)) : Option (ArrayLike α) :=
  (accepted.filter fun c => c.target? = some name).getLast?.bind Command.image?

theorem lastImage_append_singleton (name : String) (accepted : List (Command α)) (c : Command α) :
    lastImage name (accepted ++ [c]) =
      if c.target? = some name then c.image? else lastImage name accepted := by
  unfold lastImage
  by_cases h : c.target? = some name <;> simp [List.filter_append, h]

namespace Store

variable [Scalar α] [Decomposition α]

/-- Whether a command is not refused. -/
def accepts (s : Store α) (c : Command α) : Bool := (s.step c).1.isOk

/-- The commands of a run that are not refused. -/
def accepted (s : Store α) : List (Command α) → List (Command α)
  | [] => []
  | c :: rest => (if s.accepts c then [c] else []) ++ (s.step c).2.accepted rest

theorem run_append (s : Store α) (before after : List (Command α)) :
    s.run (before ++ after) = (s.run before).run after := List.foldl_append

theorem run_append_singleton (s : Store α) (before : List (Command α)) (c : Command α) :
    s.run (before ++ [c]) = ((s.run before).step c).2 := s.run_append before [c]

theorem accepted_append (s : Store α) (before after : List (Command α)) :
    s.accepted (before ++ after) = s.accepted before ++ (s.run before).accepted after := by
  induction before generalizing s with
  | nil => rfl
  | cons c before ih =>
    have hrest := ih (s.step c).2
    simp only [List.cons_append, accepted, hrest, List.append_assoc]
    rfl

/-! ## One command -/

/-- What a command can do to the extractors of a store, which are given as they were before. The
cache holds computed models only in any case. -/
inductive Effect (before : List (String × Extractor α)) (c : Command α) :
    Except Fault Unit × Store α → Prop
  /-- It is refused. -/
  | refused {e : Fault} {t : Store α} (extractors : t.extractors = before)
    (sound : t.session.Sound) : Effect before c (.error e, t)
  /-- It is about a stream. -/
  | elsewhere {t : Store α} (target : c.target? = none) (extractors : t.extractors = before)
    (sound : t.session.Sound) : Effect before c (.ok (), t)
  /-- It puts a coherent extractor under a name, which holds the features of the image that the
  command loads and has the stride and backend of the one that it takes the place of, unless the
  command replaces them. -/
  | changed {name : String} {y : Extractor α} {t : Store α} (target : c.target? = some name)
    (extractors : t.extractors = assign name y before) (sound : t.session.Sound)
    (coherent : y.Coherent c.image?)
    (sampling : c.replaces = false → ∀ x, before.lookup name = some x → x.SameSampling y) :
    Effect before c (.ok (), t)

/-- The cache holds computed models only, and every extractor is coherent with the image of its
name. -/
structure Consistent (s : Store α) (images : String → Option (ArrayLike α)) : Prop where
  /-- The cache holds computed models only. -/
  sound : s.session.Sound
  /-- Every extractor is coherent. -/
  coherent : ∀ name x, s.extractor? name = some x → x.Coherent (images name)

theorem keep_effect {s : Store α} {c : Command α} {name : String}
    {op : Run α Fault (Extractor α)} {good : Extractor α → Prop} (hs : s.session.Sound)
    (htarget : c.target? = some name) (hop : Run.Yields Session.Sound op good)
    (hcoherent : ∀ y, good y → y.Coherent c.image?)
    (hsampling : c.replaces = false → ∀ x y, s.extractor? name = some x → good y →
      x.SameSampling y) :
    Effect s.extractors c (s.keep name op) := by
  obtain ⟨hsound, hgood⟩ := hop s.session hs
  unfold keep
  rcases hrun : op.run s.session with ⟨e | y, t⟩ <;> simp only [hrun] at hsound hgood ⊢
  · exact .refused rfl hsound
  · have hy := hgood y rfl
    exact .changed htarget rfl hsound (hcoherent y hy) fun hc x hx => hsampling hc x y hx hy

/-- An operation that changes an extractor keeps its stride and backend, unless the command says
otherwise. -/
theorem update_effect {s : Store α} {c : Command α} {name : String}
    {op : Extractor α → Run α Fault (Extractor α)} (hs : s.session.Sound)
    (htarget : c.target? = some name)
    (hop : ∀ x, s.extractor? name = some x → Run.Yields Session.Sound (op x) fun y =>
      y.Coherent c.image? ∧ (c.replaces = false → x.SameSampling y)) :
    Effect s.extractors c (s.update name op) := by
  unfold update
  cases hx : s.extractor? name with
  | none => exact .refused rfl hs
  | some x =>
    refine keep_effect hs htarget (hop x hx) (fun y hy => hy.1) fun hc x' y hx' hy => ?_
    rw [hx] at hx'
    cases hx'
    exact hy.2 hc

theorem readRecord_effect {s : Store α} {c : Command α} {stream name : String}
    {target : Option (Extractor α)} (hs : s.session.Sound) (htarget : c.target? = some name)
    (himage : c.image? = none)
    (hsource : c.replaces = false → s.extractor? name = target) :
    Effect s.extractors c (s.readRecord stream name target) := by
  unfold readRecord
  cases s.stream? stream with
  | none => exact .refused rfl hs
  | some bytes =>
    -- the stream has moved on already, but the extractors are still those from before
    show Effect (s.setStream stream (Extractor.readFrom bytes target).2).extractors c _
    refine keep_effect hs htarget (Extractor.readFrom_yields bytes target) (fun y hy => ?_)
      fun hc x y hx hy => hy.2 x ?_
    · rw [himage]
      exact hy.1
    · rw [← hsource hc]
      exact hx

/-- Whatever a command is, it has one of these effects. -/
theorem step_effect {s : Store α} {images : String → Option (ArrayLike α)}
    (hs : s.Consistent images) (c : Command α) : Effect s.extractors c (s.step c) := by
  cases c with
  | construct name order window stride backend =>
    exact keep_effect hs.sound rfl (Extractor.construct_yields order window stride backend)
      (fun _ hy => hy) nofun
  | fromConfiguration name config =>
    exact keep_effect hs.sound rfl (Extractor.fromConfiguration_yields config)
      (fun _ hy => hy) nofun
  | setup name order window =>
    refine update_effect hs.sound rfl fun x _ => ?_
    exact (Extractor.setup_yields x order window).mono fun y hy => ⟨hy.1, fun _ => hy.2⟩
  | clear name =>
    refine update_effect hs.sound rfl fun x _ => ?_
    exact (Extractor.clear_yields x).mono fun y hy => ⟨hy.1, fun _ => hy.2⟩
  | load name image =>
    refine update_effect hs.sound rfl fun x hx => ?_
    exact (Extractor.load_yields (hs.coherent name x hx) image).mono fun y hy =>
      ⟨hy.1, fun _ => hy.2⟩
  | unload name =>
    refine update_effect hs.sound rfl fun x hx => ?_
    exact (Extractor.unload_yields (hs.coherent name x hx)).mono fun y hy =>
      ⟨hy.1, fun _ => hy.2⟩
  | copy name source =>
    cases hsource : s.extractor? source with
    | none =>
      simp only [step, hsource]
      exact .refused rfl hs.sound
    | some other =>
      simp only [step, hsource]
      refine update_effect hs.sound rfl fun x _ => Run.yields_pure ⟨?_, nofun⟩
      exact (hs.coherent source other hsource).copyConfiguration
  | decode name data =>
    exact keep_effect hs.sound rfl (Extractor.ofData_yields data none) (fun _ hy => hy.1) nofun
  | decodeInto name data =>
    refine update_effect hs.sound rfl fun x _ => ?_
    exact (Extractor.ofData_yields data (some x)).mono fun y hy => ⟨hy.1, fun _ => hy.2 x rfl⟩
  | openStream stream bytes => exact .elsewhere rfl rfl hs.sound
  | seek stream position =>
    simp only [step]
    cases s.stream? stream with
    | none => exact .refused rfl hs.sound
    | some bytes =>
      dsimp only
      split
      · exact .elsewhere rfl rfl hs.sound
      · exact .refused rfl hs.sound
  | read stream name => exact readRecord_effect hs.sound rfl rfl nofun
  | readInto stream name =>
    cases hx : s.extractor? name with
    | none =>
      simp only [step, hx]
      exact .refused rfl hs.sound
    | some x =>
      simp only [step, hx]
      exact readRecord_effect hs.sound rfl rfl fun _ => hx
  | write name stream =>
    simp only [step]
    split
    · exact .elsewhere rfl rfl hs.sound
    · exact .refused rfl hs.sound

/-- A command keeps a store consistent; it changes the image of no other name than its own, and
that only if it is not refused. -/
theorem Consistent.step {s : Store α} {images : String → Option (ArrayLike α)}
    (hs : s.Consistent images) (c : Command α) :
    (s.step c).2.Consistent fun name =>
      if s.accepts c ∧ c.target? = some name then c.image? else images name := by
  have heffect := step_effect hs c
  unfold accepts
  generalize s.step c = result at heffect ⊢
  cases heffect with
  | refused hextractors hsound =>
    refine ⟨hsound, fun name x hx => ?_⟩
    rw [extractor?, hextractors] at hx
    simpa [Except.isOk, Except.toBool] using hs.coherent name x hx
  | elsewhere htarget hextractors hsound =>
    refine ⟨hsound, fun name x hx => ?_⟩
    rw [extractor?, hextractors] at hx
    simpa [htarget] using hs.coherent name x hx
  | @changed own y t htarget hextractors hsound hcoherent hsampling =>
    -- the new extractor is coherent by the effect, all others as they were
    refine ⟨hsound, fun name x hx => ?_⟩
    rw [extractor?, hextractors] at hx
    by_cases hname : name = own
    · subst hname
      rw [lookup_assign_self] at hx
      cases hx
      simpa [htarget, Except.isOk, Except.toBool] using hcoherent
    · rw [lookup_assign_of_ne hname] at hx
      simpa [htarget, Ne.symm hname] using hs.coherent name x hx

/-- An extractor keeps its stride and its backend under every command but those that replace
them. -/
theorem Consistent.sampling_step {s : Store α} {images : String → Option (ArrayLike α)}
    (hs : s.Consistent images) {c : Command α} {name : String} {x : Extractor α}
    (hx : s.extractor? name = some x)
    (hc : s.accepts c → c.target? = some name → c.replaces = false) :
    ∃ y, (s.step c).2.extractor? name = some y ∧ x.SameSampling y := by
  have heffect := step_effect hs c
  unfold accepts at hc
  generalize s.step c = result at heffect hc ⊢
  cases heffect with
  | refused hextractors hsound =>
    refine ⟨x, ?_, rfl, rfl⟩
    rw [extractor?, hextractors]
    exact hx
  | elsewhere htarget hextractors hsound =>
    refine ⟨x, ?_, rfl, rfl⟩
    rw [extractor?, hextractors]
    exact hx
  | @changed own y t htarget hextractors hsound hcoherent hsampling =>
    by_cases hname : name = own
    · subst hname
      refine ⟨y, ?_, hsampling (hc rfl htarget) x hx⟩
      rw [extractor?, hextractors, lookup_assign_self]
    · refine ⟨x, ?_, rfl, rfl⟩
      rw [extractor?, hextractors, lookup_assign_of_ne hname]
      exact hx

/-! ## Runs -/

theorem empty_consistent : (empty : Store α).Consistent fun _ => none :=
  ⟨Session.start_sound, nofun⟩

/-- One more command changes the image of its own name only, and that only if it is not refused. -/
theorem lastImage_accepted_append_singleton (name : String) (s : Store α)
    (commands : List (Command α)) (c : Command α) :
    lastImage name (s.accepted (commands ++ [c])) =
      if (s.run commands).accepts c ∧ c.target? = some name then c.image?
      else lastImage name (s.accepted commands) := by
  rw [accepted_append, accepted, accepted, List.append_nil]
  by_cases hc : (s.run commands).accepts c
  · simp only [hc, if_true, true_and, lastImage_append_singleton]
  · simp [hc]

/-- After an accepted load the image is the one that was loaded. -/
theorem lastImage_accepted_append_load (name : String) (s : Store α) (commands : List (Command α))
    (image : ArrayLike α) (h : (s.run commands).accepts (.load name image) = true) :
    lastImage name (s.accepted (commands ++ [.load name image])) = some image := by
  rw [lastImage_accepted_append_singleton, if_pos ⟨h, rfl⟩]
  rfl

/-- After every run each extractor is coherent with the image that the last accepted command about
it loaded. -/
theorem run_consistent (commands : List (Command α)) :
    (empty.run commands).Consistent fun name => lastImage name (empty.accepted commands) := by
  induction commands using List.reverseRecOn with
  | nil => exact empty_consistent
  | append_singleton commands c ih =>
    -- the images after the last command are those before it, but for its own name
    have himages := fun name => lastImage_accepted_append_singleton name empty commands c
    rw [run_append, funext himages]
    exact ih.step c

/-- Over a run without accepted commands that replace them, an extractor keeps its stride and its
backend. -/
theorem Consistent.sampling_run {s : Store α} {images : String → Option (ArrayLike α)}
    (hs : s.Consistent images) (commands : List (Command α)) {name : String} {x : Extractor α}
    (hx : s.extractor? name = some x)
    (hkept : ∀ c ∈ s.accepted commands, c.target? = some name → c.replaces = false) :
    ∃ y, (s.run commands).extractor? name = some y ∧ x.SameSampling y := by
  induction commands generalizing s images x with
  | nil => exact ⟨x, hx, rfl, rfl⟩
  | cons c rest ih =>
    have hfirst : s.accepts c → c.target? = some name → c.replaces = false := fun hc =>
      hkept c (by simp [accepted, hc])
    obtain ⟨y, hy, hstride, hbackend⟩ := hs.sampling_step hx hfirst
    obtain ⟨z, hz, hstride', hbackend'⟩ := ih (hs.step c) hy fun d hd =>
      hkept d (List.mem_append_right _ hd)
    exact ⟨z, hz, hstride'.trans hstride, hbackend'.trans hbackend⟩

end Store

end Facet
