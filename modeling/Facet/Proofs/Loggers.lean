import Mathlib
import Facet.Logging.Registry
import Facet.Proofs.Folders

/-!
# Handlers of loggers

A logger that is set up again keeps the handlers that it has. It is known by what one call does: the
logger of the name gets the level and what it does not have yet of a console handler and a handler for
the file, and all other loggers stay as they are. By induction on the calls a logger then has one
handler for the console and one for each file, in the order in which they were first asked for.
-/

namespace Facet

/-! ## Elements without repetition -/

section EraseDups

variable {β : Type} [BEq β] [LawfulBEq β]

/-- Only the first occurrence of an element counts. -/
theorem eraseDups_append_singleton (l : List β) (a : β) :
    (l ++ [a]).eraseDups = if l.contains a then l.eraseDups else l.eraseDups ++ [a] := by
  rw [List.eraseDups_append]
  by_cases ha : a ∈ l
  · simp [ha, List.removeAll]
  · simp [ha, List.removeAll, List.eraseDups_cons]

theorem nodup_eraseDups (l : List β) : l.eraseDups.Nodup := by
  induction l using List.reverseRecOn with
  | nil => exact .nil
  | append_singleton l a ih =>
    rw [eraseDups_append_singleton]
    split
    · exact ih
    · rename_i ha
      refine List.nodup_append.2 ⟨ih, List.nodup_singleton a, ?_⟩
      rintro b hb c hc rfl
      rw [List.mem_singleton.1 hc, List.mem_eraseDups] at hb
      exact ha (List.contains_iff_mem.2 hb)

end EraseDups

/-! ## Handlers of one logger -/

namespace Logger

variable {l : Logger} {files : List Path}

theorem hasConsole_iff : l.hasConsole = true ↔ .console ∈ l.handlers := by
  rw [hasConsole, List.any_eq_true]
  constructor
  · rintro ⟨h, hmem, hstream⟩
    cases h with
    | console => exact hmem
    | file place => cases hstream
  · intro hmem
    exact ⟨.console, hmem, rfl⟩

theorem hasFile_iff {p : Path} : l.hasFile p = true ↔ .file p ∈ l.handlers := by
  rw [hasFile, List.any_eq_true]
  constructor
  · rintro ⟨h, hmem, hfile⟩
    cases h with
    | console => cases hfile
    | file place =>
      obtain rfl : place = p := by simpa [Handler.file?] using hfile
      exact hmem
  · intro hmem
    exact ⟨.file p, hmem, by simp [Handler.file?]⟩

/-- Whether a logger writes to the console and to some files, and has its handlers in this order. -/
def WritesTo (l : Logger) (files : List Path) : Prop :=
  l.handlers = .console :: files.map .file

theorem WritesTo.nodup (h : l.WritesTo files) (hfiles : files.Nodup) : l.handlers.Nodup := by
  rw [h]
  refine List.nodup_cons.2 ⟨by simp, hfiles.map fun p q hpq => ?_⟩
  exact Handler.file.inj hpq

theorem writesTo_attachConsole_of_nil (h : l.handlers = []) : l.attachConsole.WritesTo [] := by
  simp [WritesTo, attachConsole, attach, hasConsole, h]

theorem WritesTo.attachConsole (h : l.WritesTo files) : l.attachConsole.WritesTo files := by
  have hconsole : l.hasConsole = true := by
    rw [hasConsole_iff, h]
    exact List.mem_cons_self
  rwa [Logger.attachConsole, if_pos hconsole]

theorem WritesTo.hasFile_iff (h : l.WritesTo files) {p : Path} :
    l.hasFile p = true ↔ p ∈ files := by
  rw [Logger.hasFile_iff, h]
  simp

/-- A handler for a file is added if the file is a new one. -/
theorem WritesTo.attachNew (h : l.WritesTo files) (p : Path) :
    (if l.hasFile p = true then l else l.attach (.file p)).WritesTo
      (if p ∈ files then files else files ++ [p]) := by
  by_cases hp : p ∈ files
  · rw [if_pos hp, if_pos (h.hasFile_iff.2 hp)]
    exact h
  · have hhandlers : l.handlers = .console :: files.map .file := h
    rw [if_neg hp, if_neg (mt h.hasFile_iff.1 hp), WritesTo, attach]
    simp [hhandlers]

end Logger

/-! ## One call -/

/-- A call that sets up a logger. -/
structure SetUp where
  /-- The name of the logger. -/
  name : String
  /-- The level, if one is given. -/
  level : Option Value
  /-- The path of the log file, if there is one. -/
  path : Option String

namespace SetUp

/-- Whether a call is about the logger of a name. -/
def isFor (q : SetUp) (name : String) : Bool := Logger.keptName q.name == Logger.keptName name

/-- The level that is set. -/
def given (q : SetUp) : Value := q.level.getD (.int Level.standard)

/-- The place of the log file. -/
def place? (q : SetUp) : Option Path := Registry.filePlace? q.path

/-- What a call does to the loggers. -/
def run (q : SetUp) (r : Registry) : Except Fault Unit × Registry := r.setup q.name q.level q.path

theorem isFor_iff {q : SetUp} {name : String} :
    q.isFor name = true ↔ Logger.keptName name = Logger.keptName q.name := by
  rw [isFor, beq_iff_eq, eq_comm]

end SetUp

namespace Registry

variable {r : Registry} {name other : String} {p : Path}

theorem logger_congr (h : Logger.keptName name = Logger.keptName other) (r : Registry) :
    r.logger name = r.logger other := by
  rw [logger, logger, Logger.fresh, Logger.fresh, h]

/-- A logger that is put under a name is the logger of this name and of no other. -/
theorem logger_put (r : Registry) (name : String) (l : Logger) (other : String) :
    (r.put name l).logger other =
      if Logger.keptName other = Logger.keptName name then l else r.logger other := by
  rw [logger, put, List.lookup_cons]
  by_cases h : Logger.keptName other = Logger.keptName name
  · rw [if_pos h, beq_iff_eq.2 h]
    rfl
  · rw [if_neg h, beq_eq_false_iff_ne.2 h, lookup_filter_ne h]
    rfl

/-- What becomes of a registry when a file handler is added: nothing if there is one already, and
otherwise, once the file can be opened, the handler is put behind the others. -/
theorem addFile_cases (r : Registry) (name : String) (p : Path) :
    ((r.logger name).hasFile p = true ∧ r.addFile name p = (.ok (), r)) ∨
    (¬(r.logger name).hasFile p = true ∧ ∃ folder, r.addFile name p =
      (.ok (), { r with folder }.put name ((r.logger name).attach (.file p)))) ∨
    ∃ e folder, r.addFile name p = (.error e, { r with folder }) := by
  by_cases hfile : (r.logger name).hasFile p = true
  · exact .inl ⟨hfile, by simp only [addFile, hfile, if_true]⟩
  · cases hopen : openFile r.folder p with
    | mk result folder =>
      cases result with
      | ok _ => exact .inr (.inl ⟨hfile, folder, by simp only [addFile, if_neg hfile, hopen]⟩)
      | error e => exact .inr (.inr ⟨e, folder, by simp only [addFile, if_neg hfile, hopen]⟩)

theorem logger_addFile (h : (r.addFile name p).1 = .ok ()) :
    (r.addFile name p).2.logger name =
      if (r.logger name).hasFile p = true then r.logger name
      else (r.logger name).attach (.file p) := by
  obtain ⟨hfile, hadd⟩ | ⟨hfile, folder, hadd⟩ | ⟨e, folder, hadd⟩ := r.addFile_cases name p
  · rw [hadd, if_pos hfile]
  · rw [hadd, logger_put, if_pos rfl, if_neg hfile]
  · rw [hadd] at h
    cases h

theorem logger_addFile_of_ne (h : Logger.keptName other ≠ Logger.keptName name) :
    (r.addFile name p).2.logger other = r.logger other := by
  obtain ⟨-, hadd⟩ | ⟨-, folder, hadd⟩ | ⟨e, folder, hadd⟩ := r.addFile_cases name p
  · rw [hadd]
  · rw [hadd, logger_put, if_neg h]
    rfl
  · rw [hadd]
    rfl

end Registry

namespace SetUp

variable {q : SetUp} {r : Registry} {name : String} {own : List SetUp} {l : Logger}

/-- The loggers with a new level and a console handler for one of them. -/
def atLevel (q : SetUp) (r : Registry) (level : Int) : Registry :=
  r.put q.name ({ r.logger q.name with level, shown := Level.shown q.given level }.attachConsole)

/-- What a call does: nothing if the level is refused; otherwise the logger gets its level and a
console handler, and then a file handler if there is a file. -/
theorem run_cases (q : SetUp) (r : Registry) :
    (∃ e, q.run r = (.error e, r)) ∨
    ∃ level, Level.ofValue q.given = .ok level ∧
      ((q.place? = none ∧ q.run r = (.ok (), q.atLevel r level)) ∨
        ∃ p, q.place? = some p ∧ q.run r = (q.atLevel r level).addFile q.name p) := by
  unfold run Registry.setup
  cases hlevel : Level.ofValue q.given with
  | error e =>
    rw [given] at hlevel
    exact .inl ⟨.argument e, by simp only [hlevel]⟩
  | ok level =>
    refine .inr ⟨level, rfl, ?_⟩
    rw [given] at hlevel
    cases hplace : q.place? with
    | none =>
      rw [place?] at hplace
      exact .inl ⟨rfl, by simp only [hlevel, hplace]; rfl⟩
    | some p =>
      rw [place?] at hplace
      exact .inr ⟨p, rfl, by simp only [hlevel, hplace]; rfl⟩

/-- A call for one logger leaves all others as they are, whether it succeeds or not. -/
theorem logger_run_of_not_isFor (h : ¬q.isFor name = true) (r : Registry) :
    (q.run r).2.logger name = r.logger name := by
  have hne : Logger.keptName name ≠ Logger.keptName q.name := fun heq => h (isFor_iff.2 heq)
  have hlevel (level : Int) : (q.atLevel r level).logger name = r.logger name := by
    rw [atLevel, Registry.logger_put, if_neg hne]
  obtain ⟨e, hrun⟩ | ⟨level, -, ⟨-, hrun⟩ | ⟨p, -, hrun⟩⟩ := q.run_cases r
  · rw [hrun]
  · rw [hrun, hlevel]
  · rw [hrun, Registry.logger_addFile_of_ne hne, hlevel]

/-- The files that calls ask for, each of them once and in the order in which it was asked for. -/
def files (calls : List SetUp) : List Path := (calls.filterMap place?).eraseDups

theorem files_append_singleton (own : List SetUp) (q : SetUp) :
    files (own ++ [q]) =
      match q.place? with
      | none => files own
      | some p => if p ∈ files own then files own else files own ++ [p] := by
  rw [files, List.filterMap_append]
  cases hplace : q.place? with
  | none => simp [hplace, files]
  | some p =>
    rw [List.filterMap_cons_some hplace, List.filterMap_nil, eraseDups_append_singleton]
    simp [files]

/-- What is known of a logger after all calls that were for it: without any it has no handlers, and
otherwise it has the level of the last and the handlers that were asked for. -/
def Shapes (own : List SetUp) (l : Logger) : Prop :=
  match own.getLast? with
  | none => l.handlers = []
  | some q => Level.ofValue q.given = .ok l.level ∧ l.WritesTo (files own)

theorem shapes_iff (hq : own.getLast? = some q) :
    Shapes own l ↔ Level.ofValue q.given = .ok l.level ∧ l.WritesTo (files own) := by
  rw [Shapes, hq]

theorem level_atLevel (q : SetUp) (r : Registry) (level : Int) :
    ((q.atLevel r level).logger q.name).level = level := by
  rw [atLevel, Registry.logger_put, if_pos rfl, Logger.attachConsole]
  split <;> rfl

theorem Shapes.atLevel (h : Shapes own (r.logger q.name)) (level : Int) :
    ((q.atLevel r level).logger q.name).WritesTo (files own) := by
  rw [SetUp.atLevel, Registry.logger_put, if_pos rfl]
  unfold Shapes at h
  split at h
  · rename_i hnone
    obtain rfl := List.getLast?_eq_none_iff.1 hnone
    exact Logger.writesTo_attachConsole_of_nil h
  · exact Logger.WritesTo.attachConsole h.2

/-- One more call for a logger. -/
theorem Shapes.run (h : Shapes own (r.logger q.name)) (hrun : (q.run r).1 = .ok ()) :
    Shapes (own ++ [q]) ((q.run r).2.logger q.name) := by
  rw [shapes_iff List.getLast?_concat, files_append_singleton]
  obtain ⟨e, hcase⟩ | ⟨level, hgiven, ⟨hplace, hcase⟩ | ⟨p, hplace, hcase⟩⟩ := q.run_cases r
  · rw [hcase] at hrun
    cases hrun
  · rw [hcase, hgiven, hplace, level_atLevel]
    exact ⟨rfl, h.atLevel level⟩
  · rw [hcase] at hrun ⊢
    rw [Registry.logger_addFile hrun, hgiven, hplace]
    refine ⟨?_, (h.atLevel level).attachNew p⟩
    split
    · rw [level_atLevel]
    · exact congrArg Except.ok (level_atLevel q r level).symm

/-! ## All calls -/

/-- Calls that succeed, one after the other. -/
inductive Succeed (r : Registry) : List SetUp → Registry → Prop where
  /-- There is no call. -/
  | none : Succeed r [] r
  /-- One more call succeeds. -/
  | call {calls : List SetUp} {next : Registry} (before : Succeed r calls next) (q : SetUp)
      (h : (q.run next).1 = .ok ()) : Succeed r (calls ++ [q]) (q.run next).2

variable {last : Registry} {calls : List SetUp}

/-- Calls that were not for a logger do not matter for it. -/
theorem Succeed.logger_eq (h : Succeed r calls last) (hname : ∀ q ∈ calls, ¬q.isFor name = true) :
    last.logger name = r.logger name := by
  induction h with
  | none => rfl
  | call before q hq ih =>
    rw [logger_run_of_not_isFor (hname q (by simp))]
    exact ih fun other hother => hname other (List.mem_append_left _ hother)

theorem Succeed.shapes (h : Succeed r calls last) (hr : ∀ name, (r.logger name).handlers = [])
    (name : String) : Shapes (calls.filter (·.isFor name)) (last.logger name) := by
  induction h with
  | none => exact hr name
  | call before q hq ih =>
    rw [List.filter_append, List.filter_singleton]
    by_cases hname : q.isFor name = true
    · rw [hname, cond_true]
      rw [Registry.logger_congr (isFor_iff.1 hname)] at ih ⊢
      exact ih.run hq
    · rw [eq_false_of_ne_true hname, cond_false, List.append_nil, logger_run_of_not_isFor hname]
      exact ih

/-- **Handlers do not pile up.** Let no logger have a handler, and let any calls that set up loggers
succeed, one after the other. Then every logger for which there was a call has the level of the last
one and these handlers: one for the console and, in the order in which they were first asked for, one
for each file. A logger without a call is what it was, and no call, whether it succeeds or not, changes
another logger than its own. -/
theorem handlers_of_calls (hr : ∀ name, (r.logger name).handlers = []) (h : Succeed r calls last) :
    (∀ name q, (calls.filter (·.isFor name)).getLast? = some q →
      let l := last.logger name
      Level.ofValue q.given = .ok l.level ∧
      l.handlers = .console :: (files (calls.filter (·.isFor name))).map .file ∧
      l.handlers.Nodup) ∧
    (∀ name, (∀ q ∈ calls, ¬q.isFor name = true) → last.logger name = r.logger name) ∧
    ∀ (q : SetUp) (r : Registry) (name : String), ¬q.isFor name = true →
      (q.run r).2.logger name = r.logger name := by
  refine ⟨fun name q hq => ?_, fun name hname => h.logger_eq hname,
    fun q r name hname => logger_run_of_not_isFor hname r⟩
  obtain ⟨hlevel, hwrites⟩ := (shapes_iff hq).1 (h.shapes hr name)
  exact ⟨hlevel, hwrites, hwrites.nodup (nodup_eraseDups _)⟩

/-- Two loggers, one of them under two names, and a file under two paths. -/
theorem handlers_of_calls_root_and_run :
    let r := Registry.empty (.empty "home") "now"
    let first : SetUp := ⟨"run", none, some "log/run.txt"⟩
    let second : SetUp := ⟨"", some (.text "DEBUG"), some "x"⟩
    let third : SetUp := ⟨"run", some (.int 5), some "log/./old/../run.txt"⟩
    let fourth : SetUp := ⟨"root", none, some "y"⟩
    (∀ name, (r.logger name).handlers = []) ∧
    ∃ last, Succeed r [first, second, third, fourth] last ∧
      (last.logger "run").handlers = [.console, .file ["log", "run.txt"]] ∧
      (last.logger "run").level = 5 ∧
      (last.logger "root").handlers = [.console, .file ["x"], .file ["y"]] ∧
      (last.logger "other").handlers = [] := by
  intro r first second third fourth
  have hr : ∀ name, (r.logger name).handlers = [] := fun _ => rfl
  have hok (q : SetUp) (next : Registry) (h : (q.run next).1.toBool = true) :
      (q.run next).1 = .ok () := by
    cases hresult : (q.run next).1 with
    | ok _ => rfl
    | error e =>
      rw [hresult] at h
      cases h
  have hone := Succeed.none.call first (hok first r (by decide +kernel))
  have htwo := hone.call second (hok _ _ (by decide +kernel))
  have hthree := htwo.call third (hok _ _ (by decide +kernel))
  have hrun := hthree.call fourth (hok _ _ (by decide +kernel))
  obtain ⟨hown, hother, -⟩ := handlers_of_calls hr hrun
  obtain ⟨hlevel, hhandlers, -⟩ := hown "run" third rfl
  obtain ⟨-, hroot, -⟩ := hown "root" fourth rfl
  refine ⟨hr, _, hrun, ?_, ?_, ?_, ?_⟩
  · rw [hhandlers]
    rfl
  · exact (Except.ok.inj hlevel).symm
  · rw [hroot]
    rfl
  · rw [hother "other" (by decide)]
    exact hr "other"

end SetUp

end Facet
