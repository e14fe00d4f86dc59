import Mathlib
import Facet.Proofs.Records
import Facet.Proofs.Refusals

/-!
# Records in a stream

A stream holds records one after the other and nothing between them. What is written stands behind
what was written before, and since every record is sixteen bytes long, one read takes what one write
has put there, whatever follows. So the configurations are read in the order in which they were
written, and then the stream stands where the last record ends. A record of which a part is missing
is refused.
-/

namespace Facet

/-! ## Bytes in a stream -/

namespace ByteStream

/-- What is written at the end of a stream stands behind what is there. -/
theorem write_end (before data : List UInt8) :
    write ⟨before, before.length⟩ data = ⟨before ++ data, (before ++ data).length⟩ := by
  have hafter : before.drop (before.length + data.length) = [] :=
    List.drop_eq_nil_of_le (Nat.le_add_right _ _)
  simp only [write, List.take_length, Nat.sub_self, List.replicate_zero, List.append_nil, hafter,
    List.length_append]

/-- What is read stands between what was read before and what follows. -/
theorem read_middle {data after : List UInt8} {count : Nat} (h : (data ++ after).take count = data)
    (before : List UInt8) : read ⟨before ++ (data ++ after), before.length⟩ count =
      (data, ⟨before ++ (data ++ after), (before ++ data).length⟩) := by
  rw [read, List.drop_left, h, List.length_append]

end ByteStream

variable {α : Type} [Scalar α] [Decomposition α]

namespace Extractor

omit [Scalar α] [Decomposition α] in
theorem length_bytes (x : Extractor α) : x.bytes.length = 16 := x.record.length_encode

omit [Scalar α] [Decomposition α] in
theorem length_flatMap_bytes (xs : List (Extractor α)) :
    (xs.flatMap bytes).length = 16 * xs.length := by
  simp only [List.length_flatMap, length_bytes, List.map_const', List.sum_replicate, smul_eq_mul,
    Nat.mul_comm]

/-- Where fewer bytes are left than a record has, the reader is refused. -/
theorem readFrom_of_length_lt {rest : List UInt8} (h : rest.length < 16) (before : List UInt8)
    (target : Option (Extractor α)) :
    (readFrom ⟨before ++ rest, before.length⟩ target).1 =
      throw (.record (.endOfStream rest.length)) := by
  have htake : (rest ++ []).take Record.length = rest := by
    rw [List.append_nil]
    exact List.take_of_length_le h.le
  have hread := ByteStream.read_middle htake before
  rw [List.append_nil] at hread
  rw [readFrom, hread]
  dsimp only
  rw [if_pos (show rest.length < Record.length from h)]

/-- Where the bytes of an extractor come next, the reader is configured by them. -/
theorem readFrom_bytes (x : Extractor α) (before after : List UInt8)
    (target : Option (Extractor α)) :
    readFrom ⟨before ++ (x.bytes ++ after), before.length⟩ target =
      (ofData (.bytes x.bytes) target,
        ⟨before ++ (x.bytes ++ after), (before ++ x.bytes).length⟩) := by
  have hlength : x.bytes.length = Record.length := x.length_bytes
  have htake : (x.bytes ++ after).take Record.length = x.bytes := List.take_left' hlength
  have hread := ByteStream.read_middle htake before
  rw [readFrom, hread]
  dsimp only
  rw [if_neg (Nat.not_lt.2 hlength.ge)]

end Extractor

namespace Store

omit [Scalar α] [Decomposition α] in
theorem stream?_setStream (s : Store α) (name : String) (b : ByteStream) :
    (s.setStream name b).stream? name = some b := lookup_assign_self name b s.streams

omit [Scalar α] [Decomposition α] in
theorem extractor?_setStream (s : Store α) (stream : String) (b : ByteStream) (name : String) :
    (s.setStream stream b).extractor? name = s.extractor? name := rfl

/-! ## Writing -/

/-- Extractors are written behind one another, and nothing but the stream is changed. -/
theorem run_writes {stream : String} {names : List String} {xs : List (Extractor α)} {s : Store α}
    (hnames : names.map s.extractor? = xs.map some)
    {before : List UInt8} (hs : s.stream? stream = some ⟨before, before.length⟩) :
    let t := s.run (names.map fun name => .write name stream)
    let bytes := before ++ xs.flatMap Extractor.bytes
    t.session = s.session ∧ (∀ name, t.extractor? name = s.extractor? name) ∧
      t.stream? stream = some ⟨bytes, bytes.length⟩ := by
  induction names generalizing xs s before with
  | nil =>
    obtain rfl := List.map_eq_nil_iff.1 hnames.symm
    refine ⟨rfl, fun _ => rfl, ?_⟩
    rw [List.flatMap_nil, List.append_nil]
    exact hs
  | cons name names ih =>
    obtain ⟨x, xs, rfl, hx, hrest⟩ := List.map_eq_cons_iff.1 hnames.symm
    let moved := s.setStream stream ⟨before ++ x.bytes, (before ++ x.bytes).length⟩
    have hstep : (s.step (.write name stream)).2 = moved := by
      rw [step, ← hx, hs]
      dsimp only
      rw [Extractor.writeTo, ByteStream.write_end]
    have hrun (rest : List (Command α)) : s.run (.write name stream :: rest) = moved.run rest :=
      congrArg (run · rest) hstep
    have hmoved : names.map moved.extractor? = xs.map some := hrest.symm
    obtain ⟨hsession, hextractors, hstream⟩ := ih hmoved (s.stream?_setStream stream _)
    rw [List.map_cons, hrun, List.flatMap_cons, ← List.append_assoc]
    exact ⟨hsession, hextractors, hstream⟩

/-- On a new stream they stand at its start. -/
theorem run_open_writes {names : List String} {xs : List (Extractor α)} {s : Store α}
    (hnames : names.map s.extractor? = xs.map some) (stream : String) :
    let t := s.run (.openStream stream [] :: names.map fun name => .write name stream)
    let bytes := xs.flatMap Extractor.bytes
    t.session = s.session ∧ (∀ name, t.extractor? name = s.extractor? name) ∧
      t.stream? stream = some ⟨bytes, bytes.length⟩ := by
  have hopened : names.map (s.setStream stream ⟨[], 0⟩).extractor? = xs.map some := hnames
  exact run_writes hopened (s.stream?_setStream stream ⟨[], 0⟩)

/-! ## Reading -/

/-- A command that reads the next record of a stream: into a new extractor, or into one that is
there. -/
inductive Reads (s : Store α) (stream : String) : Command α → Prop
  /-- A new extractor gets the name. -/
  | fresh (name : String) : Reads s stream (.read stream name)
  /-- The extractor of the name is changed. -/
  | into {name : String} {z : Extractor α} (found : s.extractor? name = some z) :
    Reads s stream (.readInto stream name)

/-- Whether a command leaves an extractor without features that has the order and the window of a
given one. -/
def Restores (s : Store α) (c : Command α) (x : Extractor α) : Prop :=
  s.Leaves c fun y => y.order = x.order ∧ y.window = x.window ∧ y.size = 0

/-- Commands that read one record of a stream after the other. -/
inductive ReadsInTurn (stream : String) : Store α → List (Command α) → Prop
  | nil (s : Store α) : ReadsInTurn stream s []
  | cons {s : Store α} {c : Command α} {reads : List (Command α)} (first : s.Reads stream c)
    (others : ReadsInTurn stream (s.step c).2 reads) : ReadsInTurn stream s (c :: reads)

/-- Commands each of which leaves an extractor with the configuration of one of a list, one after the
other. -/
inductive RestoresInTurn : Store α → List (Command α) → List (Extractor α) → Prop
  | nil (s : Store α) : RestoresInTurn s [] []
  | cons {s : Store α} {c : Command α} {x : Extractor α} {reads : List (Command α)}
    {xs : List (Extractor α)} (first : s.Restores c x)
    (others : RestoresInTurn (s.step c).2 reads xs) : RestoresInTurn s (c :: reads) (x :: xs)

variable {s : Store α} {stream : String} {c : Command α}

theorem Reads.exists_step_eq (hc : s.Reads stream c) : ∃ name target,
    c.target? = some name ∧ s.step c = s.readRecord stream name target := by
  cases hc with
  | fresh name => exact ⟨name, none, rfl, rfl⟩
  | @into name z found =>
    refine ⟨name, some z, rfl, ?_⟩
    rw [step, found]

/-- A record is refused where the stream ends before it does. -/
theorem Reads.of_length_lt (hc : s.Reads stream c) {before rest : List UInt8}
    (hs : s.stream? stream = some ⟨before ++ rest, before.length⟩) (h : rest.length < 16) :
    (s.step c).1 = .error (.record (.endOfStream rest.length)) := by
  obtain ⟨name, target, -, hstep⟩ := hc.exists_step_eq
  rw [hstep, readRecord, hs]
  dsimp only
  refine keep_of_error name ?_
  rw [Extractor.readFrom_of_length_lt h]
  rfl

/-- Where the bytes of an extractor come next, its configuration is restored, and the stream then
stands behind them. -/
theorem Reads.of_bytes (hα : Decomposition.Reliable α) (hc : s.Reads stream c)
    (hsound : s.session.Sound) {x : Extractor α} (hbuild : FitModel.CanBuild α x.order x.window)
    (hside : x.window.side < 2 ^ 63) {before after : List UInt8}
    (hs : s.stream? stream = some ⟨before ++ (x.bytes ++ after), before.length⟩) :
    s.Restores c x ∧ (s.step c).2.session.Sound ∧ (s.step c).2.stream? stream =
      some ⟨before ++ (x.bytes ++ after), (before ++ x.bytes).length⟩ := by
  obtain ⟨name, target, htarget, hstep⟩ := hc.exists_step_eq
  -- the stream has moved on when the record is used
  obtain ⟨u, hu⟩ : ∃ u, u =
      s.setStream stream ⟨before ++ (x.bytes ++ after), (before ++ x.bytes).length⟩ := ⟨_, rfl⟩
  have hmoved : s.step c = u.keep name (Extractor.ofData (.bytes x.bytes) target) := by
    rw [hstep, readRecord, hs, hu]
    dsimp only
    rw [Extractor.readFrom_bytes]
  have husound : u.session.Sound := by
    rw [hu]
    exact hsound
  obtain ⟨hok, hsound', hstreams, y, hname, horder, hwindow, hcoherent⟩ :=
    keep_ofData_of_decode hα name target husound (Extractor.decode_bytes hside) hbuild
  rw [Restores, Leaves, accepts, hmoved, hok]
  refine ⟨⟨rfl, name, y, htarget, hname, horder, hwindow, hcoherent.size_eq_zero⟩, hsound', ?_⟩
  rw [stream?, hstreams, hu]
  exact s.stream?_setStream stream _

/-- As many reads as there are records restore one after the other, and the stream then stands
behind the last record. -/
theorem ReadsInTurn.of_bytes (hα : Decomposition.Reliable α) {reads : List (Command α)}
    (hreads : ReadsInTurn stream s reads) (hsound : s.session.Sound) {xs : List (Extractor α)}
    (hbuild : ∀ x ∈ xs, FitModel.CanBuild α x.order x.window)
    (hsides : ∀ x ∈ xs, x.window.side < 2 ^ 63) (hlength : reads.length = xs.length)
    {before tail : List UInt8}
    (hs : s.stream? stream =
      some ⟨before ++ (xs.flatMap Extractor.bytes ++ tail), before.length⟩) :
    s.RestoresInTurn reads xs ∧ (s.run reads).stream? stream =
      some ⟨before ++ xs.flatMap Extractor.bytes ++ tail,
        (before ++ xs.flatMap Extractor.bytes).length⟩ := by
  induction hreads generalizing xs before with
  | nil s =>
    obtain rfl := List.length_eq_zero_iff.1 hlength.symm
    refine ⟨.nil s, ?_⟩
    rw [List.flatMap_nil, List.append_nil]
    exact hs
  | cons first others ih =>
    obtain ⟨x, xs, rfl⟩ := List.exists_cons_of_length_eq_add_one hlength.symm
    rw [List.flatMap_cons, List.append_assoc] at hs
    obtain ⟨hfirst, hsound', hs'⟩ := first.of_bytes hα hsound (hbuild x List.mem_cons_self)
      (hsides x List.mem_cons_self) hs
    rw [← List.append_assoc before] at hs'
    obtain ⟨hothers, hend⟩ := ih hsound' (fun y hy => hbuild y (List.mem_cons_of_mem _ hy))
      (fun y hy => hsides y (List.mem_cons_of_mem _ hy)) (Nat.succ.inj hlength) hs'
    refine ⟨.cons hfirst hothers, ?_⟩
    rw [List.flatMap_cons, ← List.append_assoc]
    exact hend

/-- **What is written to a stream is read from it, one record after the other.** After any run, write
any extractors whose windows have sides of 64 bits to a new stream, and any bytes behind them. Then
read from the start as often as there were extractors, each time into a new extractor or into one
that is there. No read is refused, and they yield extractors without features that have the orders
and the windows of those that were written, one after the other. The stream then stands exactly
where the other bytes begin. If these are fewer than sixteen, the next read is refused as a malformed
record and changes no extractor. -/
theorem read_written (hα : Decomposition.Reliable α) (commands : List (Command α))
    (stream : String) {names : List String} {xs : List (Extractor α)}
    (hnames : names.map (empty.run commands).extractor? = xs.map some)
    (hsides : ∀ x ∈ xs, x.window.side < 2 ^ 63) (tail : List UInt8) :
    let written := empty.run
      (commands ++ .openStream stream [] :: names.map fun name => .write name stream)
    ∃ b, written.stream? stream = some b ∧
      let s := written.setStream stream ((b.write tail).seek 0)
      ∀ reads, ReadsInTurn stream s reads → reads.length = xs.length →
        let t := s.run reads
        s.RestoresInTurn reads xs ∧
        (∃ rest, t.stream? stream = some rest ∧ rest.position = 16 * xs.length ∧
          rest.bytes.drop rest.position = tail) ∧
        (tail.length < 16 → ∀ c, t.Reads stream c →
          t.Refuses c .corruptData ∧ (t.step c).2.extractors = t.extractors) := by
  intro written
  have hconsistent := run_consistent commands
  have hbuild : ∀ x ∈ xs, FitModel.CanBuild α x.order x.window := by
    intro x hx
    have hmem := List.mem_map_of_mem (f := some) hx
    rw [← hnames] at hmem
    obtain ⟨name, -, hname⟩ := List.mem_map.1 hmem
    exact (hconsistent.coherent name x hname).canBuild
  obtain ⟨hsession, -, hstream⟩ := run_open_writes hnames stream
  rw [← run_append] at hsession hstream
  have hsound : written.session.Sound := by
    rw [hsession]
    exact hconsistent.sound
  refine ⟨_, hstream, ?_⟩
  intro s reads hreads hlength t
  have hs : s.stream? stream = some ⟨[] ++ (xs.flatMap Extractor.bytes ++ tail), 0⟩ := by
    rw [stream?_setStream, ByteStream.write_end]
    rfl
  obtain ⟨hrestored, hend⟩ := hreads.of_bytes hα hsound hbuild hsides hlength hs
  rw [List.nil_append] at hend
  refine ⟨hrestored, ⟨_, hend, Extractor.length_flatMap_bytes xs, List.drop_left⟩,
    fun htail c hc => ?_⟩
  have hrefused := hc.of_length_lt hend htail
  exact ⟨⟨_, hrefused, rfl⟩, step_unchanged t c _ hrefused⟩

/-- An extractor that is written twice is read twice, into itself and into a new one, and three bytes
behind its records are no record. -/
theorem read_written_twice :
    letI := Decomposition.real
    let make : Command (Exact ℝ) := .decode "a" (.bytes (Record.encode ⟨2, 5⟩))
    let written := empty.run
      ([make] ++ .openStream "s" [] :: ["a", "a"].map fun name => .write name "s")
    Decomposition.Reliable (Exact ℝ) ∧
    ∃ x, (empty.run [make]).extractor? "a" = some x ∧ x.window.side = 5 ∧
    ∃ b, written.stream? "s" = some b ∧
      let s := written.setStream "s" ((b.write [1, 2, 3]).seek 0)
      let t := s.run [.readInto "s" "a", .read "s" "b"]
      s.RestoresInTurn [.readInto "s" "a", .read "s" "b"] [x, x] ∧
      (∃ rest, t.stream? "s" = some rest ∧ rest.position = 32 ∧
        rest.bytes.drop rest.position = [1, 2, 3]) ∧
      t.Refuses (.read "s" "c") .corruptData := by
  let := Decomposition.real
  intro make written
  have hreliable : Decomposition.Reliable (Exact ℝ) := Decomposition.reliable_real
  have hdecode : Record.decode (Record.encode ⟨2, 5⟩) = .ok ⟨2, 5⟩ :=
    Record.decode_encode (by decide) (by decide)
  -- the extractor is made by the record of its configuration
  have hbuild := FitModel.canBuild_of_side_lt hreliable ⟨2, by decide, by decide⟩
    (show (⟨2, by decide⟩ : Window).side < 2 ^ 26 by decide)
  obtain ⟨-, -, -, x, hx, -, hwindow, -⟩ :=
    keep_ofData_of_decode (s := empty) hreliable "a" none Session.start_sound hdecode hbuild
  have hmake : empty.Decodes "a" (Record.encode ⟨2, 5⟩) none make := .fresh
  have hrun : empty.run [make] = (empty.step make).2 := empty.run_append_singleton [] make
  rw [← hmake.step_eq, ← hrun] at hx
  have hside : x.window.side = 5 := congrArg Window.side hwindow
  have hnames : ["a", "a"].map (empty.run [make]).extractor? = [x, x].map some :=
    congrArg₂ _ hx (congrArg₂ _ hx rfl)
  have hsides : ∀ y ∈ [x, x], y.window.side < 2 ^ 63 := by
    intro y hy
    obtain rfl : y = x := by simpa using hy
    omega
  obtain ⟨b, hb, hall⟩ := read_written hreliable [make] "s" hnames hsides [1, 2, 3]
  -- the extractor is still there after it has been written
  obtain ⟨-, hextractors, -⟩ := run_open_writes hnames "s"
  rw [← run_append] at hextractors
  have hfound : (written.setStream "s" ((b.write [1, 2, 3]).seek 0)).extractor? "a" = some x := by
    rw [extractor?_setStream]
    exact (hextractors "a").trans hx
  have hreads : ReadsInTurn "s" (written.setStream "s" ((b.write [1, 2, 3]).seek 0))
      [.readInto "s" "a", .read "s" "b"] := .cons (.into hfound) (.cons (.fresh "b") (.nil _))
  obtain ⟨hrestored, hrest, hrefused⟩ := hall _ hreads rfl
  obtain ⟨hlast, -⟩ := hrefused (by decide) (.read "s" "c") (.fresh "c")
  exact ⟨hreliable, x, hx, hside, b, hb, hrestored, hrest, hlast⟩

end Store

end Facet
