import KistCollector.Common.RowRecorder

/-!
# Opening a recorder again

`open` and `close` can be called in turn on one recorder. Each `open` rearms the queue and truncates
the files, but the counters, the offset of a blob and the sequence tracking stay as the last run left
them. So a recorder that is opened again behaves as a new one exactly as long as nothing was pushed
into it (`Recorder.restart_iff`).
-/

namespace Kist
namespace Recorder

variable {R σ α φ : Type}

/-- One cycle of `open`, pushes and `close`: the files and the capacity `open` is called with, and the
schedule of the run. -/
structure Cycle (α R : Type) where
  files : α
  capacity : Nat
  schedule : List (Label R)

@[simp] def Label.push? : Label R → Option R
  | .push r => some r
  | _ => none

/-- The records push is called with. -/
def pushes (ls : List (Label R)) : List R := ls.filterMap Label.push?

section
variable (W : Sink R σ) (openSink : α → σ → Bool × σ) (files : σ → φ)

/-- One cycle on the recorder `s`, with what it leaves in the files and in the counters. It ends with
`close` returned, no push in progress and no file failed. -/
def runCycle (s : Recorder R σ) (c : Cycle α R) : Option (Recorder R σ × φ × StreamStats) :=
  match s.openWith (openSink c.files) c.capacity with
  | (false, _) => none
  | (true, s₀) =>
    match (machine W).run s₀ c.schedule with
    | none => none
    | some (s', _) =>
      if s'.closer = .closed ∧ s'.producer.inFlight = 0 ∧ W.good s'.out = true then
        some (s', files s'.out, s'.stats W)
      else none

/-- Cycle after cycle on one recorder. -/
def runCycles : Recorder R σ → List (Cycle α R) → Option (List (φ × StreamStats))
  | _, [] => some []
  | s, c :: cs =>
    match runCycle W openSink files s c with
    | none => none
    | some (s', o) => (runCycles s' cs).map (o :: ·)

end

variable {W : Sink R σ} {openSink : α → σ → Bool × σ} {files : σ → φ} {s s₀ s' : Recorder R σ}

theorem runCycle_eq_some (h : runCycle W openSink files s c = some (s', o)) : ∃ out es,
    openSink c.files s.out = (true, out) ∧
    (machine W).run (s.start out c.capacity) c.schedule = some (s', es) ∧
    s'.closer = .closed ∧ s'.producer = .idle ∧ W.good s'.out = true ∧
    o = (files s'.out, s'.stats W) := by
  rcases hopen : openSink c.files s.out with ⟨ok, out⟩
  cases ok
  · simp [runCycle, openWith, hopen] at h
  cases hrun : (machine W).run (s.start out c.capacity) c.schedule with
  | none => simp [runCycle, openWith, hopen, hrun] at h
  | some p =>
    obtain ⟨s₁, es⟩ := p
    simp only [runCycle, openWith, hopen, hrun, Option.ite_none_right_eq_some, Option.some.injEq,
      Prod.mk.injEq] at h
    obtain ⟨⟨hc, hp, hg⟩, rfl, rfl⟩ := h
    refine ⟨out, es, rfl, hrun, hc, ?_, hg, rfl⟩
    cases hprod : s₁.producer <;> simp [hprod] at hp ⊢

theorem runCycles_cons (h : runCycles W openSink files s (c :: cs) = some outs) : ∃ s' o os,
    runCycle W openSink files s c = some (s', o) ∧
    runCycles W openSink files s' cs = some os ∧ outs = o :: os := by
  cases hc : runCycle W openSink files s c with
  | none => simp [runCycles, hc] at h
  | some p =>
    obtain ⟨s', o⟩ := p
    simp only [runCycles, hc, Option.map_eq_some_iff] at h
    obtain ⟨os, hos, rfl⟩ := h
    exact ⟨s', o, os, rfl, hos, rfl⟩

theorem pushed_eq_pushes (h : (machine W).run s₀ ls = some (s, es)) : pushed es = pushes ls := by
  refine Machine.run_induction (P := fun ls es _ => pushed es = pushes ls) rfl ?_ h
  intro ls es s l s' e _ ih hs
  rw [pushed_append, ih, pushes, pushes, List.filterMap_append]
  cases Step.of_step hs <;> rfl

/-- The counter `received` grows by the pushes of the cycle. -/
theorem runCycle_received (hp : s.producer = .idle)
    (h : runCycle W openSink files s c = some (s', o)) :
    s'.received = s.received + (pushes c.schedule).length ∧ o.2.received = s'.received := by
  obtain ⟨out, es, -, hrun, -, -, -, rfl⟩ := runCycle_eq_some h
  rw [← pushed_eq_pushes hrun]
  exact ⟨(Counts.of_run hp hrun).received, rfl⟩

/-! ## A recorder as new -/

/-- What makes a closed sink as good as new. It is untouched as long as nothing is written to it, and
untouched sinks cannot be told apart by opening them. -/
structure Reopens (W : Sink R σ) (openSink : α → σ → Bool × σ) (Untouched Closed : σ → Prop) :
    Prop where
  same : Untouched o → Closed o → Untouched o' → Closed o' → (openSink a o).1 = true →
    openSink a o' = openSink a o
  opened : Untouched o → openSink a o = (true, o') → Untouched o'
  flush : Untouched o → Untouched (W.flush o)
  close : Untouched o → Untouched (W.close o)
  closed : ∀ o, Closed (W.close o)

/-- Nothing was ever pushed into `s`, and its sink is closed. -/
structure AsNew (Untouched Closed : σ → Prop) (s : Recorder R σ) : Prop where
  untouched : Untouched s.out
  closed : Closed s.out
  producer : s.producer = .idle
  received : s.received = 0
  dropped : s.dropped = 0
  written : s.written = 0
  writeErrors : s.writeErrors = 0
  bytes : s.bytes = 0

variable {Untouched Closed : σ → Prop}

theorem AsNew.start_eq (H : AsNew Untouched Closed s) (H' : AsNew Untouched Closed s') (out : σ)
    (cap : Nat) : s.start out cap = s'.start out cap := by
  simp only [start, RecordQueue.open, H.producer, H'.producer, H.received, H'.received, H.dropped,
    H'.dropped, H.written, H'.written, H.writeErrors, H'.writeErrors, H.bytes, H'.bytes]

/-- Recorders as new run every cycle alike. -/
theorem AsNew.runCycle_eq (hR : Reopens W openSink Untouched Closed)
    (H : AsNew Untouched Closed s) (H' : AsNew Untouched Closed s') (c : Cycle α R) :
    runCycle W openSink files s c = runCycle W openSink files s' c := by
  have hsame := hR.same (a := c.files) H.untouched H.closed H'.untouched H'.closed
  have hsame' := hR.same (a := c.files) H'.untouched H'.closed H.untouched H.closed
  rcases ho : openSink c.files s.out with ⟨ok, out⟩
  rcases ho' : openSink c.files s'.out with ⟨ok', out'⟩
  rw [ho, ho'] at hsame hsame'
  cases ok
  · cases ok'
    · simp [runCycle, openWith, ho, ho']
    · cases hsame' rfl
  · cases hsame rfl
    simp only [runCycle, openWith, ho, ho', H.start_eq H']

/-- A cycle without pushes leaves a recorder as new. -/
theorem AsNew.of_no_pushes (hR : Reopens W openSink Untouched Closed)
    (H : AsNew Untouched Closed s) (h : runCycle W openSink files s c = some (s', o))
    (hc : pushes c.schedule = []) : AsNew Untouched Closed s' := by
  obtain ⟨out, es, hopen, hrun, hclosed, hidle, -, -⟩ := runCycle_eq_some h
  have hcounts := Counts.of_run H.producer hrun
  have hpushed : pushed es = [] := (pushed_eq_pushes hrun).trans hc
  have hlen := hcounts.pushed_length
  rw [hpushed, List.length_nil] at hlen
  have hacc : accepted es = [] := List.length_eq_zero_iff.mp (by omega)
  have hrefused : refused es = [] := List.length_eq_zero_iff.mp (by omega)
  obtain ⟨hwrote, htallied⟩ := closed_accepted hrun hclosed
  have hwrote : wrote es = [] := hwrote.symm.trans hacc
  have htallied : tallied es = [] := htallied.symm.trans hwrote
  obtain ⟨o, ho, hout⟩ := (out_induction (T := fun rs o => rs = [] → Untouched o)
    (fun _ => hR.opened H.untouched hopen) (fun _ _ hnil => by simp at hnil)
    (fun ho hnil => hR.flush (ho hnil)) hrun).2 hclosed
  have hwritten := hcounts.written
  have hboth := hcounts.tallied
  have hdropped := hcounts.dropped
  have hreceived := hcounts.received
  have hbytes := hcounts.bytes
  have hcounted : counted es = [] := by
    simp only [htallied, H.written, H.writeErrors, List.length_nil] at hboth
    exact List.length_eq_zero_iff.mp (by omega)
  simp only [(closed_drained hrun hclosed).2.2, hidle, hpushed, hrefused, hcounted, htallied,
    Writer.unsized, Producer.refusals, List.map_nil, List.sum_nil, List.length_nil, H.received,
    H.dropped, H.written, H.writeErrors, H.bytes] at hwritten hboth hdropped hreceived hbytes
  exact ⟨hout ▸ hR.close (ho hwrote), hout ▸ hR.closed o, hidle, hreceived, by omega, hwritten,
    by omega, by omega⟩

/-- **When a recorder can be opened again.** The outcomes of all cycles are those of new recorders
exactly if no cycle but the last pushes anything. -/
theorem outcomes_eq_iff (hR : Reopens W openSink Untouched Closed) {new : Recorder R σ}
    (hnew : AsNew Untouched Closed new) (H : AsNew Untouched Closed s)
    (h : runCycles W openSink files s cs = some outs) :
    outs.map some = cs.map (fun c => (runCycle W openSink files new c).map (·.2)) ↔
      ∀ c ∈ cs.dropLast, pushes c.schedule = [] := by
  induction cs generalizing s outs with
  | nil => cases h; simp
  | cons c cs ih =>
    obtain ⟨s', o, os, hc, hcs, rfl⟩ := runCycles_cons h
    have hfresh : (runCycle W openSink files new c).map (·.2) = some o := by
      rw [hnew.runCycle_eq hR H, hc]
      rfl
    rw [List.map_cons, List.map_cons, hfresh, List.cons.injEq, eq_self, true_and]
    cases cs with
    | nil => cases hcs; simp
    | cons c' cs =>
      rw [List.dropLast_cons_cons, List.forall_mem_cons]
      by_cases hpush : pushes c.schedule = []
      · rw [ih (H.of_no_pushes hR hc hpush) hcs]
        exact (and_iff_right hpush).symm
      · -- the second cycle already starts with a record counted
        refine iff_of_false (fun heq => ?_) (fun hand => hpush hand.1)
        obtain ⟨s'', o', os', hc', -, rfl⟩ := runCycles_cons hcs
        have hidle := (runCycle_eq_some hc).choose_spec.choose_spec.2.2.2.1
        have hhead := (List.cons.inj heq).1
        obtain ⟨⟨s₁, o₁⟩, hnew', rfl⟩ := Option.map_eq_some_iff.mp hhead.symm
        have h1 := runCycle_received H.producer hc
        have h2 := runCycle_received hidle hc'
        have h3 := runCycle_received hnew.producer hnew'
        have hpos := List.length_pos_iff.mpr hpush
        have := hnew.received
        dsimp only at h2
        omega

end Recorder

/-! ## The two recorders -/

namespace BlobRecorder

variable {F : Type} [Frame F]

/-- What `open` is given besides the capacity. -/
structure Files where
  data : Option Device
  index : Option Device
  header : List Char

/-- The blob file and the index file. -/
def files (o : BlobWriter) : List UInt8 × List Char := (o.sink.data.file, o.sink.index.file)

def openFiles (f : Files) : BlobWriter → Bool × BlobWriter := openSink f.data f.index f.header

abbrev runCycle (row : RowFn F) := Recorder.runCycle (writer row) openFiles files
abbrev runCycles (row : RowFn F) := Recorder.runCycles (writer row) openFiles files

/-- What a new recorder leaves after the cycle. -/
def freshly (row : RowFn F) (c : Recorder.Cycle Files (F × Int64)) :
    Option ((List UInt8 × List Char) × StreamStats) := (runCycle row new c).map (·.2)

/-- Every index row gives the true position of its payload: the rows count up from offset 0. -/
def TruePositions (row : RowFn F) (header : List Char) (left : List UInt8 × List Char) : Prop :=
  ∃ rs : List (F × Int64), left.1 = BlobSink.blobOf (rs.map (entry row)) ∧
    left.2 = BlobSink.indexOf header 0 (rs.map (entry row))

def Untouched (o : BlobWriter) : Prop :=
  o.sink.offset = 0 ∧ o.lastSeq = 0 ∧ o.haveSeq = false ∧ o.wireGaps = 0

omit [Frame F] in
theorem new_asNew : Recorder.AsNew Untouched (fun o => o.sink.Closed) (new : BlobRecorder F) :=
  ⟨⟨rfl, rfl, rfl, rfl⟩, ⟨rfl, rfl⟩, rfl, rfl, rfl, rfl, rfl, rfl⟩

theorem reopens (row : RowFn F) :
    Recorder.Reopens (writer row) openFiles Untouched (fun o => o.sink.Closed) where
  same := by
    intro o o' a h hc h' hc' hopen
    obtain ⟨⟨data, index, off⟩, seq, haveSeq, gaps⟩ := o
    obtain ⟨⟨data', index', off'⟩, seq', haveSeq', gaps'⟩ := o'
    obtain ⟨rfl, rfl, rfl, rfl⟩ := h
    obtain ⟨rfl, rfl, rfl, rfl⟩ := h'
    obtain ⟨hd, hi⟩ := hc
    obtain ⟨hd', hi'⟩ := hc'
    obtain ⟨_ | d, _ | i, header⟩ := a <;>
      simp_all [openFiles, openSink, BlobSink.open, OStream.open]
  opened := by
    intro o a o' h hopen
    simp only [openFiles, openSink, BlobSink.open] at hopen
    split at hopen <;> cases hopen
    exact h
  flush h := h
  close h := h
  closed o := by
    refine ⟨?_, ?_⟩
    all_goals
      simp only [writer, BlobSink.close]
      split
      all_goals simp_all [OStream.close]

/-- A new recorder's index rows give true positions. -/
theorem truePositions_of_new {row : RowFn F} {c : Recorder.Cycle Files (F × Int64)}
    (h : runCycle row new c = some (s', o)) : TruePositions row c.files.header o.1 := by
  obtain ⟨out, es, hopen, hrun, hc, -, hgood, rfl⟩ := Recorder.runCycle_eq_some h
  have hopen' : new.open c.files.data c.files.index c.files.header c.capacity =
      (true, (new : BlobRecorder F).start out c.capacity) := by
    simp only [BlobRecorder.open, Recorder.openWith]
    rw [show openSink _ _ _ _ = _ from hopen]
  obtain ⟨d, i, hd, hi⟩ := exists_of_open hopen'
  rw [hd, hi] at hopen'
  have hleft := (sink_of_run (s := new) ⟨rfl, rfl⟩ hopen' hrun).2 hc
  simp only [writer, BlobSink.good, OStream.good, Bool.and_eq_true, Bool.not_eq_true'] at hgood
  exact ⟨Recorder.wrote es, hleft.data.file_eq hgood.1, hleft.index.file_eq hgood.2⟩

end BlobRecorder

namespace RowRecorder

variable {R : Type}

/-- What `open` is given besides the capacity. -/
structure Files where
  csv : Option Device
  header : List Char

def openFiles (f : Files) : OStream Char → Bool × OStream Char := openFile f.csv f.header

abbrev runCycle (row : RowFn R) := Recorder.runCycle (writer row) openFiles OStream.file
abbrev runCycles (row : RowFn R) := Recorder.runCycles (writer row) openFiles OStream.file

/-- What a new recorder leaves after the cycle. -/
def freshly (row : RowFn R) (c : Recorder.Cycle Files (R × Int64)) :
    Option (List Char × StreamStats) := (runCycle row new c).map (·.2)

theorem reopens (row : RowFn R) :
    Recorder.Reopens (writer row) openFiles (fun _ => True) (fun o => o.isOpen = false) where
  same := by
    intro o o' a _ hc _ hc' hopen
    obtain ⟨_ | d, header⟩ := a <;> simp_all [openFiles, openFile, OStream.open]
  opened _ _ := trivial
  flush _ := trivial
  close _ := trivial
  closed o := by
    simp only [writer, OStream.close]
    split <;> simp_all

theorem new_asNew :
    Recorder.AsNew (fun _ => True) (fun o => o.isOpen = false) (new : RowRecorder R) :=
  ⟨trivial, rfl, rfl, rfl, rfl, rfl, rfl, rfl⟩

end RowRecorder

theorem eq_some_of_mem_zip {α β : Type} {f : α → Option β} {as : List α} {bs : List β} {p : α × β}
    (h : bs.map some = as.map f) (hp : p ∈ as.zip bs) : f p.1 = some p.2 := by
  induction as generalizing bs with
  | nil => cases hp
  | cons a as ih =>
    cases bs with
    | nil => cases hp
    | cons b bs =>
      obtain ⟨hb, hbs⟩ := List.cons.inj h
      rw [List.zip_cons_cons, List.mem_cons] at hp
      rcases hp with rfl | hp
      · exact hb.symm
      · exact ih hbs hp

/-- **Restarting a recorder.** Over any sequence of cycles on one recorder in which no file fails, the
files and the counters of every cycle are those of a new recorder, and the index rows of every cycle
give true positions, exactly if no cycle but the last pushes anything. -/
theorem Recorder.restart_iff {F R : Type} [Frame F] :
    (∀ (row : RowFn F) cs outs, BlobRecorder.runCycles row BlobRecorder.new cs = some outs →
      ((outs.map some = cs.map (BlobRecorder.freshly row) ∧
          ∀ p ∈ cs.zip outs, BlobRecorder.TruePositions row p.1.files.header p.2.1) ↔
        ∀ c ∈ cs.dropLast, pushes c.schedule = [])) ∧
    (∀ (row : RowFn R) cs outs, RowRecorder.runCycles row RowRecorder.new cs = some outs →
      (outs.map some = cs.map (RowRecorder.freshly row) ↔
        ∀ c ∈ cs.dropLast, pushes c.schedule = [])) := by
  refine ⟨fun row cs outs h => ?_, fun row cs outs h => ?_⟩
  · rw [← outcomes_eq_iff (BlobRecorder.reopens row) BlobRecorder.new_asNew BlobRecorder.new_asNew h]
    refine ⟨And.left, fun heq => ⟨heq, fun p hp => ?_⟩⟩
    obtain ⟨⟨s', o⟩, hc, ho⟩ := Option.map_eq_some_iff.mp (eq_some_of_mem_zip (p := p) heq hp)
    cases ho
    exact BlobRecorder.truePositions_of_new hc
  · exact outcomes_eq_iff (RowRecorder.reopens row) RowRecorder.new_asNew RowRecorder.new_asNew h

/-- A cycle with one frame of one byte. -/
def oneFrame : Recorder.Cycle BlobRecorder.Files ((UInt64 × List UInt8) × Int64) :=
  ⟨⟨some ⟨100, 8, by decide⟩, some ⟨100, 8, by decide⟩, ['n']⟩, 4, Recorder.oneRecord ((1, [7]), 5)⟩

/-- A cycle in which nothing is pushed. -/
def noFrame : Recorder.Cycle BlobRecorder.Files ((UInt64 × List UInt8) × Int64) :=
  ⟨⟨some ⟨100, 8, by decide⟩, some ⟨100, 8, by decide⟩, ['n']⟩, 4, [.close, .popAll, .join, .closeSink]⟩

/-- In its third cycle the recorder behaves as new. -/
theorem Recorder.restart_iff_last :
    [(([], "n\n".toList), ({} : StreamStats)), (([], "n\n".toList), {}),
      (([7], "n\n1,0,1\n".toList), { received := 1, written := 1, bytes := 1 })].map some =
      [noFrame, noFrame, oneFrame].map (BlobRecorder.freshly fun _ _ => ['1']) :=
  (((restart_iff (R := Unit)).1 _ _ _ (by decide)).mpr (by decide)).1

/-- In the second cycle the index row says that the payload starts at 1, in a blob of one byte, and
the counters include the first cycle's. -/
theorem Recorder.restart_fails : ∃ outs,
    BlobRecorder.runCycles (fun _ _ => ['1']) BlobRecorder.new [oneFrame, oneFrame] = some outs ∧
    outs = [(([7], "n\n1,0,1\n".toList), { received := 1, written := 1, bytes := 1 }),
      (([7], "n\n1,1,1\n".toList), { received := 2, written := 2, bytes := 2 })] ∧
    outs.map some ≠ [oneFrame, oneFrame].map (BlobRecorder.freshly fun _ _ => ['1']) :=
  ⟨_, by decide, rfl, by decide⟩

end Kist
