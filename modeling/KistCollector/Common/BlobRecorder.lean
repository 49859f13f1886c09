import KistCollector.Common.BlobSink
import KistCollector.Common.Delivery

/-!
# The recorder of a frame stream

`BlobRecorder` is the recorder whose sink is a blob file with its index. Its writer thread also
watches the sequence numbers for frames lost on the wire.
-/

namespace Kist

/-- What a recorded frame has: a sequence number and a payload. -/
class Frame (F : Type) where
  sequence : F → UInt64
  data : F → List UInt8

/-- The least a frame can be. -/
instance : Frame (UInt64 × List UInt8) := ⟨Prod.fst, Prod.snd⟩

/-- Renders a record and the time it was received as text, without a line break. -/
abbrev RowFn (R : Type) := R → Int64 → List Char

/-- What the writer thread of a `BlobRecorder` works on. -/
structure BlobWriter where
  sink : BlobSink := {}
  lastSeq : UInt64 := 0
  haveSeq : Bool := false
  wireGaps : UInt64 := 0
  deriving DecidableEq

/-- Frames paired with the time they were received. -/
abbrev BlobRecorder (F : Type) := Recorder (F × Int64) BlobWriter

namespace BlobRecorder

variable {F : Type}

/-- A recorder as it is constructed. -/
def new : BlobRecorder F := .init {}

/-- Open the two files; the sequence tracking is left as it is. -/
def openSink (data index : Option Device) (header : List Char) (o : BlobWriter) :
    Bool × BlobWriter :=
  let (ok, sink) := o.sink.open data index header
  (ok, { o with sink := sink })

/-- `none` is a file that cannot be opened. -/
def «open» (s : BlobRecorder F) (data index : Option Device) (header : List Char)
    (queueCapacity : Nat) : Bool × BlobRecorder F :=
  s.openWith (openSink data index header) queueCapacity

theorem open_eq {s : BlobRecorder F} (hs : s.out.sink.Closed) (d i : Device) (header : List Char)
    (cap : Nat) :
    s.open (some d) (some i) header cap = (true, s.start
      { s.out with sink := (s.out.sink.open (some d) (some i) header).2 } cap) := by
  simp [«open», openSink, Recorder.openWith, BlobSink.open_eq hs]

theorem exists_of_open {s₀ : BlobRecorder F} (h : new.open data index header cap = (true, s₀)) :
    ∃ d i, data = some d ∧ index = some i := by
  cases data with
  | none => cases h
  | some d =>
    cases index with
    | none => cases h
    | some i => exact ⟨d, i, rfl, rfl⟩

variable [Frame F] {row : RowFn F}

/-- One turn of the loop over a batch. -/
def write (row : RowFn F) (o : BlobWriter) : F × Int64 → BlobWriter
  | (frame, recvNs) =>
    { sink := (o.sink.append (Frame.data frame) (row frame recvNs)).2
      lastSeq := Frame.sequence frame
      haveSeq := true
      wireGaps :=
        if o.haveSeq && o.lastSeq + 1 < Frame.sequence frame then
          o.wireGaps + (Frame.sequence frame - o.lastSeq - 1)
        else o.wireGaps }

def writer (row : RowFn F) : Sink (F × Int64) BlobWriter where
  write := write row
  good o := o.sink.good
  flush o := { o with sink := o.sink.flush }
  close o := { o with sink := o.sink.close }
  size r := (Frame.data r.1).length
  wireGaps o := o.wireGaps

abbrev machine (row : RowFn F) := Recorder.machine (writer row)

/-- The append a record comes to. -/
def entry (row : RowFn F) (r : F × Int64) : BlobSink.Entry := ⟨Frame.data r.1, row r.1 r.2⟩

/-- The sink has been given the records `rs` since it was opened. -/
def Carries (row : RowFn F) (d i : Device) (header : List Char) (off : Nat)
    (rs : List (F × Int64)) (o : BlobWriter) : Prop :=
  o.sink.Carries d i header off (rs.map (entry row))

theorem Carries.write (H : Carries row d i header off rs o) (r : F × Int64) :
    Carries row d i header off (rs ++ [r]) ((writer row).write o r) := by
  have := BlobSink.Carries.append H (entry row r)
  rwa [← List.map_singleton, ← List.map_append] at this

theorem Carries.flush (H : Carries row d i header off rs o) :
    Carries row d i header off rs ((writer row).flush o) := BlobSink.Carries.flush H

theorem sticky (row : RowFn F) : (writer row).Sticky := by
  refine ⟨fun {o r} h => ?_, fun {o} h => ?_, fun {o} h => ?_⟩ <;>
    refine BlobSink.good_eq_false.mpr ((BlobSink.good_eq_false.mp h).imp ?_ ?_)
  · exact OStream.write_bad
  · intro hb
    simpa [writer, write, BlobSink.append] using OStream.write_bad hb
  · exact OStream.flush_bad
  · exact OStream.flush_bad
  · intro hb
    simp only [writer, BlobSink.close]
    split <;> [exact OStream.close_bad hb; exact hb]
  · intro hb
    simp only [writer, BlobSink.close]
    split <;> [exact OStream.close_bad hb; exact hb]

/-! ## What a run leaves in the files -/

variable {s s₀ s' : BlobRecorder F}

/-- The sink carries what was written, until `close` leaves that in the files. -/
theorem sink_of_run (hs : s.out.sink.Closed)
    (hopen : s.open (some d) (some i) header cap = (true, s₀))
    (h : (machine row).run s₀ ls = some (s', es)) :
    (s'.closer ≠ .closed →
      Carries row d i header s.out.sink.offset (Recorder.wrote es) s'.out) ∧
    (s'.closer = .closed → s'.out.sink.Left d i header s.out.sink.offset
      ((Recorder.wrote es).map (entry row))) := by
  cases (open_eq hs d i header cap).symm.trans hopen
  have hnil : Carries row d i header s.out.sink.offset []
      { s.out with sink := (s.out.sink.open (some d) (some i) header).2 } :=
    BlobSink.Carries.opened hs d i header
  obtain ⟨hrun, hclosed⟩ := Recorder.out_induction hnil (fun r H => H.write r) (fun H => H.flush) h
  refine ⟨hrun, fun hc => ?_⟩
  obtain ⟨o, ho, heq⟩ := hclosed hc
  rw [heq]
  exact BlobSink.Carries.close ho

/-- The bytes of the payloads of `rs`. -/
def totalSize (rs : List (F × Int64)) : Nat := (rs.map fun r => (Frame.data r.1).length).sum

theorem length_blobOf (row : RowFn F) (rs : List (F × Int64)) :
    (BlobSink.blobOf (rs.map (entry row))).length = totalSize rs := by
  induction rs with
  | nil => rfl
  | cons r rs ih => simp [totalSize, entry, ih]

/-- What a run without failures leaves: the accepted records in the files, counted, with less than
`2 ^ 63` bytes of payload. -/
theorem closed_good (hopen : new.open data index header cap = (true, s₀))
    (h : (machine row).run s₀ ls = some (s, es)) (hc : s.closer = .closed)
    (hd : s.out.sink.data.bad = false) (hi : s.out.sink.index.bad = false) :
    s.out.sink.data.file = BlobSink.blobOf ((Recorder.accepted es).map (entry row)) ∧
    s.out.sink.index.file = BlobSink.indexOf header 0 ((Recorder.accepted es).map (entry row)) ∧
    s.written = (Recorder.accepted es).length ∧ s.bytes = totalSize (Recorder.accepted es) ∧
    totalSize (Recorder.accepted es) < 2 ^ 63 := by
  obtain ⟨d, i, rfl, rfl⟩ := exists_of_open hopen
  have hleft := (sink_of_run (s := new) ⟨rfl, rfl⟩ hopen h).2 hc
  cases (open_eq (s := new) ⟨rfl, rfl⟩ d i header cap).symm.trans hopen
  rw [← (Recorder.closed_accepted h hc).1] at hleft
  obtain ⟨hwritten, hbytes⟩ := Recorder.closed_counts (sticky row) h hc
    (by simp [writer, BlobSink.good, OStream.good, hd, hi])
  refine ⟨hleft.data.file_eq hd, hleft.index.file_eq hi, hwritten, hbytes, ?_⟩
  have hle := hleft.data.length_le hd
  rw [hleft.data_dev, length_blobOf] at hle
  exact Nat.lt_of_le_of_lt hle d.quota_lt

/-- Record `i` of `rs` is completely on the device: its payload in the blob, where the records
before it end, and its row in the index. -/
def OnDevice (row : RowFn F) (header : List Char) (o : BlobWriter) (rs : List (F × Int64))
    (i : Nat) : Prop :=
  let before := (rs.take i).map (entry row)
  ∃ r ∈ rs[i]?,
    HoldsAt o.sink.data.file (BlobSink.blobOf before).length (Frame.data r.1) ∧
    HoldsAt o.sink.index.file (BlobSink.indexOf header 0 before).length
      ((entry row r).row (BlobSink.blobOf before).length ++ ['\n'])

instance (row : RowFn F) (header : List Char) (o : BlobWriter) (rs : List (F × Int64)) :
    DecidablePred (OnDevice row header o rs) := fun _ => Option.decidableExistsMem _

/-- The two devices take the payloads and the rows of `rs`. -/
def Room (row : RowFn F) (d i : Device) (header : List Char) (rs : List (F × Int64)) : Prop :=
  (BlobSink.blobOf (rs.map (entry row))).length ≤ d.quota ∧
  (BlobSink.indexOf header 0 (rs.map (entry row))).length ≤ i.quota

theorem Room.mono (hp : rs <+: rs') (H : Room row d i header rs') : Room row d i header rs := by
  obtain ⟨ts, rfl⟩ := hp
  rw [Room, List.map_append, BlobSink.blobOf_append, BlobSink.indexOf_append, List.length_append,
    List.length_append] at H
  exact ⟨by omega, by omega⟩

theorem onDevice_iff_room (H : o.sink.Left d i header 0 (rs.map (entry row)))
    (hj : j < rs.length) :
    OnDevice row header o rs j ↔ Room row d i header (rs.take (j + 1)) := by
  have hr : rs[j]? = some rs[j] := List.getElem?_eq_getElem hj
  have he : (rs.map (entry row))[j]? = some (entry row rs[j]) := by simp [hr]
  have hrow := H.holds_row he
  rw [Nat.zero_add] at hrow
  simp only [OnDevice, Room, hr, Option.mem_def, Option.some.injEq, exists_eq_left', List.map_take]
  exact and_congr (H.holds_payload he) hrow

/-- A run of a fresh recorder is lossless exactly when every step that makes a file fail spares the
records counted before it. -/
theorem lossless_iff_along (hopen : new.open (some d) (some i) header cap = (true, s₀))
    (h : (machine row).run s₀ ls = some (s, es)) (hc : s.closer = .closed) :
    Recorder.Lossless (OnDevice row header) es s ↔
      (machine row).Along (Recorder.SparesCounted (writer row) (Room row d i header)) s₀ ls := by
  have hleft := (sink_of_run (s := new) ⟨rfl, rfl⟩ hopen h).2 hc
  cases (open_eq (s := new) ⟨rfl, rfl⟩ d i header cap).symm.trans hopen
  refine Recorder.lossless_iff (sticky row) Room.mono h hc (fun hgood => ?_)
    fun j hj => onDevice_iff_room hleft hj
  have hbad : s.out.sink.data.bad = false ∧ s.out.sink.index.bad = false := by
    simpa [writer, BlobSink.good, OStream.good] using hgood
  constructor
  · exact hleft.data_dev ▸ hleft.data.length_le hbad.1
  · exact hleft.index_dev ▸ hleft.index.length_le hbad.2

end BlobRecorder
end Kist
