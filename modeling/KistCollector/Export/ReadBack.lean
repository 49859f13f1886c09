import KistCollector.Export.ReadIndex

/-!
# Recording and reading back

A camera stream that was recorded without failures is read back by the exporters: the rows are the
frames the queue accepted, in push order, and the slices they denote are the payloads and tile the
blob (`read_back`). The offsets the recorder counted run along the rows (`linesFrom`), so the proof
follows the rows.
-/

namespace Kist

open Text Scanf

/-- The bytes `[offset, offset + size)` of a blob. -/
def slice (blob : List UInt8) (offset size : UInt64) : List UInt8 :=
  (blob.drop offset.toNat).take size.toNat

/-- The ranges follow each other without gaps from `lo` to `hi`. -/
def Tiles : Nat → List (UInt64 × UInt64) → Nat → Prop
  | lo, [], hi => lo = hi
  | lo, (offset, size) :: cuts, hi => offset.toNat = lo ∧ Tiles (lo + size.toNat) cuts hi

/-- The ranges cut exactly these payloads out of the blob, in order, and tile it. -/
structure CutsOut (blob : List UInt8) (cuts : List (UInt64 × UInt64)) (payloads : List (List UInt8)) :
    Prop where
  slices : cuts.map (fun c => slice blob c.1 c.2) = payloads
  tiles : Tiles 0 cuts blob.length

/-! ## Rows with running offsets -/

variable {F L : Type} [Frame F]

/-- What the rows of `rs` are scanned to, the first at offset `off`. -/
def linesFrom (mk : UInt64 → F × Int64 → L) : Nat → List (F × Int64) → List L
  | _, [] => []
  | off, r :: rs => mk (.ofNat off) r :: linesFrom mk (off + (Frame.data r.1).length) rs

theorem filterMap_rowsFrom {row : RowFn F} {cols : F → Int64 → List Column}
    (H : RowFn.IsColumns row cols) {scan : List Char → Option L} {mk : UInt64 → F × Int64 → L}
    (hscan : ∀ off r, scan (columnsText (rowColumns cols off r)) = some (mk off r))
    (rs : List (F × Int64)) (hlt : off + BlobRecorder.totalSize rs < 2 ^ 64) :
    (BlobSink.rowsFrom off (rs.map (BlobRecorder.entry row))).filterMap scan =
      linesFrom mk off rs := by
  induction rs generalizing off with
  | nil => rfl
  | cons r rs ih =>
    have htotal : BlobRecorder.totalSize (r :: rs) =
        (Frame.data r.1).length + BlobRecorder.totalSize rs := by
      simp [BlobRecorder.totalSize]
    rw [htotal] at hlt
    rw [List.map_cons, BlobSink.rowsFrom, H.row r (by omega) (by omega), List.filterMap_cons, hscan,
      linesFrom]
    simp only [BlobRecorder.entry]
    rw [ih (by omega)]

theorem map_linesFrom {mk : UInt64 → F × Int64 → L} {g : L → α} {g' : F × Int64 → α}
    (h : ∀ off r, g (mk off r) = g' r) (off : Nat) (rs : List (F × Int64)) :
    (linesFrom mk off rs).map g = rs.map g' := by
  induction rs generalizing off with
  | nil => rfl
  | cons r rs ih => simp [linesFrom, h, ih]

/-- The ranges that the rows of `rs` denote cut out the payloads and tile what follows `pre`. -/
theorem cutsOut_linesFrom {mk : UInt64 → F × Int64 → L} {cut : L → UInt64 × UInt64}
    (h : ∀ off r, cut (mk off r) = (off, .ofNat (Frame.data r.1).length)) (row : RowFn F)
    (pre : List UInt8) (rs : List (F × Int64)) (hlt : pre.length + BlobRecorder.totalSize rs < 2 ^ 64) :
    ((linesFrom mk pre.length rs).map cut).map (fun c =>
        slice (pre ++ BlobSink.blobOf (rs.map (BlobRecorder.entry row))) c.1 c.2) =
      rs.map (fun r => Frame.data r.1) ∧
    Tiles pre.length ((linesFrom mk pre.length rs).map cut)
      (pre.length + BlobRecorder.totalSize rs) := by
  induction rs generalizing pre with
  | nil => exact ⟨rfl, rfl⟩
  | cons r rs ih =>
    have htotal : BlobRecorder.totalSize (r :: rs) =
        (Frame.data r.1).length + BlobRecorder.totalSize rs := by
      simp [BlobRecorder.totalSize]
    rw [htotal] at hlt
    have hpre : (UInt64.ofNat pre.length).toNat = pre.length :=
      UInt64.toNat_ofNat_of_lt' (by simp only [UInt64.size]; omega)
    have hsize : (UInt64.ofNat (Frame.data r.1).length).toNat = (Frame.data r.1).length :=
      UInt64.toNat_ofNat_of_lt' (by simp only [UInt64.size]; omega)
    obtain ⟨hslices, htiles⟩ := ih (pre ++ Frame.data r.1) (by rw [List.length_append]; omega)
    rw [List.length_append] at hslices htiles
    refine ⟨?_, ?_⟩
    · rw [linesFrom, List.map_cons, List.map_cons, List.map_cons, h, List.map_cons,
        BlobSink.blobOf_cons]
      refine congrArg₂ List.cons ?_ ?_
      · simp [slice, hpre, hsize, BlobRecorder.entry]
      · simpa [BlobRecorder.entry, List.append_assoc] using hslices
    · rw [linesFrom, List.map_cons, h, Tiles, hpre, hsize, htotal, ← Nat.add_assoc]
      exact ⟨rfl, htiles⟩

/-! ## Recorded index files -/

/-- The lines of a recorded index, scanned. -/
theorem scan_indexOf {row : RowFn F} {cols : F → Int64 → List Column}
    (H : RowFn.IsColumns row cols) {scan : List Char → Option L} {mk : UInt64 → F × Int64 → L}
    (hscan : ∀ off r, scan (columnsText (rowColumns cols off r)) = some (mk off r))
    {header : List Char} (hheader : '\n' ∉ header) (rs : List (F × Int64))
    (hlt : BlobRecorder.totalSize rs < 2 ^ 64) :
    (indexLines (BlobSink.indexOf header 0 (rs.map (BlobRecorder.entry row)))).filterMap scan =
      linesFrom mk 0 rs := by
  have hlines : ∀ l ∈ header :: BlobSink.rowsFrom 0 (rs.map (BlobRecorder.entry row)), '\n' ∉ l := by
    refine List.forall_mem_cons.mpr ⟨hheader, BlobSink.rowsFrom_no_newline fun e he => ?_⟩
    obtain ⟨r, -, rfl⟩ := List.mem_map.mp he
    rw [BlobRecorder.entry, H.row_eq]
    exact (columnsText_plain _).1
  rw [indexLines, BlobSink.indexOf, getlines_unlines hlines, List.tail_cons]
  exact filterMap_rowsFrom H hscan rs (by omega)

/-- The ranges of a recorded index cut out the payloads and tile the blob. -/
theorem cutsOut_recorded {mk : UInt64 → F × Int64 → L} {cut : L → UInt64 × UInt64}
    (h : ∀ off r, cut (mk off r) = (off, .ofNat (Frame.data r.1).length)) (row : RowFn F)
    (rs : List (F × Int64)) (hlt : BlobRecorder.totalSize rs < 2 ^ 64) :
    CutsOut (BlobSink.blobOf (rs.map (BlobRecorder.entry row))) ((linesFrom mk 0 rs).map cut)
      (rs.map fun r => Frame.data r.1) := by
  obtain ⟨hslices, htiles⟩ := cutsOut_linesFrom h row [] rs (by simpa using hlt)
  refine ⟨hslices, ?_⟩
  rw [BlobRecorder.length_blobOf]
  simpa using htiles

theorem length_linesFrom (mk : UInt64 → F × Int64 → L) (off : Nat) (rs : List (F × Int64)) :
    (linesFrom mk off rs).length = rs.length := by
  induction rs generalizing off with
  | nil => rfl
  | cons r rs ih => simp [linesFrom, ih]

/-- The line a color frame is scanned to. -/
def colorLine (off : UInt64) (r : H264ColorFrame × Int64) : ColorLine :=
  ⟨r.1.sequence, r.1.stampNs, r.2, r.1.width, r.1.height, keyFlag r.1.isKeyframe, off,
    .ofNat r.1.data.length⟩

/-- The line a depth frame is scanned to. -/
def depthLine {F : Type} [Floats F] (off : UInt64) (r : RvlDepthFrame F × Int64) : DepthLine :=
  ⟨r.1.sequence, r.1.stampNs, r.2, r.1.width, r.1.height, (Floats.format r.1.depthScale).text, off,
    .ofNat r.1.data.length⟩

/-- The lines of a recorded color index. -/
theorem colorLines_recorded (rs : List (H264ColorFrame × Int64))
    (hlt : BlobRecorder.totalSize rs < 2 ^ 64) :
    colorLines (BlobSink.indexOf colorIdxHeader 0 (rs.map (BlobRecorder.entry colorRow))) =
      linesFrom colorLine 0 rs :=
  scan_indexOf colorRow_isColumns (fun off r => scanColor_row r.1 r.2 off) (by decide) rs hlt

/-- What the two color readers return of lines that were recorded. -/
theorem colorRows_recorded {index : List Char} {rs : List (H264ColorFrame × Int64)}
    (hlines : colorLines index = linesFrom colorLine 0 rs)
    (hlt : BlobRecorder.totalSize rs < 2 ^ 64) :
    (ExportColorToImages.readIndex index).1.map (fun row => (row.seq, row.isKey)) =
        rs.map (fun f => (f.1.sequence, keyFlag f.1.isKeyframe)) ∧
      (ExportColorToMp4.readIndex index).rows = rs.map (fun f => ⟨f.2, keyFlag f.1.isKeyframe⟩) ∧
      CutsOut (BlobSink.blobOf (rs.map (BlobRecorder.entry colorRow)))
        ((ExportColorToImages.readIndex index).1.map fun row => (row.offset, row.size))
        (rs.map (·.1.data)) := by
  rw [ExportColorToImages.readIndex_rows, ExportColorToMp4.readIndex_rows, hlines, List.map_map,
    List.map_map]
  refine ⟨?_, ?_, cutsOut_recorded (fun _ _ => rfl) colorRow rs hlt⟩
  · apply map_linesFrom
    exact fun _ _ => rfl
  · apply map_linesFrom
    exact fun _ _ => rfl

/-- What the two depth readers return of lines that were recorded. -/
theorem depthRows_recorded {F : Type} [Floats F] {index : List Char} {rs : List (RvlDepthFrame F × Int64)}
    (hlines : (indexLines index).filterMap scanDepth = linesFrom depthLine 0 rs) :
    (ExportDepthToImages.readIndex F index).map (fun row => (row.seq, row.width, row.height, row.scale)) =
        rs.map (fun f => (f.1.sequence, f.1.width, f.1.height,
          Floats.strtof (Floats.format f.1.depthScale).text)) ∧
      (ExportDepthToMp4.readIndex F index).map (fun row => (row.recvNs, row.width, row.height, row.scale)) =
        rs.map (fun f => (f.2, f.1.width, f.1.height,
          Floats.strtof (Floats.format f.1.depthScale).text)) := by
  rw [ExportDepthToImages.readIndex, ExportDepthToMp4.readIndex, hlines, List.map_map, List.map_map]
  constructor
  · apply map_linesFrom
    exact fun _ _ => rfl
  · apply map_linesFrom
    exact fun _ _ => rfl

/-- **Recording and reading back.** For color and depth: a fresh recorder, any capacity, any pushes
under any schedule, and no file that fails. After `close` every exporter's `read_index` returns one
row for each accepted frame, in push order, with the values of that frame that it keeps; the ranges
of the rows cut out the payloads and tile the blob; `bytes` is the length of the blob and `written`
the number of rows. -/
theorem read_back {F : Type} [Floats F] :
    (∀ (data index : Option Device) (cap : Nat) (s₀ : BlobRecorder H264ColorFrame),
      BlobRecorder.new.open data index colorIdxHeader cap = (true, s₀) →
      ∀ ls s es, (BlobRecorder.machine colorRow).run s₀ ls = some (s, es) → s.closer = .closed →
        s.out.sink.data.bad = false → s.out.sink.index.bad = false →
        let frames := Recorder.accepted es
        let blob := s.out.sink.data.file
        let images := (ExportColorToImages.readIndex s.out.sink.index.file).1
        let mp4 := (ExportColorToMp4.readIndex s.out.sink.index.file).rows
        images.map (fun row => (row.seq, row.isKey)) =
          frames.map (fun f => (f.1.sequence, keyFlag f.1.isKeyframe)) ∧
        mp4 = frames.map (fun f => ⟨f.2, keyFlag f.1.isKeyframe⟩) ∧
        CutsOut blob (images.map fun row => (row.offset, row.size)) (frames.map (·.1.data)) ∧
        s.bytes = blob.length ∧ s.written = images.length) ∧
    (∀ (data index : Option Device) (cap : Nat) (s₀ : BlobRecorder (RvlDepthFrame F)),
      BlobRecorder.new.open data index depthIdxHeader cap = (true, s₀) →
      ∀ ls s es, (BlobRecorder.machine depthRow).run s₀ ls = some (s, es) → s.closer = .closed →
        s.out.sink.data.bad = false → s.out.sink.index.bad = false →
        let frames := Recorder.accepted es
        let blob := s.out.sink.data.file
        let images := ExportDepthToImages.readIndex F s.out.sink.index.file
        let mp4 := ExportDepthToMp4.readIndex F s.out.sink.index.file
        images.map (fun row => (row.seq, row.width, row.height, row.scale)) =
          frames.map (fun f => (f.1.sequence, f.1.width, f.1.height,
            Floats.strtof (Floats.format f.1.depthScale).text)) ∧
        mp4.map (fun row => (row.recvNs, row.width, row.height, row.scale)) =
          frames.map (fun f => (f.2, f.1.width, f.1.height,
            Floats.strtof (Floats.format f.1.depthScale).text)) ∧
        CutsOut blob (images.map fun row => (row.offset, row.size)) (frames.map (·.1.data)) ∧
        CutsOut blob (mp4.map fun row => (row.offset, row.size)) (frames.map (·.1.data)) ∧
        s.bytes = blob.length ∧ s.written = images.length) := by
  constructor
  · intro data index cap s₀ hopen ls s es h hc hd hi
    obtain ⟨hdata, hindex, hwritten, hbytes, hlt⟩ := BlobRecorder.closed_good hopen h hc hd hi
    have hlines := colorLines_recorded (Recorder.accepted es) (by omega)
    obtain ⟨himages, hmp4, hcuts⟩ := colorRows_recorded hlines (by omega)
    have hcount := congrArg List.length himages
    rw [List.length_map, List.length_map] at hcount
    dsimp only
    rw [hdata, hindex, BlobRecorder.length_blobOf]
    exact ⟨himages, hmp4, hcuts, hbytes, hwritten.trans hcount.symm⟩
  · intro data index cap s₀ hopen ls s es h hc hd hi
    obtain ⟨hdata, hindex, hwritten, hbytes, hlt⟩ := BlobRecorder.closed_good hopen h hc hd hi
    have hlines : (indexLines s.out.sink.index.file).filterMap scanDepth =
        linesFrom depthLine 0 (Recorder.accepted es) := by
      rw [hindex]
      exact scan_indexOf depthRow_isColumns (fun off r => scanDepth_row r.1 r.2 off) (by decide) _
        (by omega)
    obtain ⟨himages, hmp4⟩ := depthRows_recorded hlines
    dsimp only
    refine ⟨himages, hmp4, ?_⟩
    rw [ExportDepthToImages.readIndex, ExportDepthToMp4.readIndex, hlines, hdata,
      BlobRecorder.length_blobOf, List.map_map, List.map_map, List.length_map, length_linesFrom]
    exact ⟨cutsOut_recorded (fun _ _ => rfl) depthRow _ (by omega),
      cutsOut_recorded (fun _ _ => rfl) depthRow _ (by omega), hbytes, hwritten⟩

/-- A color and a depth stream of two frames, with a third that is refused. -/
theorem read_back_two :
    (∃ s es, (BlobRecorder.machine colorRow).run
        (BlobRecorder.new.open (some ⟨1000, 64, by decide⟩) (some ⟨1000, 64, by decide⟩)
          colorIdxHeader 2).2
        (Recorder.oneBatch [(⟨7, -1, 640, 480, true, [9, 9]⟩, 5), (⟨8, -1, 640, 480, false, [6]⟩, 6)]
          [(⟨9, -1, 640, 480, false, [4]⟩, 7)]) = some (s, es) ∧
      CutsOut s.out.sink.data.file
        ((ExportColorToImages.readIndex s.out.sink.index.file).1.map fun row => (row.offset, row.size))
        [[9, 9], [6]] ∧
      s.bytes = s.out.sink.data.file.length) ∧
    ∃ s es, (BlobRecorder.machine (depthRow (F := TwoFloats))).run
        (BlobRecorder.new.open (some ⟨1000, 64, by decide⟩) (some ⟨1000, 64, by decide⟩)
          depthIdxHeader 2).2
        (Recorder.oneBatch [(⟨7, -1, 640, 480, .milli, .vga, .vga, .vga, .vga, [9, 9]⟩, 5),
            (⟨8, -1, 640, 480, .milli, .vga, .vga, .vga, .vga, [6]⟩, 6)]
          [(⟨9, -1, 640, 480, .milli, .vga, .vga, .vga, .vga, [4]⟩, 7)]) = some (s, es) ∧
      CutsOut s.out.sink.data.file
        ((ExportDepthToImages.readIndex TwoFloats s.out.sink.index.file).map
          fun row => (row.offset, row.size)) [[9, 9], [6]] ∧
      s.bytes = s.out.sink.data.file.length := by
  constructor
  · refine Machine.exists_run (P := fun p => p.1.closer = .closed ∧ p.1.out.sink.data.bad = false ∧
      p.1.out.sink.index.bad = false ∧ (Recorder.accepted p.2).map (·.1.data) = [[9, 9], [6]])
      (by decide +kernel) ?_
    rintro s es h ⟨hc, hd, hi, hacc⟩
    obtain ⟨-, -, hcuts, hbytes, -⟩ := (read_back (F := TwoFloats)).1 _ _ _ _
      (BlobRecorder.open_eq ⟨rfl, rfl⟩ _ _ _ _) _ _ _ h hc hd hi
    exact ⟨hacc ▸ hcuts, hbytes⟩
  · refine Machine.exists_run (P := fun p => p.1.closer = .closed ∧ p.1.out.sink.data.bad = false ∧
      p.1.out.sink.index.bad = false ∧ (Recorder.accepted p.2).map (·.1.data) = [[9, 9], [6]])
      (by decide +kernel) ?_
    rintro s es h ⟨hc, hd, hi, hacc⟩
    obtain ⟨-, -, hcuts, -, hbytes, -⟩ := read_back.2 _ _ _ _
      (BlobRecorder.open_eq ⟨rfl, rfl⟩ _ _ _ _) _ _ _ h hc hd hi
    exact ⟨hacc ▸ hcuts, hbytes⟩

end Kist
