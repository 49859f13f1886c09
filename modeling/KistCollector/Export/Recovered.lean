import KistCollector.Common.Crash
import KistCollector.Export.FrameSizes
import KistCollector.Export.SameFrames
import KistCollector.Export.TornIndex

/-!
# Exporting what a killed recorder left

A recorder that is killed leaves two files that were cut at places of their own. Unless the index is cut
where a reader takes a part of a row for a row, the rows that are read are those of the first frames, the
slices of the first of these are their payloads, and the read of the next one fails: an exporter exports
these frames and no others (`killed_recording`). A depth stream that was closed without failures is
exported as a whole (`DepthExported.of_closed`).
-/

namespace Kist

open Text Scanf

variable {F L : Type} [Frame F]

/-! ## The rows -/

theorem linesFrom_take (mk : UInt64 → F × Int64 → L) (off : Nat) (rs : List (F × Int64)) (k : Nat) :
    (linesFrom mk off rs).take k = linesFrom mk off (rs.take k) := by
  induction rs generalizing off k with
  | nil => simp [linesFrom]
  | cons r rs ih =>
    cases k with
    | zero => rfl
    | succ k => rw [linesFrom, List.take_succ_cons, List.take_succ_cons, linesFrom, ih]

theorem linesFrom_map {M : Type} (mk : UInt64 → F × Int64 → L) (g : L → M) (off : Nat)
    (rs : List (F × Int64)) :
    (linesFrom mk off rs).map g = linesFrom (fun off r => g (mk off r)) off rs := by
  induction rs generalizing off with
  | nil => rfl
  | cons r rs ih => rw [linesFrom, List.map_cons, linesFrom, ih]

/-- What the row of a frame stands for. -/
def indexEntry (off : UInt64) (r : F × Int64) : IndexEntry F :=
  ⟨r.1, r.2, off, .ofNat (Frame.data r.1).length⟩

theorem rowsFrom_entries (row : RowFn F) (rs : List (F × Int64))
    (hlt : off + BlobRecorder.totalSize rs < 2 ^ 64) :
    BlobSink.rowsFrom off (rs.map (BlobRecorder.entry row)) =
      (linesFrom indexEntry off rs).map (·.text row) := by
  induction rs generalizing off with
  | nil => rfl
  | cons r rs ih =>
    have htotal : BlobRecorder.totalSize (r :: rs) =
        (Frame.data r.1).length + BlobRecorder.totalSize rs := by
      simp [BlobRecorder.totalSize]
    rw [htotal] at hlt
    have hoff : (UInt64.ofNat off).toNat = off :=
      UInt64.toNat_ofNat_of_lt' (by simp only [UInt64.size]; omega)
    have hsize : (UInt64.ofNat (Frame.data r.1).length).toNat = (Frame.data r.1).length :=
      UInt64.toNat_ofNat_of_lt' (by simp only [UInt64.size]; omega)
    rw [List.map_cons, BlobSink.rowsFrom, linesFrom, List.map_cons]
    simp only [BlobRecorder.entry]
    rw [ih (by omega)]
    simp only [BlobSink.Entry.row, indexEntry, IndexEntry.text, hoff, hsize]

/-- The rows that are read of the beginning of an index, unless the torn line is read as a row too. -/
theorem scan_prefix {row : RowFn F} {scan : List Char → Option L} {mk : IndexEntry F → L}
    (hscan : ∀ e, scan (e.text row) = some (mk e)) (hnil : scan [] = none) {header : List Char}
    (hheader : '\n' ∉ header) (hrow : ∀ e : IndexEntry F, '\n' ∉ e.text row) (rs : List (F × Int64))
    (hlt : BlobRecorder.totalSize rs < 2 ^ 64)
    (hp : index <+: BlobSink.indexOf header 0 (rs.map (BlobRecorder.entry row)))
    (htorn : ¬ ('\n' ∈ index ∧ (scan (tornLine index)).isSome)) : ∃ k ≤ rs.length,
      (indexLines index).filterMap scan = linesFrom (fun off r => mk (indexEntry off r)) 0 (rs.take k) ∧
      ∀ j ≤ rs.length, (BlobSink.indexOf header 0 ((rs.take j).map (BlobRecorder.entry row))).length ≤
        index.length → j ≤ k := by
  have hentries (j : Nat) : BlobSink.indexOf header 0 ((rs.take j).map (BlobRecorder.entry row)) =
      unlines ((header :: (linesFrom indexEntry 0 rs).map (·.text row)).take (j + 1)) := by
    rw [← rowsFrom_entries row rs (by omega), BlobSink.indexOf_take, List.map_take]
  have hfile : BlobSink.indexOf header 0 (rs.map (BlobRecorder.entry row)) =
      unlines (header :: (linesFrom indexEntry 0 rs).map (·.text row)) := by
    rw [BlobSink.indexOf, rowsFrom_entries row rs (by omega)]
  rw [hfile] at hp
  have hindex := List.prefix_iff_eq_take.mp hp
  have hcomplete (j : Nat) (hj : j ≤ rs.length)
      (hlen : (BlobSink.indexOf header 0 ((rs.take j).map (BlobRecorder.entry row))).length ≤ index.length) :
      j ≤ (completeLines index).length - 1 := by
    have hline := completeLines_take (lines_no_newline hheader hrow (linesFrom indexEntry 0 rs)) index.length j
    rw [← hentries, if_pos hlen, ← hindex] at hline
    have hlines : j < (header :: (linesFrom indexEntry 0 rs).map (·.text row)).length := by
      simpa [length_linesFrom] using Nat.lt_succ_of_le hj
    have hj' := (List.getElem?_eq_some_iff.mp (hline.trans (List.getElem?_eq_getElem hlines))).1
    omega
  have hreads := (readsComplete_iff hscan hnil id hheader hrow (linesFrom indexEntry 0 rs) false
    index.length).mpr
  rw [← hindex] at hreads
  have hrows := hreads fun hmem hsome => absurd ⟨hmem, hsome⟩ htorn
  simp only [ReadsComplete, Bool.toNat_false, Nat.add_zero, List.map_id, id] at hrows
  rw [← hindex, linesFrom_map, linesFrom_take] at hrows
  refine ⟨min ((completeLines index).length - 1) rs.length, Nat.min_le_right .., ?_, fun j hj hlen => ?_⟩
  · rw [hrows, List.take_eq_take_min, Nat.min_comm]
  · have hj' := hcomplete j hj hlen
    omega

/-! ## The slices -/

theorem totalSize_take_succ (rs : List (F × Int64)) (h : rs[j]? = some r) :
    BlobRecorder.totalSize (rs.take (j + 1)) =
      BlobRecorder.totalSize (rs.take j) + (Frame.data r.1).length := by
  rw [List.take_add_one, h]
  simp [BlobRecorder.totalSize]

theorem totalSize_take_mono (rs : List (F × Int64)) (h : i ≤ j) :
    BlobRecorder.totalSize (rs.take i) ≤ BlobRecorder.totalSize (rs.take j) := by
  obtain ⟨ts, hts⟩ := List.take_prefix_take_left (l := rs) h
  rw [← hts]
  simp [BlobRecorder.totalSize]

/-- How many of the payloads are within the first `n` bytes. -/
theorem exists_within (rs : List (F × Int64)) (n : Nat) : ∃ m ≤ rs.length,
    BlobRecorder.totalSize (rs.take m) ≤ n ∧
    (m < rs.length → n < BlobRecorder.totalSize (rs.take (m + 1))) := by
  induction rs generalizing n with
  | nil => exact ⟨0, Nat.le_refl _, Nat.zero_le _, fun h => absurd h (Nat.lt_irrefl _)⟩
  | cons r rs ih =>
    have htotal (k : Nat) : BlobRecorder.totalSize ((r :: rs).take (k + 1)) =
        (Frame.data r.1).length + BlobRecorder.totalSize (rs.take k) := by
      simp [BlobRecorder.totalSize]
    by_cases hr : (Frame.data r.1).length ≤ n
    · obtain ⟨m, hm, hle, hlt⟩ := ih (n - (Frame.data r.1).length)
      refine ⟨m + 1, Nat.succ_le_succ hm, ?_, fun hmore => ?_⟩
      · rw [htotal]
        omega
      · have hlt' := hlt (Nat.lt_of_succ_lt_succ hmore)
        rw [htotal]
        omega
    · refine ⟨0, Nat.zero_le _, Nat.zero_le _, fun _ => ?_⟩
      rw [htotal]
      omega

/-- The slices of the first `n` rows can be read and are these payloads, that of the next row cannot. -/
structure Readable (blob : List UInt8) (cuts : List (UInt64 × UInt64)) (payloads : List (List UInt8))
    (n : Nat) : Prop where
  read : (cuts.take n).map (fun c => readSlice blob c.1 c.2) = (payloads.take n).map some
  torn : ∀ c ∈ cuts[n]?, readSlice blob c.1 c.2 = none

/-- The slice of a frame can be read exactly if the blob goes on to its end. -/
theorem readSlice_entry {row : RowFn F} {rs : List (F × Int64)} {blob : List UInt8}
    (hlt : BlobRecorder.totalSize rs < 2 ^ 63)
    (hp : blob <+: BlobSink.blobOf (rs.map (BlobRecorder.entry row))) (hr : rs[j]? = some r)
    (hoff : BlobRecorder.totalSize (rs.take j) ≤ blob.length) :
    readSlice blob (.ofNat (BlobRecorder.totalSize (rs.take j))) (.ofNat (Frame.data r.1).length) =
      if BlobRecorder.totalSize (rs.take (j + 1)) ≤ blob.length then some (Frame.data r.1) else none := by
  obtain ⟨hrs, htake⟩ := BlobSink.eq_take_append_cons hr
  have hj := (List.getElem?_eq_some_iff.mp hr).1
  have hsize := totalSize_take_succ rs hr
  have htotal := totalSize_take_mono rs (show j + 1 ≤ rs.length from hj)
  rw [List.take_length] at htotal
  have hblob : BlobSink.blobOf (rs.map (BlobRecorder.entry row)) =
      BlobSink.blobOf ((rs.take j).map (BlobRecorder.entry row)) ++
        (Frame.data r.1 ++ BlobSink.blobOf ((rs.drop (j + 1)).map (BlobRecorder.entry row))) := by
    conv_lhs => rw [hrs]
    simp [BlobRecorder.entry]
  have hlength := BlobRecorder.length_blobOf row (rs.take j)
  generalize BlobSink.blobOf ((rs.take j).map (BlobRecorder.entry row)) = before at hblob hlength
  generalize BlobSink.blobOf ((rs.drop (j + 1)).map (BlobRecorder.entry row)) = after at hblob
  -- what is there of the payload
  have hslice : slice blob (.ofNat (BlobRecorder.totalSize (rs.take j))) (.ofNat (Frame.data r.1).length) =
      (Frame.data r.1 ++ after).take
        (min (Frame.data r.1).length (blob.length - BlobRecorder.totalSize (rs.take j))) := by
    rw [slice, UInt64.toNat_ofNat_of_lt' (by simp only [UInt64.size]; omega),
      UInt64.toNat_ofNat_of_lt' (by simp only [UInt64.size]; omega)]
    conv_lhs => rw [List.prefix_iff_eq_take.mp hp, hblob, ← hlength]
    rw [List.drop_take, List.drop_left, List.take_take, hlength]
  have hlimit : (UInt64.ofNat (BlobRecorder.totalSize (rs.take j))).toNat < 2 ^ 63 ∧
      (UInt64.ofNat (Frame.data r.1).length).toNat = (Frame.data r.1).length ∧
      (Frame.data r.1).length < 2 ^ 63 := by
    refine ⟨?_, UInt64.toNat_ofNat_of_lt' (by simp only [UInt64.size]; omega), by omega⟩
    rw [UInt64.toNat_ofNat_of_lt' (by simp only [UInt64.size]; omega)]
    omega
  rw [readSlice, hlimit.2.1, hslice, hsize]
  by_cases hfits : BlobRecorder.totalSize (rs.take j) + (Frame.data r.1).length ≤ blob.length
  · rw [if_pos hfits, Nat.min_eq_left (by omega), List.take_left, if_pos ⟨hlimit.1, hlimit.2.2, rfl⟩]
  · rw [if_neg hfits, if_neg]
    rintro ⟨-, -, hlen⟩
    rw [List.length_take, List.length_append] at hlen
    omega

theorem readable_recorded (mk : UInt64 → F × Int64 → L) (cut : L → UInt64 × UInt64)
    (hcut : ∀ off r, cut (mk off r) = (off, .ofNat (Frame.data r.1).length)) {row : RowFn F}
    {rs : List (F × Int64)} {blob : List UInt8} (hlt : BlobRecorder.totalSize rs < 2 ^ 63)
    (hp : blob <+: BlobSink.blobOf (rs.map (BlobRecorder.entry row))) {k : Nat} (hk : k ≤ rs.length) :
    ∃ n ≤ k, Readable blob ((linesFrom mk 0 (rs.take k)).map cut) ((rs.take k).map fun r => Frame.data r.1) n ∧
      ∀ j ≤ k, BlobRecorder.totalSize (rs.take j) ≤ blob.length → j ≤ n := by
  obtain ⟨m, hm, hle, hlt'⟩ := exists_within (rs.take k) blob.length
  have hlen : (rs.take k).length = k := List.length_take_of_le hk
  have htake {j : Nat} (hj : j ≤ k) : (rs.take k).take j = rs.take j := by
    rw [List.take_take, Nat.min_eq_left hj]
  rw [hlen] at hm hlt'
  rw [htake hm] at hle
  have hget (j : Nat) (hj : j < k) (hjm : j ≤ m) : ∃ r, rs[j]? = some r ∧
      ((linesFrom mk 0 (rs.take k)).map cut)[j]?.map (fun c => readSlice blob c.1 c.2) =
        some (if j < m then some (Frame.data r.1) else none) := by
    have hr := List.getElem?_eq_getElem (Nat.lt_of_lt_of_le hj hk)
    refine ⟨_, hr, ?_⟩
    have hr' : (rs.take k)[j]? = some rs[j] := by rw [List.getElem?_take_of_lt hj, hr]
    rw [List.getElem?_map, linesFrom_getElem?, hr', htake (Nat.le_of_lt hj)]
    simp only [Option.map_some, hcut, Nat.zero_add]
    rw [readSlice_entry hlt hp hr ((totalSize_take_mono rs hjm).trans hle)]
    by_cases hjm' : j < m
    · rw [if_pos hjm', if_pos ((totalSize_take_mono rs hjm').trans hle)]
    · obtain rfl : j = m := by omega
      have hbeyond := hlt' hj
      rw [htake (show j + 1 ≤ k from hj)] at hbeyond
      rw [if_neg hjm', if_neg (by omega)]
  refine ⟨m, hm, ⟨?_, ?_⟩, fun j hj hfits => ?_⟩
  · apply List.ext_getElem?
    intro j
    rw [List.getElem?_map, List.getElem?_map]
    by_cases hj : j < m
    · obtain ⟨r, hr, hread⟩ := hget j (by omega) (Nat.le_of_lt hj)
      rw [List.getElem?_take_of_lt hj, List.getElem?_take_of_lt hj, hread, if_pos hj, List.getElem?_map,
        List.getElem?_take_of_lt (by omega), hr]
      rfl
    · rw [List.getElem?_eq_none (by rw [List.length_take]; omega),
        List.getElem?_eq_none (by rw [List.length_take]; omega)]
      rfl
  · intro c hc
    have hmk := (List.getElem?_eq_some_iff.mp hc).1
    rw [List.length_map, length_linesFrom, hlen] at hmk
    obtain ⟨r, hr, hread⟩ := hget m hmk (Nat.le_refl m)
    rw [show _ = some c from hc, if_neg (Nat.lt_irrefl m)] at hread
    exact Option.some.inj hread
  · by_contra hnot
    have hbeyond := hlt' (by omega)
    rw [htake (by omega)] at hbeyond
    have hmono := totalSize_take_mono rs (show m + 1 ≤ j by omega)
    omega

theorem Readable.head (h : Readable blob (c :: cuts) (p :: payloads) (n + 1)) :
    readSlice blob c.1 c.2 = some p :=
  (List.cons.inj h.read).1

theorem Readable.tail (h : Readable blob (c :: cuts) (p :: payloads) (n + 1)) :
    Readable blob cuts payloads n :=
  ⟨(List.cons.inj h.read).2, h.torn⟩

/-- A function of each row and its payload is one of the frames. -/
theorem zipWith_linesFrom {α : Type} (mk : UInt64 → F × Int64 → L) (f : L → List UInt8 → α)
    (g : F × Int64 → α) (h : ∀ off r, f (mk off r) (Frame.data r.1) = g r) (off : Nat)
    (rs : List (F × Int64)) :
    List.zipWith f (linesFrom mk off rs) (rs.map fun r => Frame.data r.1) = rs.map g := by
  induction rs generalizing off with
  | nil => rfl
  | cons r rs ih => rw [linesFrom, List.map_cons, List.zipWith_cons_cons, h, ih, List.map_cons]

/-! ## The exporters -/

namespace ExportDepthToImages

variable {F ι : Type} [Floats F]

/-- The file and the image of a row with this payload. -/
def imageOf (decode : RvlInput F → ι) (row : Row F) (data : List UInt8) : List Char × ι :=
  (seqName row.seq "png".toList, decode ⟨row.width, row.height, row.scale, data⟩)

/-- The file and the image of a recorded frame. -/
def frameImage (decode : RvlInput F → ι) (f : RvlDepthFrame F × Int64) : List Char × ι :=
  (seqName f.1.sequence "png".toList,
    decode ⟨f.1.width, f.1.height, Floats.strtof (Floats.format f.1.depthScale).text, f.1.data⟩)

omit [Floats F] in
/-- Where nothing fails, the loop stops at the first row that cannot be read. -/
theorem writeRows_readable (decode : RvlInput F → ι) {blob : List UInt8} {rows : List (Row F)}
    {payloads : List (List UInt8)} (hlen : payloads.length = rows.length) (hn : n ≤ rows.length)
    (h : Readable blob (rows.map fun row => (row.offset, row.size)) payloads n) {s : Exported ι}
    (hs : s.ioOk = true) :
    (writeRows decode .smooth blob rows s).folder =
        s.folder.putAll (List.zipWith (imageOf decode) (rows.take n) (payloads.take n)) ∧
      (writeRows decode .smooth blob rows s).written = s.written + n ∧
      (writeRows decode .smooth blob rows s).ioOk = (n == rows.length) := by
  induction rows generalizing n payloads s with
  | nil =>
    obtain rfl : n = 0 := by simpa using hn
    exact ⟨rfl, rfl, hs⟩
  | cons row rows ih =>
    cases payloads with
    | nil => cases hlen
    | cons p payloads =>
      rw [writeRows, if_neg (by simp [ImagesEnv.smooth])]
      cases n with
      | zero =>
        have htorn := h.torn (row.offset, row.size) rfl
        rcases load_of_none true true row.size with hload | hload <;>
          simp [htorn, hload, ImagesEnv.smooth]
      | succ n =>
        have hload : load (ImagesEnv.smooth.memory s.written) (ImagesEnv.smooth.decodes s.written) row.size
            (readSlice blob row.offset row.size) = .data p := load_of_readSlice h.head
        obtain ⟨hfolder, hwritten, hok⟩ := ih (Nat.succ.inj hlen) (Nat.le_of_succ_le_succ hn) h.tail
          (s := { s with folder := s.folder.put (imageOf decode row p), written := s.written + 1 }) hs
        rw [hload]
        refine ⟨hfolder, hwritten.trans (Nat.add_right_comm ..), hok.trans ?_⟩
        simp

theorem run_readable (decode : RvlInput F → ι) {index : List Char}
    {blob : List UInt8} {rows : List (Row F)} {payloads : List (List UInt8)}
    (hrows : readIndex F index = rows) (hlen : payloads.length = rows.length) (hn : n ≤ rows.length)
    (h : Readable blob (rows.map fun row => (row.offset, row.size)) payloads n)
    (folder : Folder (List Char) ι) : run decode .smooth index (some blob) folder =
      (folder.putAll (List.zipWith (imageOf decode) (rows.take n) (payloads.take n)),
        decide (0 < rows.length ∧ n = rows.length)) := by
  cases rows with
  | nil =>
    obtain rfl : n = 0 := by simpa using hn
    simp [run, hrows]
  | cons row rows =>
    obtain ⟨hfolder, hwritten, hok⟩ := writeRows_readable decode hlen hn h (s := { folder := folder }) rfl
    simp only [run, hrows, hfolder, hwritten, hok]
    simp [ImagesEnv.smooth]
    rfl

end ExportDepthToImages

namespace ExportDepthToMp4

variable {F ι κ : Type} {V : VideoWriter κ} (decode : RvlInput F → Picture ι) (colorize : ι → F → κ)

/-- The picture of a recorded frame. -/
def framePicture [Floats F] (f : RvlDepthFrame F × Int64) : Picture κ :=
  let scale := Floats.strtof (Floats.format f.1.depthScale).text
  let d := decode ⟨f.1.width, f.1.height, scale, f.1.data⟩
  ⟨d.width, d.height, colorize d.pixels scale⟩

/-- Where nothing fails, the loop stops at the first row that cannot be read. -/
theorem writeRows_readable {blob : List UInt8} {rows : List (Row F)} {payloads : List (List UInt8)}
    (hlen : payloads.length = rows.length) (hn : n ≤ rows.length)
    (h : Readable blob (rows.map fun row => (row.offset, row.size)) payloads n) (s : Written V) :
    (writeRows decode colorize .smooth blob rows s).calls =
        s.calls ++ List.zipWith (picture decode colorize) (rows.take n) (payloads.take n) ∧
      (writeRows decode colorize .smooth blob rows s).written = s.written + n := by
  induction rows generalizing n payloads s with
  | nil =>
    obtain rfl : n = 0 := by simpa using hn
    exact ⟨(List.append_nil _).symm, rfl⟩
  | cons row rows ih =>
    cases payloads with
    | nil => cases hlen
    | cons p payloads =>
      rw [writeRows, if_neg (by simp [Env.smooth]), writeRow]
      cases n with
      | zero =>
        have htorn := h.torn (row.offset, row.size) rfl
        rcases load_of_none true true row.size with hload | hload <;>
          simp [htorn, hload, Env.smooth]
      | succ n =>
        have hload : load (Env.smooth.memory s.written) (Env.smooth.decodes s.written) row.size
            (if Env.smooth.readOk s.written then readSlice blob row.offset row.size else none) = .data p :=
          load_of_readSlice h.head
        rw [hload]
        obtain ⟨hcalls, hwritten⟩ := ih (Nat.succ.inj hlen) (Nat.le_of_succ_le_succ hn) h.tail
          { s with
            writer := V.write s.writer (picture decode colorize row p)
            calls := s.calls ++ [picture decode colorize row p]
            written := s.written + 1 }
        refine ⟨hcalls.trans ?_, hwritten.trans (Nat.add_right_comm ..)⟩
        simp

theorem run_readable [Floats F] {index : List Char} {blob : List UInt8} {rows : List (Row F)}
    {payloads : List (List UInt8)}
    (hrows : readIndex F index = rows) (hlen : payloads.length = rows.length) (hn : n ≤ rows.length)
    (h : Readable blob (rows.map fun row => (row.offset, row.size)) payloads n) (htwo : 2 ≤ rows.length) :
    ∃ written : Written V,
      run V decode colorize .smooth index (some blob) = (some written, decide (n = rows.length)) ∧
      written.calls = List.zipWith (picture decode colorize) (rows.take n) (payloads.take n) := by
  cases rows with
  | nil => simp at htwo
  | cons first rows =>
    cases rows with
    | nil => simp at htwo
    | cons second rows =>
      obtain ⟨hcalls, hwritten⟩ := writeRows_readable decode colorize hlen hn h
        ({ writer := V.opened first.width first.height } : Written V)
      refine ⟨_, ?_, hcalls.trans (List.nil_append _)⟩
      simp only [run, hrows, show Env.smooth.openWriter = true from rfl, if_true]
      rw [hwritten]
      simp [Env.smooth]
      rfl

theorem writeRows_size (env : Env) (rvl : List UInt8) (rows : List (Row F)) (s : Written V) :
    V.size (writeRows decode colorize env rvl rows s).writer = V.size s.writer := by
  induction rows generalizing s with
  | nil => rfl
  | cons row rows ih =>
    unfold writeRows writeRow
    split
    · rfl
    · cases load (env.memory s.written) (env.decodes s.written) row.size
        (if env.readOk s.written then readSlice rvl row.offset row.size else none) with
      | threw | failed => rfl
      | data data => exact (ih _).trans (V.size_write ..)

/-- The video has all pictures if they have the size of the first row. -/
theorem frames_run [Floats F] {env : Env} {index : List Char} {rvl : Option (List UInt8)} {s : Written V}
    (h : (run V decode colorize env index rvl).1 = some s)
    (hfirst : (readIndex F index).head? = some first)
    (hsize : ∀ frame ∈ s.calls, frame.width = first.width ∧ frame.height = first.height) :
    V.frames s.writer = s.calls.map (·.pixels) := by
  unfold run at h
  generalize readIndex F index = rows at h hfirst
  cases rvl with
  | none => rcases rows with _ | ⟨row, _ | ⟨second, rows⟩⟩ <;> simp at h
  | some rvl =>
    rcases rows with _ | ⟨row, _ | ⟨second, rows⟩⟩
    · simp at h
    · simp at h
    · cases ho : env.openWriter with
      | false => simp [ho] at h
      | true =>
        obtain rfl : row = first := Option.some.inj hfirst
        simp only [ho, if_true, Option.some.injEq] at h
        subst h
        have hstart : Taken ({ writer := V.opened row.width row.height } : Written V) :=
          ⟨rfl, fun _ => V.frames_opened ..⟩
        refine (hstart.writeRows env rvl _).2 fun frame hframe => ?_
        obtain ⟨hwidth, hheight⟩ := hsize frame hframe
        rw [VideoWriter.Fits, writeRows_size, V.size_opened, hwidth, hheight]

end ExportDepthToMp4

/-! ## A depth stream -/

section

variable {F ι κ : Type} [Floats F] {rs : List (RvlDepthFrame F × Int64)} {file : List Char}
  {blob : List UInt8} (hlines : (indexLines file).filterMap scanDepth = linesFrom depthLine 0 rs)
  (hn : n ≤ rs.length) (hread : Readable blob
    (((indexLines file).filterMap scanDepth).map fun l => (l.offset, l.size))
    (rs.map fun r => Frame.data r.1) n)
include hlines hn hread

/-- A run of the image exporter over the rows of `rs`. -/
theorem depthImages_recorded (decode : RvlInput F → ι) (folder : Folder (List Char) ι) :
    ExportDepthToImages.run decode .smooth file (some blob) folder =
      (folder.putAll ((rs.take n).map (ExportDepthToImages.frameImage decode)),
        decide (0 < rs.length ∧ n = rs.length)) := by
  have hlen : ((indexLines file).filterMap scanDepth).length = rs.length := by rw [hlines, length_linesFrom]
  have hpayloads : (rs.map fun r => Frame.data r.1).length =
      (((indexLines file).filterMap scanDepth).map fun l =>
      (⟨l.seq, l.offset, l.size, l.w, l.h, Floats.strtof l.scale⟩ :
        ExportDepthToImages.Row F)).length := by
    rw [List.length_map, List.length_map, hlen]
  have hrows : ExportDepthToImages.readIndex F file = ((indexLines file).filterMap scanDepth).map
      (fun l => ⟨l.seq, l.offset, l.size, l.w, l.h, Floats.strtof l.scale⟩) := rfl
  have hrun := ExportDepthToImages.run_readable decode (n := n) hrows
    hpayloads (by rw [List.length_map, hlen]; exact hn)
    (by rw [List.map_map]; exact hread) folder
  rw [List.length_map, hlen, hlines, linesFrom_map, linesFrom_take, ← List.map_take] at hrun
  rw [hrun, zipWith_linesFrom _ _ (ExportDepthToImages.frameImage decode) fun _ _ => rfl]

/-- A run of the video exporter over the rows of `rs`. -/
theorem depthMp4_recorded (V : VideoWriter κ) (decode : RvlInput F → Picture ι) (colorize : ι → F → κ)
    (htwo : 2 ≤ rs.length) :
    ∃ written, ExportDepthToMp4.run V decode colorize .smooth file (some blob) =
        (some written, decide (n = rs.length)) ∧
      written.calls = (rs.take n).map (ExportDepthToMp4.framePicture decode colorize) := by
  have hlen : ((indexLines file).filterMap scanDepth).length = rs.length := by rw [hlines, length_linesFrom]
  have hpayloads : (rs.map fun r => Frame.data r.1).length =
      (((indexLines file).filterMap scanDepth).map fun l =>
      (⟨l.recvNs, l.offset, l.size, l.w, l.h, Floats.strtof l.scale⟩ : ExportDepthToMp4.Row F)).length := by
    rw [List.length_map, List.length_map, hlen]
  have hrows : ExportDepthToMp4.readIndex F file = ((indexLines file).filterMap scanDepth).map
      (fun l => ⟨l.recvNs, l.offset, l.size, l.w, l.h, Floats.strtof l.scale⟩) := rfl
  obtain ⟨written, hrun, hcalls⟩ := ExportDepthToMp4.run_readable (V := V) decode colorize (n := n) hrows
    hpayloads (by rw [List.length_map, hlen]; exact hn)
    (by rw [List.map_map]; exact hread) (by rw [List.length_map, hlen]; exact htwo)
  rw [List.length_map, hlen] at hrun
  refine ⟨written, hrun, hcalls.trans ?_⟩
  rw [hlines, linesFrom_map, linesFrom_take, ← List.map_take]
  rw [zipWith_linesFrom _ _ (ExportDepthToMp4.framePicture decode colorize) fun _ _ => rfl]

end

/-! ## What a killed recorder leaves -/

theorem OnDevice.lengths {row : RowFn F} {header : List Char} {o : BlobWriter} {rs : List (F × Int64)}
    (h : BlobRecorder.OnDevice row header o rs j) :
    BlobRecorder.totalSize (rs.take (j + 1)) ≤ o.sink.data.file.length ∧
    (BlobSink.indexOf header 0 ((rs.take (j + 1)).map (BlobRecorder.entry row))).length ≤
      o.sink.index.file.length ∧ j < rs.length := by
  obtain ⟨r, hr, ⟨hdata, -⟩, hindex, -⟩ := h
  refine ⟨?_, ?_, (List.getElem?_eq_some_iff.mp hr).1⟩
  · rw [totalSize_take_succ rs hr, ← BlobRecorder.length_blobOf row]
    exact hdata
  · rw [(BlobSink.eq_take_append_cons hr).2, List.map_append, List.map_singleton, BlobSink.indexOf_append,
      List.length_append, Nat.zero_add]
    simpa [BlobSink.rowsFrom] using hindex

/-- In every state of a run, what is read of the two files. -/
theorem killed_reads {row : RowFn F} {scan : List Char → Option L} (mk : IndexEntry F → L)
    (cut : L → UInt64 × UInt64) (hscan : ∀ e, scan (e.text row) = some (mk e)) (hnil : scan [] = none)
    {header : List Char} (hheader : '\n' ∉ header) (hrow : ∀ e : IndexEntry F, '\n' ∉ e.text row)
    (hcut : ∀ e, cut (mk e) = (e.offset, e.size)) {s₀ s : BlobRecorder F}
    (hopen : BlobRecorder.new.open data index header cap = (true, s₀))
    (h : (BlobRecorder.machine row).run s₀ ls = some (s, es))
    (hlt : BlobRecorder.totalSize (Recorder.accepted es) < 2 ^ 63)
    (htorn : ¬ ('\n' ∈ s.out.sink.index.file ∧ (scan (tornLine s.out.sink.index.file)).isSome)) :
    ∃ k n, k ≤ (Recorder.accepted es).length ∧ n ≤ k ∧
      (indexLines s.out.sink.index.file).filterMap scan =
        linesFrom (fun off r => mk (indexEntry off r)) 0 ((Recorder.accepted es).take k) ∧
      Readable s.out.sink.data.file (((indexLines s.out.sink.index.file).filterMap scan).map cut)
        (((Recorder.accepted es).take k).map fun r => Frame.data r.1) n ∧
      (s.out.sink.data.bad = false → s.out.sink.index.bad = false →
        (Recorder.accepted es).length ≤ n + 2 * cap) := by
  obtain ⟨hdata, hindex, hkept⟩ := BlobRecorder.crash_keeps_blob hopen h
  obtain ⟨k, hk, hlines, hk'⟩ := scan_prefix hscan hnil hheader hrow _ (by omega) hindex htorn
  obtain ⟨n, hn, hread, hn'⟩ := readable_recorded (fun off r => mk (indexEntry off r)) cut
    (fun _ _ => hcut _) hlt hdata hk
  refine ⟨k, n, hk, hn, hlines, hlines ▸ hread, fun hd hi => ?_⟩
  obtain ⟨j, hj, hon⟩ := hkept hd hi
  cases j with
  | zero => omega
  | succ j =>
    obtain ⟨hsize, hrows, hlast⟩ := OnDevice.lengths (hon j (Nat.lt_succ_self j))
    have hjk := hk' (j + 1) hlast hrows
    have hjn := hn' (j + 1) hjk hsize
    omega

section

variable {rs : List (F × Int64)} {row : RowFn F} {header file : List Char}

/-- The beginning of an index is one of its lines, cut. -/
theorem exists_cut (hlt : BlobRecorder.totalSize rs < 2 ^ 63)
    (hp : file <+: BlobSink.indexOf header 0 (rs.map (BlobRecorder.entry row))) :
    ∃ (entries : List (IndexEntry F)) (q : Nat),
      file = (unlines (header :: entries.map (·.text row))).take q := by
  rw [BlobSink.indexOf, rowsFrom_entries row rs (by omega)] at hp
  exact ⟨_, _, List.prefix_iff_eq_take.mp hp⟩

end

/-- **Exporting what a killed recorder left.** In every state of a run of either recorder, as long as the
index is not cut where a part of a row reads as a row: each reader returns the rows of the first `k` frames
accepted; the slices of the first `n` of these are their payloads, and the next row cannot be read; without
failures no more than twice the capacity of the latest frames are missing. So the two depth exporters export
the first `n` frames, each as it was recorded, and succeed exactly if these are all that have a row. -/
theorem killed_recording {F ι κ : Type} [Floats F] :
    (∀ (data index : Option Device) (cap : Nat) (s₀ : BlobRecorder H264ColorFrame),
      BlobRecorder.new.open data index colorIdxHeader cap = (true, s₀) →
      ∀ ls s es, (BlobRecorder.machine colorRow).run s₀ ls = some (s, es) →
        BlobRecorder.totalSize (Recorder.accepted es) < 2 ^ 63 → ¬ TornColor s.out.sink.index.file →
        let frames := Recorder.accepted es
        let images := (ExportColorToImages.readIndex s.out.sink.index.file).1
        ∃ k n, k ≤ frames.length ∧ n ≤ k ∧
          images.map (fun row => (row.seq, row.isKey)) =
            (frames.take k).map (fun f => (f.1.sequence, keyFlag f.1.isKeyframe)) ∧
          (ExportColorToMp4.readIndex s.out.sink.index.file).rows =
            (frames.take k).map (fun f => ⟨f.2, keyFlag f.1.isKeyframe⟩) ∧
          Readable s.out.sink.data.file (images.map fun row => (row.offset, row.size))
            ((frames.take k).map (·.1.data)) n ∧
          (s.out.sink.data.bad = false → s.out.sink.index.bad = false → frames.length ≤ n + 2 * cap)) ∧
    (∀ (data index : Option Device) (cap : Nat) (s₀ : BlobRecorder (RvlDepthFrame F)),
      BlobRecorder.new.open data index depthIdxHeader cap = (true, s₀) →
      ∀ ls s es, (BlobRecorder.machine depthRow).run s₀ ls = some (s, es) →
        BlobRecorder.totalSize (Recorder.accepted es) < 2 ^ 63 → ¬ TornDepth s.out.sink.index.file →
        let frames := Recorder.accepted es
        let file := s.out.sink.index.file
        let blob := s.out.sink.data.file
        let images := ExportDepthToImages.readIndex F file
        let mp4 := ExportDepthToMp4.readIndex F file
        ∃ k n, k ≤ frames.length ∧ n ≤ k ∧
          images.map (fun row => (row.seq, row.width, row.height, row.scale)) =
            (frames.take k).map (fun f => (f.1.sequence, f.1.width, f.1.height,
              Floats.strtof (Floats.format f.1.depthScale).text)) ∧
          mp4.map (fun row => (row.recvNs, row.width, row.height, row.scale)) =
            (frames.take k).map (fun f => (f.2, f.1.width, f.1.height,
              Floats.strtof (Floats.format f.1.depthScale).text)) ∧
          Readable blob (images.map fun row => (row.offset, row.size)) ((frames.take k).map (·.1.data)) n ∧
          Readable blob (mp4.map fun row => (row.offset, row.size)) ((frames.take k).map (·.1.data)) n ∧
          (s.out.sink.data.bad = false → s.out.sink.index.bad = false → frames.length ≤ n + 2 * cap) ∧
          (∀ (decode : RvlInput F → ι) (folder : Folder (List Char) ι),
            ExportDepthToImages.run decode .smooth file (some blob) folder =
              (folder.putAll ((frames.take n).map (ExportDepthToImages.frameImage decode)),
                decide (0 < k ∧ n = k))) ∧
          (∀ (V : VideoWriter κ) (decode : RvlInput F → Picture ι) (colorize : ι → F → κ),
            (2 ≤ k → ∃ written, ExportDepthToMp4.run V decode colorize .smooth file (some blob) =
                (some written, decide (n = k)) ∧
              written.calls = (frames.take n).map (ExportDepthToMp4.framePicture decode colorize)) ∧
            (k < 2 → ExportDepthToMp4.run V decode colorize .smooth file (some blob) = (none, false)))) := by
  constructor
  · intro data index cap s₀ hopen ls s es h hlt htorn frames images
    obtain ⟨entries, q, hfile⟩ := exists_cut hlt (BlobRecorder.crash_keeps_blob hopen h).2.1
    have htorn' := (not_congr (tornColor_iff entries q)).mp (hfile ▸ htorn)
    rw [← hfile] at htorn'
    obtain ⟨k, n, hk, hn, hlines, hread, hbound⟩ := killed_reads IndexEntry.colorLine
      (fun l => (l.offset, l.size))
      (fun e => by rw [colorRow_isColumns.text, scanColor_columns]) rfl (by decide)
      colorRow_isColumns.text_no_newline (fun _ => rfl) hopen h hlt htorn'
    have htake := totalSize_take_mono (Recorder.accepted es) hk
    rw [List.take_length] at htake
    obtain ⟨himages, hmp4, -⟩ := colorRows_recorded hlines (by omega)
    refine ⟨k, n, hk, hn, himages, hmp4, ?_, hbound⟩
    have hcuts : (images.map fun row => (row.offset, row.size)) =
        ((indexLines s.out.sink.index.file).filterMap scanColor).map fun l => (l.offset, l.size) := by
      simp only [images, ExportColorToImages.readIndex_rows, List.map_map]
      rfl
    rw [hcuts]
    exact hread
  · intro data index cap s₀ hopen ls s es h hlt htorn
    dsimp only
    obtain ⟨entries, q, hfile⟩ := exists_cut hlt (BlobRecorder.crash_keeps_blob hopen h).2.1
    have htorn' := (not_congr (tornDepth_iff entries q)).mp (hfile ▸ htorn)
    rw [← hfile] at htorn'
    obtain ⟨k, n, hk, hn, hlines, hread, hbound⟩ := killed_reads IndexEntry.depthLine
      (fun l => (l.offset, l.size))
      (fun e => by rw [depthRow_isColumns.text, scanDepth_columns]) rfl (by decide)
      depthRow_isColumns.text_no_newline (fun _ => rfl) hopen h hlt htorn'
    have hlen : ((Recorder.accepted es).take k).length = k := List.length_take_of_le hk
    have hfirst : ((Recorder.accepted es).take k).take n = (Recorder.accepted es).take n := by
      rw [List.take_take, Nat.min_eq_left hn]
    obtain ⟨himages, hmp4⟩ := depthRows_recorded hlines
    refine ⟨k, n, hk, hn, himages, hmp4, ?_, ?_, hbound, fun decode folder => ?_,
      fun V decode colorize => ⟨fun htwo => ?_, fun hone => ?_⟩⟩
    · rw [ExportDepthToImages.readIndex, List.map_map]
      exact hread
    · rw [ExportDepthToMp4.readIndex, List.map_map]
      exact hread
    · have hrun := depthImages_recorded hlines (by rw [hlen]; exact hn) hread decode folder
      rwa [hlen, hfirst] at hrun
    · have hrun := depthMp4_recorded hlines (by rw [hlen]; exact hn) hread V decode colorize
        (by rw [hlen]; exact htwo)
      rwa [hlen, hfirst] at hrun
    · refine ExportDepthToMp4.run_of_length_lt decode colorize ?_ _
      rw [ExportDepthToMp4.readIndex, List.length_map, hlines, length_linesFrom, hlen]
      exact hone

/-- Two depth frames, killed when the second row is on the file and its payload is not. -/
theorem killed_recording_two : ∃ s es,
    (BlobRecorder.machine (depthRow (F := TwoFloats))).run
      (BlobRecorder.new.open (some ⟨1000, 64, by decide⟩) (some ⟨1000, 1, by decide⟩) depthIdxHeader 4).2
      [.push (⟨7, -1, 640, 480, .milli, .vga, .vga, .vga, .vga, [9]⟩, 5), .enqueue, .popAll, .write, .count,
        .addBytes, .flush, .push (⟨8, -1, 640, 480, .milli, .vga, .vga, .vga, .vga, [2, 3]⟩, 6), .enqueue,
        .popAll, .write] = some (s, es) ∧
    ∃ k n, k ≤ 2 ∧ n ≤ k ∧ 2 ≤ n + 2 * 4 ∧
      ExportDepthToImages.run (fun f : RvlInput TwoFloats => f.data) .smooth s.out.sink.index.file
          (some s.out.sink.data.file) (fun _ => none) =
        (Folder.putAll (fun _ => none) (((Recorder.accepted es).take n).map
          (ExportDepthToImages.frameImage fun f : RvlInput TwoFloats => f.data)), decide (0 < k ∧ n = k)) := by
  refine Machine.exists_run (P := fun p => p.1.out.sink.data.bad = false ∧ p.1.out.sink.index.bad = false ∧
    (Recorder.accepted p.2).length = 2 ∧ BlobRecorder.totalSize (Recorder.accepted p.2) = 3 ∧
    tornLine p.1.out.sink.index.file = []) (by decide +kernel) ?_
  rintro s es h ⟨hd, hi, hlen, hsize, htorn⟩
  have hlt : BlobRecorder.totalSize (Recorder.accepted es) < 2 ^ 63 := by
    rw [show BlobRecorder.totalSize (Recorder.accepted es) = 3 from hsize]
    decide
  obtain ⟨k, n, hk, hn, -, -, -, -, hbound, himages, -⟩ := (killed_recording (F := TwoFloats) (κ := Unit)).2 _ _ _ _
    (BlobRecorder.open_eq ⟨rfl, rfl⟩ _ _ _ _) _ _ _ h hlt (by simp [TornDepth, htorn])
  exact ⟨k, n, hlen ▸ hk, hn, hlen ▸ hbound hd hi, himages _ _⟩

/-- Where nothing is cancelled or fails, both depth exporters export all of `frames`: the image exporter
writes the image of every frame and succeeds if there is one; with two frames the video exporter hands the
picture of every frame to its writer, and the video has all if they have the size of the first. -/
structure DepthExported (ι κ : Type) {F : Type} [Floats F] (frames : List (RvlDepthFrame F × Int64))
    (file : List Char) (blob : List UInt8) : Prop where
  images : ∀ (decode : RvlInput F → ι) (folder : Folder (List Char) ι),
    ExportDepthToImages.run decode .smooth file (some blob) folder =
      (folder.putAll (frames.map (ExportDepthToImages.frameImage decode)), decide (0 < frames.length))
  mp4 : ∀ (V : VideoWriter κ) (decode : RvlInput F → Picture ι) (colorize : ι → F → κ),
    2 ≤ frames.length →
    ∃ written, ExportDepthToMp4.run V decode colorize .smooth file (some blob) = (some written, true) ∧
      written.calls = frames.map (ExportDepthToMp4.framePicture decode colorize) ∧
      ∀ first ∈ frames.head?,
        (∀ frame ∈ written.calls, frame.width = first.1.width ∧ frame.height = first.1.height) →
          V.frames written.writer = written.calls.map (·.pixels)

theorem DepthExported.of_closed {F ι κ : Type} [Floats F] {s₀ s : BlobRecorder (RvlDepthFrame F)}
    {ls : List (Recorder.Label (RvlDepthFrame F × Int64))}
    {es : List (Recorder.Event (RvlDepthFrame F × Int64))}
    (hopen : BlobRecorder.new.open data index depthIdxHeader cap = (true, s₀))
    (h : (BlobRecorder.machine depthRow).run s₀ ls = some (s, es)) (hc : s.closer = .closed)
    (hd : s.out.sink.data.bad = false) (hi : s.out.sink.index.bad = false) :
    DepthExported ι κ (Recorder.accepted es) s.out.sink.index.file s.out.sink.data.file := by
  obtain ⟨hdata, hindex, -, -, hlt⟩ := BlobRecorder.closed_good hopen h hc hd hi
  have hlines : (indexLines s.out.sink.index.file).filterMap scanDepth =
      linesFrom depthLine 0 (Recorder.accepted es) := by
    rw [hindex]
    exact scan_indexOf depthRow_isColumns (fun off r => scanDepth_row r.1 r.2 off) (by decide) _ (by omega)
  have hprefix : s.out.sink.data.file <+:
      BlobSink.blobOf ((Recorder.accepted es).map (BlobRecorder.entry depthRow)) := by
    rw [hdata]
  obtain ⟨n, hn, hread, hn'⟩ := readable_recorded depthLine (fun l => (l.offset, l.size))
    (fun _ _ => rfl) hlt hprefix
    (Nat.le_refl (Recorder.accepted es).length)
  have hall := hn' (Recorder.accepted es).length (Nat.le_refl _)
    (by rw [hdata, BlobRecorder.length_blobOf, List.take_length])
  obtain rfl : n = (Recorder.accepted es).length := Nat.le_antisymm hn hall
  rw [List.take_length, ← hlines] at hread
  refine ⟨fun decode folder => ?_, fun V decode colorize htwo => ?_⟩
  · have hrun := depthImages_recorded hlines hn hread decode folder
    simpa using hrun
  · obtain ⟨written, hrun, hcalls⟩ := depthMp4_recorded hlines hn hread V decode colorize htwo
    rw [List.take_length] at hcalls
    refine ⟨written, by simpa using hrun, hcalls, fun first hfirst hsize => ?_⟩
    have hrow : (ExportDepthToMp4.readIndex F s.out.sink.index.file).head? =
        some ⟨first.2, 0, .ofNat first.1.data.length, first.1.width, first.1.height,
          Floats.strtof (Floats.format first.1.depthScale).text⟩ := by
      cases hframes : Recorder.accepted es with
      | nil => simp [hframes] at hfirst
      | cons r rs =>
        obtain rfl : r = first := by simpa [hframes] using hfirst
        simp [ExportDepthToMp4.readIndex, hlines, hframes, linesFrom, depthLine]
    exact ExportDepthToMp4.frames_run decode colorize (congrArg Prod.fst hrun) hrow hsize

end Kist
