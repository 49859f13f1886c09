import KistCollector.Export.ColorToMp4
import KistCollector.Export.ToImages
import Mathlib.Data.List.SplitBy

/-!
# The two color exporters see the same frames

The mp4 exporter streams the blob from the first key frame on and pairs packets with rows by counting;
the image exporter seeks to each row's slice. On a color stream that was recorded without failures both
find the rows of the same frames and the same first key frame, and the bytes the one streams are the
slices the other reads (`same_frames`).
-/

namespace Kist

open Text Scanf StrictEnvelope

/-! ## Recorded rows -/

section

variable {F L : Type} [Frame F]

theorem linesFrom_getElem? (mk : UInt64 → F × Int64 → L) (off : Nat) (rs : List (F × Int64)) (k : Nat) :
    (linesFrom mk off rs)[k]? =
      rs[k]?.map (mk (.ofNat (off + BlobRecorder.totalSize (rs.take k)))) := by
  induction rs generalizing off k with
  | nil => rfl
  | cons r rs ih =>
    cases k with
    | zero => simp [linesFrom, BlobRecorder.totalSize]
    | succ k =>
      rw [linesFrom, List.getElem?_cons_succ, ih, List.getElem?_cons_succ, List.take_succ_cons]
      simp [BlobRecorder.totalSize, Nat.add_assoc]

/-- Behind the payloads of the first `k` records are those of the others. -/
theorem drop_blobOf (row : RowFn F) (rs : List (F × Int64)) (k : Nat) :
    (BlobSink.blobOf (rs.map (BlobRecorder.entry row))).drop (BlobRecorder.totalSize (rs.take k)) =
      (rs.drop k).flatMap fun r => Frame.data r.1 := by
  have hsplit : BlobSink.blobOf (rs.map (BlobRecorder.entry row)) =
      BlobSink.blobOf ((rs.take k).map (BlobRecorder.entry row)) ++
        BlobSink.blobOf ((rs.drop k).map (BlobRecorder.entry row)) := by
    rw [← BlobSink.blobOf_append, ← List.map_append, List.take_append_drop]
  rw [hsplit, List.drop_left' (BlobRecorder.length_blobOf row _), BlobSink.blobOf, List.flatMap_map]
  rfl

end

/-- Where the first key frame is. -/
def firstKey (frames : List (H264ColorFrame × Int64)) : Option Nat :=
  frames.findIdx? fun f => f.1.isKeyframe

theorem colorLine_isKey (off : UInt64) (r : H264ColorFrame × Int64) :
    (colorLine off r).isKey = r.1.isKeyframe := by
  rw [ColorLine.isKey, colorLine, keyFlag]
  cases r.1.isKeyframe <;> rfl

theorem findIdx?_linesFrom (off : Nat) (rs : List (H264ColorFrame × Int64)) :
    (linesFrom colorLine off rs).findIdx? (·.isKey) = firstKey rs := by
  calc (linesFrom colorLine off rs).findIdx? (·.isKey)
      = ((linesFrom colorLine off rs).map (·.isKey)).findIdx? id := by rw [List.findIdx?_map]; rfl
    _ = (rs.map fun r => r.1.isKeyframe).findIdx? id := by rw [map_linesFrom colorLine_isKey]
    _ = firstKey rs := by rw [List.findIdx?_map]; rfl

section

variable {rs : List (H264ColorFrame × Int64)} {k : Nat}

/-- The two files of a stream that was recorded without failures. -/
def recordedIndex (rs : List (H264ColorFrame × Int64)) : List Char :=
  BlobSink.indexOf colorIdxHeader 0 (rs.map (BlobRecorder.entry colorRow))

def recordedBlob (rs : List (H264ColorFrame × Int64)) : List UInt8 :=
  BlobSink.blobOf (rs.map (BlobRecorder.entry colorRow))

theorem totalSize_take_le (rs : List (H264ColorFrame × Int64)) (k : Nat) :
    BlobRecorder.totalSize (rs.take k) ≤ BlobRecorder.totalSize rs := by
  have hsplit : BlobRecorder.totalSize (rs.take k ++ rs.drop k) =
      BlobRecorder.totalSize (rs.take k) + BlobRecorder.totalSize (rs.drop k) := by
    rw [BlobRecorder.totalSize, List.map_append, List.sum_append]
    rfl
  rw [List.take_append_drop] at hsplit
  omega

/-- What the two readers make of the first key frame. -/
theorem recorded_keys (hlt : BlobRecorder.totalSize rs < 2 ^ 63) (hkey : firstKey rs = some k) :
    (ExportColorToImages.readIndex (recordedIndex rs)).2 = some k ∧
      (ExportColorToMp4.readIndex (recordedIndex rs)).firstKey = some k ∧
      (ExportColorToMp4.readIndex (recordedIndex rs)).cutOffset.toNat =
        BlobRecorder.totalSize (rs.take k) := by
  obtain ⟨hfirst, hcut⟩ := ExportColorToMp4.readIndex_firstKey (recordedIndex rs)
  have hline := findIdx?_linesFrom 0 rs
  rw [hkey] at hline
  obtain ⟨hk, -, -⟩ := List.findIdx?_eq_some_iff_getElem.mp hkey
  have hle := totalSize_take_le rs k
  rw [ExportColorToImages.readIndex_firstKey, hfirst, hcut, recordedIndex,
    colorLines_recorded rs (by omega)]
  refine ⟨hline, hline, ?_⟩
  rw [List.find?_eq_bind_findIdx?_getElem?, hline, Option.bind_some, linesFrom_getElem?,
    List.getElem?_eq_getElem hk, Nat.zero_add]
  exact UInt64.toNat_ofNat_of_lt' (by simp only [UInt64.size]; omega)

/-- What the mp4 exporter streams. -/
theorem drop_recordedBlob (hlt : BlobRecorder.totalSize rs < 2 ^ 63) (hkey : firstKey rs = some k) :
    (recordedBlob rs).drop (ExportColorToMp4.readIndex (recordedIndex rs)).cutOffset.toNat =
      (rs.drop k).flatMap (·.1.data) := by
  rw [(recorded_keys hlt hkey).2.2]
  exact drop_blobOf colorRow rs k

/-- What the image exporter reads. -/
theorem slices_recorded (hlt : BlobRecorder.totalSize rs < 2 ^ 63) :
    (ExportColorToImages.readIndex (recordedIndex rs)).1.map
        (fun row => slice (recordedBlob rs) row.offset row.size) = rs.map (·.1.data) := by
  have hcuts := (colorRows_recorded (colorLines_recorded rs (by omega)) (by omega)).2.2.slices
  rwa [List.map_map] at hcuts

/-- Every row can be read: its range is within the blob. -/
theorem readSlice_recorded (hlt : BlobRecorder.totalSize rs < 2 ^ 63) :
    ∀ row ∈ (ExportColorToImages.readIndex (recordedIndex rs)).1,
      (∃ f ∈ rs, row.size.toNat = f.1.data.length) ∧
      readSlice (recordedBlob rs) row.offset row.size =
        some (slice (recordedBlob rs) row.offset row.size) := by
  intro row hrow
  obtain ⟨j, hj⟩ := List.mem_iff_getElem?.mp hrow
  have hslice := congrArg (·[j]?) (slices_recorded hlt)
  rw [List.getElem?_map, hj, Option.map_some, List.getElem?_map] at hslice
  obtain ⟨f, hf, hdata⟩ := Option.map_eq_some_iff.mp hslice.symm
  rw [ExportColorToImages.readIndex_rows, recordedIndex, colorLines_recorded rs (by omega),
    List.getElem?_map, linesFrom_getElem?, Nat.zero_add, hf] at hj
  obtain rfl : _ = row := Option.some.inj hj
  -- the row's range ends where the ranges of the rows up to it end
  have hend := totalSize_take_le rs (j + 1)
  have htotal : BlobRecorder.totalSize (rs.take (j + 1)) =
      BlobRecorder.totalSize (rs.take j) + f.1.data.length := by
    rw [List.take_add_one, hf]
    simp [BlobRecorder.totalSize, Frame.data]
  have hoffset : (UInt64.ofNat (BlobRecorder.totalSize (rs.take j))).toNat =
      BlobRecorder.totalSize (rs.take j) :=
    UInt64.toNat_ofNat_of_lt' (by simp only [UInt64.size]; omega)
  have hsize : (UInt64.ofNat f.1.data.length).toNat = f.1.data.length :=
    UInt64.toNat_ofNat_of_lt' (by simp only [UInt64.size]; omega)
  refine ⟨⟨f, List.mem_of_getElem? hf, hsize⟩, if_pos ⟨?_, ?_, ?_⟩⟩
  · have hlow : (UInt64.ofNat (BlobRecorder.totalSize (rs.take j))).toNat < 2 ^ 63 := by omega
    exact hlow
  · have hlow : (UInt64.ofNat f.1.data.length).toNat < 2 ^ 63 := by omega
    exact hlow
  · rw [← hdata]
    exact hsize.symm

/-- What the exporters assume of a stream: a payload is one access unit, not empty and not too large for
a packet, and the demuxer returns the access units of a stream one by one. -/
structure Demuxes (demux : List UInt8 → Option (List (List UInt8))) (AccessUnit : List UInt8 → Prop) :
    Prop where
  ne_nil : ∀ u, AccessUnit u → u ≠ []
  length_le : ∀ u, AccessUnit u → u.length ≤ ExportColorToImages.maxPacket
  demux_flatten : ∀ us, us ≠ [] → (∀ u ∈ us, AccessUnit u) → demux us.flatten = some us

/-- A run of the mp4 exporter over a recorded stream. -/
theorem mp4_recorded (hlt : BlobRecorder.totalSize rs < 2 ^ 63) (hkey : firstKey rs = some k)
    (htwo : 2 ≤ rs.length) (hD : Demuxes demux AccessUnit) (hunits : ∀ f ∈ rs, AccessUnit f.1.data)
    (R : Rescale) {env : ExportColorToMp4.Env} (hdemux : env.demux = demux)
    (hopen : env.openOutput = true) (hcancel : ∀ i, env.cancelled i = false)
    (hafter : env.cancelledAfter = false) (hwrite : ∀ i, env.writeFrame i = true) :
    let out := ExportColorToMp4.run R env (recordedIndex rs) (some (recordedBlob rs))
    out.2 = true ∧ out.1.map (·.data) = (rs.drop k).map (·.1.data) ∧
      ∀ key ∈ rs[k]?, out.1.map (·.pts) = pushUp (-2 ^ 63)
        ((rs.drop k).map fun f => (R.rescale ((f.2 - key.2) / 1000)).toInt) := by
  obtain ⟨-, hmp4, -⟩ := colorRows_recorded (colorLines_recorded rs (by omega)) (by omega)
  obtain ⟨-, hfirst, hcut⟩ := recorded_keys hlt hkey
  obtain ⟨hk, -, -⟩ := List.findIdx?_eq_some_iff_getElem.mp hkey
  have hle := totalSize_take_le rs k
  have hdrop : rs.drop k = rs[k] :: rs.drop (k + 1) := List.drop_eq_getElem_cons hk
  have hstream : env.demux ((recordedBlob rs).drop
      (ExportColorToMp4.readIndex (recordedIndex rs)).cutOffset.toNat) =
        some ((rs.drop k).map (·.1.data)) := by
    rw [drop_recordedBlob hlt hkey, hdemux, List.flatMap_def]
    refine hD.demux_flatten _ (by rw [hdrop]; nofun) fun u hu => ?_
    obtain ⟨f, hf, rfl⟩ := List.mem_map.mp hu
    exact hunits f (List.mem_of_mem_drop hf)
  have hrows : (ExportColorToMp4.readIndex (recordedIndex rs)).rows.drop k =
      (rs.drop k).map fun f => ⟨f.2, keyFlag f.1.isKeyframe⟩ := by
    rw [show (ExportColorToMp4.readIndex (recordedIndex rs)).rows = _ from hmp4, List.map_drop]
  rw [hdrop, List.map_cons] at hrows
  obtain ⟨hok, hdata, hpts⟩ := ExportColorToMp4.run_complete R hopen hcancel hafter hwrite hfirst
    (by rw [show (ExportColorToMp4.readIndex (recordedIndex rs)).rows = _ from hmp4]; simpa using htwo)
    (by omega) hstream hrows
    (by simp only [List.length_map, List.length_drop]; omega)
  refine ⟨hok, hdata, fun key hmem => ?_⟩
  obtain rfl : rs[k] = key := Option.some.inj ((List.getElem?_eq_getElem hk).symm.trans hmem)
  rw [hpts, hdrop, List.map_cons]
  simp [ExportColorToMp4.rowTimes, ExportColorToMp4.rowUs, Function.comp_def]

/-- A run of the image exporter over a recorded stream. -/
theorem images_recorded (hlt : BlobRecorder.totalSize rs < 2 ^ 63) (hkey : firstKey rs = some k)
    (hsize : ∀ f ∈ rs, f.1.data.length ≤ ExportColorToImages.maxPacket)
    {D : ExportColorToImages.H264Decoder ι} {env : ImagesEnv} (folder : Folder (List Char) ι)
    (hcancel : ∀ i, env.cancelled i = false) :
    (ExportColorToImages.run D env (recordedIndex rs) (some (recordedBlob rs)) folder).1.sent =
      (rs.drop k).map fun f => ⟨f.1.data, f.1.sequence.toInt64⟩ := by
  have hseqs := congrArg (List.map Prod.fst)
    (colorRows_recorded (colorLines_recorded rs (by omega)) (by omega)).1
  rw [List.map_map, List.map_map] at hseqs
  have hpairs : ((ExportColorToImages.readIndex (recordedIndex rs)).1.map fun row =>
      (slice (recordedBlob rs) row.offset row.size, row.seq)) =
        rs.map fun f => (f.1.data, f.1.sequence) := by
    rw [← List.zip_map', ← List.zip_map', slices_recorded hlt]
    exact congrArg _ hseqs
  have hsent := congrArg (fun ps => (ps.drop k).map fun p =>
    (⟨p.1, p.2.toInt64⟩ : ExportColorToImages.AVPacket)) hpairs
  rw [ExportColorToImages.sent_run env (recorded_keys hlt hkey).1,
    ExportColorToImages.sent_sendRows_complete hcancel
      (fun row => slice (recordedBlob rs) row.offset row.size)]
  · simpa [← List.map_drop, Function.comp_def] using hsent
  · intro row hrow
    obtain ⟨⟨f, hf, hlen⟩, hslice⟩ := readSlice_recorded hlt row (List.mem_of_mem_drop hrow)
    exact ⟨hlen ▸ hsize f hf, hslice⟩

end

/-- **The two color exporters see the same frames.** Any color stream recorded on a fresh recorder without
failures, any queue drops, with a key frame and two rows. Both readers return the rows of the accepted
frames and the same first key frame `k`; the bytes from `cut_offset` to the end are the slices of the rows
from `k` on, which are the payloads of their frames. If every payload is an access unit, an mp4 run that is
not cancelled and has no write error emits one packet for each of these rows, with its payload and stamped
from its arrival, and an image run that is not cancelled sends the decoder the same payloads with their
sequence numbers. -/
theorem same_frames (data index : Option Device) (cap : Nat) (s₀ : BlobRecorder H264ColorFrame)
    (hopen : BlobRecorder.new.open data index colorIdxHeader cap = (true, s₀))
    (ls : List (Recorder.Label (H264ColorFrame × Int64))) (s : BlobRecorder H264ColorFrame)
    (es : List (Recorder.Event (H264ColorFrame × Int64)))
    (h : (BlobRecorder.machine colorRow).run s₀ ls = some (s, es)) (hc : s.closer = .closed)
    (hd : s.out.sink.data.bad = false) (hi : s.out.sink.index.bad = false)
    (hkey : ∃ f ∈ Recorder.accepted es, f.1.isKeyframe = true)
    (htwo : 2 ≤ (Recorder.accepted es).length) :
    let frames := Recorder.accepted es
    let file := s.out.sink.index.file
    let blob := s.out.sink.data.file
    let images := ExportColorToImages.readIndex file
    let mp4 := ExportColorToMp4.readIndex file
    ∃ k, firstKey frames = some k ∧ images.2 = some k ∧ mp4.firstKey = some k ∧
      images.1.map (fun row => (row.seq, row.isKey)) =
        frames.map (fun f => (f.1.sequence, keyFlag f.1.isKeyframe)) ∧
      mp4.rows = frames.map (fun f => ⟨f.2, keyFlag f.1.isKeyframe⟩) ∧
      (∀ ns : List Nat, blob.length ≤ ns.sum →
        ExportColorToMp4.fed (blob.drop mp4.cutOffset.toNat) ns =
          (images.1.drop k).flatMap fun row => slice blob row.offset row.size) ∧
      (images.1.drop k).map (fun row => slice blob row.offset row.size) =
        (frames.drop k).map (·.1.data) ∧
      ∀ demux AccessUnit, Demuxes demux AccessUnit → (∀ f ∈ frames, AccessUnit f.1.data) →
        (∀ (R : Rescale) (env : ExportColorToMp4.Env), env.demux = demux → env.openOutput = true →
          (∀ i, env.cancelled i = false) → env.cancelledAfter = false →
          (∀ i, env.writeFrame i = true) →
          let out := ExportColorToMp4.run R env file (some blob)
          out.2 = true ∧ out.1.map (·.data) = (frames.drop k).map (·.1.data) ∧
          ∀ key ∈ frames[k]?, out.1.map (·.pts) = pushUp (-2 ^ 63)
            ((frames.drop k).map fun f => (R.rescale ((f.2 - key.2) / 1000)).toInt)) ∧
        (∀ (ι : Type) (D : ExportColorToImages.H264Decoder ι) (env : ImagesEnv)
          (folder : Folder (List Char) ι), (∀ i, env.cancelled i = false) →
          (ExportColorToImages.run D env file (some blob) folder).1.sent =
            (frames.drop k).map fun f => ⟨f.1.data, f.1.sequence.toInt64⟩) := by
  dsimp only
  obtain ⟨hdata, hindex, -, -, hlt⟩ := BlobRecorder.closed_good hopen h hc hd hi
  rw [show s.out.sink.data.file = recordedBlob (Recorder.accepted es) from hdata,
    show s.out.sink.index.file = recordedIndex (Recorder.accepted es) from hindex]
  generalize Recorder.accepted es = frames at hkey htwo hlt ⊢
  obtain ⟨k, hfirst⟩ : ∃ k, firstKey frames = some k := by
    cases hnone : firstKey frames with
    | some k => exact ⟨k, rfl⟩
    | none =>
      obtain ⟨f, hf, hfkey⟩ := hkey
      have hno := List.findIdx?_eq_none_iff.mp hnone f hf
      exact absurd (hno.symm.trans hfkey) nofun
  obtain ⟨hkimages, hkmp4, -⟩ := recorded_keys hlt hfirst
  obtain ⟨himages, hmp4, -⟩ := colorRows_recorded (colorLines_recorded frames (by omega)) (by omega)
  have hslices : ((ExportColorToImages.readIndex (recordedIndex frames)).1.drop k).map
      (fun row => slice (recordedBlob frames) row.offset row.size) =
        (frames.drop k).map (·.1.data) := by
    rw [List.map_drop, slices_recorded hlt, List.map_drop]
  refine ⟨k, hfirst, hkimages, hkmp4, himages, hmp4, fun ns hns => ?_, hslices,
    fun demux AccessUnit hD hunits => ⟨?_, ?_⟩⟩
  · rw [ExportColorToMp4.fed_eq, List.take_of_length_le (by rw [List.length_drop]; omega),
      drop_recordedBlob hlt hfirst, List.flatMap_def, List.flatMap_def, hslices]
  · intro R env hdemux hopen hcancel hafter hwrite
    exact mp4_recorded hlt hfirst htwo hD hunits R hdemux hopen hcancel hafter hwrite
  · intro ι D env folder hcancel
    exact images_recorded hlt hfirst (fun f hf => hD.length_le _ (hunits f hf)) folder hcancel

/-- A stream whose access units start with a zero and have no other. -/
def ZeroUnit (u : List UInt8) : Prop := ∃ t, u = 0 :: t ∧ 0 ∉ t ∧ t.length ≤ 1000

/-- Start a new access unit at each zero. -/
def splitAtZeros (cs : List UInt8) : Option (List (List UInt8)) := some (cs.splitBy fun _ b => b ≠ 0)

theorem demuxes_splitAtZeros : Demuxes splitAtZeros ZeroUnit := by
  refine ⟨?_, ?_, fun us _ hus => congrArg some (List.splitBy_flatten ?_ ?_ ?_)⟩
  · rintro u ⟨t, rfl, -⟩
    exact List.cons_ne_nil 0 t
  · rintro u ⟨t, rfl, -, hlen⟩
    exact Nat.le_trans (Nat.succ_le_succ hlen) (by decide)
  · intro hnil
    obtain ⟨t, heq, -⟩ := hus [] hnil
    cases heq
  · intro u hu
    obtain ⟨t, rfl, hzero, -⟩ := hus u hu
    refine List.Pairwise.isChain (List.pairwise_cons.mpr ⟨?_, ?_⟩)
    · intro b hb
      exact decide_eq_true fun heq => hzero (heq ▸ hb)
    · refine List.pairwise_of_forall_mem_list fun a _ b hb => ?_
      exact decide_eq_true fun heq => hzero (heq ▸ hb)
  · refine List.Pairwise.isChain (List.pairwise_of_forall_mem_list fun u hu v hv => ?_)
    obtain ⟨t, rfl, -⟩ := hus u hu
    obtain ⟨t', rfl, -⟩ := hus v hv
    exact ⟨List.cons_ne_nil 0 t, List.cons_ne_nil 0 t', rfl⟩

/-- Three frames, the second the first key frame. -/
theorem same_frames_three : ∃ s es,
    (BlobRecorder.machine colorRow).run
      (BlobRecorder.new.open (some ⟨1000, 64, by decide⟩) (some ⟨1000, 64, by decide⟩)
        colorIdxHeader 4).2
      ([.push (⟨7, -1, 640, 480, false, [0, 5]⟩, 1000), .enqueue,
        .push (⟨8, -1, 640, 480, true, [0, 1]⟩, 2000), .enqueue, .popAll, .write, .count, .addBytes,
        .write, .count, .addBytes, .flush] ++
        Recorder.oneRecord (⟨10, -1, 640, 480, false, [0, 2, 3]⟩, 3000)) = some (s, es) ∧
    (ExportColorToMp4.run .halfAway ⟨splitAtZeros, true, fun _ => false, false, fun _ => true⟩
      s.out.sink.index.file (some s.out.sink.data.file)).1.map (·.data) = [[0, 1], [0, 2, 3]] := by
  refine Machine.exists_run (P := fun p => p.1.closer = .closed ∧ p.1.out.sink.data.bad = false ∧
    p.1.out.sink.index.bad = false ∧ firstKey (Recorder.accepted p.2) = some 1 ∧
    (∃ f ∈ Recorder.accepted p.2, f.1.isKeyframe = true) ∧
    (Recorder.accepted p.2).map (·.1.data) = [[0, 5], [0, 1], [0, 2, 3]]) (by decide +kernel) ?_
  rintro s es h ⟨hc, hd, hi, hfirst, hkey, hdata⟩
  have htwo : 2 ≤ (Recorder.accepted es).length := by
    have := congrArg List.length hdata
    rw [List.length_map] at this
    exact this ▸ (by decide)
  obtain ⟨k, hk, -, -, -, -, -, -, hunits⟩ := same_frames _ _ _ _ (BlobRecorder.open_eq ⟨rfl, rfl⟩ _ _ _ _)
    _ s es h hc hd hi hkey htwo
  cases hfirst.symm.trans hk
  have hzero : ∀ f ∈ Recorder.accepted es, ZeroUnit f.1.data := by
    intro f hf
    have hmem := List.mem_map_of_mem (f := fun f => f.1.data) hf
    simp only [hdata, List.mem_cons, List.not_mem_nil, or_false] at hmem
    rcases hmem with heq | heq | heq
    · exact ⟨[5], heq, by decide, by decide⟩
    · exact ⟨[1], heq, by decide, by decide⟩
    · exact ⟨[2, 3], heq, by decide, by decide⟩
  have hmp4 := (hunits _ _ demuxes_splitAtZeros hzero).1 .halfAway
    ⟨splitAtZeros, true, fun _ => false, false, fun _ => true⟩ rfl rfl (fun _ => rfl) rfl fun _ => rfl
  rw [hmp4.2.1, List.map_drop, hdata]
  rfl

end Kist
