import KistCollector.Export.Recovered
import KistCollector.Realsense.RealsenseRecorder

/-!
# From the samples of a camera to the exported files

A camera's samples are mapped to frames, pushed by its two subscribers, written by its two recorders, and
read back by the four exporters. Once `stop` has returned and no file has failed, the exporters export the
valid samples that arrived before the last sweep, except those counted as dropped (`camera_exported`). A
reader that is not reliable may have displaced some before they were taken.
-/

namespace Kist

open StrictEnvelope

/-! ## The wire -/

/-- A color message. A size is what `int` is made of, whatever its type. -/
structure CompressedColorFrame where
  seq : UInt64
  stampNs : Int64
  width : Int
  height : Int
  isKeyframe : Bool
  data : List UInt8

structure CompressedDepthFrame (F : Type) where
  seq : UInt64
  stampNs : Int64
  width : Int
  height : Int
  depthScale : F
  fx : F
  fy : F
  cx : F
  cy : F
  data : List UInt8

def mapColor (msg : CompressedColorFrame) : H264ColorFrame where
  width := .ofInt msg.width
  height := .ofInt msg.height
  sequence := msg.seq
  stampNs := msg.stampNs
  isKeyframe := msg.isKeyframe
  data := msg.data

def mapDepth {F : Type} (msg : CompressedDepthFrame F) : RvlDepthFrame F where
  width := .ofInt msg.width
  height := .ofInt msg.height
  sequence := msg.seq
  stampNs := msg.stampNs
  depthScale := msg.depthScale
  fx := msg.fx
  fy := msg.fy
  cx := msg.cx
  cy := msg.cy
  data := msg.data

namespace Pipe

variable {M F σ : Type} {map : M → F} {W : Sink (F × Int64) σ}

/-- The frames of the valid samples that arrived before the last sweep and were not displaced. -/
def wire (map : M → F) (reliable : Bool) (es : List (Event M F)) : List F := frames map (kept reliable es)

/-- A reliable reader displaces nothing. -/
theorem wire_true (map : M → F) (es : List (Event M F)) :
    wire map true es = frames map (arrived (beforeSweep es)) := congrArg _ (kept_true es)

/-- What is recorded is what came over the wire, in order, without what was counted as dropped. -/
structure FromWire (map : M → F) (reliable : Bool) (es : List (Event M F)) (dropped : Nat)
    (rs : List (F × Int64)) : Prop where
  sublist : (rs.map Prod.fst).Sublist (wire map reliable es)
  length : rs.length + dropped = (wire map reliable es).length

theorem FromWire.of_run {out₀ out : σ}
    (h : (machine map W).run ⟨.started b, (Recorder.init out₀).start out cap⟩ ls = some (s, es))
    (hc : s.recorder.closer = .closed) :
    FromWire map b es s.recorder.dropped (Recorder.accepted (recorded es)) := by
  have hsettled := Settled.of_run rfl rfl h hc
  obtain ⟨ks, hr⟩ := recorder_run h
  have hcounts := Recorder.Counts.of_run rfl hr
  have hsub := hcounts.sublist
  have hlen := hcounts.pushed_length
  have hdropped := hcounts.dropped
  rw [hsettled.idle] at hsub hlen hdropped
  have hwire : wire map b es = pushed es := hsettled.pushed_eq.symm
  constructor
  · rw [hwire, pushed]
    simpa [Producer.offered] using hsub.map Prod.fst
  · rw [hwire, pushed, List.length_map, hlen]
    simp only [Producer.refusals, Producer.offered, List.length_nil] at hdropped ⊢
    have hzero : (Recorder.init (R := F × Int64) out₀).dropped = 0 := rfl
    omega

end Pipe

/-! ## The color exporters -/

/-- From the first key frame `k` on, both color exporters export all of `frames`. -/
structure ColorExported (frames : List (H264ColorFrame × Int64)) (file : List Char) (blob : List UInt8) :
    Prop where
  images : ∀ k, firstKey frames = some k →
    (∀ f ∈ frames, f.1.data.length ≤ ExportColorToImages.maxPacket) →
    ∀ (ι : Type) (D : ExportColorToImages.H264Decoder ι) (env : ImagesEnv) (folder : Folder (List Char) ι),
      (∀ i, env.cancelled i = false) →
      (ExportColorToImages.run D env file (some blob) folder).1.sent =
        (frames.drop k).map fun f => ⟨f.1.data, f.1.sequence.toInt64⟩
  mp4 : ∀ k, firstKey frames = some k → 2 ≤ frames.length →
    ∀ demux AccessUnit, Demuxes demux AccessUnit → (∀ f ∈ frames, AccessUnit f.1.data) →
    ∀ (R : Rescale) (env : ExportColorToMp4.Env), env.demux = demux → env.openOutput = true →
      (∀ i, env.cancelled i = false) → env.cancelledAfter = false → (∀ i, env.writeFrame i = true) →
      let out := ExportColorToMp4.run R env file (some blob)
      out.2 = true ∧ out.1.map (·.data) = (frames.drop k).map (·.1.data) ∧
      ∀ key ∈ frames[k]?, out.1.map (·.pts) = pushUp (-2 ^ 63)
        ((frames.drop k).map fun f => (R.rescale ((f.2 - key.2) / 1000)).toInt)

theorem ColorExported.of_closed {s₀ s : BlobRecorder H264ColorFrame}
    {ls : List (Recorder.Label (H264ColorFrame × Int64))} {es : List (Recorder.Event (H264ColorFrame × Int64))}
    (hopen : BlobRecorder.new.open data index colorIdxHeader cap = (true, s₀))
    (h : (BlobRecorder.machine colorRow).run s₀ ls = some (s, es)) (hc : s.closer = .closed)
    (hd : s.out.sink.data.bad = false) (hi : s.out.sink.index.bad = false) :
    ColorExported (Recorder.accepted es) s.out.sink.index.file s.out.sink.data.file := by
  obtain ⟨hdata, hindex, -, -, hlt⟩ := BlobRecorder.closed_good hopen h hc hd hi
  rw [show s.out.sink.data.file = recordedBlob (Recorder.accepted es) from hdata,
    show s.out.sink.index.file = recordedIndex (Recorder.accepted es) from hindex]
  constructor
  · intro k hkey hsize ι D env folder hcancel
    exact images_recorded hlt hkey hsize folder hcancel
  · intro k hkey htwo demux AccessUnit hD hunits R env hdemux hout hcancel hafter hwrite
    exact mp4_recorded hlt hkey htwo hD hunits R hdemux hout hcancel hafter hwrite

/-! ## The camera -/

namespace RealsenseRecorder

variable {MC MD F : Type}

/-- A successful start of a new camera opens the files of both streams. -/
theorem start_opens {r₀ : RealsenseRecorder MC MD F} (h : new.start env name dir cap b = some r₀) :
    (∃ data index out, BlobRecorder.new.open data index colorIdxHeader cap = (true, r₀.color.recorder) ∧
      r₀.color = ⟨.started b, (Recorder.init {}).start out cap⟩) ∧
    ∃ data index out, BlobRecorder.new.open data index depthIdxHeader cap = (true, r₀.depth.recorder) ∧
      r₀.depth = ⟨.started b, (Recorder.init {}).start out cap⟩ := by
  have hnew : (new : RealsenseRecorder MC MD F).running = false := rfl
  simp only [start, hnew, Bool.false_eq_true, if_false, Option.ite_none_left_eq_some] at h
  obtain ⟨-, h⟩ := h
  split at h
  · rename_i c d hcolor hdepth
    simp only [ReliableSubscriber.start] at h
    split at h
    · rename_i hc hd
      split at hc <;> cases hc
      split at hd <;> cases hd
      cases h
      obtain ⟨outC, rfl⟩ := Recorder.openWith_eq_true hcolor
      obtain ⟨outD, rfl⟩ := Recorder.openWith_eq_true hdepth
      exact ⟨⟨_, _, outC, hcolor, rfl⟩, _, _, outD, hdepth, rfl⟩
    · cases h
  · cases h

/-- **From the wire to the exports.** A camera that was started and whose `stop` has returned, whatever the
schedule of its threads, of `stop` and of the samples. Each stream whose files have not failed was recorded
from the wire: its frames are those of the valid samples that arrived before the last sweep of its reader,
in order, without as many as are counted as dropped, and its exporters export all of them. -/
theorem camera_exported {F ι κ : Type} [Floats F]
    {r₀ s : RealsenseRecorder CompressedColorFrame (CompressedDepthFrame F) F}
    (hstart : new.start env name sessionDir cap b = some r₀)
    {ls : List (Label CompressedColorFrame (CompressedDepthFrame F) F)}
    {es : List (Event CompressedColorFrame (CompressedDepthFrame F) F)}
    (h : (machine mapColor mapDepth).run r₀ ls = some (s, es)) (hs : s.running = false) :
    (s.color.recorder.out.sink.data.bad = false → s.color.recorder.out.sink.index.bad = false →
      ∃ frames, Pipe.FromWire mapColor b (colorEvents es) s.color.recorder.dropped frames ∧
        ColorExported frames s.color.recorder.out.sink.index.file s.color.recorder.out.sink.data.file) ∧
    (s.depth.recorder.out.sink.data.bad = false → s.depth.recorder.out.sink.index.bad = false →
      ∃ frames, Pipe.FromWire mapDepth b (depthEvents es) s.depth.recorder.dropped frames ∧
        DepthExported ι κ frames s.depth.recorder.out.sink.index.file
          s.depth.recorder.out.sink.data.file) := by
  obtain ⟨⟨dataC, indexC, outC, hopenC, hcolor⟩, dataD, indexD, outD, hopenD, hdepth⟩ := start_opens hstart
  obtain ⟨outC', outD', hr₀⟩ := start_eq_some rfl hstart
  obtain ⟨ksC, hC⟩ := color_run h
  obtain ⟨ksD, hD⟩ := depth_run h
  obtain ⟨hcC, hcD⟩ := (Stopping.of_run (hr₀ ▸ h)).closed hs
  obtain ⟨jsC, hrC⟩ := Pipe.recorder_run hC
  obtain ⟨jsD, hrD⟩ := Pipe.recorder_run hD
  rw [hcolor] at hC
  rw [hdepth] at hD
  exact ⟨fun hd hi => ⟨_, .of_run hC hcC, .of_closed hopenC hrC hcC hd hi⟩,
    fun hd hi => ⟨_, .of_run hD hcD, .of_closed hopenD hrD hcD hd hi⟩⟩

/-- Two frames of each stream. -/
theorem camera_exported_four : ∃ r₀ s es,
    (new : RealsenseRecorder CompressedColorFrame (CompressedDepthFrame TwoFloats) TwoFloats).start
      ⟨fun _ => true, fun _ => some ⟨1000, 64, by decide⟩, true, true⟩ ['h'] ['d'] 4 true = some r₀ ∧
    (machine mapColor mapDepth).run r₀ (fourFrames ⟨1, 2, 640, 480, true, [9]⟩ ⟨2, 3, 640, 480, false, [8]⟩
      ⟨7, -1, 640, 480, .milli, .vga, .vga, .vga, .vga, [7]⟩
      ⟨8, -1, 640, 480, .milli, .vga, .vga, .vga, .vga, [6, 5]⟩) = some (s, es) ∧
    ∃ (color : List (H264ColorFrame × Int64)) (depth : List (RvlDepthFrame TwoFloats × Int64)),
      color.length = 2 ∧ depth.length = 2 ∧
      ColorExported color s.color.recorder.out.sink.index.file s.color.recorder.out.sink.data.file ∧
      DepthExported Unit Unit depth s.depth.recorder.out.sink.index.file
        s.depth.recorder.out.sink.data.file := by
  refine Machine.exists_run_from (P := fun p => p.1.running = false ∧
    (p.1.color.recorder.out.sink.data.bad = false ∧ p.1.color.recorder.out.sink.index.bad = false ∧
      p.1.color.recorder.dropped = 0 ∧ (Pipe.wire mapColor true (colorEvents p.2)).length = 2) ∧
    p.1.depth.recorder.out.sink.data.bad = false ∧ p.1.depth.recorder.out.sink.index.bad = false ∧
      p.1.depth.recorder.dropped = 0 ∧ (Pipe.wire mapDepth true (depthEvents p.2)).length = 2) ?ends ?_
  case ends => decide +kernel
  rintro r₀ s es hstart h ⟨hs, ⟨hcd, hci, hcdrop, hcwire⟩, hdd, hdi, hddrop, hdwire⟩
  obtain ⟨hcolor, hdepth⟩ := camera_exported (ι := Unit) (κ := Unit) hstart h hs
  obtain ⟨color, hC, hcexp⟩ := hcolor hcd hci
  obtain ⟨depth, hD, hdexp⟩ := hdepth hdd hdi
  have hclen : color.length + 0 = 2 := hcdrop ▸ hC.length.trans hcwire
  have hdlen : depth.length + 0 = 2 := hddrop ▸ hD.length.trans hdwire
  exact ⟨color, depth, hclen, hdlen, hcexp, hdexp⟩

end RealsenseRecorder
end Kist
