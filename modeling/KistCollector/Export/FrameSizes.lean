import KistCollector.Export.DepthToMp4

/-!
# Frames that change their size

`ExportColorToImages` makes its scaler context and its matrix for the first decoded frame, and
`ExportDepthToMp4` opens its video writer with the size of the first row; both use them to the end. Every
frame on the wire carries its own size. `converters_fit_iff` says for which sessions each conversion is
made with what was created for its own frame.
-/

namespace Kist
namespace ExportColorToImages

/-- The width, the height and the pixel format of a decoded frame. -/
structure Format where
  width : Int32
  height : Int32
  format : Int32
  deriving DecidableEq

/-- libswscale, as `drain` calls it. `getContext i` says whether `sws_getContext` makes a context at the
`i`th frame, and `scale` what a matrix holds after `sws_scale` with a context made for some format, or a
null one. With both made for the frame's own format the matrix holds the frame. -/
structure Scaler (ι κ : Type) where
  format : ι → Format
  getContext : Nat → Format → Bool
  scale : Option Format → Picture (Option κ) → ι → κ
  bgr24 : ι → κ
  scale_eq : ∀ frame pixels, scale (some (format frame))
    ⟨(format frame).width, (format frame).height, pixels⟩ frame = bgr24 frame

/-- A call of `sws_scale`: the format that the context was made for, the matrix, and the format of the
frame. -/
structure Scaling (κ : Type) where
  sws : Option Format
  bgr : Picture (Option κ)
  frame : Format
  deriving DecidableEq

def Scaling.Fits (c : Scaling κ) : Prop :=
  c.sws = some c.frame ∧ c.bgr.width = c.frame.width ∧ c.bgr.height = c.frame.height

instance (c : Scaling κ) : Decidable c.Fits := inferInstanceAs (Decidable (_ ∧ _ ∧ _))

/-- The locals of `run` that `drain` converts with, the calls of `sws_scale`, and the images. -/
structure Conversion (κ : Type) where
  sws : Option Format := none
  bgr : Picture (Option κ) := ⟨0, 0, none⟩
  calls : List (Scaling κ) := []
  images : List κ := []

variable {ι κ : Type} (S : Scaler ι κ)

/-- `if (!sws)` -/
def Conversion.create (s : Conversion κ) (f : Format) : Conversion κ :=
  match s.sws with
  | some _ => s
  | none =>
    { s with
      sws := if S.getContext s.calls.length f then some f else none
      bgr := ⟨f.width, f.height, none⟩ }

/-- One turn of `drain` for a frame that is not skipped, up to `imwrite`. -/
def convertFrame (s : Conversion κ) (f : AVFrame ι) : Conversion κ :=
  let s := s.create S (S.format f.image)
  let pixels := S.scale s.sws s.bgr f.image
  { s with
    bgr := { s.bgr with pixels := some pixels }
    calls := s.calls ++ [⟨s.sws, s.bgr, S.format f.image⟩]
    images := s.images ++ [pixels] }

/-- The conversions of a run that hands these frames to `imwrite`. Nothing else in `run` touches the
context or the matrix. -/
def conversions (frames : List (AVFrame ι)) : Conversion κ := frames.foldl (convertFrame S) {}

/-- Each call has a context and a matrix of its frame's format, and each image is its own frame. -/
def ShowsFrames (frames : List (AVFrame ι)) : Prop :=
  (∀ call ∈ (conversions S frames).calls, call.Fits) ∧
    (conversions S frames).images = frames.map fun f => S.bgr24 f.image

/-- The frames have one format, and there is a context for it. -/
def OneFormat : List (AVFrame ι) → Prop
  | [] => True
  | first :: frames => S.getContext 0 (S.format first.image) = true ∧
      ∀ f ∈ frames, S.format f.image = S.format first.image

variable {S}

/-! ## The conversions -/

/-- The context and the matrix are those of a format. -/
def Conversion.Created (s : Conversion κ) (f : Format) : Prop :=
  s.sws = some f ∧ s.bgr.width = f.width ∧ s.bgr.height = f.height

theorem Conversion.Created.create {s : Conversion κ} (H : s.Created f) (f' : Format) :
    s.create S f' = s := by
  simp [Conversion.create, H.1]

theorem Conversion.Created.convertFrame {s : Conversion κ} (H : s.Created f) (frame : AVFrame ι) :
    (ExportColorToImages.convertFrame S s frame).Created f := by
  simp only [ExportColorToImages.convertFrame, H.create]
  exact H

/-- A call with a created context fits exactly if the frame has its format. -/
theorem Conversion.Created.fits_iff {s : Conversion κ} (H : s.Created f) (f' : Format) :
    (⟨s.sws, s.bgr, f'⟩ : Scaling κ).Fits ↔ f' = f := by
  obtain ⟨hsws, hwidth, hheight⟩ := H
  simp only [Scaling.Fits, hsws, hwidth, hheight, Option.some.injEq]
  constructor
  · exact fun h => h.1.symm
  · rintro rfl
    exact ⟨rfl, rfl, rfl⟩

theorem calls_foldl {s : Conversion κ} (H : s.Created f) (frames : List (AVFrame ι)) :
    (∀ call ∈ (frames.foldl (convertFrame S) s).calls, call.Fits) ↔
      (∀ call ∈ s.calls, call.Fits) ∧ ∀ frame ∈ frames, S.format frame.image = f := by
  induction frames generalizing s with
  | nil => simp
  | cons frame frames ih =>
    rw [List.foldl_cons, ih (H.convertFrame frame), List.forall_mem_cons, ← and_assoc]
    simp only [convertFrame, H.create, List.forall_mem_append, List.forall_mem_singleton, H.fits_iff]

theorem images_foldl {s : Conversion κ} (H : s.Created f) {frames : List (AVFrame ι)}
    (h : ∀ frame ∈ frames, S.format frame.image = f) :
    (frames.foldl (convertFrame S) s).images =
      s.images ++ frames.map fun frame => S.bgr24 frame.image := by
  induction frames generalizing s with
  | nil => simp
  | cons frame frames ih =>
    obtain ⟨hframe, hframes⟩ := List.forall_mem_cons.mp h
    have hscale : S.scale s.sws s.bgr frame.image = S.bgr24 frame.image := by
      rw [← S.scale_eq frame.image s.bgr.pixels, hframe, ← H.1, ← H.2.1, ← H.2.2]
    rw [List.foldl_cons, ih (H.convertFrame frame) hframes, convertFrame, H.create]
    simp [hscale]

theorem mem_calls_foldl {s : Conversion κ} (h : call ∈ s.calls) (frames : List (AVFrame ι)) :
    call ∈ (frames.foldl (convertFrame S) s).calls := by
  induction frames generalizing s with
  | nil => exact h
  | cons frame frames ih =>
    apply ih
    unfold convertFrame Conversion.create
    split <;> exact List.mem_append_left _ h

theorem showsFrames_iff (frames : List (AVFrame ι)) : ShowsFrames S frames ↔ OneFormat S frames := by
  cases frames with
  | nil => simp [ShowsFrames, OneFormat, conversions]
  | cons first frames =>
    have hcreate : ({} : Conversion κ).create S (S.format first.image) =
        { sws := if S.getContext 0 (S.format first.image) then some (S.format first.image) else none
          bgr := ⟨(S.format first.image).width, (S.format first.image).height, none⟩ } := rfl
    simp only [ShowsFrames, OneFormat, conversions, List.foldl_cons]
    cases hcontext : S.getContext 0 (S.format first.image) with
    | false =>
      -- the first call is made with a null context
      refine iff_of_false (fun H => ?_) (fun H => absurd H.1 Bool.false_ne_true)
      have hcall := H.1 ⟨none, ⟨(S.format first.image).width, (S.format first.image).height, none⟩,
        S.format first.image⟩ (mem_calls_foldl (by simp [convertFrame, hcreate, hcontext]) frames)
      cases hcall.1
    | true =>
      have hcreated : (convertFrame S {} first).Created (S.format first.image) := by
        simp [convertFrame, hcreate, hcontext, Conversion.Created]
      have hcall : ∀ call ∈ (convertFrame S {} first).calls, call.Fits := by
        simp [convertFrame, hcreate, hcontext, Scaling.Fits]
      have himage : (convertFrame S {} first).images = [S.bgr24 first.image] := by
        simp [convertFrame, hcreate, hcontext, S.scale_eq]
      rw [calls_foldl hcreated, and_iff_right hcall, and_iff_right rfl]
      refine and_iff_left_of_imp (fun hframes => ?_)
      rw [images_foldl hcreated hframes, himage]
      rfl

end ExportColorToImages

namespace ExportDepthToMp4

variable {F ι κ : Type} {V : VideoWriter κ} (decode : RvlInput F → Picture ι) (colorize : ι → F → κ)

/-- Every picture handed to the writer has the writer's size, and those counted are in the video. -/
def ShowsPictures (s : Written V) : Prop :=
  (∀ frame ∈ s.calls, V.Fits s.writer frame) ∧ V.frames s.writer = s.calls.map (·.pixels) ∧
    s.written = s.calls.length

/-- Each row that the loop gets through decodes to a picture of this size. The loop is left where it is
cancelled, a row cannot be read or the worker dies. -/
def OneSize (env : Env) (rvl : List UInt8) (width height : Int32) : List (Row F) → Nat → Prop
  | [], _ => True
  | row :: rows, i => env.cancelled i = false → ∀ data,
      load (env.memory i) (env.decodes i) row.size
        (if env.readOk i then readSlice rvl row.offset row.size else none) = .data data →
        ((decode ⟨row.width, row.height, row.scale, data⟩).width = width ∧
          (decode ⟨row.width, row.height, row.scale, data⟩).height = height) ∧
        OneSize env rvl width height rows (i + 1)

/-- Where there is a video, each row that the loop gets through decodes to a picture of the first row's
size. -/
def FirstSize [Floats F] (env : Env) (index : List Char) (rvl : Option (List UInt8)) : Prop :=
  match readIndex F index, rvl with
  | first :: second :: rows, some rvl => env.openWriter = true →
      OneSize decode env rvl first.width first.height (first :: second :: rows) 0
  | _, _ => True

/-- The pictures handed to the writer are counted, and the video has them if all have its size. -/
def Taken (s : Written V) : Prop :=
  s.written = s.calls.length ∧
    ((∀ frame ∈ s.calls, V.Fits s.writer frame) → V.frames s.writer = s.calls.map (·.pixels))

theorem Taken.showsPictures_iff {s : Written V} (H : Taken s) :
    ShowsPictures s ↔ ∀ frame ∈ s.calls, V.Fits s.writer frame :=
  ⟨fun h => h.1, fun h => ⟨h, H.2 h, H.1⟩⟩

variable {decode colorize}

theorem fits_write (w : V.State) (frame frame' : Picture κ) :
    V.Fits (V.write w frame) frame' ↔ V.Fits w frame' := by
  rw [VideoWriter.Fits, V.size_write]
  rfl

theorem Taken.write {s : Written V} (H : Taken s) (frame : Picture κ) :
    Taken { s with
      writer := V.write s.writer frame
      calls := s.calls ++ [frame]
      written := s.written + 1 } := by
  refine ⟨?_, fun hfits => ?_⟩
  · rw [List.length_append, H.1]
    rfl
  · simp only [fits_write, List.forall_mem_append, List.forall_mem_singleton] at hfits
    dsimp only
    rw [V.frames_write _ _ hfits.2, H.2 hfits.1, List.map_append]
    rfl

theorem Taken.writeRows {s : Written V} (H : Taken s) (env : Env) (rvl : List UInt8)
    (rows : List (Row F)) :
    Taken (ExportDepthToMp4.writeRows decode colorize env rvl rows s) := by
  induction rows generalizing s with
  | nil => exact H
  | cons row rows ih =>
    unfold ExportDepthToMp4.writeRows writeRow
    split
    · exact H
    · cases load (env.memory s.written) (env.decodes s.written) row.size
        (if env.readOk s.written then readSlice rvl row.offset row.size else none) with
      | threw | failed => exact H
      | data data => exact ih (H.write _)

theorem calls_writeRows (env : Env) (rvl : List UInt8) (rows : List (Row F)) (s : Written V) :
    (∀ frame ∈ (writeRows decode colorize env rvl rows s).calls,
        V.Fits (writeRows decode colorize env rvl rows s).writer frame) ↔
      (∀ frame ∈ s.calls, V.Fits s.writer frame) ∧
        OneSize decode env rvl (V.size s.writer).1 (V.size s.writer).2 rows s.written := by
  induction rows generalizing s with
  | nil => simp [writeRows, OneSize]
  | cons row rows ih =>
    unfold writeRows writeRow OneSize
    cases hcancel : env.cancelled s.written with
    | true => simp
    | false =>
      cases load (env.memory s.written) (env.decodes s.written) row.size
        (if env.readOk s.written then readSlice rvl row.offset row.size else none) with
      | threw | failed => simp
      | data data =>
        have hfits : V.Fits s.writer (picture decode colorize row data) ↔
            (decode ⟨row.width, row.height, row.scale, data⟩).width = (V.size s.writer).1 ∧
              (decode ⟨row.width, row.height, row.scale, data⟩).height = (V.size s.writer).2 := by
          rw [VideoWriter.Fits, Prod.ext_iff, picture, eq_comm, eq_comm (a := (V.size s.writer).2)]
        simp only [Bool.false_eq_true, if_false, ih, fits_write, V.size_write,
          List.forall_mem_append, List.forall_mem_singleton, Load.data.injEq, forall_eq',
          true_imp_iff, hfits]
        rw [and_assoc]

theorem showsPictures_iff [Floats F] (env : Env) (index : List Char) (rvl : Option (List UInt8)) :
    (∀ s, (run V decode colorize env index rvl).1 = some s → ShowsPictures s) ↔
      FirstSize decode env index rvl := by
  unfold run FirstSize
  cases rvl with
  | none => rcases readIndex F index with _ | ⟨first, _ | ⟨second, rows⟩⟩ <;> simp
  | some rvl =>
    rcases readIndex F index with _ | ⟨first, _ | ⟨second, rows⟩⟩
    · simp
    · simp
    · cases env.openWriter with
      | false => simp
      | true =>
        have hstart : Taken ({ writer := V.opened first.width first.height } : Written V) :=
          ⟨rfl, fun _ => V.frames_opened ..⟩
        have htaken : Taken (ExportDepthToMp4.writeRows decode colorize env rvl (first :: second :: rows)
            { writer := V.opened first.width first.height }) := hstart.writeRows env rvl _
        simp only [if_true, Option.some.injEq, forall_eq', true_imp_iff, htaken.showsPictures_iff,
          calls_writeRows, V.size_opened]
        exact and_iff_right (by simp)

end ExportDepthToMp4

/-- What converts a frame was made for its format exactly if the decoder's frames have one format, and the
rows that are converted decode to the size of the first. -/
theorem converters_fit_iff {ι κ F : Type} [Floats F] (S : ExportColorToImages.Scaler ι κ)
    (D : ExportColorToImages.H264Decoder ι) (env : ImagesEnv) (color : List Char)
    (h264 : Option (List UInt8)) (folder : Folder (List Char) ι) (V : VideoWriter κ)
    (decode : RvlInput F → Picture ι) (colorize : ι → F → κ) (env' : ExportDepthToMp4.Env)
    (depth : List Char) (rvl : Option (List UInt8)) :
    (ExportColorToImages.ShowsFrames S (ExportColorToImages.run D env color h264 folder).1.writes ↔
        ExportColorToImages.OneFormat S (ExportColorToImages.stampedFrames D env color h264)) ∧
      ((∀ s, (ExportDepthToMp4.run V decode colorize env' depth rvl).1 = some s →
          ExportDepthToMp4.ShowsPictures s) ↔
        ExportDepthToMp4.FirstSize decode env' depth rvl) := by
  constructor
  · rw [ExportColorToImages.run_stampedFrames]
    exact ExportColorToImages.showsFrames_iff _
  · exact ExportDepthToMp4.showsPictures_iff env' depth rvl

/-- The index of a camera that is restarted at another resolution: two frames, of 640 x 480 and of
320 x 240. -/
def resizedColor : List Char := BlobSink.indexOf colorIdxHeader 0
  [BlobRecorder.entry colorRow (⟨7, -1, 640, 480, true, [1, 2]⟩, 5),
   BlobRecorder.entry colorRow (⟨8, -1, 320, 240, true, [3]⟩, 6)]

def resizedDepth : List Char := BlobSink.indexOf depthIdxHeader 0
  [BlobRecorder.entry depthRow
    ((⟨7, -1, 640, 480, .milli, .vga, .vga, .vga, .vga, [1, 2]⟩ : RvlDepthFrame TwoFloats), 5),
   BlobRecorder.entry depthRow
    ((⟨8, -1, 320, 240, .milli, .vga, .vga, .vga, .vga, [3]⟩ : RvlDepthFrame TwoFloats), 6)]

/-- A scaler for frames whose payload tells their format. With the context of another format it gives no
image. -/
def ExportColorToImages.Scaler.payload :
    ExportColorToImages.Scaler (List UInt8) (Option (List UInt8)) where
  format data := if data.length = 2 then ⟨640, 480, 0⟩ else ⟨320, 240, 0⟩
  getContext _ _ := true
  scale sws _ data := if sws = some (if data.length = 2 then ⟨640, 480, 0⟩ else ⟨320, 240, 0⟩) then
    some data else none
  bgr24 := some
  scale_eq _ _ := if_pos rfl

/-- The second frame of each stream is converted with what was made for the first. The depth export counts
both and succeeds, and its video has only one. -/
theorem converters_misfit :
    ¬ ExportColorToImages.ShowsFrames .payload
      (ExportColorToImages.run .payload .smooth resizedColor (some [1, 2, 3]) fun _ => none).1.writes ∧
    ¬ (∀ s, (ExportDepthToMp4.run (F := TwoFloats) .dropping (fun f => ⟨f.width, f.height, f.data⟩)
        (fun pixels _ => pixels) .smooth resizedDepth (some [1, 2, 3])).1 = some s →
      ExportDepthToMp4.ShowsPictures s) ∧
    (ExportDepthToMp4.run (F := TwoFloats) .dropping (fun f => ⟨f.width, f.height, f.data⟩)
      (fun pixels _ => pixels) .smooth resizedDepth (some [1, 2, 3])).2 = true := by
  refine ⟨fun h => ?_, fun h => ?_, by decide +kernel⟩
  · have hcalls := h.1
    revert hcalls
    decide +kernel
  · have hwritten : ((ExportDepthToMp4.run (F := TwoFloats) .dropping
        (fun f => ⟨f.width, f.height, f.data⟩) (fun pixels _ => pixels) .smooth resizedDepth
        (some [1, 2, 3])).1.map fun s => (VideoWriter.dropping.frames s.writer, s.written)) =
        some ([[1, 2]], 2) := by decide +kernel
    obtain ⟨s, hs, heq⟩ := Option.map_eq_some_iff.mp hwritten
    obtain ⟨-, hframes, hcount⟩ := h s hs
    have hlen := congrArg List.length hframes
    obtain ⟨hone, htwo⟩ := Prod.mk.inj heq
    rw [List.length_map, ← hcount, hone, htwo] at hlen
    exact absurd hlen (by decide)

end Kist
