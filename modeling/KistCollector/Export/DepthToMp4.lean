import KistCollector.Export.ToImages

/-!
# Exporting a depth stream as mp4

`ExportDepthToMp4.run` decodes each row and hands the picture to OpenCV's `VideoWriter`, which was opened
with the size of the first row. Of the writer no more is assumed than that it takes pictures of that size
(`VideoWriter.frames_write`).
-/

namespace Kist

/-- A picture with its size: a decoded depth frame, or a `cv::Mat`. -/
structure Picture (ι : Type) where
  width : Int32
  height : Int32
  pixels : ι
  deriving DecidableEq

/-- `cv::VideoWriter`: how it is opened for a size, what `write` makes of it, and the frames of its video.
It takes pictures of the size that it was opened for; of others nothing is said. -/
structure VideoWriter (κ : Type) where
  State : Type
  opened : Int32 → Int32 → State
  write : State → Picture κ → State
  size : State → Int32 × Int32
  frames : State → List κ
  size_opened : ∀ width height, size (opened width height) = (width, height)
  frames_opened : ∀ width height, frames (opened width height) = []
  size_write : ∀ w frame, size (write w frame) = size w
  frames_write : ∀ w frame, size w = (frame.width, frame.height) →
    frames (write w frame) = frames w ++ [frame.pixels]

variable {κ : Type}

/-- The picture has the size that the writer was opened for. -/
def VideoWriter.Fits (V : VideoWriter κ) (w : V.State) (frame : Picture κ) : Prop :=
  V.size w = (frame.width, frame.height)

instance (V : VideoWriter κ) (w : V.State) (frame : Picture κ) : Decidable (V.Fits w frame) :=
  inferInstanceAs (Decidable (_ = _))

/-- A writer that drops the pictures of other sizes without a word. -/
def VideoWriter.dropping : VideoWriter κ where
  State := (Int32 × Int32) × List κ
  opened width height := ((width, height), [])
  write w frame := if w.1 = (frame.width, frame.height) then (w.1, w.2 ++ [frame.pixels]) else w
  size w := w.1
  frames w := w.2
  size_opened _ _ := rfl
  frames_opened _ _ := rfl
  size_write w frame := by split <;> rfl
  frames_write w frame h := by rw [if_pos h]

namespace ExportDepthToMp4

/-- Whether the writer opens, `cancel_` at the head of turn `i` and after the loop, whether the file system
serves the read of turn `i`, whether there is memory for its payload, and whether the decoder and OpenCV
take its row without an exception. -/
structure Env where
  openWriter : Bool
  cancelled : Nat → Bool
  cancelledAfter : Bool
  readOk : Nat → Bool
  memory : Nat → Bool
  decodes : Nat → Bool

/-- The writer opens, nothing is cancelled and nothing fails. -/
def Env.smooth : Env :=
  ⟨true, fun _ => false, false, fun _ => true, fun _ => true, fun _ => true⟩

/-- The writer, the pictures handed to it, and `written`. `died`: an exception has left `run`. -/
structure Written (V : VideoWriter κ) where
  writer : V.State
  calls : List (Picture κ) := []
  written : Nat := 0
  died : Bool := false

variable {F ι : Type} {V : VideoWriter κ} (decode : RvlInput F → Picture ι) (colorize : ι → F → κ)

/-- The picture of a row: `colorize` keeps the size that the decoder gives. -/
def picture (row : Row F) (data : List UInt8) : Picture κ :=
  let d := decode ⟨row.width, row.height, row.scale, data⟩
  ⟨d.width, d.height, colorize d.pixels row.scale⟩

/-- The body of the loop over the rows. False: it is left because the row cannot be read. -/
def writeRow (env : Env) (rvl : List UInt8) (s : Written V) (row : Row F) : Written V × Bool :=
  match load (env.memory s.written) (env.decodes s.written) row.size
    (if env.readOk s.written then readSlice rvl row.offset row.size else none) with
  | .threw => ({ s with died := true }, false)
  | .failed => (s, false)
  | .data data =>
    let frame := picture decode colorize row data
    ({ s with
      writer := V.write s.writer frame
      calls := s.calls ++ [frame]
      written := s.written + 1 }, true)

/-- The loop over the rows. -/
def writeRows (env : Env) (rvl : List UInt8) : List (Row F) → Written V → Written V
  | [], s => s
  | row :: rows, s =>
    if env.cancelled s.written then s
    else
      match writeRow decode colorize env rvl s row with
      | (s, true) => writeRows env rvl rows s
      | (s, false) => s

variable (V) in
/-- What was written, and `succeeded()`, which stays false where the worker dies. `none` is a blob that
does not open. -/
def run [Floats F] (env : Env) (index : List Char) (rvl : Option (List UInt8)) :
    Option (Written V) × Bool :=
  match readIndex F index, rvl with
  | first :: second :: rows, some rvl =>
    if env.openWriter then
      let s : Written V := writeRows decode colorize env rvl (first :: second :: rows)
        { writer := V.opened first.width first.height }
      (some s, s.written == (first :: second :: rows).length && !env.cancelledAfter)
    else (none, false)
  | _, _ => (none, false)

/-- Fewer than two rows are no video. -/
theorem run_of_length_lt [Floats F] {env : Env} {index : List Char} (h : (readIndex F index).length < 2)
    (rvl : Option (List UInt8)) : run V decode colorize env index rvl = (none, false) := by
  unfold run
  split
  · rename_i first second rows rvl hrows
    rw [hrows] at h
    simp only [List.length_cons] at h
    omega
  · rfl

end ExportDepthToMp4
end Kist
