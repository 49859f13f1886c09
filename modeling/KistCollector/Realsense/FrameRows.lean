import KistCollector.Common.BlobRecorder
import KistCollector.Common.CsvRows

/-!
# The index rows of the camera streams

One row for each recorded frame. `colorRow` and `depthRow` print into fixed-size buffers; no row is cut
(`colorRow_eq`, `depthRow_eq`), and with the offset and the size that the recorder appends a row is a
line of columns that `sscanf` reads back.
-/

namespace Kist

open Text Scanf

/-- The C library on the floats of type `F`: `%.6g` prints one literal, of at most 13 characters, and
`strtof` is the value of a literal. -/
class Floats (F : Type) where
  format : F → GLiteral
  strtof : List Char → F
  length_le : ∀ x, (format x).text.length ≤ 13

/-- Two floats, with what the C library prints of them. -/
inductive TwoFloats where
  | milli
  | vga

instance : Floats TwoFloats where
  format
    | .milli => ⟨false, .number ⟨['0'], nofun, by simp⟩ (some ⟨['0', '0', '1'], nofun, by simp⟩) none⟩
    | .vga => ⟨false, .number ⟨['6', '4', '0'], nofun, by simp⟩ none none⟩
  strtof cs := if cs = ['0', '.', '0', '0', '1'] then .milli else .vga
  length_le x := by cases x <;> decide

structure H264ColorFrame where
  sequence : UInt64
  stampNs : Int64
  width : Int32
  height : Int32
  isKeyframe : Bool
  data : List UInt8
  deriving DecidableEq

structure RvlDepthFrame (F : Type) where
  sequence : UInt64
  stampNs : Int64
  width : Int32
  height : Int32
  depthScale : F
  fx : F
  fy : F
  cx : F
  cy : F
  data : List UInt8
  deriving DecidableEq

instance : Frame H264ColorFrame := ⟨(·.sequence), (·.data)⟩

instance : Frame (RvlDepthFrame F) := ⟨(·.sequence), (·.data)⟩

def colorIdxHeader : List Char :=
  "seq,stamp_ns,recv_ns,width,height,is_keyframe,offset,size".toList

def depthIdxHeader : List Char :=
  "seq,stamp_ns,recv_ns,width,height,depth_scale,fx,fy,cx,cy,offset,size".toList

/-- `%d` of `is_keyframe ? 1 : 0`. -/
def keyFlag (isKeyframe : Bool) : Int32 := if isKeyframe then 1 else 0

def colorRow : RowFn H264ColorFrame := fun f recvNs =>
  snprintf 160 ([','].intercalate [decimal f.sequence.toNat, integer f.stampNs.toInt,
    integer recvNs.toInt, integer f.width.toInt, integer f.height.toInt,
    integer (keyFlag f.isKeyframe).toInt])

def depthRow {F : Type} [Floats F] : RowFn (RvlDepthFrame F) := fun f recvNs =>
  snprintf 200 ([','].intercalate [decimal f.sequence.toNat, integer f.stampNs.toInt,
    integer recvNs.toInt, integer f.width.toInt, integer f.height.toInt,
    (Floats.format f.depthScale).text, (Floats.format f.fx).text, (Floats.format f.fy).text,
    (Floats.format f.cx).text, (Floats.format f.cy).text])

def colorColumns (f : H264ColorFrame) (recvNs : Int64) : List Column :=
  [.llu f.sequence, .lld f.stampNs, .lld recvNs, .d f.width, .d f.height, .d (keyFlag f.isKeyframe)]

def depthColumns {F : Type} [Floats F] (f : RvlDepthFrame F) (recvNs : Int64) : List Column :=
  [.llu f.sequence, .lld f.stampNs, .lld recvNs, .d f.width, .d f.height,
    .f (Floats.format f.depthScale), .f (Floats.format f.fx), .f (Floats.format f.fy),
    .f (Floats.format f.cx), .f (Floats.format f.cy)]

/-- No color row is cut by its buffer. -/
theorem colorRow_eq (f : H264ColorFrame) (recvNs : Int64) :
    colorRow f recvNs = columnsText (colorColumns f recvNs) := by
  refine snprintf_eq ?_
  have h1 := length_llu f.sequence
  have h2 := length_lld f.stampNs
  have h3 := length_lld recvNs
  have h4 := length_d f.width
  have h5 := length_d f.height
  have h6 := length_d (keyFlag f.isKeyframe)
  simp only [List.intercalate_cons_cons, List.intercalate_singleton, List.length_append,
    List.length_singleton]
  omega

/-- No depth row is cut by its buffer. -/
theorem depthRow_eq {F : Type} [Floats F] (f : RvlDepthFrame F) (recvNs : Int64) :
    depthRow f recvNs = columnsText (depthColumns f recvNs) := by
  refine snprintf_eq ?_
  have h1 := length_llu f.sequence
  have h2 := length_lld f.stampNs
  have h3 := length_lld recvNs
  have h4 := length_d f.width
  have h5 := length_d f.height
  have h6 := Floats.length_le f.depthScale
  have h7 := Floats.length_le f.fx
  have h8 := Floats.length_le f.fy
  have h9 := Floats.length_le f.cx
  have h10 := Floats.length_le f.cy
  simp only [List.intercalate_cons_cons, List.intercalate_singleton, List.length_append,
    List.length_singleton]
  omega

/-! ## Complete index rows -/

/-- A row function whose rows are the texts of columns. -/
structure RowFn.IsColumns (row : RowFn F) (cols : F → Int64 → List Column) : Prop where
  row_eq : ∀ f recvNs, row f recvNs = columnsText (cols f recvNs)
  ne_nil : ∀ f recvNs, cols f recvNs ≠ []

theorem colorRow_isColumns : RowFn.IsColumns colorRow colorColumns :=
  ⟨colorRow_eq, fun _ _ => nofun⟩

theorem depthRow_isColumns {F : Type} [Floats F] :
    RowFn.IsColumns (depthRow (F := F)) depthColumns :=
  ⟨depthRow_eq, fun _ _ => nofun⟩

/-- The columns of the row of a frame at `offset`. -/
def rowColumns [Frame F] (cols : F → Int64 → List Column) (off : UInt64) (r : F × Int64) :
    List Column :=
  cols r.1 r.2 ++ [.llu off] ++ [.llu (.ofNat (Frame.data r.1).length)]

/-- What a line of an index stands for: a frame, its arrival, and where its payload is. -/
structure IndexEntry (F : Type) where
  frame : F
  recvNs : Int64
  offset : UInt64
  size : UInt64
  deriving DecidableEq

namespace IndexEntry

/-- The line that `BlobSink::append` writes. -/
def text (row : RowFn F) (e : IndexEntry F) : List Char :=
  row e.frame e.recvNs ++ ',' :: decimal e.offset.toNat ++ ',' :: decimal e.size.toNat

def columns (cols : F → Int64 → List Column) (e : IndexEntry F) : List Column :=
  cols e.frame e.recvNs ++ [.llu e.offset] ++ [.llu e.size]

end IndexEntry

/-- A line is the text of its columns. -/
theorem RowFn.IsColumns.text {row : RowFn F} {cols : F → Int64 → List Column}
    (H : RowFn.IsColumns row cols) (e : IndexEntry F) :
    e.text row = columnsText (e.columns cols) := by
  rw [IndexEntry.columns, columnsText_append_cons _ (by simp),
    columnsText_append_cons _ (H.ne_nil e.frame e.recvNs), ← H.row_eq]
  rfl

/-- As long as offset and size are 64-bit numbers, a row is the text of its columns. -/
theorem RowFn.IsColumns.row [Frame F] {row : RowFn F} {cols : F → Int64 → List Column}
    (H : RowFn.IsColumns row cols) (r : F × Int64) (hoff : off < 2 ^ 64)
    (hsize : (Frame.data r.1).length < 2 ^ 64) :
    (BlobRecorder.entry row r).row off = columnsText (rowColumns cols (.ofNat off) r) := by
  rw [rowColumns, columnsText_append_cons _ (by simp),
    columnsText_append_cons _ (H.ne_nil r.1 r.2), ← H.row_eq, BlobSink.Entry.row]
  simp only [BlobRecorder.entry, Column.llu, UInt64.toNat_ofNat_of_lt' hoff,
    UInt64.toNat_ofNat_of_lt' hsize]

/-- No character of a column text is a line break or ends a string. -/
theorem columnsText_plain (cols : List Column) :
    '\n' ∉ columnsText cols ∧ '\x00' ∉ columnsText cols :=
  ⟨not_mem_columnsText (by decide) (by decide) cols, not_mem_columnsText (by decide) (by decide) cols⟩

end Kist
