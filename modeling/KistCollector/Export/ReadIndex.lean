import KistCollector.Realsense.FrameRows
import Mathlib.Data.List.TakeWhile

/-!
# How the exporters read an index

Each of the four exporters has a `read_index` of its own: skip the header line, scan each line with
`sscanf`, keep what that exporter needs of the lines that scan completely. The two color readers also
find the first key frame. The depth readers fall back to an older layout without the four intrinsics
columns.
-/

namespace Kist

open Text Scanf

/-- What `c_str` passes on: the text before the first NUL. -/
def cStr (line : List Char) : List Char := line.takeWhile (· ≠ '\x00')

/-- The lines after the header line. -/
def indexLines (file : List Char) : List (List Char) := (getlines file).tail

/-! ## Color -/

def colorFormat : List Char := "%llu,%lld,%lld,%d,%d,%d,%llu,%llu".toList

/-- The eight values of a complete color line. -/
structure ColorLine where
  seq : UInt64
  stampNs : Int64
  recvNs : Int64
  w : Int32
  h : Int32
  key : Int32
  offset : UInt64
  size : UInt64
  deriving DecidableEq

/-- Scan a line; anything but eight values is skipped. -/
def scanColor (line : List Char) : Option ColorLine :=
  match sscanf (cStr line) colorFormat with
  | [.llu seq, .lld stampNs, .lld recvNs, .d w, .d h, .d key, .llu offset, .llu size] =>
    some ⟨seq, stampNs, recvNs, w, h, key, offset, size⟩
  | _ => none

namespace ExportColorToImages

structure Row where
  seq : UInt64
  offset : UInt64
  size : UInt64
  isKey : Int32
  deriving DecidableEq

/-- One turn of the loop. For the first key, `none` is `SIZE_MAX`. -/
def readLine (acc : List Row × Option Nat) (line : List Char) : List Row × Option Nat :=
  match scanColor line with
  | none => acc
  | some l =>
    (acc.1 ++ [⟨l.seq, l.offset, l.size, l.key⟩],
      if l.key ≠ 0 ∧ acc.2 = none then some acc.1.length else acc.2)

def readIndex (file : List Char) : List Row × Option Nat :=
  (indexLines file).foldl readLine ([], none)

end ExportColorToImages

namespace ExportColorToMp4

structure Row where
  recvNs : Int64
  isKey : Int32
  deriving DecidableEq

/-- What the reader returns. The cut offset stays 0 where there is no key frame. -/
structure Index where
  rows : List Row := []
  cutOffset : UInt64 := 0
  firstKey : Option Nat := none
  deriving DecidableEq

/-- One turn of the loop. -/
def readLine (acc : Index) (line : List Char) : Index :=
  match scanColor line with
  | none => acc
  | some l =>
    let acc := if l.key ≠ 0 ∧ acc.firstKey = none then
      { acc with firstKey := some acc.rows.length, cutOffset := l.offset } else acc
    { acc with rows := acc.rows ++ [⟨l.recvNs, l.key⟩] }

def readIndex (file : List Char) : Index := (indexLines file).foldl readLine {}

end ExportColorToMp4

/-! ## Depth -/

def depthFormat : List Char := "%llu,%lld,%lld,%d,%d,%f,%f,%f,%f,%f,%llu,%llu".toList

/-- The layout without intrinsics. -/
def depthFormatOld : List Char := "%llu,%lld,%lld,%d,%d,%f,%llu,%llu".toList

/-- The values of a complete depth line that the readers use; of the scale, its literal. -/
structure DepthLine where
  seq : UInt64
  stampNs : Int64
  recvNs : Int64
  w : Int32
  h : Int32
  scale : List Char
  offset : UInt64
  size : UInt64
  deriving DecidableEq

/-- Scan a line in the current layout, or else in the older one. -/
def scanDepth (line : List Char) : Option DepthLine :=
  match sscanf (cStr line) depthFormat with
  | [.llu seq, .lld stampNs, .lld recvNs, .d w, .d h, .f scale, .f _, .f _, .f _, .f _,
      .llu offset, .llu size] => some ⟨seq, stampNs, recvNs, w, h, scale, offset, size⟩
  | _ =>
    match sscanf (cStr line) depthFormatOld with
    | [.llu seq, .lld stampNs, .lld recvNs, .d w, .d h, .f scale, .llu offset, .llu size] =>
      some ⟨seq, stampNs, recvNs, w, h, scale, offset, size⟩
    | _ => none

namespace ExportDepthToImages

structure Row (F : Type) where
  seq : UInt64
  offset : UInt64
  size : UInt64
  width : Int32
  height : Int32
  scale : F
  deriving DecidableEq

def readIndex (F : Type) [Floats F] (file : List Char) : List (Row F) :=
  ((indexLines file).filterMap scanDepth).map fun l =>
    ⟨l.seq, l.offset, l.size, l.w, l.h, Floats.strtof l.scale⟩

end ExportDepthToImages

namespace ExportDepthToMp4

structure Row (F : Type) where
  recvNs : Int64
  offset : UInt64
  size : UInt64
  width : Int32
  height : Int32
  scale : F
  deriving DecidableEq

def readIndex (F : Type) [Floats F] (file : List Char) : List (Row F) :=
  ((indexLines file).filterMap scanDepth).map fun l =>
    ⟨l.recvNs, l.offset, l.size, l.w, l.h, Floats.strtof l.scale⟩

end ExportDepthToMp4

/-- Every element is printed as a text that is scanned to some value. -/
theorem filterMap_map_some {text : α → β} {scan : β → Option L} {mk : α → L}
    (h : ∀ a, scan (text a) = some (mk a)) (as : List α) :
    (as.map text).filterMap scan = as.map mk := by
  induction as with
  | nil => rfl
  | cons a as ih => rw [List.map_cons, List.filterMap_cons, h, ih]; rfl

/-! ## What the color readers return -/

/-- The color lines of a file that scan completely. -/
def colorLines (file : List Char) : List ColorLine := (indexLines file).filterMap scanColor

theorem ExportColorToImages.readIndex_rows (file : List Char) :
    (readIndex file).1 = (colorLines file).map fun l => ⟨l.seq, l.offset, l.size, l.key⟩ := by
  have hfold : ∀ (lines : List (List Char)) acc, (lines.foldl readLine acc).1 =
      acc.1 ++ (lines.filterMap scanColor).map fun l => ⟨l.seq, l.offset, l.size, l.key⟩ := by
    intro lines
    induction lines with
    | nil => simp
    | cons line lines ih =>
      intro acc
      rw [List.foldl_cons, ih]
      cases h : scanColor line <;> simp [readLine, h]
  exact hfold _ _

theorem ExportColorToMp4.readIndex_rows (file : List Char) :
    (readIndex file).rows = (colorLines file).map fun l => ⟨l.recvNs, l.key⟩ := by
  have hfold : ∀ (lines : List (List Char)) acc, (lines.foldl readLine acc).rows =
      acc.rows ++ (lines.filterMap scanColor).map fun l => ⟨l.recvNs, l.key⟩ := by
    intro lines
    induction lines with
    | nil => simp
    | cons line lines ih =>
      intro acc
      rw [List.foldl_cons, ih]
      cases h : scanColor line with
      | none => simp [readLine, h]
      | some l =>
        simp only [readLine, h]
        split <;> simp [h]
  exact hfold _ _

/-- A line of a key frame. -/
def ColorLine.isKey (l : ColorLine) : Bool := l.key ≠ 0

theorem ExportColorToImages.readIndex_firstKey (file : List Char) :
    (readIndex file).2 = (colorLines file).findIdx? (·.isKey) := by
  have hfold : ∀ (lines : List (List Char)) acc, (lines.foldl readLine acc).2 =
      acc.2.or (((lines.filterMap scanColor).findIdx? (·.isKey)).map (· + acc.1.length)) := by
    intro lines
    induction lines with
    | nil => simp
    | cons line lines ih =>
      intro acc
      rw [List.foldl_cons, ih]
      cases h : scanColor line with
      | none => simp [readLine, h]
      | some l =>
        obtain ⟨rows, key⟩ := acc
        cases key <;> by_cases hkey : l.key = 0 <;>
          simp [readLine, h, List.findIdx?_cons, ColorLine.isKey, hkey, Function.comp_def,
            Nat.add_assoc, Nat.add_comm 1]
  simpa [readIndex, colorLines] using hfold (indexLines file) ([], none)

theorem ExportColorToMp4.readIndex_firstKey (file : List Char) :
    (readIndex file).firstKey = (colorLines file).findIdx? (·.isKey) ∧
      (readIndex file).cutOffset = (((colorLines file).find? (·.isKey)).map (·.offset)).getD 0 := by
  have hfold : ∀ (lines : List (List Char)) (acc : Index),
      (lines.foldl readLine acc).firstKey = acc.firstKey.or
        (((lines.filterMap scanColor).findIdx? (·.isKey)).map (· + acc.rows.length)) ∧
      (lines.foldl readLine acc).cutOffset = if acc.firstKey.isSome then acc.cutOffset else
        (((lines.filterMap scanColor).find? (·.isKey)).map (·.offset)).getD acc.cutOffset := by
    intro lines
    induction lines with
    | nil => simp
    | cons line lines ih =>
      intro acc
      rw [List.foldl_cons, (ih _).1, (ih _).2]
      cases h : scanColor line with
      | none => simp [readLine, h]
      | some l =>
        obtain ⟨rows, cut, key⟩ := acc
        cases key <;> by_cases hkey : l.key = 0 <;>
          simp [readLine, h, List.findIdx?_cons, ColorLine.isKey, hkey, Function.comp_def,
            Nat.add_assoc, Nat.add_comm 1]
  simpa [readIndex, colorLines] using hfold (indexLines file) {}

/-! ## Scanning a row that was recorded -/

theorem cStr_columnsText (cols : List Column) : cStr (columnsText cols) = columnsText cols := by
  refine List.takeWhile_eq_self_iff.mpr fun c hc => decide_eq_true ?_
  rintro rfl
  exact (columnsText_plain cols).2 hc

/-- The values of a color line. -/
def IndexEntry.colorLine (e : IndexEntry H264ColorFrame) : ColorLine :=
  ⟨e.frame.sequence, e.frame.stampNs, e.recvNs, e.frame.width, e.frame.height,
    keyFlag e.frame.isKeyframe, e.offset, e.size⟩

/-- The values of a depth line in the current layout. -/
def IndexEntry.depthLine {F : Type} [Floats F] (e : IndexEntry (RvlDepthFrame F)) : DepthLine :=
  ⟨e.frame.sequence, e.frame.stampNs, e.recvNs, e.frame.width, e.frame.height,
    (Floats.format e.frame.depthScale).text, e.offset, e.size⟩

theorem scanColor_columns (e : IndexEntry H264ColorFrame) :
    scanColor (columnsText (e.columns colorColumns)) = some e.colorLine := by
  have hformat : directives colorFormat = columnsFormat (e.columns colorColumns) := rfl
  rw [scanColor, cStr_columnsText, sscanf, hformat, sscanf_columns]
  rfl

theorem scanDepth_columns {F : Type} [Floats F] (e : IndexEntry (RvlDepthFrame F)) :
    scanDepth (columnsText (e.columns depthColumns)) = some e.depthLine := by
  have hformat : directives depthFormat = columnsFormat (e.columns depthColumns) := rfl
  rw [scanDepth, cStr_columnsText, sscanf, hformat, sscanf_columns]
  rfl

theorem scanColor_row (f : H264ColorFrame) (recvNs : Int64) (off : UInt64) :
    scanColor (columnsText (rowColumns colorColumns off (f, recvNs))) =
      some ⟨f.sequence, f.stampNs, recvNs, f.width, f.height, keyFlag f.isKeyframe, off,
        .ofNat f.data.length⟩ :=
  scanColor_columns ⟨f, recvNs, off, .ofNat f.data.length⟩

theorem scanDepth_row {F : Type} [Floats F] (f : RvlDepthFrame F) (recvNs : Int64) (off : UInt64) :
    scanDepth (columnsText (rowColumns depthColumns off (f, recvNs))) =
      some ⟨f.sequence, f.stampNs, recvNs, f.width, f.height, (Floats.format f.depthScale).text, off,
        .ofNat f.data.length⟩ :=
  scanDepth_columns ⟨f, recvNs, off, .ofNat f.data.length⟩

end Kist
