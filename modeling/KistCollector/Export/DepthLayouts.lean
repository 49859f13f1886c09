import KistCollector.Export.ReadIndex
import KistCollector.Lib.ScanfPrefix

/-!
# The two layouts of a depth index

The intrinsics columns were added to the depth index later. A reader tries the current layout first; on
a line of the older one the conversions of the intrinsics take the offset and the size, and the scan
stops at eight values, so the second attempt reads the line (`DepthEntry.scan`).
-/

namespace Kist

open Text Scanf

/-! ## The second attempt -/

/-- Scan a line in the older layout. -/
def scanOlder (line : List Char) : Option DepthLine :=
  match sscanf (cStr line) depthFormatOld with
  | [.llu seq, .lld stampNs, .lld recvNs, .d w, .d h, .f scale, .llu offset, .llu size] =>
    some ⟨seq, stampNs, recvNs, w, h, scale, offset, size⟩
  | _ => none

/-- A line with fewer than twelve values is read by the second attempt alone. -/
theorem scanDepth_of_short (h : (sscanf (cStr line) depthFormat).length < 12) :
    scanDepth line = scanOlder line := by
  unfold scanDepth
  split
  · rename_i heq
    rw [heq] at h
    exact absurd h (Nat.lt_irrefl 12)
  · rfl

/-! ## Lines of either layout -/

/-- A complete line of a depth index, as the recorder writes it now or as it used to. -/
inductive DepthEntry (F : Type) where
  | current (e : IndexEntry (RvlDepthFrame F))
  | older (seq : UInt64) (stampNs recvNs : Int64) (width height : Int32) (scale : F)
      (offset size : UInt64)

namespace DepthEntry

variable {F : Type} [Floats F]

/-- `seq,stamp_ns,recv_ns,width,height,depth_scale[,fx,fy,cx,cy],offset,size` -/
def text : DepthEntry F → List Char
  | current e => e.text depthRow
  | older seq stampNs recvNs width height scale offset size =>
    [','].intercalate [decimal seq.toNat, integer stampNs.toInt, integer recvNs.toInt,
      integer width.toInt, integer height.toInt, (Floats.format scale).text,
      decimal offset.toNat, decimal size.toNat]

/-- The columns that both layouts have. -/
def line : DepthEntry F → DepthLine
  | current e => e.depthLine
  | older seq stampNs recvNs width height scale offset size =>
    ⟨seq, stampNs, recvNs, width, height, (Floats.format scale).text, offset, size⟩

/-- The columns before the offset in the older layout. -/
def olderPrefix (seq : UInt64) (stampNs recvNs : Int64) (width height : Int32) (scale : F) :
    List Column :=
  [.llu seq, .lld stampNs, .lld recvNs, .d width, .d height, .f (Floats.format scale)]

theorem decimal_all_digit (n : Nat) : ∀ c ∈ decimal n, c.isDigit = true :=
  fun _ => isDigit_of_mem_decimal

/-- An integer is a float literal. -/
def integral (n : UInt64) : Column :=
  .f ⟨false, .number ⟨decimal n.toNat, decimal_ne_nil, decimal_all_digit _⟩ none none⟩

theorem integral_text (n : UInt64) : (integral n).text = decimal n.toNat := by
  simp [integral, Column.f, GLiteral.text, Magnitude.text, fracText, expText]

/-- On a line of the older layout the current format stops at eight values: `%f` takes the offset and
the size. -/
theorem length_sscanf_older (seq : UInt64) (stampNs recvNs : Int64) (width height : Int32) (scale : F)
    (offset size : UInt64) :
    (sscanf (text (older seq stampNs recvNs width height scale offset size)) depthFormat).length ≤ 8 := by
  have htext : text (older seq stampNs recvNs width height scale offset size) =
      wholeText (olderPrefix seq stampNs recvNs width height scale ++ [integral offset]) ++
        decimal size.toNat := by
    simp [text, wholeText, olderPrefix, integral_text, Column.llu, Column.lld, Column.d, Column.f,
      List.intercalate_cons_cons]
  have hformat : directives depthFormat = lineFormat
      ((olderPrefix seq stampNs recvNs width height scale ++ [integral offset]).map (·.conv) ++
        [.f, .f, .f, .llu, .llu]) := rfl
  have hcomma : ',' ∉ decimal size.toNat := not_mem_decimal (by decide)
  rw [htext, sscanf, hformat, scan_columns_append _ (by simp), List.length_append, List.length_map]
  exact Nat.add_le_add_left (length_scan_le_one [.f, .f, .f, .llu, .llu] hcomma) 7

/-- A line of either layout is scanned to its own columns. -/
theorem scan (e : DepthEntry F) : scanDepth e.text = some e.line := by
  cases e with
  | current e =>
    rw [text, depthRow_isColumns.text]
    exact scanDepth_columns e
  | older seq stampNs recvNs width height scale offset size =>
    have htext : text (older seq stampNs recvNs width height scale offset size) = columnsText
        (olderPrefix seq stampNs recvNs width height scale ++ [.llu offset, .llu size]) := rfl
    have hformat : directives depthFormatOld = columnsFormat
        (olderPrefix seq stampNs recvNs width height scale ++ [.llu offset, .llu size]) := rfl
    have hcstr : cStr (text (older seq stampNs recvNs width height scale offset size)) =
        text (older seq stampNs recvNs width height scale offset size) := by
      rw [htext, cStr_columnsText]
    have hshort := length_sscanf_older seq stampNs recvNs width height scale offset size
    rw [scanDepth_of_short (by rw [hcstr]; omega), scanOlder, hcstr, htext, sscanf, hformat,
      sscanf_columns]
    rfl

/-- The last two columns of a line are its offset and its size. -/
theorem lastTwo_text (e : DepthEntry F) :
    lastTwo? e.text = some (e.line.offset.toNat, e.line.size.toNat) := by
  cases e with
  | current e => exact lastTwo?_append _ _ _
  | older seq stampNs recvNs width height scale offset size =>
    have htext : text (older seq stampNs recvNs width height scale offset size) =
        columnsText (olderPrefix seq stampNs recvNs width height scale) ++
          ',' :: decimal offset.toNat ++ ',' :: decimal size.toNat := by
      simp [text, columnsText, olderPrefix, Column.llu, Column.lld, Column.d, Column.f,
        List.intercalate_cons_cons]
    rw [htext]
    exact lastTwo?_append _ _ _

end DepthEntry

/-- **The layouts are never confused.** Every file whose lines after the header are complete lines of
the two layouts, in any mixture: both depth readers return one row for each line, in order, with that
line's columns, and offset and size are its last two columns. -/
theorem depth_layouts {F : Type} [Floats F] (file header : List Char) (entries : List (DepthEntry F))
    (h : getlines file = header :: entries.map DepthEntry.text) :
    ExportDepthToImages.readIndex F file = entries.map (fun e =>
      ⟨e.line.seq, e.line.offset, e.line.size, e.line.w, e.line.h, Floats.strtof e.line.scale⟩) ∧
    ExportDepthToMp4.readIndex F file = entries.map (fun e =>
      ⟨e.line.recvNs, e.line.offset, e.line.size, e.line.w, e.line.h, Floats.strtof e.line.scale⟩) ∧
    ∀ e ∈ entries, lastTwo? e.text = some (e.line.offset.toNat, e.line.size.toNat) := by
  have hlines : (indexLines file).filterMap scanDepth = entries.map DepthEntry.line := by
    rw [indexLines, h, List.tail_cons]
    exact filterMap_map_some DepthEntry.scan entries
  refine ⟨?_, ?_, fun e _ => e.lastTwo_text⟩
  · rw [ExportDepthToImages.readIndex, hlines, List.map_map]
    rfl
  · rw [ExportDepthToMp4.readIndex, hlines, List.map_map]
    rfl

/-- A line of the older layout between two lines of the current one, the last not terminated. -/
theorem depth_layouts_mixed :
    let current : DepthEntry TwoFloats :=
      .current ⟨⟨7, -1, 640, 480, .milli, .vga, .vga, .vga, .vga, []⟩, 5, 0, 9⟩
    let older := DepthEntry.older 8 (-1) 6 640 480 TwoFloats.milli 9 4
    let file := unlines [depthIdxHeader, current.text, older.text] ++ current.text
    ((ExportDepthToImages.readIndex TwoFloats file).map fun r => (r.seq, r.offset, r.size)) =
      [(7, 0, 9), (8, 9, 4), (7, 0, 9)] := by
  intro current older file
  have hread := depth_layouts file depthIdxHeader [current, older, current] (by decide +kernel)
  rw [hread.1]
  rfl

end Kist
