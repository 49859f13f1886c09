import KistCollector.Export.DepthLayouts

/-!
# Reading an index that was cut short

A full disk or a crash leaves a prefix of the index. The lines that end in it are read as ever. What
follows the last line break is read like a line too, and `sscanf` cannot tell a number that is cut from
a whole one: a color line gives a row as soon as its size has one digit, and so does a depth line; a
depth line whose `fx` is an integer gives a row as soon as `fy` has begun, read in the older layout.
`torn_index_iff` says that these are the only ways in which a partial line becomes a row.
-/

namespace Kist

open Text Scanf

/-! ## When a line becomes a row -/

def colorConvs : List Conv := [.llu, .lld, .lld, .d, .d, .d, .llu, .llu]

def depthConvs : List Conv := [.llu, .lld, .lld, .d, .d, .f, .f, .f, .f, .f, .llu, .llu]

def olderConvs : List Conv := [.llu, .lld, .lld, .d, .d, .f, .llu, .llu]

theorem isSome_scanColor :
    (scanColor line).isSome ↔ (scan (lineFormat colorConvs) (cStr line)).length = 8 := by
  have hformat : directives colorFormat = lineFormat colorConvs := rfl
  unfold scanColor
  rw [sscanf, hformat]
  constructor
  · split
    · rename_i heq
      simp [heq]
    · exact fun h => Bool.noConfusion h
  · intro h
    have hconv := map_conv_scan_of_length colorConvs h
    generalize scan (lineFormat colorConvs) (cStr line) = values at hconv ⊢
    simp only [colorConvs, List.map_eq_cons_iff, List.map_eq_nil_iff, Value.conv_eq_llu,
      Value.conv_eq_lld, Value.conv_eq_d, ↓existsAndEq, and_true] at hconv
    obtain ⟨size, offset, key, h, w, recvNs, stampNs, seq, rfl⟩ := hconv
    rfl

theorem isSome_scanOlder :
    (scanOlder line).isSome ↔ (scan (lineFormat olderConvs) (cStr line)).length = 8 := by
  have hformat : directives depthFormatOld = lineFormat olderConvs := rfl
  unfold scanOlder
  rw [sscanf, hformat]
  constructor
  · split
    · rename_i heq
      simp [heq]
    · exact fun h => Bool.noConfusion h
  · intro h
    have hconv := map_conv_scan_of_length olderConvs h
    generalize scan (lineFormat olderConvs) (cStr line) = values at hconv ⊢
    simp only [olderConvs, List.map_eq_cons_iff, List.map_eq_nil_iff, Value.conv_eq_llu,
      Value.conv_eq_lld, Value.conv_eq_d, Value.conv_eq_f, ↓existsAndEq, and_true] at hconv
    obtain ⟨size, offset, scale, h, w, recvNs, stampNs, seq, rfl⟩ := hconv
    rfl

theorem isSome_scanDepth : (scanDepth line).isSome ↔
    (scan (lineFormat depthConvs) (cStr line)).length = 12 ∨
      (scan (lineFormat olderConvs) (cStr line)).length = 8 := by
  have hformat : directives depthFormat = lineFormat depthConvs := rfl
  have hle := (map_conv_scan depthConvs (cStr line)).length_le
  rw [List.length_map, show depthConvs.length = 12 from rfl] at hle
  by_cases hfull : (scan (lineFormat depthConvs) (cStr line)).length = 12
  · refine iff_of_true ?_ (.inl hfull)
    have hconv := map_conv_scan_of_length depthConvs hfull
    rw [scanDepth, sscanf, hformat]
    generalize scan (lineFormat depthConvs) (cStr line) = values at hconv ⊢
    simp only [depthConvs, List.map_eq_cons_iff, List.map_eq_nil_iff, Value.conv_eq_llu,
      Value.conv_eq_lld, Value.conv_eq_d, Value.conv_eq_f, ↓existsAndEq, and_true] at hconv
    obtain ⟨size, offset, cy, cx, fy, fx, scale, h, w, recvNs, stampNs, seq, rfl⟩ := hconv
    rfl
  · rw [scanDepth_of_short (by rw [sscanf, hformat]; omega), isSome_scanOlder]
    exact (or_iff_right hfull).symm

/-! ## Cut lines -/

/-- A part of a line has no NUL, so `c_str` passes it on whole. -/
theorem cStr_cut {cols : List Column} (h : t <+: columnsText cols) : cStr t = t := by
  refine List.takeWhile_eq_self_iff.mpr fun c hc => decide_eq_true ?_
  rintro rfl
  exact (columnsText_plain cols).2 (h.subset hc)

theorem isBlank_of_mem_cut {cols : List Column} (h : t <+: columnsText cols) {c : Char} (hc : c ∈ t) :
    isBlank c = false := by
  refine Bool.eq_false_iff.mpr fun hblank => ?_
  have hmem := of_decide_eq_true hblank
  refine not_mem_columnsText (c := c) ?_ ?_ cols (h.subset hc)
  · simp only [List.mem_cons, List.not_mem_nil, or_false] at hmem
    rcases hmem with rfl | rfl | rfl | rfl | rfl | rfl <;> decide
  · rintro rfl
    exact absurd hblank (by decide)

/-- A line whose last column is a number is scanned whole exactly if one digit of that number is
there. -/
theorem length_scan_cut_eq {init : List Column} {n : UInt64}
    (h : t <+: columnsText (init ++ [Column.llu n])) :
    (scan (lineFormat ((init ++ [Column.llu n]).map (·.conv))) t).length = init.length + 1 ↔
      ∃ last ∈ (t.splitOn ',')[init.length]?, last ≠ [] := by
  obtain ⟨pre, c, post, part, hcols, hpart, rfl⟩ := exists_of_prefix (by simp) h
  have hcomma : ',' ∉ part := fun hmem => comma_not_mem_text c (hpart.subset hmem)
  rw [hcols, length_scan_cut, splitOn_cut pre hcomma]
  have hlen : init.length + 1 = pre.length + (post.length + 1) := by
    simpa using congrArg List.length hcols
  have hone := length_scan_le_one ((c :: post).map (·.conv)) hcomma
  cases post with
  | cons d post =>
    rw [List.length_cons] at hlen
    refine iff_of_false (by omega) ?_
    rw [List.getElem?_eq_none (by simp; omega)]
    simp
  | nil =>
    obtain ⟨rfl, hc⟩ := List.append_inj' hcols rfl
    cases List.singleton_inj.mp hc
    have hdigit : ∀ c ∈ part, c.isDigit = true := fun c hc =>
      isDigit_of_mem_decimal (hpart.subset hc)
    have hscan := length_scan_integer (t := part) fun c hc => isBlank_of_isDigit (hdigit c hc)
    rw [List.getElem?_append_right (by simp), List.length_map, Nat.sub_self, Nat.add_left_cancel_iff]
    refine hscan.trans ?_
    cases part with
    | nil => simp [startsInteger, scanInteger, takeSign]
    | cons c part => simpa using startsInteger_digits (by simp) hdigit

/-- The first field of a cut line decides whether the line begins with an integer. -/
theorem startsInteger_cut (pre : List Column) {part : List Char} (h : ',' ∉ part) :
    (∃ y ∈ ((wholeText pre ++ part).splitOn ',')[0]?, startsInteger y = true) ↔
      startsInteger (wholeText pre ++ part) = true := by
  rw [splitOn_cut pre h]
  cases pre with
  | nil => simp [wholeText]
  | cons c pre =>
    rw [wholeText_cons, List.append_assoc, List.cons_append, startsInteger_append]
    simp

/-- A cut line is scanned whole in the older layout exactly if its seventh field is an integer and its
eighth begins with one. -/
theorem length_scan_older_eq (six : List Column) (fx : Column) (rest : List Column)
    (hsix : six.map (·.conv) = [.llu, .lld, .lld, .d, .d, .f])
    (h : t <+: columnsText (six ++ fx :: rest)) :
    (scan (lineFormat olderConvs) t).length = 8 ↔
      (∃ x ∈ (t.splitOn ',')[6]?, isInteger x = true) ∧
        ∃ y ∈ (t.splitOn ',')[7]?, startsInteger y = true := by
  have hlen : six.length = 6 := by simpa using congrArg List.length hsix
  have hconvs : olderConvs = six.map (·.conv) ++ [.llu, .llu] := by
    rw [hsix]
    rfl
  have hblank := fun c hc => isBlank_of_mem_cut h (c := c) hc
  obtain ⟨pre, c, post, part, hcols, hpart, rfl⟩ := exists_of_prefix (by simp) h
  have hcomma : ',' ∉ part := fun hmem => comma_not_mem_text c (hpart.subset hmem)
  rw [hconvs]
  rcases List.append_eq_append_iff.mp hcols with ⟨whole, rfl, hfx⟩ | ⟨more, rfl, -⟩
  · cases whole with
    | nil =>
      -- the cut is in the seventh column
      have hone := length_scan_le_one [.llu, .llu] hcomma
      rw [splitOn_cut _ hcomma, List.append_nil, scan_columns_append six (by simp), List.length_append,
        List.length_map]
      refine iff_of_false (by omega) fun hfields => ?_
      obtain ⟨y, hy, -⟩ := hfields.2
      rw [List.getElem?_eq_none (by simp; omega)] at hy
      cases hy
    | cons fx' whole =>
      -- the seventh column is whole
      obtain ⟨rfl, -⟩ := List.cons.inj hfx
      have htext : wholeText (six ++ fx :: whole) ++ part =
          wholeText six ++ (fx.text ++ ',' :: (wholeText whole ++ part)) := by simp [wholeText]
      have hfields : (wholeText (six ++ fx :: whole) ++ part).splitOn ',' =
          six.map (·.text) ++ fx.text :: (wholeText whole ++ part).splitOn ',' := by
        rw [splitOn_cut _ hcomma, splitOn_cut _ hcomma]
        simp
      rw [htext] at hblank
      rw [hfields, htext, scan_columns_append six (by simp), List.length_append, List.length_map, hlen,
        List.getElem?_append_right (by simp [hlen]), List.getElem?_append_right (by simp [hlen]),
        List.length_map, hlen]
      have hintegers := length_scan_integers (wholeText whole ++ part) (comma_not_mem_text fx)
        (fun c hc => hblank c (by simp [hc])) fun c hc => hblank c (by simp [List.mem_append.mp hc])
      rw [← startsInteger_cut whole hcomma] at hintegers
      have hsum : ∀ n : Nat, 6 + n = 8 ↔ n = 2 := fun n => by omega
      rw [hsum]
      simpa using hintegers
  · -- the cut is before the seventh column
    have hone := length_scan_le_one (more.map (·.conv) ++ [.llu, .llu]) hcomma
    rw [List.length_append] at hlen
    rw [splitOn_cut _ hcomma, List.map_append, List.append_assoc, scan_columns_append pre (by simp),
      List.length_append, List.length_map]
    refine iff_of_false (by omega) fun hfields => ?_
    obtain ⟨y, hy, -⟩ := hfields.2
    rw [List.getElem?_eq_none (by simp; omega)] at hy
    cases hy

/-! ## Cut files -/

/-- The last line of the prefix `p` is cut within or after the number in its last column. -/
def TornColor (p : List Char) : Prop :=
  '\n' ∈ p ∧ ∃ size ∈ ((tornLine p).splitOn ',')[7]?, size ≠ []

/-- The last line of the prefix `p` is cut within or after the number in its last column, or `fx` is
an integer and `fy` begins with one. -/
def TornDepth (p : List Char) : Prop :=
  '\n' ∈ p ∧ ((∃ size ∈ ((tornLine p).splitOn ',')[11]?, size ≠ []) ∨
    (∃ fx ∈ ((tornLine p).splitOn ',')[6]?, isInteger fx = true) ∧
      ∃ fy ∈ ((tornLine p).splitOn ',')[7]?, startsInteger fy = true)

theorem isSome_scanColor_cut {e : IndexEntry H264ColorFrame}
    (h : t <+: columnsText (e.columns colorColumns)) :
    (scanColor t).isSome ↔ ∃ size ∈ (t.splitOn ',')[7]?, size ≠ [] := by
  rw [isSome_scanColor, cStr_cut h]
  exact length_scan_cut_eq h

theorem isSome_scanDepth_cut {F : Type} [Floats F] {e : IndexEntry (RvlDepthFrame F)}
    (h : t <+: columnsText (e.columns depthColumns)) :
    (scanDepth t).isSome ↔ (∃ size ∈ (t.splitOn ',')[11]?, size ≠ []) ∨
      (∃ fx ∈ (t.splitOn ',')[6]?, isInteger fx = true) ∧
        ∃ fy ∈ (t.splitOn ',')[7]?, startsInteger fy = true := by
  have holder := length_scan_older_eq ((e.columns depthColumns).take 6) (.f (Floats.format e.frame.fx))
    ((e.columns depthColumns).drop 7) rfl h
  rw [isSome_scanDepth, cStr_cut h, holder]
  exact or_congr_left (length_scan_cut_eq h)

/-- The reader of the file cut to `q` characters returns exactly the rows whose lines are complete. A
last line that lacks only its line break counts as complete if `unterminated`. -/
def ReadsComplete (readIndex : List Char → List ρ) (file : List Char) (rows : List ρ)
    (unterminated : Bool) (q : Nat) : Prop :=
  readIndex (file.take q) =
    rows.take ((completeLines (file.take (q + unterminated.toNat))).length - 1)

/-- The lines that a reader sees of a file whose header line is complete. -/
theorem indexLines_eq {p : List Char} (h : completeLines p = header :: ls) :
    indexLines p = ls ++ if tornLine p = [] then [] else [tornLine p] := by
  rw [indexLines, getlines_eq, h]
  rfl

theorem lines_no_newline {row : RowFn F} {header : List Char} (hheader : '\n' ∉ header)
    (hrow : ∀ e : IndexEntry F, '\n' ∉ e.text row) (entries : List (IndexEntry F)) :
    ∀ l ∈ header :: entries.map (·.text row), '\n' ∉ l := by
  refine List.forall_mem_cons.mpr ⟨hheader, fun l hl => ?_⟩
  obtain ⟨e, -, rfl⟩ := List.mem_map.mp hl
  exact hrow e

section

variable {row : RowFn F} {scan : List Char → Option L} {mk : IndexEntry F → L}

/-- What a reader scans of a file whose header line is complete. -/
theorem filterMap_indexLines (hscan : ∀ e, scan (e.text row) = some (mk e)) (hnil : scan [] = none)
    {p : List Char} {entries : List (IndexEntry F)}
    (h : completeLines p = header :: entries.map (·.text row)) :
    (indexLines p).filterMap scan = entries.map mk ++ (scan (tornLine p)).toList := by
  rw [indexLines_eq h, List.filterMap_append, filterMap_map_some hscan]
  by_cases htorn : tornLine p = []
  · rw [if_pos htorn, htorn, hnil]
    rfl
  · rw [if_neg htorn]
    cases hline : scan (tornLine p) <;> simp [hline]

/-- A reader that scans the lines one by one returns exactly the complete rows, unless it scans the
part of a line that the cut leaves. -/
theorem readsComplete_iff (hscan : ∀ e, scan (e.text row) = some (mk e)) (hnil : scan [] = none)
    (toRow : L → ρ) {header : List Char} (hheader : '\n' ∉ header)
    (hrow : ∀ e : IndexEntry F, '\n' ∉ e.text row) (entries : List (IndexEntry F))
    (unterminated : Bool) (q : Nat) :
    let file := unlines (header :: entries.map (·.text row))
    ReadsComplete (fun file => ((indexLines file).filterMap scan).map toRow) file
        (entries.map fun e => toRow (mk e)) unterminated q ↔
      ('\n' ∈ file.take q → (scan (tornLine (file.take q))).isSome →
        unterminated = true ∧ file[q]? = some '\n') := by
  intro file
  have hlines := lines_no_newline hheader hrow entries
  obtain ⟨k, hk, hcomplete, htorn⟩ := take_unlines hlines q
  have hnext : completeLines (file.take (q + unterminated.toNat)) = completeLines (file.take q) ++
      if unterminated = true ∧ file[q]? = some '\n' then [tornLine (file.take q)] else [] := by
    cases unterminated with
    | false => simp
    | true => simpa using completeLines_take_succ file q
  unfold ReadsComplete
  dsimp only
  rw [hnext, newline_mem_iff]
  cases k with
  | zero =>
    have hnone : completeLines (file.take q) = [] := hcomplete
    have hread : indexLines (file.take q) = [] := by
      rw [indexLines, getlines_eq, hnone]
      split <;> rfl
    refine iff_of_true ?_ fun h => absurd hnone h
    rw [hread, hnone]
    split <;> rfl
  | succ k =>
    rw [List.length_cons, List.length_map, Nat.add_le_add_iff_right] at hk
    have hcomplete' := hcomplete
    rw [List.take_succ_cons, ← List.map_take] at hcomplete
    have hread := filterMap_indexLines hscan hnil hcomplete
    have hlen : (completeLines (file.take q)).length = k + 1 := by
      rw [hcomplete]
      simp [hk]
    have hne : completeLines (file.take q) ≠ [] := by
      rw [hcomplete]
      simp
    rw [hread, List.length_append, hlen, List.map_append, List.map_map, ← List.map_take]
    by_cases hend : unterminated = true ∧ file[q]? = some '\n'
    · refine iff_of_true ?_ fun _ _ => hend
      -- cut right before a line break: the torn line is the whole line of entry `k`
      have hget := getElem?_of_newline hlines (Nat.succ_le_succ (by simpa using hk)) hcomplete' hend.2
      rw [List.getElem?_cons_succ, List.getElem?_map] at hget
      obtain ⟨e, he, htext⟩ := Option.map_eq_some_iff.mp hget
      have htake : entries.take (k + 1) = entries.take k ++ [e] := by
        rw [List.take_add_one, he]
        rfl
      rw [if_pos hend, List.length_singleton, Nat.add_sub_cancel, htake, ← htext, hscan, List.map_append]
      rfl
    · rw [if_neg hend, List.length_nil, Nat.add_zero, Nat.add_sub_cancel]
      cases hline : scan (tornLine (file.take q)) with
      | none => exact iff_of_true (by simp; rfl) fun _ h => absurd h (by simp)
      | some l =>
        refine iff_of_false (fun heq => ?_) fun h => hend (h hne rfl)
        have := congrArg List.length heq
        simp at this

end

theorem RowFn.IsColumns.text_no_newline {cols : F → Int64 → List Column}
    {row : RowFn F} (H : RowFn.IsColumns row cols) (e : IndexEntry F) : '\n' ∉ e.text row := by
  rw [H.text]
  exact (columnsText_plain _).1

/-- What a cut leaves of a line is part of some line. -/
theorem tornLine_take {row : RowFn F} {header : List Char} (hheader : '\n' ∉ header)
    (hrow : ∀ e : IndexEntry F, '\n' ∉ e.text row) (entries : List (IndexEntry F)) {q : Nat}
    (h : '\n' ∈ (unlines (header :: entries.map (·.text row))).take q) :
    tornLine ((unlines (header :: entries.map (·.text row))).take q) = [] ∨
      ∃ e : IndexEntry F, tornLine ((unlines (header :: entries.map (·.text row))).take q) <+: e.text row := by
  obtain ⟨k, -, hcomplete, htorn⟩ := take_unlines (lines_no_newline hheader hrow entries) q
  rw [newline_mem_iff, hcomplete] at h
  cases k with
  | zero => exact absurd rfl h
  | succ k =>
    rw [List.getElem?_cons_succ, List.getElem?_map] at htorn
    cases he : entries[k]? with
    | none =>
      rw [he] at htorn
      exact .inl (List.prefix_nil.mp htorn)
    | some e =>
      rw [he] at htorn
      exact .inr ⟨e, htorn⟩

theorem tornColor_iff (colors : List (IndexEntry H264ColorFrame)) (q : Nat) :
    TornColor ((unlines (colorIdxHeader :: colors.map (·.text colorRow))).take q) ↔
      '\n' ∈ (unlines (colorIdxHeader :: colors.map (·.text colorRow))).take q ∧ (scanColor
        (tornLine ((unlines (colorIdxHeader :: colors.map (·.text colorRow))).take q))).isSome := by
  refine and_congr_right fun hmem => ?_
  rcases tornLine_take (by decide) colorRow_isColumns.text_no_newline colors hmem with hnil | ⟨e, he⟩
  · rw [hnil]
    exact iff_of_false (by simp) (by decide)
  · rw [colorRow_isColumns.text] at he
    exact (isSome_scanColor_cut he).symm

theorem tornDepth_iff {F : Type} [Floats F] (depths : List (IndexEntry (RvlDepthFrame F))) (q : Nat) :
    TornDepth ((unlines (depthIdxHeader :: depths.map (·.text depthRow))).take q) ↔
      '\n' ∈ (unlines (depthIdxHeader :: depths.map (·.text depthRow))).take q ∧ (scanDepth
        (tornLine ((unlines (depthIdxHeader :: depths.map (·.text depthRow))).take q))).isSome := by
  refine and_congr_right fun hmem => ?_
  rcases tornLine_take (by decide) depthRow_isColumns.text_no_newline depths hmem with hnil | ⟨e, he⟩
  · rw [hnil]
    exact iff_of_false (by simp) (by decide)
  · rw [depthRow_isColumns.text] at he
    exact (isSome_scanDepth_cut he).symm

/-- **When a torn index yields no wrong row.** Any index file of either stream, any 64-bit offsets and
sizes, any intrinsics, cut after any `q` characters: each of the four readers returns exactly the rows
whose lines are complete, unless a color line is cut behind the first digit of its size; for depth,
unless a line is cut there or `fx` is an integer and the cut is behind the first digit of `fy`. If a
line that lacks only its line break counts as complete, that one cut is harmless. -/
theorem torn_index_iff {F : Type} [Floats F] (colors : List (IndexEntry H264ColorFrame))
    (depths : List (IndexEntry (RvlDepthFrame F))) (unterminated : Bool) (q : Nat) :
    let colorFile := unlines (colorIdxHeader :: colors.map (·.text colorRow))
    let depthFile := unlines (depthIdxHeader :: depths.map (·.text depthRow))
    (ReadsComplete (fun file => (ExportColorToImages.readIndex file).1) colorFile
        (colors.map fun e =>
          ⟨e.frame.sequence, e.offset, e.size, keyFlag e.frame.isKeyframe⟩) unterminated q ↔
      (TornColor (colorFile.take q) → unterminated = true ∧ colorFile[q]? = some '\n')) ∧
    (ReadsComplete (fun file => (ExportColorToMp4.readIndex file).rows) colorFile
        (colors.map fun e => ⟨e.recvNs, keyFlag e.frame.isKeyframe⟩) unterminated q ↔
      (TornColor (colorFile.take q) → unterminated = true ∧ colorFile[q]? = some '\n')) ∧
    (ReadsComplete (ExportDepthToImages.readIndex F) depthFile
        (depths.map fun e => ⟨e.frame.sequence, e.offset, e.size, e.frame.width, e.frame.height,
          Floats.strtof (Floats.format e.frame.depthScale).text⟩) unterminated q ↔
      (TornDepth (depthFile.take q) → unterminated = true ∧ depthFile[q]? = some '\n')) ∧
    (ReadsComplete (ExportDepthToMp4.readIndex F) depthFile
        (depths.map fun e => ⟨e.recvNs, e.offset, e.size, e.frame.width, e.frame.height,
          Floats.strtof (Floats.format e.frame.depthScale).text⟩) unterminated q ↔
      (TornDepth (depthFile.take q) → unterminated = true ∧ depthFile[q]? = some '\n')) := by
  intro colorFile depthFile
  have hcolor : ∀ e : IndexEntry H264ColorFrame, scanColor (e.text colorRow) = some e.colorLine := by
    intro e
    rw [colorRow_isColumns.text, scanColor_columns]
  have hdepth : ∀ e : IndexEntry (RvlDepthFrame F), scanDepth (e.text depthRow) = some e.depthLine := by
    intro e
    rw [depthRow_isColumns.text, scanDepth_columns]
  simp only [ExportColorToImages.readIndex_rows, ExportColorToMp4.readIndex_rows, colorLines]
  rw [tornColor_iff, tornDepth_iff, and_imp, and_imp]
  refine ⟨?_, ?_, ?_, ?_⟩
  · exact readsComplete_iff hcolor rfl _ (by decide) colorRow_isColumns.text_no_newline colors _ q
  · exact readsComplete_iff hcolor rfl _ (by decide) colorRow_isColumns.text_no_newline colors _ q
  · exact readsComplete_iff hdepth rfl _ (by decide) depthRow_isColumns.text_no_newline depths _ q
  · exact readsComplete_iff hdepth rfl _ (by decide) depthRow_isColumns.text_no_newline depths _ q

/-- A disk that is full in the middle of the first row. The depth row ends in `640,64`, the whole `fx`
and a part of `fy`; the color row ends in `0,1`, the offset and a part of the size 12. No row is
complete, and each reader returns one. -/
theorem torn_index_fails :
    (∃ s es, (BlobRecorder.machine (depthRow (F := TwoFloats))).run
        (BlobRecorder.new.open (some ⟨1000, 64, by decide⟩) (some ⟨97, 64, by decide⟩)
          depthIdxHeader 4).2
        (Recorder.oneRecord (⟨7, -1, 640, 480, .milli, .vga, .vga, .vga, .vga, [9]⟩, 5)) =
      some (s, es) ∧ (completeLines s.out.sink.index.file).tail = [] ∧
      (ExportDepthToImages.readIndex TwoFloats s.out.sink.index.file).map
        (fun row => (row.offset, row.size)) = [(640, 64)] ∧
      (ExportDepthToMp4.readIndex TwoFloats s.out.sink.index.file).map
        (fun row => (row.offset, row.size)) = [(640, 64)]) ∧
    (∃ s es, (BlobRecorder.machine colorRow).run
        (BlobRecorder.new.open (some ⟨1000, 64, by decide⟩) (some ⟨78, 64, by decide⟩)
          colorIdxHeader 4).2
        (Recorder.oneRecord (⟨7, -1, 640, 480, true, List.replicate 12 9⟩, 5)) =
      some (s, es) ∧ (completeLines s.out.sink.index.file).tail = [] ∧
      (ExportColorToImages.readIndex s.out.sink.index.file).1 = [⟨7, 0, 1, 1⟩] ∧
      (ExportColorToMp4.readIndex s.out.sink.index.file).rows = [⟨5, 1⟩]) := by
  constructor
  · refine Machine.exists_run (P := fun p => (completeLines p.1.out.sink.index.file).tail = [] ∧
      (ExportDepthToImages.readIndex TwoFloats p.1.out.sink.index.file).map
        (fun row => (row.offset, row.size)) = [(640, 64)] ∧
      (ExportDepthToMp4.readIndex TwoFloats p.1.out.sink.index.file).map
        (fun row => (row.offset, row.size)) = [(640, 64)]) (by decide +kernel) ?_
    exact fun s es h hp => hp
  · refine Machine.exists_run (P := fun p => (completeLines p.1.out.sink.index.file).tail = [] ∧
      (ExportColorToImages.readIndex p.1.out.sink.index.file).1 = [⟨7, 0, 1, 1⟩] ∧
      (ExportColorToMp4.readIndex p.1.out.sink.index.file).rows = [⟨5, 1⟩]) (by decide +kernel) ?_
    exact fun s es h hp => hp

end Kist
