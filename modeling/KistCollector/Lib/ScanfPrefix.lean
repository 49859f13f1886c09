import KistCollector.Lib.Scanf

/-!
# Scanning a text that is cut short

A prefix of a line of columns is some whole columns, each with its comma, and a part of the next one
(`exists_of_prefix`). The whole columns are read as they stand (`scan_columns_append`). A part without
a comma gives at most one value, whatever conversion reads it (`length_scan_le_one`), so a scan of a cut
line finds as many values as the line has columns only if the cut is in its last column.
-/

namespace Scanf

open Text

/-- The format of a line of columns. -/
def lineFormat (ks : List Conv) : List Directive := (ks.map Directive.conv).intersperse (.lit ',')

theorem lineFormat_cons_cons (k k' : Conv) (ks : List Conv) :
    lineFormat (k :: k' :: ks) = .conv k :: .lit ',' :: lineFormat (k' :: ks) := rfl

/-! ## What a conversion leaves -/

theorem takeSign_subset (cs : List Char) : (takeSign cs).2 ⊆ cs := by
  unfold takeSign
  split
  · exact List.subset_cons_self ..
  · exact List.subset_cons_self ..
  · exact List.Subset.refl _

theorem floatTail_subset (hex got dot exp after : Bool) (cs : List Char) :
    (floatTail hex got dot exp after cs).2 ⊆ cs := by
  induction cs generalizing got dot exp after with
  | nil => exact List.Subset.refl _
  | cons c cs ih =>
    have hcons (got dot exp after : Bool) : (floatTail hex got dot exp after cs).2 ⊆ c :: cs :=
      List.subset_cons_of_subset c (ih ..)
    unfold floatTail
    dsimp only
    generalize (if hex = true then 'p' else 'e') = expChar
    split_ifs
    · exact hcons ..
    · exact hcons ..
    · exact hcons ..
    · exact hcons ..
    · exact List.Subset.refl _

theorem takeWord_subset {w cs : List Char} (h : takeWord w cs = some (t, rest)) : rest ⊆ cs := by
  induction w generalizing cs t with
  | nil => cases h; exact List.Subset.refl _
  | cons c w ih =>
    cases cs with
    | nil => cases h
    | cons d cs =>
      rw [takeWord] at h
      split at h
      · obtain ⟨⟨t', rest'⟩, hw, heq⟩ := Option.map_eq_some_iff.mp h
        cases heq
        exact List.subset_cons_of_subset d (ih hw)
      · cases h

theorem scanMagnitude_subset (h : scanMagnitude cs = some (t, rest)) : rest ⊆ cs := by
  unfold scanMagnitude at h
  split at h
  · exact takeWord_subset h
  · split at h
    · rename_i t' rest' hinf
      split at h
      · obtain ⟨⟨t'', rest''⟩, hw, heq⟩ := Option.map_eq_some_iff.mp h
        cases heq
        exact List.Subset.trans (takeWord_subset hw) (takeWord_subset hinf)
      · cases h
        exact takeWord_subset hinf
    · cases h
  · split at h
    · dsimp only at h
      split at h
      · cases h
      · cases h
        exact List.Subset.trans (floatTail_subset ..) (List.drop_subset ..)
    · dsimp only at h
      split at h
      · cases h
        exact floatTail_subset ..
      · cases h

theorem scanInteger_subset (h : scanInteger cs = some (p, rest)) : rest ⊆ cs := by
  simp only [scanInteger, Option.ite_none_left_eq_some, Option.some.injEq, Prod.mk.injEq] at h
  rw [← h.2.2]
  exact List.Subset.trans (List.dropWhile_sublist _).subset (takeSign_subset cs)

/-- What a conversion leaves is part of what it was given. -/
theorem convert_subset (h : convert k cs = some (v, rest)) : rest ⊆ cs := by
  cases k <;> obtain ⟨⟨p, rest'⟩, hscan, heq⟩ := Option.map_eq_some_iff.mp h <;> cases heq
  case f =>
    obtain ⟨⟨t, rest'⟩, hmag, heq⟩ := Option.map_eq_some_iff.mp hscan
    cases heq
    exact List.Subset.trans (scanMagnitude_subset hmag) (takeSign_subset cs)
  all_goals exact scanInteger_subset hscan

theorem convert_nil (k : Conv) : convert k [] = none := by cases k <;> rfl

/-! ## The values of a scan -/

/-- The conversion that stores a value. -/
def Value.conv : Value → Conv
  | .llu _ => .llu
  | .lld _ => .lld
  | .d _ => .d
  | .f _ => .f

@[simp] theorem Value.conv_eq_llu {v : Value} : v.conv = .llu ↔ ∃ n, v = .llu n := by
  cases v <;> simp [conv]

@[simp] theorem Value.conv_eq_lld {v : Value} : v.conv = .lld ↔ ∃ z, v = .lld z := by
  cases v <;> simp [conv]

@[simp] theorem Value.conv_eq_d {v : Value} : v.conv = .d ↔ ∃ z, v = .d z := by
  cases v <;> simp [conv]

@[simp] theorem Value.conv_eq_f {v : Value} : v.conv = .f ↔ ∃ t, v = .f t := by
  cases v <;> simp [conv]

theorem conv_of_convert (h : convert k cs = some (v, rest)) : v.conv = k := by
  cases k <;> obtain ⟨p, -, heq⟩ := Option.map_eq_some_iff.mp h <;> cases heq <;> rfl

/-- The values are those of the first conversions. -/
theorem map_conv_scan (ks : List Conv) (cs : List Char) :
    (scan (lineFormat ks) cs).map Value.conv <+: ks := by
  induction ks generalizing cs with
  | nil => exact List.nil_prefix
  | cons k ks ih =>
    cases ks with
    | nil =>
      rw [lineFormat, List.map_singleton, List.intersperse_singleton, scan]
      split
      · rename_i hconv
        rw [scan, List.map_singleton]
        exact conv_of_convert hconv ▸ List.prefix_refl _
      · exact List.nil_prefix
    | cons k' ks =>
      rw [lineFormat_cons_cons, scan]
      split
      · rename_i v rest hconv
        rw [List.map_cons, conv_of_convert hconv, List.cons_prefix_cons]
        refine ⟨rfl, ?_⟩
        cases rest with
        | nil => exact List.nil_prefix
        | cons c rest =>
          rw [scan]
          split
          · exact ih rest
          · exact List.nil_prefix
      · exact List.nil_prefix

/-- As many values as conversions are their values, one by one. -/
theorem map_conv_scan_of_length (ks : List Conv) (h : (scan (lineFormat ks) cs).length = ks.length) :
    (scan (lineFormat ks) cs).map Value.conv = ks :=
  (map_conv_scan ks cs).eq_of_length (by rw [List.length_map, h])

/-! ## A part of a column -/

/-- Without a comma there is at most one value. -/
theorem length_scan_le_one (ks : List Conv) {cs : List Char} (h : ',' ∉ cs) :
    (scan (lineFormat ks) cs).length ≤ 1 := by
  match ks with
  | [] => exact Nat.zero_le _
  | [k] =>
    simp only [lineFormat, List.map_cons, List.map_nil, List.intersperse_singleton, scan]
    split <;> simp
  | k :: k' :: ks =>
    rw [lineFormat_cons_cons, scan]
    split
    · rename_i v rest hconv
      have hrest : ',' ∉ rest := fun hmem =>
        h ((List.dropWhile_sublist _).subset (convert_subset hconv hmem))
      cases rest with
      | nil => simp [scan]
      | cons c rest =>
        rw [scan, if_neg fun hc => hrest (by simp [hc])]
        exact Nat.le_refl _
    · exact Nat.zero_le _

theorem scan_nil (ks : List Conv) : scan (lineFormat ks) [] = [] := by
  match ks with
  | [] => rfl
  | [k] => simp [lineFormat, scan, convert_nil]
  | k :: k' :: ks => simp [lineFormat_cons_cons, scan, convert_nil]

/-! ## A prefix of a line -/

/-- The text of columns that are followed by others. -/
def wholeText (cols : List Column) : List Char := cols.flatMap fun c => c.text ++ [',']

theorem wholeText_cons (c : Column) (cols : List Column) :
    wholeText (c :: cols) = c.text ++ ',' :: wholeText cols := by simp [wholeText]

/-- Whole columns are read one by one, then the scan goes on. -/
theorem scan_columns_append (cols : List Column) {ks : List Conv} (hne : ks ≠ []) (rest : List Char) :
    scan (lineFormat (cols.map (·.conv) ++ ks)) (wholeText cols ++ rest) =
      cols.map (·.value) ++ scan (lineFormat ks) rest := by
  induction cols with
  | nil => rfl
  | cons c cols ih =>
    obtain ⟨k, ks', hks⟩ := List.exists_cons_of_ne_nil
      (show cols.map (·.conv) ++ ks ≠ [] by simp [hne])
    rw [List.map_cons, List.cons_append, hks, lineFormat_cons_cons, wholeText_cons,
      List.append_assoc, List.cons_append, c.reads.scan (.inr ⟨_, rfl⟩), scan, if_pos rfl, ← hks, ih]
    rfl

/-- A prefix of a line is some whole columns and a part of the next. -/
theorem exists_of_prefix {cols : List Column} (hne : cols ≠ []) (h : t <+: columnsText cols) :
    ∃ pre c post part, cols = pre ++ c :: post ∧ part <+: c.text ∧ t = wholeText pre ++ part := by
  induction cols generalizing t with
  | nil => exact absurd rfl hne
  | cons c cols ih =>
    cases cols with
    | nil => exact ⟨[], c, [], t, rfl, by simpa [columnsText] using h, rfl⟩
    | cons c' cols =>
      have htext : columnsText (c :: c' :: cols) = c.text ++ ',' :: columnsText (c' :: cols) := by
        simp [columnsText, List.intercalate_cons_cons]
      rw [htext] at h
      by_cases hlen : t.length ≤ c.text.length
      · exact ⟨[], c, c' :: cols, t, rfl,
          List.prefix_of_prefix_length_le h (List.prefix_append ..) hlen, rfl⟩
      · have hwhole : c.text ++ [','] <+: c.text ++ ',' :: columnsText (c' :: cols) :=
          ⟨columnsText (c' :: cols), by simp⟩
        obtain ⟨t', rfl⟩ := List.prefix_of_prefix_length_le hwhole h (by simp; omega)
        rw [List.append_assoc, List.prefix_append_right_inj] at h
        obtain ⟨pre, d, post, part, hcols, hpart, rfl⟩ :=
          ih (by simp) ((List.cons_prefix_cons.mp h).2)
        exact ⟨c :: pre, d, post, part, by rw [hcols]; rfl, hpart, by simp [wholeText_cons]⟩

/-- A cut line has the values of its whole columns and those of the part. -/
theorem length_scan_cut (pre : List Column) (c : Column) (post : List Column) (part : List Char) :
    (scan (lineFormat ((pre ++ c :: post).map (·.conv))) (wholeText pre ++ part)).length =
      pre.length + (scan (lineFormat ((c :: post).map (·.conv))) part).length := by
  rw [List.map_append, scan_columns_append pre (by simp), List.length_append, List.length_map]

theorem comma_not_mem_text (c : Column) : ',' ∉ c.text := fun h => absurd (c.plain _ h) (by decide)

/-- The fields of a cut line. -/
theorem splitOn_cut (pre : List Column) {part : List Char} (h : ',' ∉ part) :
    (wholeText pre ++ part).splitOn ',' = pre.map (·.text) ++ [part] := by
  induction pre with
  | nil => exact List.splitOn_eq_singleton h
  | cons c pre ih =>
    rw [wholeText_cons, List.append_assoc, List.cons_append,
      List.splitOn_append_cons_self_of_not_mem (comma_not_mem_text c), ih]
    rfl

/-! ## Integers before and after a comma -/

/-- The text begins with an integer. -/
def startsInteger (t : List Char) : Bool := (scanInteger t).isSome

/-- The text is an integer. -/
def isInteger (t : List Char) : Bool := (scanInteger t).any fun p => p.2 = []

theorem startsInteger_digits {t : List Char} (hne : t ≠ []) (hd : ∀ c ∈ t, c.isDigit = true) :
    startsInteger t = true := by
  obtain ⟨c, cs, rfl⟩ := List.exists_cons_of_ne_nil hne
  have hdigits := (takeWhile_digits hd (.inl rfl)).1
  rw [List.append_nil] at hdigits
  simp [startsInteger, scanInteger, takeSign_of_isDigit (hd c (by simp)), hdigits]

theorem takeSign_append (t rest : List Char) :
    takeSign (t ++ ',' :: rest) = ((takeSign t).1, (takeSign t).2 ++ ',' :: rest) := by
  cases t with
  | nil => rfl
  | cons c t =>
    rw [List.cons_append]
    unfold takeSign
    split
    · rename_i heq
      cases heq
      rfl
    · rename_i heq
      cases heq
      rfl
    · rename_i hminus hplus
      split
      · rename_i heq
        cases heq
        exact absurd rfl (hminus _)
      · rename_i heq
        cases heq
        exact absurd rfl (hplus _)
      · rfl

theorem digits_append (t rest : List Char) :
    (t ++ ',' :: rest).takeWhile Char.isDigit = t.takeWhile Char.isDigit ∧
      (t ++ ',' :: rest).dropWhile Char.isDigit = t.dropWhile Char.isDigit ++ ',' :: rest := by
  induction t with
  | nil => exact ⟨rfl, rfl⟩
  | cons c t ih =>
    rw [List.cons_append, List.takeWhile_cons, List.dropWhile_cons, List.takeWhile_cons,
      List.dropWhile_cons, ih.1, ih.2]
    split <;> exact ⟨rfl, rfl⟩

/-- A comma is not part of an integer. -/
theorem scanInteger_append (t rest : List Char) :
    scanInteger (t ++ ',' :: rest) = (scanInteger t).map fun p => (p.1, p.2 ++ ',' :: rest) := by
  simp only [scanInteger, takeSign_append, (digits_append _ rest).1, (digits_append _ rest).2]
  split <;> rfl

theorem startsInteger_append (t : List Char) (rest : List Char) :
    startsInteger (t ++ ',' :: rest) = startsInteger t := by
  rw [startsInteger, scanInteger_append, Option.isSome_map, startsInteger]

theorem dropWhile_isBlank {cs : List Char} (h : ∀ c ∈ cs, isBlank c = false) :
    cs.dropWhile isBlank = cs := by
  cases cs with
  | nil => rfl
  | cons c cs => rw [List.dropWhile_cons_of_neg (by simp [h c (by simp)])]

theorem length_scan_integer {t : List Char} (ht : ∀ c ∈ t, isBlank c = false) :
    (scan (lineFormat [.llu]) t).length = 1 ↔ startsInteger t = true := by
  rw [lineFormat, List.map_singleton, List.intersperse_singleton, scan, dropWhile_isBlank ht, convert,
    startsInteger]
  cases scanInteger t <;> simp [scan]

/-- Two integer conversions find two values exactly if a whole field is an integer and what follows
begins with one. -/
theorem length_scan_integers {t : List Char} (rest : List Char) (hcomma : ',' ∉ t)
    (ht : ∀ c ∈ t, isBlank c = false) (hrest : ∀ c ∈ rest, isBlank c = false) :
    (scan (lineFormat [.llu, .llu]) (t ++ ',' :: rest)).length = 2 ↔
      isInteger t = true ∧ startsInteger rest = true := by
  have hblank : ∀ c ∈ t ++ ',' :: rest, isBlank c = false := by
    intro c hc
    rcases List.mem_append.mp hc with hc | hc
    · exact ht c hc
    · rcases List.mem_cons.mp hc with rfl | hc
      · rfl
      · exact hrest c hc
  rw [lineFormat_cons_cons, scan, dropWhile_isBlank hblank, convert, scanInteger_append, isInteger]
  cases hscan : scanInteger t with
  | none => simp
  | some p =>
    obtain ⟨n, after⟩ := p
    cases after with
    | nil =>
      have hsecond := length_scan_integer hrest
      simp only [Option.map_some, List.nil_append, scan, if_true, Option.any_some, decide_true, true_and,
        List.length_cons, ← hsecond]
      exact Nat.succ_inj
    | cons c after =>
      have hc : c ≠ ',' := fun heq => hcomma (scanInteger_subset hscan (by simp [heq]))
      simp [scan, hc]

end Scanf
