import KistCollector.Lib.BlockYaml

/-!
# Texts in block-style YAML

What a text reads as that a writer puts together line by line, with values it does not escape. A value that
is safe where it stands is read as it is and leaves the lines after it alone (`Scans.scan`,
`block_of_groups`). A value that is not safe is never read as it is, whatever follows it
(`scan_value`, `scan_quoted`): a reader loses some of its characters or breaks some of its lines.
-/

namespace BlockYaml

open Text

/-! ## Line by line -/

theorem scan_nil (o : Option Pending) : scan o [] = some (o.map Pending.entry).toList := rfl

theorem scan_append : scan o (ls ++ ms) =
    (steps o ls).bind fun p => (scan p.2 ms).map (p.1 ++ ·) := by
  rw [scan, steps_append]
  cases steps o ls with
  | none => rfl
  | some p =>
    obtain ⟨es, q⟩ := p
    cases h : steps q ms <;> simp [scan, h]

theorem scan_cons : scan o (l :: ls) =
    (step o l).bind fun p => (scan p.2 ls).map (p.1 ++ ·) := by
  have h : scan o ([l] ++ ls) = _ := scan_append
  rw [List.singleton_append] at h
  rw [h]
  cases hl : step o l <;> simp [steps, hl]

theorem scan_closing (h : Closing n l) (ho : ∀ p ∈ o, n ≤ p.col) :
    scan o (l :: ls) = (scan none (l :: ls)).map ((o.map Pending.entry).toList ++ ·) := by
  rw [scan_cons, scan_cons, step_closing h ho]
  cases step none l with
  | none => rfl
  | some p =>
    obtain ⟨es, q⟩ := p
    cases hq : scan q ls <;> simp [hq]

/-- Lines that read as `es` before a line that goes on with none of them. -/
theorem Scans.scan (h : Scans a ls es b) (hl : Closing b l) :
    scan none (ls ++ l :: ms) = (scan none (l :: ms)).map (es ++ ·) := by
  obtain ⟨es', o, hsteps, hes, ho⟩ := h none (by simp)
  rw [scan_append, hsteps, Option.bind_some, scan_closing hl ho]
  cases BlockYaml.scan none (l :: ms) with
  | none => rfl
  | some E =>
    have hE : es' ++ ((o.map Pending.entry).toList ++ E) = es ++ E := by
      rw [← List.append_assoc, hes]
      rfl
    simp [hE]

/-- The empty line at the end of a text adds nothing. -/
theorem Scans.scan_end (h : Scans a ls es b) : BlockYaml.scan none (ls ++ [[]]) = some es := by
  obtain ⟨es', o, hsteps, hes, -⟩ := h none (by simp)
  have hlast : BlockYaml.scan o [[]] = some (o.map Pending.entry).toList := by
    cases o <;> rfl
  rw [scan_append, hsteps, Option.bind_some, hlast, Option.map_some, hes]
  rfl

/-- Lines may hold values with line breaks. -/
theorem splitOn_unlines (ls : List (List Char)) :
    (unlines ls).splitOn '\n' = ls.flatMap (·.splitOn '\n') ++ [[]] := by
  induction ls with
  | nil => rfl
  | cons l ls ih =>
    rw [unlines_cons, List.splitOn_append_cons_self, ih, List.flatMap_cons, List.append_assoc]

theorem splitOn_lines {ls : List (List Char)} (h : ∀ l ∈ ls, '\n' ∉ l) :
    ls.flatMap (·.splitOn '\n') = ls := by
  induction ls with
  | nil => rfl
  | cons l ls ih =>
    rw [List.flatMap_cons, List.splitOn_eq_singleton (h l (by simp)), ih fun m hm => h m (by simp [hm])]
    rfl

theorem newline_not_mem_of_steps (h : steps o ls = some r) : ∀ l ∈ ls, '\n' ∉ l := by
  induction ls generalizing o r with
  | nil => simp
  | cons l ls ih =>
    simp only [steps, Option.bind_eq_bind, Option.bind_eq_some_iff] at h
    obtain ⟨⟨es, q⟩, hstep, ⟨es', q'⟩, hsteps, -⟩ := h
    rw [List.forall_mem_cons]
    refine ⟨fun hmem => ?_, ih hsteps⟩
    have hjson : l.all isJson = false := by
      rw [List.all_eq_false]
      exact ⟨'\n', hmem, by decide⟩
    simp [step, hjson] at hstep

theorem Scans.newline_not_mem (h : Scans a ls es b) : ∀ l ∈ ls, '\n' ∉ l := by
  obtain ⟨es', o, hsteps, -, -⟩ := h none (by simp)
  exact newline_not_mem_of_steps hsteps

/-- Lines whose first one begins an entry, scanned on their own. -/
theorem Scans.of_steps (hl : Closing n l) (h : steps none (l :: ls) = some (es, q))
    (hq : ∀ p ∈ q, b ≤ p.col) : Scans n (l :: ls) (es ++ (q.map Pending.entry).toList) b := by
  intro o ho
  refine ⟨(o.map Pending.entry).toList ++ es, q, ?_, List.append_assoc .., hq⟩
  simp only [steps] at h ⊢
  rw [step_closing hl ho]
  cases hstep : step none l with
  | none => simp [hstep] at h
  | some p =>
    obtain ⟨es₁, o₁⟩ := p
    simp only [hstep, Option.bind_eq_bind, Option.bind_some, Option.map_some] at h ⊢
    obtain ⟨⟨es₂, o₂⟩, hsteps, h⟩ := Option.bind_eq_some_iff.mp h
    cases h
    simp [hsteps]

theorem Scans.items {vs : List (List Char)} (h : ∀ v ∈ vs, plainSafe v = true) :
    Scans n (vs.map fun v => List.replicate n ' ' ++ '-' :: ' ' :: v)
      (vs.map fun v => ⟨n, none, some (.plain v)⟩) n := by
  induction vs with
  | nil => exact .nil
  | cons v vs ih =>
    exact (Scans.item (h v (by simp))).cons (ih fun v hv => h v (by simp [hv])) (Nat.le_refl n)

/-- What a text reads as whose lines read as `es`. -/
theorem read_unlines (h : Scans 0 ls es b) : read (unlines ls) = block es.length es := by
  rw [read, splitOn_unlines, splitOn_lines h.newline_not_mem, h.scan_end]
  rfl

/-- The lines of a text that begins with one line's `pre`. -/
theorem splitOn_append_of_not_mem {pre : List Char} (h : '\n' ∉ pre) (cs : List Char) :
    (pre ++ cs).splitOn '\n' = (cs.splitOn '\n').modifyHead (pre ++ ·) := by
  induction pre with
  | nil =>
    rw [List.nil_append]
    cases cs.splitOn '\n' <;> rfl
  | cons c pre ih =>
    rw [List.mem_cons, not_or] at h
    rw [List.cons_append, List.splitOn_cons_eq_if_modifyHead, if_neg (by simpa using Ne.symm h.1),
      ih h.2]
    cases cs.splitOn '\n' <;> rfl

/-- The first line of a text and the others. -/
theorem exists_splitOn (cs : List Char) : ∃ l ls, cs.splitOn '\n' = l :: ls ∧
    (∀ m ∈ l :: ls, '\n' ∉ m) ∧ cs.count '\n' = ls.length ∧ l.length ≤ cs.length ∧
      (ls = [] → l = cs) := by
  induction cs with
  | nil => exact ⟨[], [], rfl, by simp, rfl, Nat.le_refl _, fun _ => rfl⟩
  | cons c cs ih =>
    obtain ⟨l, ls, hsplit, hmem, hcount, hlen, hone⟩ := ih
    rw [List.splitOn_cons_eq_if_modifyHead, hsplit]
    by_cases hc : c = '\n'
    · subst hc
      refine ⟨[], l :: ls, rfl, ?_, by simp [hcount], by simp, by simp⟩
      simpa using hmem
    · rw [if_neg (by simpa using hc)]
      refine ⟨c :: l, ls, rfl, ?_, ?_, by simpa using hlen, fun hls => by rw [hone hls]⟩
      · simp only [List.forall_mem_cons] at hmem ⊢
        refine ⟨?_, hmem.2⟩
        simpa [Ne.symm hc] using hmem.1
      · rw [List.count_cons_of_ne hc, hcount]

/-! ## Values that are not safe -/

/-- A quoted scalar is no longer than what stands between its quotes, and as long only if it means itself. -/
theorem unquote_length (h : unquote cs = some (content, rest)) :
    content.length + rest.length < cs.length ∧
      (content.length + rest.length + 1 = cs.length →
        cs = content ++ '"' :: rest ∧ '"' ∉ content ∧ '\\' ∉ content) := by
  fun_induction unquote cs generalizing content rest with
  | case1 => cases h
  | case2 cs =>
    cases h
    simp
  | case3 c cs ih =>
    simp only [Option.bind_eq_bind, Option.bind_eq_some_iff, Option.pure_def, Option.some.injEq,
      Prod.mk.injEq] at h
    obtain ⟨d, -, ⟨content', rest'⟩, h', rfl, rfl⟩ := h
    have hlen := (ih h').1
    simp only [List.length_cons]
    omega
  | case4 => cases h
  | case5 c cs hquote hback hback' ih =>
    simp only [Option.bind_eq_bind, Option.bind_eq_some_iff, Option.pure_def, Option.some.injEq,
      Prod.mk.injEq] at h
    obtain ⟨⟨content', rest'⟩, h', rfl, rfl⟩ := h
    obtain ⟨hlen, heq⟩ := ih h'
    simp only [List.length_cons]
    refine ⟨by omega, fun hlong => ?_⟩
    obtain ⟨hcs, hq, hb⟩ := heq (by omega)
    have hc : c ≠ '\\' := by
      rintro rfl
      cases cs with
      | nil => exact hback' rfl rfl
      | cons d ds => exact hback d ds rfl rfl
    rw [List.mem_cons, List.mem_cons, not_or, not_or, hcs]
    exact ⟨rfl, ⟨Ne.symm hquote, hq⟩, Ne.symm hc, hb⟩

theorem uncomment_isPrefix (white : Bool) (cs : List Char) : uncomment white cs <+: cs := by
  induction cs generalizing white with
  | nil => exact List.nil_prefix
  | cons c cs ih =>
    rw [uncomment]
    split
    · exact List.nil_prefix
    · exact List.cons_prefix_cons.mpr ⟨rfl, ih _⟩

/-- A scalar that cannot go on has lost its quotes or a comment. -/
theorem readInline_closed (h : readInline cs = some (.closed s)) :
    s.content.length < (cs.dropWhile isWhite).length := by
  simp only [readInline] at h
  generalize cs.dropWhile isWhite = body at h ⊢
  split at h
  · rename_i hquote
    obtain ⟨⟨content, rest⟩, hunquote, hclosed⟩ := Option.bind_eq_some_iff.mp h
    obtain ⟨tail, rfl⟩ : ∃ tail, body = '"' :: tail := by
      cases body with
      | nil => cases hquote
      | cons c tail =>
        cases hquote
        exact ⟨tail, rfl⟩
    have hlen := (unquote_length hunquote).1
    dsimp only at hclosed
    split at hclosed
    · cases hclosed
      simp only [Scalar.content, List.tail_cons, List.length_cons] at hlen ⊢
      omega
    · cases hclosed
  · split at h
    · cases h
    · split at h
      · cases h
      · split at h
        · cases h
        · rename_i hcomment
          cases h
          have hpre := uncomment_isPrefix true body
          have hlt : (uncomment true body).length < body.length :=
            lt_of_le_of_ne hpre.length_le fun hlen => hcomment (hpre.eq_of_length hlen)
          exact (List.rdropWhile_prefix _ _).length_le.trans_lt hlt

theorem readInline_opened (h : readInline cs = some (.opened content)) :
    plainSafe content = true ∧ content <+: cs.dropWhile isWhite := by
  simp only [readInline] at h
  generalize cs.dropWhile isWhite = body at h ⊢
  split at h
  · obtain ⟨⟨content, rest⟩, -, h⟩ := Option.bind_eq_some_iff.mp h
    dsimp only at h
    split at h <;> cases h
  · split at h
    · cases h
    · split at h
      · cases h
      · rename_i hsafe
        split at h
        · cases h
          exact ⟨by simpa using hsafe, (List.rdropWhile_prefix _ _).trans (uncomment_isPrefix true body)⟩
        · cases h

/-- What a line leaves behind that begins an entry and ends in `w`. -/
inductive Begins (col : Nat) (key : Option (List Char)) (w : List Char) : Scanned → Prop where
  | missing (es : List Entry) (q : Option Pending) : Begins col key w (⟨col, key, none⟩ :: es, q)
  | closed (s : Scalar) (shorter : s.content.length < w.length) :
    Begins col key w ([⟨col, key, some s⟩], none)
  | opened (content : List Char) (safe : plainSafe content = true) (part : content <:+: w) :
    Begins col key w ([], some ⟨col, key, content, 0⟩)

theorem begins_inlineEntry (h : inlineEntry col key cs = some r)
    (hw : cs.dropWhile isWhite <:+ w) : Begins col key w r := by
  obtain ⟨i, hi, rfl⟩ := Option.map_eq_some_iff.mp h
  cases i with
  | empty => exact .missing [] none
  | closed s => exact .closed s ((readInline_closed hi).trans_le hw.length_le)
  | opened content =>
    obtain ⟨hsafe, hpre⟩ := readInline_opened hi
    exact .opened content hsafe (hpre.isInfix.trans hw.isInfix)

/-- `key: w` -/
theorem begins_key (hkey : KeySafe key) (h : newEntry col (key ++ ':' :: ' ' :: w) = some r) :
    Begins col (some key) w r := by
  rw [newEntry_key hkey rfl] at h
  refine begins_inlineEntry h ?_
  rw [List.dropWhile_cons_of_pos rfl]
  exact List.dropWhile_suffix isWhite

/-- `- w` -/
theorem begins_item (h : newEntry col ('-' :: ' ' :: w) = some r) : Begins col none w r := by
  have hitem : itemEntry col (' ' :: w) = some r := by simpa [newEntry] using h
  simp only [itemEntry, List.dropWhile_cons_of_pos (p := (· = ' ')) (a := ' ') (by simp)] at hitem
  split at hitem
  · exact begins_inlineEntry hitem ((List.dropWhile_suffix _).trans (List.dropWhile_suffix _))
  · obtain ⟨⟨es, q⟩, -, rfl⟩ := Option.map_eq_some_iff.mp hitem
    exact .missing es q

/-- One line after a pending scalar: it is complete, or it goes on with fewer line breaks than lines. -/
theorem step_pending (hline : '\n' ∉ line) (h : step (some p) line = some (es, q)) :
    (∃ content es', es = ⟨p.col, p.key, some (.plain content)⟩ :: es' ∧
      content.count '\n' ≤ p.content.count '\n' + p.blanks) ∨
    ∃ p', es = [] ∧ q = some p' ∧ p'.col = p.col ∧ p'.key = p.key ∧
      p'.content.count '\n' ≤ p.content.count '\n' + p.blanks ∧
      p'.content.count '\n' + p'.blanks ≤ p.content.count '\n' + p.blanks + 1 := by
  simp only [step] at h
  split at h
  · cases h
  split at h
  · cases h
    exact .inr ⟨_, rfl, rfl, rfl, rfl, Nat.le_add_right _ _, (Nat.add_assoc _ _ _).ge⟩
  split at h
  · cases h
    exact .inl ⟨p.content, [], rfl, Nat.le_add_right _ _⟩
  split at h
  · have hcount : ((uncomment true (line.dropWhile isWhite)).rdropWhile isWhite).count '\n' = 0 := by
      rw [List.count_eq_zero]
      intro hmem
      exact hline ((List.dropWhile_suffix isWhite).subset ((uncomment_isPrefix true _).subset
        ((List.rdropWhile_prefix isWhite _).subset hmem)))
    have hfold : (if p.blanks = 0 then [' '] else List.replicate p.blanks '\n').count '\n' =
        p.blanks := by
      split
      · rename_i hblanks
        rw [hblanks]
        rfl
      · exact List.count_replicate_self
    simp only [Pending.next] at h
    split at h
    · split at h
      · cases h
        refine .inr ⟨_, rfl, rfl, rfl, rfl, ?_, ?_⟩ <;>
          · simp only [List.count_append, hcount, hfold]
            omega
      · cases h
        refine .inl ⟨_, [], rfl, ?_⟩
        simp only [List.count_append, hcount, hfold]
        omega
    · cases h
  · obtain ⟨⟨es', q'⟩, -, h⟩ := Option.map_eq_some_iff.mp h
    cases h
    exact .inl ⟨p.content, es', rfl, Nat.le_add_right _ _⟩

/-- A scalar over several lines has fewer line breaks than its text. -/
theorem scan_pending {p : Pending} (hls : ∀ m ∈ ls, '\n' ∉ m) (hl : Closing n l) (hn : n ≤ p.col)
    (h : scan (some p) (ls ++ l :: ms) = some E) :
    ∃ content E', E = ⟨p.col, p.key, some (.plain content)⟩ :: E' ∧
      content.count '\n' ≤ p.content.count '\n' + (p.blanks + ls.length - 1) ∧
      (ls = [] → content = p.content) := by
  induction ls generalizing p E with
  | nil =>
    rw [List.nil_append, scan_closing hl fun p' hp' => by cases hp'; exact hn] at h
    obtain ⟨E', -, rfl⟩ := Option.map_eq_some_iff.mp h
    exact ⟨p.content, E', rfl, Nat.le_add_right _ _, fun _ => rfl⟩
  | cons m ls ih =>
    rw [List.cons_append, scan_cons] at h
    obtain ⟨⟨es, q⟩, hstep, h⟩ := Option.bind_eq_some_iff.mp h
    obtain ⟨E', hE', rfl⟩ := Option.map_eq_some_iff.mp h
    simp only [List.length_cons]
    rcases step_pending (hls m (by simp)) hstep with
      ⟨content, es', rfl, hcount⟩ | ⟨p', rfl, rfl, hcol, hkey, hcount, hblanks⟩
    · exact ⟨content, es' ++ E', rfl, by omega, by simp⟩
    · obtain ⟨content, E', rfl, hcontent, -⟩ :=
        ih (fun m hm => hls m (by simp [hm])) (hcol.symm ▸ hn) hE'
      refine ⟨content, E', by rw [hcol, hkey]; rfl, ?_, by simp⟩
      omega

/-- The entry of a line that ends in the first line of `v`, with the others and then one that begins an
entry after it: its value is `v` only if `v` is safe. -/
theorem scan_value (c : Char) (pre : List Char) {v : List Char} (hpre : '\n' ∉ c :: pre) (hwhite : isWhite c = false)
    (hhash : c ≠ '#') (hbegins : ∀ w r, newEntry n (c :: pre ++ w) = some r → Begins n key w r)
    (hl : Closing n l)
    (h : scan none (((List.replicate n ' ' ++ (c :: pre) ++ v).splitOn '\n') ++ l :: ms) = some E) :
    ∃ e E', E = e :: E' ∧ e.col = n ∧ e.key = key ∧
      (∀ s ∈ e.value, s.content = v → s = .plain v ∧ plainSafe v = true) := by
  obtain ⟨w, ws, hsplit, hmem, hcount, hlen, hone⟩ := exists_splitOn v
  have hspaces : '\n' ∉ List.replicate n ' ' ++ (c :: pre) := by
    simpa using hpre
  rw [splitOn_append_of_not_mem hspaces, hsplit, List.modifyHead_cons, List.cons_append, scan_cons]
    at h
  rw [List.append_assoc, List.cons_append, step_none_text hwhite hhash] at h
  obtain ⟨r, hr, h⟩ := Option.bind_eq_some_iff.mp h
  split at hr
  · obtain ⟨E', hE', rfl⟩ := Option.map_eq_some_iff.mp h
    cases hbegins w r hr with
    | missing es q => exact ⟨⟨n, key, none⟩, es ++ E', rfl, rfl, rfl, by simp⟩
    | closed s hshort =>
      refine ⟨⟨n, key, some s⟩, E', rfl, rfl, rfl, ?_⟩
      rintro s ⟨⟩ rfl
      exact absurd hlen (Nat.not_le.mpr hshort)
    | opened content hsafe hpart =>
      have hcontent : content.count '\n' = 0 :=
        List.count_eq_zero.mpr fun hm => hmem w (by simp) (hpart.subset hm)
      obtain ⟨content', E', rfl, hcount', hsame⟩ :=
        scan_pending (fun m hm => hmem m (by simp [hm])) hl (Nat.le_refl n) hE'
      refine ⟨_, E', rfl, rfl, rfl, ?_⟩
      rintro s ⟨⟩ (hs : content' = v)
      have hws : ws.length = 0 := by
        rw [← hs] at hcount
        dsimp only at hcount'
        omega
      have hv : content = v := (hsame (List.length_eq_zero_iff.mp hws)).symm.trans hs
      exact ⟨congrArg Scalar.plain hs, hv ▸ hsafe⟩
  · cases hr

theorem newline_not_mem_of_plainSafe (h : plainSafe cs = true) : '\n' ∉ cs := fun hmem =>
  absurd (List.all_eq_true.mp (json_of_plainSafe h) _ hmem) (by decide)

theorem scan_key (hkey : KeySafe key) (hl : Closing n l)
    (h : scan none ((List.replicate n ' ' ++ (key ++ ':' :: ' ' :: v)).splitOn '\n' ++ l :: ms) =
      some E) :
    ∃ e E', E = e :: E' ∧ e.col = n ∧ e.key = some key ∧
      (∀ s ∈ e.value, s.content = v → s = .plain v ∧ plainSafe v = true) := by
  have hnewline := newline_not_mem_of_plainSafe hkey.safe
  cases hc : key with
  | nil =>
    rw [hc] at hkey
    cases hkey.safe
  | cons c key' =>
    subst hc
    obtain ⟨hwhite, -, hhash⟩ := head_of_plainSafe hkey.safe
    refine scan_value c (key' ++ [':', ' ']) (by simpa using hnewline) hwhite hhash ?_ hl
      (by simpa using h)
    intro w r hr
    exact begins_key hkey (by simpa using hr)

theorem scan_item (hl : Closing n l)
    (h : scan none ((List.replicate n ' ' ++ '-' :: ' ' :: v).splitOn '\n' ++ l :: ms) = some E) :
    ∃ e E', E = e :: E' ∧ e.col = n ∧ e.key = none ∧
      (∀ s ∈ e.value, s.content = v → s = .plain v ∧ plainSafe v = true) :=
  scan_value '-' [' '] (by decide) rfl (by decide) (fun _ _ => begins_item) hl
    (by simpa using h)

/-- The entry of `key: "v"`, even if this is not one line. -/
theorem scan_quoted (hkey : KeySafe key)
    (h : scan none ((List.replicate n ' ' ++ (key ++ ':' :: ' ' :: '"' :: v ++ ['"'])).splitOn '\n' ++
      ms) = some E) :
    ∃ e E', E = e :: E' ∧ e.col = n ∧ e.key = some key ∧
      (∀ s ∈ e.value, s.content = v → s = .quoted v ∧ quotedSafe v = true) := by
  obtain ⟨w, ws, hsplit, hmem, -, hlen, -⟩ := exists_splitOn (v ++ ['"'])
  have hnewline := newline_not_mem_of_plainSafe hkey.safe
  have hpre : '\n' ∉ List.replicate n ' ' ++ (key ++ [':', ' ', '"']) := by
    simpa using hnewline
  have hline : List.replicate n ' ' ++ (key ++ ':' :: ' ' :: '"' :: v ++ ['"']) =
      (List.replicate n ' ' ++ (key ++ [':', ' ', '"'])) ++ (v ++ ['"']) := by simp
  rw [hline, splitOn_append_of_not_mem hpre, hsplit, List.modifyHead_cons, List.cons_append,
    scan_cons] at h
  obtain ⟨r, hr, h⟩ := Option.bind_eq_some_iff.mp h
  obtain ⟨E', -, rfl⟩ := Option.map_eq_some_iff.mp h
  cases hc : key with
  | nil =>
    rw [hc] at hkey
    cases hkey.safe
  | cons c key' =>
    subst hc
    obtain ⟨hwhite, -, hhash⟩ := head_of_plainSafe hkey.safe
    have htext : List.replicate n ' ' ++ (c :: key' ++ [':', ' ', '"']) ++ w =
        List.replicate n ' ' ++ c :: (key' ++ ':' :: ' ' :: '"' :: w) := by simp
    rw [htext, step_none_text hwhite hhash] at hr
    split at hr
    · rename_i hjson
      rw [← List.cons_append, newEntry_key hkey rfl] at hr
      have hdrop : (' ' :: '"' :: w).dropWhile isWhite = '"' :: w := rfl
      simp only [inlineEntry, readInline, hdrop, List.head?_cons, if_true, List.tail_cons] at hr
      obtain ⟨i, hi, rfl⟩ := Option.map_eq_some_iff.mp hr
      obtain ⟨⟨content, rest⟩, hunquote, hi⟩ := Option.bind_eq_some_iff.mp hi
      dsimp only at hi
      split at hi
      · cases hi
        refine ⟨_, E', rfl, rfl, rfl, ?_⟩
        rintro s ⟨⟩ (rfl : content = v)
        obtain ⟨hlt, hsame⟩ := unquote_length hunquote
        rw [List.length_append, List.length_singleton] at hlen
        obtain ⟨hw, hquote, hback⟩ := hsame (by omega)
        refine ⟨rfl, List.all_eq_true.mpr fun d hd => ?_⟩
        have hd' : isJson d = true := by
          refine List.all_eq_true.mp hjson d ?_
          simp [hw, hd]
        simp only [hd', Bool.true_and, Bool.and_eq_true, decide_eq_true_eq]
        refine ⟨?_, ?_⟩
        · rintro rfl
          exact hquote hd
        · rintro rfl
          exact hback hd
      · cases hi
    · cases hr

/-! ## Blocks -/

theorem groups_at (h : e.col = c) :
    groups c (e :: es) = (groups c es).map fun p => ([], (e, p.1) :: p.2) := by
  rw [groups]
  cases groups c es <;> simp [h]

theorem groups_deeper (h : c < e.col) :
    groups c (e :: es) = (groups c es).map fun p => (e :: p.1, p.2) := by
  rw [groups]
  cases groups c es <;> simp [h, Nat.ne_of_gt h]

theorem groups_append (h : ∀ e ∈ kids, c < e.col) :
    groups c (kids ++ es) = (groups c es).map fun p => (kids ++ p.1, p.2) := by
  induction kids with
  | nil => simp
  | cons e kids ih =>
    rw [List.cons_append, groups_deeper (h e (by simp)), ih fun e he => h e (by simp [he])]
    cases groups c es <;> rfl

/-- The entries of groups, one after the other. -/
def ungroup (gs : List (Entry × List Entry)) : List Entry := gs.flatMap fun g => g.1 :: g.2

theorem groups_ungroup (h : ∀ g ∈ gs, g.1.col = c ∧ ∀ e ∈ g.2, c < e.col) :
    groups c (ungroup gs) = some ([], gs) := by
  induction gs with
  | nil => rfl
  | cons g gs ih =>
    obtain ⟨hcol, hkids⟩ := h g (by simp)
    have hgroups : groups c (g.2 ++ ungroup gs) = some (g.2, gs) := by
      rw [groups_append hkids, ih fun g hg => h g (by simp [hg])]
      simp
    change groups c (g.1 :: (g.2 ++ ungroup gs)) = _
    rw [groups_at hcol, hgroups]
    rfl

theorem mapM_eq_some_iff {f : α → Option β} :
    as.mapM f = some bs ↔ List.Forall₂ (fun a b => f a = some b) as bs := by
  induction as generalizing bs with
  | nil => simp [eq_comm]
  | cons a as ih =>
    rw [List.mapM_cons, List.forall₂_cons_left_iff]
    simp only [Option.bind_eq_bind, Option.bind_eq_some_iff, Option.pure_def, Option.some.injEq, ih]
    constructor
    · rintro ⟨b, hb, bs, hbs, rfl⟩
      exact ⟨b, bs, hb, hbs, rfl⟩
    · rintro ⟨b, bs, hb, hbs, rfl⟩
      exact ⟨b, hb, bs, hbs, rfl⟩

theorem entryNode_key (h : entryNode b g = some x) : x.1 = g.1.key := by
  unfold entryNode at h
  split at h
  · cases h
    rfl
  · cases h
  · obtain ⟨n, -, rfl⟩ := Option.map_eq_some_iff.mp h
    rfl

/-- The value of the entry is a scalar that the schema reads as `v`. -/
def Reads (isString : List Char → Bool) (v : List Char) (g : Entry × List Entry) : Prop :=
  ∃ s, g.1.value = some s ∧ g.2 = [] ∧ (Node.scalar s).string? isString = some v

theorem Reads.of_entryNode {isString : List Char → Bool} (hb : ∀ es s, b es ≠ some (.scalar s))
    (h : entryNode b g = some x) (hx : x.2.string? isString = some v) : Reads isString v g := by
  obtain ⟨⟨col, key, value⟩, kids⟩ := g
  unfold entryNode at h
  split at h
  · rename_i s hvalue hkids
    cases h
    exact ⟨s, hvalue, hkids, hx⟩
  · cases h
  · obtain ⟨n, hn, rfl⟩ := Option.map_eq_some_iff.mp h
    cases n with
    | scalar s => exact absurd hn (hb _ s)
    | null => cases hx
    | seq items => cases hx
    | map entries => cases hx

theorem collect_ne_scalar (ns : List (Option (List Char) × Node)) (s : Scalar) :
    collect ns ≠ some (.scalar s) := by
  intro h
  unfold collect at h
  split at h
  · cases h
  · obtain ⟨entries, -, h⟩ := Option.bind_eq_some_iff.mp h
    split at h <;> cases h

theorem block_ne_scalar (d : Nat) (es : List Entry) (s : Scalar) : block d es ≠ some (.scalar s) := by
  intro h
  unfold block at h
  split at h
  · cases h
  · cases h
  · obtain ⟨⟨kids, gs⟩, -, h⟩ := Option.bind_eq_some_iff.mp h
    dsimp only at h
    split at h
    · obtain ⟨ns, -, h⟩ := Option.bind_eq_some_iff.mp h
      exact collect_ne_scalar ns s h
    · cases h

theorem exists_of_forall₂ {R : α → β → Prop} (h : List.Forall₂ R as bs) (ha : a ∈ as) :
    ∃ b ∈ bs, R a b := by
  induction h with
  | nil => cases ha
  | cons hab hrest ih =>
    rcases List.mem_cons.mp ha with rfl | ha
    · exact ⟨_, by simp, hab⟩
    · obtain ⟨b, hb, h⟩ := ih ha
      exact ⟨b, by simp [hb], h⟩

theorem lookup_of_mem {entries : List (List Char × Node)} (hnodup : (entries.map Prod.fst).Nodup)
    (h : (k, m) ∈ entries) : entries.lookup k = some m := by
  obtain ⟨before, after, rfl⟩ := List.append_of_mem h
  refine List.lookup_eq_some_iff.mpr ⟨before, after, rfl, fun p hp => ?_⟩
  rw [List.map_append, List.map_cons, List.nodup_append] at hnodup
  simpa using Ne.symm (hnodup.2.2 p.1 (List.mem_map_of_mem hp) k (by simp))

theorem block_of_groups (hgroups : groups e.col (e :: es) = some ([], gs)) :
    block (d + 1) (e :: es) = (gs.mapM (entryNode (block d))).bind collect := by
  simp only [block, hgroups, Option.bind_eq_bind, Option.bind_some, if_true]

/-- The nodes of a block, and what they make up. -/
theorem nodes_of_block (h : block (d + 1) (e :: es) = some n)
    (hgroups : groups e.col (e :: es) = some ([], gs)) :
    ∃ ns, List.Forall₂ (fun g x => entryNode (block d) g = some x) gs ns ∧ collect ns = some n := by
  rw [block_of_groups hgroups] at h
  obtain ⟨ns, hns, hcollect⟩ := Option.bind_eq_some_iff.mp h
  exact ⟨ns, mapM_eq_some_iff.mp hns, hcollect⟩

/-- A key of a block stands for the node of its entry. -/
theorem get_of_block (h : block (d + 1) (e :: es) = some n)
    (hgroups : groups e.col (e :: es) = some ([], gs)) (hg : g ∈ gs) (hkey : g.1.key = some k) :
    ∃ x, entryNode (block d) g = some x ∧ n.get k = some x.2 := by
  obtain ⟨ns, hns, hcollect⟩ := nodes_of_block h hgroups
  obtain ⟨x, hx, hxg⟩ := exists_of_forall₂ hns hg
  have hxkey : x.1 = some k := (entryNode_key hxg).trans hkey
  refine ⟨x, hxg, ?_⟩
  unfold collect at hcollect
  split at hcollect
  · rename_i hall
    have hnone : x.1.isNone = true := List.all_eq_true.mp hall x hx
    rw [hxkey] at hnone
    cases hnone
  · obtain ⟨entries, hentries, hcollect⟩ := Option.bind_eq_some_iff.mp hcollect
    split at hcollect
    · rename_i hnodup
      cases hcollect
      obtain ⟨p, hp, hpx⟩ := exists_of_forall₂ (mapM_eq_some_iff.mp hentries) hx
      rw [hxkey] at hpx
      cases hpx
      exact lookup_of_mem hnodup hp
    · cases hcollect

/-- The strings of a block of items stand each in an entry of its own. -/
theorem reads_of_block {isString : List Char → Bool} (h : block (d + 1) (e :: es) = some n)
    (hgroups : groups e.col (e :: es) = some ([], gs)) (hstrings : n.strings? isString = some vs) :
    List.Forall₂ (fun g v => Reads isString v g) gs vs := by
  obtain ⟨ns, hns, hcollect⟩ := nodes_of_block h hgroups
  have hseq : n = .seq (ns.map Prod.snd) := by
    unfold collect at hcollect
    split at hcollect
    · cases hcollect
      rfl
    · obtain ⟨entries, -, hcollect⟩ := Option.bind_eq_some_iff.mp hcollect
      split at hcollect
      · cases hcollect
        cases hstrings
      · cases hcollect
  subst hseq
  have hvs := List.forall₂_map_left_iff.mp (mapM_eq_some_iff.mp hstrings)
  clear hcollect hgroups hstrings h
  induction hns generalizing vs with
  | nil =>
    cases hvs
    exact .nil
  | cons hgx _ ih =>
    cases hvs with
    | cons hxv hvs => exact .cons (.of_entryNode (block_ne_scalar d) hgx hxv) (ih hvs)

theorem groups_of_block (h : block (d + 1) (e :: es) = some n) :
    ∃ gs, groups e.col (e :: es) = some ([], gs) := by
  simp only [block, Option.bind_eq_bind, Option.bind_eq_some_iff] at h
  obtain ⟨⟨kids, gs⟩, hgroups, h⟩ := h
  split at h
  · rename_i hkids
    cases hkids
    exact ⟨gs, hgroups⟩
  · cases h

/-- An entry at the column has a group of its own, which the entries after it begin. -/
theorem group_of_append (pre : List Entry) (h : groups c (pre ++ e :: es) = some (kids, gs)) (he : e.col = c) :
    ∃ own gs', groups c es = some (own, gs') ∧ (e, own) ∈ gs := by
  induction pre generalizing kids gs with
  | nil =>
    rw [List.nil_append, groups_at he] at h
    obtain ⟨⟨own, gs'⟩, hes, h⟩ := Option.map_eq_some_iff.mp h
    cases h
    exact ⟨own, gs', hes, List.mem_cons_self ..⟩
  | cons x pre ih =>
    simp only [List.cons_append, groups, Option.bind_eq_bind, Option.bind_eq_some_iff] at h
    obtain ⟨⟨kids', gs'⟩, hrest, h⟩ := h
    obtain ⟨own, gs'', hes, hmem⟩ := ih hrest
    refine ⟨own, gs'', hes, ?_⟩
    split at h
    · cases h
      exact List.mem_cons_of_mem _ hmem
    · split at h
      · cases h
        exact hmem
      · cases h

/-- The entry of a key that is read as a string. -/
theorem reads_of_get {isString : List Char → Bool} (h : block (d + 1) (e :: es) = some n)
    (hgroups : groups e.col (e :: es) = some ([], gs)) (hg : g ∈ gs) (hkey : g.1.key = some k)
    (hv : (n.get k).bind (Node.string? isString) = some v) : Reads isString v g := by
  obtain ⟨x, hx, hget⟩ := get_of_block h hgroups hg hkey
  rw [hget, Option.bind_some] at hv
  exact .of_entryNode (block_ne_scalar d) hx hv

/-- The block of a key without a value. -/
theorem block_of_get (h : block (d + 1) (e :: es) = some n)
    (hgroups : groups e.col (e :: es) = some ([], gs)) (hg : (⟨c, some k, none⟩, kids) ∈ gs) :
    ∃ m, block d kids = some m ∧ n.get k = some m := by
  obtain ⟨x, hx, hget⟩ := get_of_block h hgroups hg rfl
  obtain ⟨m, hm, rfl⟩ := Option.map_eq_some_iff.mp hx
  exact ⟨m, hm, hget⟩

/-- The scalar of a key with a value. -/
theorem leaf_of_get (h : block (d + 1) (e :: es) = some n)
    (hgroups : groups e.col (e :: es) = some ([], gs)) (hg : (⟨c, some k, some s⟩, []) ∈ gs) :
    n.get k = some (.scalar s) := by
  obtain ⟨x, hx, hget⟩ := get_of_block h hgroups hg rfl
  cases hx
  exact hget

/-- A key that no entry has stands for nothing. -/
theorem get_eq_none (h : block (d + 1) (e :: es) = some n)
    (hgroups : groups e.col (e :: es) = some ([], gs)) (hk : ∀ g ∈ gs, g.1.key ≠ some k) :
    n.get k = none := by
  obtain ⟨ns, hns, hcollect⟩ := nodes_of_block h hgroups
  have hkeys : ∀ x ∈ ns, x.1 ≠ some k := by
    intro x hx hxk
    obtain ⟨g, hg, hgx⟩ := exists_of_forall₂ hns.flip hx
    exact hk g hg ((entryNode_key hgx).symm.trans hxk)
  unfold collect at hcollect
  split at hcollect
  · cases hcollect
    rfl
  · obtain ⟨entries, hentries, hcollect⟩ := Option.bind_eq_some_iff.mp hcollect
    split at hcollect
    · cases hcollect
      refine List.lookup_eq_none_iff.mpr fun p hp => ?_
      obtain ⟨x, hx, hxp⟩ := exists_of_forall₂ (mapM_eq_some_iff.mp hentries).flip hp
      obtain ⟨key, hkey, rfl⟩ := Option.map_eq_some_iff.mp hxp
      have hne : k ≠ key := fun heq => hkeys x hx (heq ▸ hkey)
      simpa using hne
    · cases hcollect

theorem Reads.value {isString : List Char → Bool} (h : Reads isString v g) :
    ∃ s, g.1.value = some s ∧ g.2 = [] ∧ s.content = v ∧ (s = .plain v → isString v = true) := by
  obtain ⟨s, hvalue, hkids, hs⟩ := h
  refine ⟨s, hvalue, hkids, ?_⟩
  cases s with
  | quoted content =>
    cases hs
    exact ⟨rfl, by simp⟩
  | plain content =>
    simp only [Node.string?] at hs
    split at hs
    · rename_i hstring
      cases hs
      exact ⟨rfl, fun _ => hstring⟩
    · cases hs

theorem exists_block (h : block d (e :: es) = some n) : ∃ d' gs, d = d' + 1 ∧
    groups e.col (e :: es) = some ([], gs) := by
  cases d with
  | zero => cases h
  | succ d =>
    obtain ⟨gs, hgs⟩ := groups_of_block h
    exact ⟨d, gs, rfl, hgs⟩

/-- A string of a mapping that is the first value of a mapping. -/
theorem reads_nested {isString : List Char → Bool} {pre : List Entry}
    (h : block d (⟨c, some k, none⟩ :: (pre ++ e :: es)) = some doc) (hc : c < e.col)
    (hpre : ∀ x ∈ pre, x.col = e.col) (hget : doc.get k = some m) (hkey : e.key = some k')
    (hv : (m.get k').bind (Node.string? isString) = some v) :
    ∃ s, e.value = some s ∧ s.content = v ∧ (s = .plain v → isString v = true) := by
  obtain ⟨d, gs, rfl, hgroups⟩ := exists_block h
  obtain ⟨kids, gs', hrest, hmem⟩ := group_of_append [] hgroups rfl
  obtain ⟨m', hm', hget'⟩ := block_of_get h hgroups hmem
  obtain rfl : m = m' := Option.some.inj (hget.symm.trans hget')
  rw [groups_append fun x hx => (hpre x hx).symm ▸ hc, groups_deeper hc, Option.map_map] at hrest
  obtain ⟨⟨own, gs''⟩, -, hkids⟩ := Option.map_eq_some_iff.mp hrest
  obtain rfl : pre ++ e :: own = kids := congrArg Prod.fst hkids
  obtain ⟨x, xs, hxs, hx⟩ : ∃ x xs, pre ++ e :: own = x :: xs ∧ x.col = e.col := by
    cases pre with
    | nil => exact ⟨e, own, rfl, rfl⟩
    | cons x pre => exact ⟨x, pre ++ e :: own, rfl, hpre x (by simp)⟩
  rw [hxs] at hm'
  obtain ⟨d, gs₂, rfl, hgroups₂⟩ := exists_block hm'
  obtain ⟨own', -, -, hmem'⟩ := group_of_append pre (hxs ▸ hgroups₂) hx.symm
  obtain ⟨s, hs, -, hcontent, hstring⟩ := (reads_of_get hm' hgroups₂ hmem' hkey hv).value
  exact ⟨s, hs, hcontent, hstring⟩

/-- The first line of a text that begins an entry. -/
theorem closing_splitOn (n : Nat) (hwhite : isWhite c = false) (hhash : c ≠ '#') (hc : c ≠ '\n')
    (ds : List Char) : ∃ l ls, (List.replicate n ' ' ++ c :: ds).splitOn '\n' = l :: ls ∧ Closing n l := by
  obtain ⟨w, ws, hsplit, -⟩ := exists_splitOn ds
  have hpre : '\n' ∉ List.replicate n ' ' ++ [c] := by
    simpa using Ne.symm hc
  have h := splitOn_append_of_not_mem hpre ds
  rw [hsplit, List.modifyHead_cons, List.append_assoc] at h
  exact ⟨_, _, h, n, c, w, Nat.le_refl n, hwhite, hhash, List.append_assoc ..⟩

/-- The lines of items, which may hold line breaks. -/
def itemLines (n : Nat) (vs : List (List Char)) : List (List Char) :=
  vs.flatMap fun v => (List.replicate n ' ' ++ '-' :: ' ' :: v).splitOn '\n'

theorem closing_items (vs : List (List Char)) (hl : Closing n l) (ms : List (List Char)) :
    ∃ l' ms', itemLines n vs ++ l :: ms = l' :: ms' ∧ Closing n l' := by
  cases vs with
  | nil => exact ⟨l, ms, rfl, hl⟩
  | cons v vs =>
    obtain ⟨l', ls, hsplit, hl'⟩ := closing_splitOn n (c := '-') rfl (by decide) (by decide) (' ' :: v)
    refine ⟨l', ls ++ itemLines n vs ++ l :: ms, ?_, hl'⟩
    rw [itemLines, List.flatMap_cons, hsplit]
    rfl

/-- Items that are read as they are are safe: each ends before the next one begins. -/
theorem items_safe {isString : List Char → Bool} {vs : List (List Char)} (hn : c < n) (hl : Closing n l)
    (h : scan none (itemLines n vs ++ l :: ms) = some E)
    (hkids : groups c E = some (kids, after)) (hgroups : groups n kids = some ([], gs))
    (hreads : List.Forall₂ (fun g v => Reads isString v g) gs vs) :
    ∀ v ∈ vs, plainSafe v = true ∧ isString v = true := by
  induction vs generalizing E kids after gs with
  | nil => simp
  | cons v vs ih =>
    obtain ⟨l', ms', hrest, hl'⟩ := closing_items vs hl ms
    rw [itemLines, List.flatMap_cons, ← itemLines, List.append_assoc, hrest] at h
    obtain ⟨e, E', rfl, hcol, hkey, hvalue⟩ := scan_item hl' h
    rw [groups_deeper (hcol.symm ▸ hn)] at hkids
    obtain ⟨⟨kids', after'⟩, hkids', hk⟩ := Option.map_eq_some_iff.mp hkids
    cases hk
    rw [groups_at hcol] at hgroups
    obtain ⟨⟨own, gs'⟩, hgroups', hg⟩ := Option.map_eq_some_iff.mp hgroups
    cases hg
    cases hreads with
    | cons hv hvs =>
      obtain ⟨s, hs, hown, hcontent, hstring⟩ := hv.value
      obtain ⟨rfl, hsafe⟩ := hvalue s hs hcontent
      have hitem : Scans n [List.replicate n ' ' ++ '-' :: ' ' :: v] [⟨n, none, some (.plain v)⟩] n :=
        .item hsafe
      rw [List.splitOn_eq_singleton (hitem.newline_not_mem _ (List.mem_singleton_self _)),
        hitem.scan hl'] at h
      obtain ⟨E'', hE'', hE⟩ := Option.map_eq_some_iff.mp h
      cases hE
      dsimp only at hown
      subst hown
      rw [List.forall_mem_cons]
      exact ⟨⟨hsafe, hstring rfl⟩, ih (hrest ▸ hE'') hkids' hgroups' hvs⟩

theorem items_safe_of_block {isString : List Char → Bool} {vs : List (List Char)} (hn : c < n)
    (hl : Closing n l) (h : scan none (itemLines n vs ++ l :: ms) = some E)
    (hkids : groups c E = some (kids, after)) (hblock : block d kids = some m)
    (hv : m.strings? isString = some vs) : ∀ v ∈ vs, plainSafe v = true ∧ isString v = true := by
  cases vs with
  | nil => simp
  | cons v vs =>
    obtain ⟨l', ms', hrest, hl'⟩ := closing_items vs hl ms
    have hfirst := h
    rw [itemLines, List.flatMap_cons, ← itemLines, List.append_assoc, hrest] at hfirst
    obtain ⟨e, E', rfl, hcol, -, -⟩ := scan_item hl' hfirst
    have hdeeper := hkids
    rw [groups_deeper (hcol.symm ▸ hn)] at hdeeper
    obtain ⟨⟨kids', after'⟩, -, hk⟩ := Option.map_eq_some_iff.mp hdeeper
    cases hk
    obtain ⟨d, gs, rfl, hgroups⟩ := exists_block hblock
    exact items_safe hn hl h hkids (hcol ▸ hgroups) (reads_of_block hblock hgroups hv)

/-! ### Blocks that a writer makes -/

/-- A group whose first entry has a value and no deeper ones, or whose deeper ones are a block. -/
def Good (d : Nat) (g : Entry × List Entry) : Prop :=
  g.1.value.isSome = true ∧ g.2 = [] ∨ g.1.value = none ∧ (block d g.2).isSome = true

theorem Good.entryNode (h : Good d g) :
    ∃ m, BlockYaml.entryNode (block d) g = some (g.1.key, m) := by
  obtain ⟨⟨col, key, value⟩, kids⟩ := g
  rcases h with ⟨hvalue, hkids⟩ | ⟨hvalue, hkids⟩
  · obtain ⟨s, rfl⟩ := Option.isSome_iff_exists.mp hvalue
    cases hkids
    exact ⟨.scalar s, rfl⟩
  · obtain ⟨m, hm⟩ := Option.isSome_iff_exists.mp hkids
    dsimp only at hvalue hm
    subst hvalue
    refine ⟨m, ?_⟩
    simp [BlockYaml.entryNode, hm]

theorem exists_mapM (f : α → Option β) (r : α → γ) (r' : β → γ) {as : List α}
    (h : ∀ a ∈ as, ∃ b, f a = some b ∧ r' b = r a) :
    ∃ bs : List β, as.mapM f = some bs ∧ bs.map r' = as.map r := by
  induction as with
  | nil => exact ⟨[], rfl, rfl⟩
  | cons a as ih =>
    obtain ⟨b, hb, hr⟩ := h a (by simp)
    obtain ⟨bs, hbs, hrs⟩ := ih fun a ha => h a (by simp [ha])
    exact ⟨b :: bs, by simp [hb, hbs], by simp [hr, hrs]⟩

theorem collect_isSome {ns : List (Option (List Char) × Node)}
    (h : (∀ x ∈ ns, x.1 = none) ∨ (∀ x ∈ ns, x.1.isSome = true) ∧ (ns.map Prod.fst).Nodup) :
    (collect ns).isSome = true := by
  unfold collect
  split
  · rfl
  · rename_i hall
    obtain ⟨hsome, hnodup⟩ := h.resolve_left fun hnone =>
      hall (List.all_eq_true.mpr fun x hx => by simp [hnone x hx])
    obtain ⟨entries, hentries, hkeys⟩ := exists_mapM
      (fun (x : Option (List Char) × Node) => x.1.map fun key => (key, x.2)) Prod.fst
      (fun p => some p.1) fun x hx => by
        obtain ⟨k, hk⟩ := Option.isSome_iff_exists.mp (hsome x hx)
        exact ⟨(k, x.2), by simp [hk], hk.symm⟩
    have hentries' : (entries.map Prod.fst).Nodup := by
      have hmap : ((entries.map Prod.fst).map some).Nodup := by
        rw [List.map_map]
        exact hkeys ▸ hnodup
      exact .of_map _ hmap
    rw [hentries, Option.bind_some, if_pos hentries']
    rfl

/-- Groups at one column make up a sequence or a mapping. -/
theorem block_ungroup (hcol : ∀ g ∈ gs, g.1.col = c ∧ ∀ e ∈ g.2, c < e.col)
    (hgood : ∀ g ∈ gs, Good d g)
    (hkeys : (∀ g ∈ gs, g.1.key = none) ∨
      (∀ g ∈ gs, g.1.key.isSome = true) ∧ (gs.map fun g => g.1.key).Nodup) :
    (block (d + 1) (ungroup gs)).isSome = true := by
  obtain ⟨ns, hns, hfst⟩ := exists_mapM (entryNode (block d))
    (fun (g : Entry × List Entry) => g.1.key) Prod.fst fun g hg => by
      obtain ⟨m, hm⟩ := (hgood g hg).entryNode
      exact ⟨_, hm, rfl⟩
  have hcollect : (collect ns).isSome = true := by
    refine collect_isSome (hkeys.imp (fun h x hx => ?_) fun h => ⟨fun x hx => ?_, hfst ▸ h.2⟩)
    · obtain ⟨g, hg, hgx⟩ := List.mem_map.mp (hfst ▸ List.mem_map_of_mem (f := Prod.fst) hx)
      exact hgx.symm.trans (h g hg)
    · obtain ⟨g, hg, hgx⟩ := List.mem_map.mp (hfst ▸ List.mem_map_of_mem (f := Prod.fst) hx)
      exact hgx ▸ h.1 g hg
  cases hgs : gs with
  | nil => rfl
  | cons g gs' =>
    have hgroups := groups_ungroup hcol
    rw [hgs] at hgroups hns
    have hhead : ungroup (g :: gs') = g.1 :: (g.2 ++ ungroup gs') := rfl
    rw [hhead, ← (hcol g (by simp [hgs])).1] at hgroups
    rw [hhead, block_of_groups hgroups, hns]
    exact hcollect

theorem ungroup_leaves (es : List Entry) : ungroup (es.map (·, [])) = es := by
  rw [ungroup, List.flatMap_map, ← List.map_eq_flatMap, List.map_id']

/-- A key of a mapping of scalars. -/
theorem get_leaf (h : block (d + 1) es = some n) (hcol : ∀ e ∈ es, e.col = c)
    (hmem : ⟨c, some k, some s⟩ ∈ es) : n.get k = some (.scalar s) := by
  cases es with
  | nil => cases hmem
  | cons e es =>
    have hgroups : groups c (ungroup ((e :: es).map (·, []))) = _ := groups_ungroup (by simpa using hcol)
    rw [ungroup_leaves, ← hcol e (by simp)] at hgroups
    obtain ⟨x, hx, hget⟩ := get_of_block h hgroups (List.mem_map_of_mem hmem) rfl
    cases hx
    exact hget

/-- A mapping of scalars. -/
theorem block_leaves (hcol : ∀ e ∈ es, e.col = c)
    (hleaf : ∀ e ∈ es, e.value.isSome = true ∧ e.key.isSome = true)
    (hkeys : (es.map fun e => e.key).Nodup) : (block (d + 1) es).isSome = true := by
  have hgood : ∀ g ∈ es.map (·, []), Good d g := by
    intro g hg
    obtain ⟨e, he, rfl⟩ := List.mem_map.mp hg
    exact .inl ⟨(hleaf e he).1, rfl⟩
  have hkeyed : ∀ g ∈ es.map (·, ([] : List Entry)), g.1.key.isSome = true := by
    intro g hg
    obtain ⟨e, he, rfl⟩ := List.mem_map.mp hg
    exact (hleaf e he).2
  have h := block_ungroup (c := c) (by simpa using hcol) hgood
    (.inr ⟨hkeyed, by simpa [Function.comp_def] using hkeys⟩)
  rwa [ungroup_leaves] at h

/-- A sequence of plain scalars. -/
theorem strings_of_items (isString : List Char → Bool) {vs : List (List Char)}
    (h : ∀ v ∈ vs, isString v = true) :
    ∃ m, block (d + 1) (vs.map fun v => ⟨c, none, some (.plain v)⟩) = some m ∧
      m.strings? isString = some vs := by
  cases hvs : vs with
  | nil => exact ⟨.null, rfl, rfl⟩
  | cons v vs' =>
    let item (v : List Char) : Entry := ⟨c, none, some (.plain v)⟩
    let node (v : List Char) : Option (List Char) × Node := (none, .scalar (.plain v))
    have hgroups : groups c (vs.map item) = some ([], vs.map (item ·, [])) := by
      have h : groups c (ungroup (vs.map (item ·, []))) = _ := groups_ungroup (by simp [item])
      rwa [ungroup, List.flatMap_map, ← List.map_eq_flatMap] at h
    have hnodes : (vs.map (item ·, [])).mapM (entryNode (block d)) = some (vs.map node) :=
      mapM_eq_some_iff.mpr (List.forall₂_map_left_iff.mpr (List.forall₂_map_right_iff.mpr
        (List.forall₂_same.mpr fun _ _ => rfl)))
    have hcollect : collect (vs.map node) = some (.seq ((vs.map node).map Prod.snd)) :=
      if_pos (by simp [node])
    have hstrings : ((vs.map node).map Prod.snd).mapM (Node.string? isString) = some vs := by
      rw [List.map_map]
      refine mapM_eq_some_iff.mpr (List.forall₂_map_left_iff.mpr (List.forall₂_same.mpr fun v hv => ?_))
      simp [node, Node.string?, h v hv]
    rw [hvs] at hgroups hnodes hcollect hstrings
    refine ⟨.seq (((v :: vs').map node).map Prod.snd), ?_, hstrings⟩
    have hblock : block (d + 1) (item v :: vs'.map item) = _ := block_of_groups hgroups
    rw [hnodes] at hblock
    exact hblock.trans hcollect

/-- A sequence of blocks, each of which `f` can read. -/
theorem items_of_blocks {α : Type} (f : Node → Option α) (kids : β → List Entry) (value : β → α) (bs : List β)
    (hcol : ∀ b ∈ bs, ∀ e ∈ kids b, c < e.col)
    (h : ∀ b ∈ bs, ∃ m, block d (kids b) = some m ∧ f m = some (value b)) :
    ∃ m, block (d + 1) (ungroup (bs.map fun b => (⟨c, none, none⟩, kids b))) = some m ∧
      m.items? f = some (bs.map value) := by
  let group (b : β) : Entry × List Entry := (⟨c, none, none⟩, kids b)
  obtain ⟨ns, hns, hvalues⟩ : ∃ ns, bs.mapM (fun b => entryNode (block d) (group b)) = some ns ∧
      ns.map (fun x => (x.1, f x.2)) = bs.map fun b => (none, some (value b)) :=
    exists_mapM _ _ _ fun b hb => by
      obtain ⟨m, hm, hf⟩ := h b hb
      exact ⟨(none, m), by simp [entryNode, group, hm], by rw [hf]⟩
  have hkeys : ∀ x ∈ ns, x.1.isNone = true := by
    intro x hx
    obtain ⟨b, -, hb⟩ := List.mem_map.mp (hvalues ▸ List.mem_map_of_mem hx)
    rw [← congrArg Prod.fst hb]
    rfl
  have hitems : (ns.map Prod.snd).mapM f = some (bs.map value) := by
    have hsnd := congrArg (List.map Prod.snd) hvalues
    rw [List.map_map, List.map_map, ← List.forall₂_eq_eq_eq, List.forall₂_map_left_iff,
      List.forall₂_map_right_iff] at hsnd
    rw [mapM_eq_some_iff, List.forall₂_map_left_iff, List.forall₂_map_right_iff]
    exact hsnd
  cases hbs : bs with
  | nil => exact ⟨.null, rfl, rfl⟩
  | cons b bs' =>
    have hgroups : groups c (ungroup (bs.map group)) = some ([], bs.map group) :=
      groups_ungroup (by simpa [group] using hcol)
    have hnodes : (bs.map group).mapM (entryNode (block d)) = some ns := by
      rw [List.mapM_map]
      exact hns
    have hcollect : collect ns = some (.seq (ns.map Prod.snd)) := if_pos (List.all_eq_true.mpr hkeys)
    rw [hbs] at hgroups hnodes hitems
    refine ⟨.seq (ns.map Prod.snd), ?_, hitems⟩
    have hblock : block (d + 1) ((group b).1 :: ((group b).2 ++ ungroup (bs'.map group))) = _ :=
      block_of_groups hgroups
    rw [hnodes] at hblock
    exact hblock.trans hcollect

end BlockYaml
