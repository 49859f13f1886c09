import KistCollector.Common.BlobRecorder

/-!
# The recorder of a row stream

`RowRecorder` is the recorder whose sink is one CSV file: a header line, then a line for each record.
After a run without failures the file is the header and the accepted records, in push order
(`RowRecorder.csv_holds_accepted`).
-/

namespace Kist

open Text

/-- Records paired with the time they were received. -/
abbrev RowRecorder (R : Type) := Recorder (R × Int64) (OStream Char)

namespace RowRecorder

variable {R : Type} {row : RowFn R} {s s₀ s' : RowRecorder R}

/-- A recorder as it is constructed. -/
def new : RowRecorder R := .init .init

def openFile (csv : Option Device) (header : List Char) (file : OStream Char) :
    Bool × OStream Char :=
  let file := file.open csv
  if !file.isOpen then (false, file) else (true, (file.write header).write ['\n'])

/-- `none` is a file that cannot be opened. -/
def «open» (s : RowRecorder R) (csv : Option Device) (header : List Char) (queueCapacity : Nat) :
    Bool × RowRecorder R :=
  s.openWith (openFile csv header) queueCapacity

/-- The CSV line of a record, without its line break. -/
def line (row : RowFn R) (r : R × Int64) : List Char := row r.1 r.2

/-- The loop over a batch. This recorder does not report wire gaps. -/
def writer (row : RowFn R) : Sink (R × Int64) (OStream Char) where
  write file r := (file.write (line row r)).write ['\n']
  good file := file.good
  flush file := file.flush
  close file := file.close
  size r := (line row r).length + 1
  wireGaps _ := 0

abbrev machine (row : RowFn R) := Recorder.machine (writer row)

/-- The file of the records `rs`. -/
def csvOf (row : RowFn R) (header : List Char) (rs : List (R × Int64)) : List Char :=
  unlines (header :: rs.map (line row))

theorem csvOf_append (row : RowFn R) (header : List Char) (rs rs' : List (R × Int64)) :
    csvOf row header (rs ++ rs') = csvOf row header rs ++ unlines (rs'.map (line row)) := by
  simp [csvOf]

theorem length_csvOf (row : RowFn R) (header : List Char) (rs : List (R × Int64)) :
    (csvOf row header rs).length = (rs.map (writer row).size).sum + header.length + 1 := by
  induction rs with
  | nil => simp [csvOf]
  | cons r rs ih =>
    simp only [csvOf, unlines_cons, List.map_cons, List.length_append, List.length_cons,
      List.sum_cons] at ih ⊢
    simp only [writer] at ih ⊢
    omega

theorem open_eq (hs : s.out.isOpen = false) (d : Device) (header : List Char) (cap : Nat) :
    s.open (some d) header cap =
      (true, s.start (((s.out.open (some d)).write header).write ['\n']) cap) := by
  simp [«open», openFile, Recorder.openWith, OStream.open_some hs]

theorem exists_of_open (h : new.open csv header cap = (true, s₀)) : ∃ d, csv = some d ∧
    s₀ = new.start (((OStream.init.open (some d)).write header).write ['\n']) cap := by
  cases csv with
  | none => cases h
  | some d => exact ⟨d, rfl, (congrArg Prod.snd ((open_eq rfl d header cap).symm.trans h)).symm⟩

/-- The file is open on the device `d` and has been given the records `rs`. -/
def Carries (row : RowFn R) (d : Device) (header : List Char) (rs : List (R × Int64))
    (file : OStream Char) : Prop :=
  file.dev = d ∧ file.Carries (csvOf row header rs)

theorem Carries.opened {file : OStream Char} (h : file.isOpen = false) (d : Device)
    (header : List Char) :
    Carries row d header [] (((file.open (some d)).write header).write ['\n']) := by
  refine ⟨by simp [OStream.open_some h], ?_⟩
  simpa [csvOf] using ((OStream.Carries.opened h d).write header).write ['\n']

theorem Carries.write (H : Carries row d header rs file) (r : R × Int64) :
    Carries row d header (rs ++ [r]) ((writer row).write file r) := by
  refine ⟨by simpa [writer] using H.1, ?_⟩
  simpa [csvOf_append, writer] using H.2.write (line row r ++ ['\n'])

theorem Carries.flush (H : Carries row d header rs file) :
    Carries row d header rs ((writer row).flush file) :=
  ⟨by simpa [writer] using H.1, H.2.flush.1⟩

theorem sticky (row : RowFn R) : (writer row).Sticky := by
  refine ⟨fun {o r} h => ?_, fun {o} h => ?_, fun {o} h => ?_⟩ <;>
    simp only [writer, OStream.good, Bool.not_eq_false'] at h ⊢
  · exact OStream.write_bad (OStream.write_bad h)
  · exact OStream.flush_bad h
  · exact OStream.close_bad h

/-- The file carries what was written, until `close` leaves that on the device. -/
theorem file_of_run (hs : s.out.isOpen = false)
    (hopen : s.open (some d) header cap = (true, s₀))
    (h : (machine row).run s₀ ls = some (s', es)) :
    (s'.closer ≠ .closed → Carries row d header (Recorder.wrote es) s'.out) ∧
    (s'.closer = .closed → s'.out.dev = d ∧ s'.out.Left (csvOf row header (Recorder.wrote es))) := by
  cases (open_eq hs d header cap).symm.trans hopen
  obtain ⟨hrun, hclosed⟩ := Recorder.out_induction (Carries.opened hs d header)
    (fun r H => H.write r) (fun H => H.flush) h
  refine ⟨hrun, fun hc => ?_⟩
  obtain ⟨o, ho, heq⟩ := hclosed hc
  rw [heq]
  exact ⟨by simpa [writer] using ho.1, ho.2.close⟩

/-! ## Failing devices -/

/-- Row `i` of `rs` is completely on the device, where the rows before it end. -/
def OnDevice (row : RowFn R) (header : List Char) (file : OStream Char) (rs : List (R × Int64))
    (i : Nat) : Prop :=
  ∃ r ∈ rs[i]?, HoldsAt file.file (csvOf row header (rs.take i)).length (line row r ++ ['\n'])

instance (row : RowFn R) (header : List Char) (file : OStream Char) (rs : List (R × Int64)) :
    DecidablePred (OnDevice row header file rs) := fun _ => Option.decidableExistsMem _

/-- The device takes the header and the rows of `rs`. -/
def Room (row : RowFn R) (d : Device) (header : List Char) (rs : List (R × Int64)) : Prop :=
  (csvOf row header rs).length ≤ d.quota

theorem Room.mono (hp : rs <+: rs') (H : Room row d header rs') : Room row d header rs := by
  obtain ⟨ts, rfl⟩ := hp
  rw [Room, csvOf_append, List.length_append] at H
  exact Nat.le_of_add_right_le H

theorem onDevice_iff_room {file : OStream Char} (hd : file.dev = d)
    (H : file.Left (csvOf row header rs)) (hj : j < rs.length) :
    OnDevice row header file rs j ↔ Room row d header (rs.take (j + 1)) := by
  have hr : rs[j]? = some rs[j] := List.getElem?_eq_getElem hj
  obtain ⟨hrs, htake⟩ := BlobSink.eq_take_append_cons hr
  have hcsv : csvOf row header rs = csvOf row header (rs.take j) ++ (line row rs[j] ++ ['\n']) ++
      unlines ((rs.drop (j + 1)).map (line row)) := by
    conv_lhs => rw [hrs, csvOf_append]
    simp only [List.map_cons, unlines_cons, List.append_assoc, List.singleton_append]
  simp only [OnDevice, Room, hr, Option.mem_def, Option.some.injEq, exists_eq_left']
  rw [H.file, hd, hcsv, holdsAt_take, htake, csvOf_append]
  simp

/-- A run of a fresh recorder is lossless exactly when every step that makes the file fail spares the
records counted before it. -/
theorem lossless_iff_along (hopen : new.open (some d) header cap = (true, s₀))
    (h : (machine row).run s₀ ls = some (s, es)) (hc : s.closer = .closed) :
    Recorder.Lossless (OnDevice row header) es s ↔
      (machine row).Along (Recorder.SparesCounted (writer row) (Room row d header)) s₀ ls := by
  obtain ⟨hdev, hleft⟩ := (file_of_run (s := new) rfl hopen h).2 hc
  cases (open_eq (s := new) rfl d header cap).symm.trans hopen
  refine Recorder.lossless_iff (sticky row) Room.mono h hc (fun hgood => ?_)
    fun j hj => onDevice_iff_room hdev hleft hj
  exact hdev ▸ hleft.length_le (by simpa [writer, OStream.good] using hgood)

/-! ## The file of a run without failures -/

theorem file_eq_csvOf (hopen : new.open csv header cap = (true, s₀))
    (h : (machine row).run s₀ ls = some (s, es)) (hc : s.closer = .closed)
    (hgood : s.out.bad = false) : s.out.file = csvOf row header (Recorder.accepted es) := by
  obtain ⟨d, rfl, rfl⟩ := exists_of_open hopen
  have hleft := ((file_of_run rfl hopen h).2 hc).2
  exact (Recorder.closed_accepted h hc).1 ▸ hleft.file_eq hgood

/-- **The CSV file.** After a run in which no write fails the file is the header line and one line for
each record accepted, in push order, with the time read at its push; `written` and `bytes` count
them, and times that never go back in push order never go back in the file. -/
theorem csv_holds_accepted (hopen : new.open csv header cap = (true, s₀))
    (h : (machine row).run s₀ ls = some (s, es)) (hc : s.closer = .closed)
    (hgood : s.out.bad = false) :
    s.out.file = unlines (header :: (Recorder.accepted es).map (line row)) ∧
    s.written = (Recorder.accepted es).length ∧
    s.bytes + header.length + 1 = s.out.file.length ∧
    ((∀ l ∈ header :: (Recorder.accepted es).map (line row), '\n' ∉ l) →
      getlines s.out.file = header :: (Recorder.accepted es).map (line row)) ∧
    (((Recorder.pushed es).map (·.2)).Pairwise (· ≤ ·) →
      ((Recorder.accepted es).map (·.2)).Pairwise (· ≤ ·)) := by
  have hfile := file_eq_csvOf hopen h hc hgood
  obtain ⟨d, rfl, rfl⟩ := exists_of_open hopen
  obtain ⟨hwritten, hbytes⟩ := Recorder.closed_counts (sticky row) h hc
    (by simp [writer, OStream.good, hgood])
  refine ⟨hfile, hwritten, ?_, fun hl => ?_, fun hsorted => ?_⟩
  · rw [hfile, length_csvOf, hbytes]
  · rw [hfile, csvOf, getlines_unlines hl]
  · have hsub := (List.sublist_append_left _ _).trans (Recorder.Counts.of_run rfl h).sublist
    exact hsorted.sublist (hsub.map _)

/-- Three records are accepted, a fourth is refused. -/
theorem csv_holds_accepted_three : ∃ s es,
    (machine fun (n : Nat) _ => decimal n).run
      (new.open (some ⟨100, 8, by decide⟩) ['n'] 3).2
      (Recorder.oneBatch [(7, 5), (80, 6), (9, 6)] [(10, 8)]) = some (s, es) ∧
    s.out.file = ['n', '\n', '7', '\n', '8', '0', '\n', '9', '\n'] ∧ s.written = 3 := by
  refine Machine.exists_run (P := fun p => p.1.closer = .closed ∧ p.1.out.bad = false ∧
    Recorder.accepted p.2 = [(7, 5), (80, 6), (9, 6)]) (by decide) ?_
  rintro s es h ⟨hc, hgood, hacc⟩
  obtain ⟨hfile, hwritten, -⟩ := csv_holds_accepted (open_eq rfl _ _ _) h hc hgood
  rw [hfile, hwritten, hacc]
  exact ⟨rfl, rfl⟩

end RowRecorder
end Kist
