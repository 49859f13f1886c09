import KistCollector.Common.Restart

/-!
# Opening a recorder after a failure

The owner of a recorder may call `open` again after it returned false, and `close` at any time. The
machine below has both calls between the steps of the recorder. A `RowRecorder` keeps the promise
that a failed `open` leaves it as it was. A `BlobRecorder` opens two files and returns with one of
them open if the other one fails; as no thread was started, `close` does not close it
(`Recorder.reusable_iff`).
-/

namespace Kist
namespace Recorder

variable {R σ α : Type}

/-- A call of the owner, or a step of the recorder between two of them. -/
inductive Call (α R : Type) where
  | open (files : α) (capacity : Nat)
  | close
  | step (l : Label R)

/-- No thread is joinable, and the owner is not inside `close`. -/
def Stopped (s : Recorder R σ) : Prop := s.writer.started = false ∨ s.closer = .closed

instance (s : Recorder R σ) : Decidable s.Stopped :=
  inferInstanceAs (Decidable (_ ∨ _))

section
variable (W : Sink R σ) (openSink : α → σ → Bool × σ)

/-- The recorder under its owner. `open` is called on a stopped recorder only, where `close` returns at
once; on a running one, `close` is the steps of that name. Each `open` shows its result. -/
def reuse : Machine (Recorder R σ) (Call α R) Bool where
  step s
    | .open files cap =>
      if s.Stopped then
        some ((s.openWith (openSink files) cap).2, [(s.openWith (openSink files) cap).1])
      else none
    | .close => if s.Stopped then some (s, []) else none
    | .step l => ((machine W).step s l).map fun p => (p.1, [])

/-- What `open` has to do: if it returns false the recorder is `AsBefore`, if it returns true the sink
is `Fresh` and the queue and the writer thread are started on it. -/
def Reusable (AsBefore : σ → σ → Prop) (Fresh : α → σ → σ → Prop) (_ : List Bool)
    (s : Recorder R σ) : Call α R → Prop
  | .open files cap => ∀ ok s', s.openWith (openSink files) cap = (ok, s') →
      (ok = false → ∃ out, AsBefore s.out out ∧ s' = { s with out := out }) ∧
      (ok = true → ∃ out, Fresh files s.out out ∧ s' = s.start out cap)
  | .close | .step _ => True

end

variable {W : Sink R σ} {openSink : α → σ → Bool × σ} {s s' : Recorder R σ}

theorem openWith_eq (files : α) (s : Recorder R σ) (cap : Nat) :
    s.openWith (openSink files) cap = ((openSink files s.out).1,
      if (openSink files s.out).1 then s.start (openSink files s.out).2 cap
      else { s with out := (openSink files s.out).2 }) := by
  rcases ho : openSink files s.out with ⟨ok, out⟩
  cases ok <;> simp [openWith, ho]

/-- `open` does what it has to exactly if the sink does. -/
theorem reusable_open_iff {AsBefore : σ → σ → Prop} {Fresh : α → σ → σ → Prop} :
    Reusable openSink AsBefore Fresh es s (.open files cap) ↔
      ((openSink files s.out).1 = false → AsBefore s.out (openSink files s.out).2) ∧
      ((openSink files s.out).1 = true → Fresh files s.out (openSink files s.out).2) := by
  simp only [Reusable, openWith_eq, Prod.mk.injEq]
  constructor
  · intro H
    obtain ⟨hf, ht⟩ := H _ _ ⟨rfl, rfl⟩
    constructor
    · intro hok
      obtain ⟨out, hout, heq⟩ := hf hok
      have := congrArg Recorder.out heq
      simp only [hok, Bool.false_eq_true, if_false] at this
      exact this ▸ hout
    · intro hok
      obtain ⟨out, hout, heq⟩ := ht hok
      have := congrArg Recorder.out heq
      simp only [hok, if_true, start] at this
      exact this ▸ hout
  · rintro ⟨hf, ht⟩ ok s' ⟨rfl, rfl⟩
    refine ⟨fun hok => ⟨_, hf hok, by simp [hok]⟩, fun hok => ⟨_, ht hok, by simp [hok]⟩⟩

/-- A stopped recorder has its files closed. -/
structure AtRest (Closed : σ → Prop) (s : Recorder R σ) : Prop where
  joined : s.closer = .joined ∨ s.closer = .closed → s.writer = .exited
  closed : s.Stopped → Closed s.out

variable {Closed : σ → Prop}

/-- A step of a running writer thread keeps it running. -/
theorem AtRest.of_running (H : AtRest Closed s) (hne : s.writer ≠ .exited)
    (hc : s'.closer = s.closer) (hw : s'.writer.started = true) : AtRest Closed s' := by
  have hclosed : s.closer ≠ .closed := fun h => hne (H.joined (.inr h))
  refine ⟨fun h => ?_, fun h => ?_⟩
  · rw [hc] at h
    exact absurd (H.joined h) hne
  · rcases h with h | h
    · exact absurd (hw.symm.trans h) nofun
    · exact absurd (hc ▸ h) hclosed

/-- The steps of the recorder keep its files closed while it is stopped. -/
theorem AtRest.next (hclose : ∀ o, Closed (W.close o)) (H : AtRest Closed s)
    (h : Step W s l s' e) : AtRest Closed s' := by
  cases h with
  | push | accept | refuse | drop => exact ⟨H.joined, H.closed⟩
  | stop hw | batch hw | write hw | countWritten hw | countError hw | addBytes hw | flush hw =>
    exact H.of_running (by simp [hw]) rfl rfl
  | close hc hw =>
    refine ⟨nofun, fun h => ?_⟩
    rcases h with h | h
    · exact absurd (hw.symm.trans h) nofun
    · cases h
  | join hc hw =>
    have hs : s.writer.started = true := by rw [hw]; rfl
    refine ⟨fun _ => hw, fun h => ?_⟩
    rcases h with h | h
    · exact absurd (hs.symm.trans h) nofun
    · cases h
  | closeSink hc =>
    exact ⟨fun _ => H.joined (.inl hc), fun _ => hclose _⟩

/-- Every `open` is called with files that meet `φ`. -/
def OpensWith (φ : α → Prop) (_ : List Bool) (_ : Recorder R σ) : Call α R → Prop
  | .open files _ => φ files
  | .close | .step _ => True

/-- While every failed `open` keeps the files closed, a stopped recorder has its files closed. -/
theorem AtRest.of_run {φ : α → Prop} (hclose : ∀ o, Closed (W.close o))
    (hopen : ∀ {a o}, φ a → Closed o → (openSink a o).1 = false → Closed (openSink a o).2)
    (h₀ : AtRest Closed s) (h : (reuse W openSink).run s cs = some (s', es))
    (hφ : (reuse W openSink).Along (OpensWith φ) s cs) : AtRest Closed s' := by
  revert hφ
  refine Machine.run_induction (P := fun cs _ s' => (reuse W openSink).Along (OpensWith φ) s cs →
    AtRest Closed s') (fun _ => h₀) ?_ h
  intro cs es t c t' e hrun ih hstep hφ
  have H := ih hφ.of_append
  cases c with
  | «open» files cap =>
    have hfiles : φ files := hφ.last hrun
    simp only [reuse, openWith_eq, Option.ite_none_right_eq_some, Option.some.injEq,
      Prod.mk.injEq] at hstep
    obtain ⟨hstop, rfl, -⟩ := hstep
    cases hok : (openSink files t.out).1
    · exact ⟨H.joined, fun _ => hopen hfiles (H.closed hstop) hok⟩
    · refine ⟨nofun, fun h => ?_⟩
      rcases h with h | h <;> cases h
  | close =>
    simp only [reuse, Option.ite_none_right_eq_some, Option.some.injEq, Prod.mk.injEq] at hstep
    exact hstep.2.1 ▸ H
  | step l =>
    simp only [reuse, Option.map_eq_some_iff, Prod.mk.injEq] at hstep
    obtain ⟨⟨t'', e'⟩, hs, rfl, -⟩ := hstep
    exact H.next hclose (.of_step hs)

/-- Where the sink does what it has to exactly on the files that meet `φ`, so does `open` in every
run. -/
theorem reusable_iff_along {φ : α → Prop} {AsBefore : σ → σ → Prop} {Fresh : α → σ → σ → Prop}
    (hclose : ∀ o, Closed (W.close o)) (hkept : ∀ {o o'}, AsBefore o o' → Closed o → Closed o')
    (hexact : ∀ {a o}, Closed o → (((openSink a o).1 = false → AsBefore o (openSink a o).2) ∧
      ((openSink a o).1 = true → Fresh a o (openSink a o).2) ↔ φ a))
    (h₀ : AtRest Closed s) (h : (reuse W openSink).run s cs = some (s', es)) :
    (reuse W openSink).Along (Reusable openSink AsBefore Fresh) s cs ↔
      (reuse W openSink).Along (OpensWith φ) s cs := by
  refine Machine.along_iff_along ?_ h
  intro pre t es c t' e hrun hφ hstep
  have H : AtRest Closed t := by
    refine .of_run hclose ?_ h₀ hrun hφ
    intro a o ha hc hok
    exact hkept (((hexact hc).mpr ha).1 hok) hc
  cases c with
  | «open» files cap =>
    simp only [reuse, Option.ite_none_right_eq_some] at hstep
    exact reusable_open_iff.trans (hexact (H.closed hstep.1))
  | _ => exact Iff.rfl

end Recorder

/-! ## The two recorders -/

namespace BlobRecorder

variable {F : Type} [Frame F]

abbrev reuse (row : RowFn F) := Recorder.reuse (writer row) openFiles

/-- Only the fail bits of the two streams differ; the next `open` that succeeds clears them. -/
def AsBefore (o o' : BlobWriter) : Prop :=
  o' = { o with
    sink := { o.sink with
      data := { o.sink.data with bad := o'.sink.data.bad }
      index := { o.sink.index with bad := o'.sink.index.bad } } }

/-- Both streams are open on the files asked for, the blob empty and the index with its header, and
appends succeed if there was room for the header. -/
def Fresh (f : Files) (o o' : BlobWriter) : Prop :=
  ∃ d i, f.data = some d ∧ f.index = some i ∧ o' = { o with sink := o'.sink } ∧
    o'.sink.Carries d i f.header o.sink.offset [] ∧
    (f.header.length < i.quota → o'.sink.good = true)

/-- Both files can be opened, or none of them. -/
def BothOrNeither (f : Files) : Prop := f.data.isSome = f.index.isSome

omit [Frame F] in
theorem Fresh.of_open {o : BlobWriter} (h : o.sink.Closed) (d i : Device) (header : List Char) :
    Fresh ⟨some d, some i, header⟩ o (openFiles ⟨some d, some i, header⟩ o).2 := by
  have hcarries := BlobSink.Carries.opened h d i header
  refine ⟨d, i, rfl, rfl, rfl, hcarries, fun (hroom : header.length < i.quota) => ?_⟩
  apply Bool.eq_true_of_not_eq_false
  intro hbad
  rcases hcarries.of_not_good hbad with hlt | hlt
  · simp at hlt
  · simp [BlobSink.indexOf, BlobSink.rowsFrom] at hlt
    omega

omit [Frame F] in
theorem new_atRest : Recorder.AtRest (fun o => o.sink.Closed) (new : BlobRecorder F) :=
  ⟨fun h => h.elim nofun nofun, fun _ => ⟨rfl, rfl⟩⟩

omit [Frame F] in
theorem openFiles_iff {o : BlobWriter} (h : o.sink.Closed) :
    ((openFiles f o).1 = false → AsBefore o (openFiles f o).2) ∧
      ((openFiles f o).1 = true → Fresh f o (openFiles f o).2) ↔ BothOrNeither f := by
  obtain ⟨data, index, header⟩ := f
  obtain ⟨hd, hi⟩ := h
  cases data with
  | none =>
    cases index with
    | none =>
      refine iff_of_true ⟨fun _ => ?_, fun hok => ?_⟩ rfl
      · simp [AsBefore, openFiles, openSink, BlobSink.open, OStream.open, hd]
      · simp [openFiles, openSink, BlobSink.open, OStream.open, hd] at hok
    | some i =>
      refine iff_of_false (fun H => ?_) (by simp [BothOrNeither])
      have := congrArg (·.sink.index.isOpen) (H.1 (by
        simp [openFiles, openSink, BlobSink.open, OStream.open, hd]))
      simp [openFiles, openSink, BlobSink.open, OStream.open, hd, hi] at this
  | some d =>
    cases index with
    | none =>
      refine iff_of_false (fun H => ?_) (by simp [BothOrNeither])
      have := congrArg (·.sink.data.isOpen) (H.1 (by
        simp [openFiles, openSink, BlobSink.open, OStream.open, hi]))
      simp [openFiles, openSink, BlobSink.open, OStream.open, hd, hi] at this
    | some i =>
      refine iff_of_true ⟨fun hok => ?_, fun _ => .of_open ⟨hd, hi⟩ d i header⟩ rfl
      simp [openFiles, openSink, BlobSink.open_eq ⟨hd, hi⟩] at hok

end BlobRecorder

namespace RowRecorder

variable {R : Type}

abbrev reuse (row : RowFn R) := Recorder.reuse (writer row) openFiles

/-- Only the fail bit of the stream differs; the next `open` that succeeds clears it. -/
def AsBefore (o o' : OStream Char) : Prop := o' = { o with bad := o'.bad }

/-- The stream is open on the file asked for, which has its header, and appends succeed if there was
room for it. -/
def Fresh (f : Files) (_ o' : OStream Char) : Prop :=
  ∃ d, f.csv = some d ∧ o'.dev = d ∧ o'.Carries (f.header ++ ['\n']) ∧
    (f.header.length < d.quota → o'.good = true)

theorem new_atRest : Recorder.AtRest (fun o => o.isOpen = false) (new : RowRecorder R) :=
  ⟨fun h => h.elim nofun nofun, fun _ => rfl⟩

theorem openFiles_spec {o : OStream Char} (h : o.isOpen = false) :
    ((openFiles f o).1 = false → AsBefore o (openFiles f o).2) ∧
      ((openFiles f o).1 = true → Fresh f o (openFiles f o).2) := by
  obtain ⟨csv, header⟩ := f
  cases csv with
  | none =>
    constructor
    · intro _
      simp [AsBefore, openFiles, openFile, OStream.open, h]
    · intro hok
      simp [openFiles, openFile, OStream.open, h] at hok
  | some d =>
    obtain ⟨hdev, hcarries⟩ : Carries (fun (_ : Unit) _ => []) d header [] _ := .opened h d header
    have heq : openFiles ⟨some d, header⟩ o =
        (true, ((o.open (some d)).write header).write ['\n']) := by
      simp [openFiles, openFile, OStream.open_some h]
    rw [heq]
    refine ⟨fun hok => absurd hok (by simp), fun _ => ⟨d, rfl, hdev, by simpa [csvOf] using hcarries,
      fun (hroom : header.length < d.quota) => ?_⟩⟩
    apply Bool.eq_true_of_not_eq_false
    intro hbad
    have hlt := hcarries.lt_of_bad (by simpa [OStream.good] using hbad)
    rw [hdev] at hlt
    simp [csvOf] at hlt
    omega

end RowRecorder

namespace Recorder

/-- **A failed `open` and what comes after it.** However a `RowRecorder` is opened and closed, a failed
`open` leaves it as it was and a successful one starts it on a fresh file. A `BlobRecorder` does so
exactly as long as no `open` finds one of its two files only. -/
theorem reusable_iff {F R : Type} [Frame F] :
    (∀ (row : RowFn F) cs s es, (BlobRecorder.reuse row).run BlobRecorder.new cs = some (s, es) →
      ((BlobRecorder.reuse row).Along
          (Reusable BlobRecorder.openFiles BlobRecorder.AsBefore BlobRecorder.Fresh)
          BlobRecorder.new cs ↔
        (BlobRecorder.reuse row).Along (OpensWith BlobRecorder.BothOrNeither)
          BlobRecorder.new cs)) ∧
    (∀ (row : RowFn R) cs s es, (RowRecorder.reuse row).run RowRecorder.new cs = some (s, es) →
      (RowRecorder.reuse row).Along
        (Reusable RowRecorder.openFiles RowRecorder.AsBefore RowRecorder.Fresh)
        RowRecorder.new cs) := by
  constructor
  · intro row cs s es h
    refine reusable_iff_along (BlobRecorder.reopens row).closed ?_ BlobRecorder.openFiles_iff
      BlobRecorder.new_atRest h
    intro o o' heq hc
    rw [BlobRecorder.AsBefore] at heq
    rw [heq]
    exact hc
  · intro row cs s es h
    have hall : (RowRecorder.reuse row).Along (OpensWith fun _ => True) RowRecorder.new cs := by
      intro pre c post _ t es' _
      cases c <;> trivial
    refine (reusable_iff_along (RowRecorder.reopens row).closed ?_ ?_
      RowRecorder.new_atRest h).mpr hall
    · intro o o' heq hc
      rw [RowRecorder.AsBefore] at heq
      rw [heq]
      exact hc
    · intro a o hc
      exact iff_true_intro (RowRecorder.openFiles_spec hc)

/-- The index cannot be opened; then both files can. -/
def retried (d d' i : Device) : List (Call BlobRecorder.Files (F × Int64)) :=
  [.open ⟨some d, none, ['n']⟩ 4, .open ⟨some d', some i, ['n']⟩ 4]

theorem reusable_iff_retried : ∃ s es,
    (BlobRecorder.reuse fun (_ : UInt64 × List UInt8) _ => ['7']).run BlobRecorder.new
      (retried ⟨100, 8, by decide⟩ ⟨200, 8, by decide⟩ ⟨300, 8, by decide⟩) = some (s, es) ∧
    ((BlobRecorder.reuse fun (_ : UInt64 × List UInt8) _ => ['7']).Along
        (Reusable BlobRecorder.openFiles BlobRecorder.AsBefore BlobRecorder.Fresh)
        BlobRecorder.new
        (retried ⟨100, 8, by decide⟩ ⟨200, 8, by decide⟩ ⟨300, 8, by decide⟩) ↔
      (BlobRecorder.reuse fun (_ : UInt64 × List UInt8) _ => ['7']).Along
        (OpensWith BlobRecorder.BothOrNeither) BlobRecorder.new
        (retried ⟨100, 8, by decide⟩ ⟨200, 8, by decide⟩ ⟨300, 8, by decide⟩)) := by
  refine Machine.exists_run (P := fun _ => True) (by decide) ?_
  intro s es h _
  exact (reusable_iff (R := Nat)).1 _ _ _ _ h

/-- The second `open` returns true with the blob stream failed and still on the file of the first. -/
theorem reusable_fails : ∃ s es,
    (BlobRecorder.reuse fun (_ : UInt64 × List UInt8) _ => ['7']).run BlobRecorder.new
      (retried ⟨100, 8, by decide⟩ ⟨200, 8, by decide⟩ ⟨300, 8, by decide⟩) = some (s, es) ∧
    es = [false, true] ∧ s.out.sink.good = false ∧ s.out.sink.data.dev.quota = 100 ∧
    ¬ (BlobRecorder.reuse fun (_ : UInt64 × List UInt8) _ => ['7']).Along
        (Reusable BlobRecorder.openFiles BlobRecorder.AsBefore BlobRecorder.Fresh)
        BlobRecorder.new
        (retried ⟨100, 8, by decide⟩ ⟨200, 8, by decide⟩ ⟨300, 8, by decide⟩) := by
  refine Machine.exists_run (P := fun p => p.2 = [false, true] ∧ p.1.out.sink.good = false ∧
    p.1.out.sink.data.dev.quota = 100) (by decide) ?_
  rintro s es h ⟨hes, hbad, hdev⟩
  refine ⟨hes, hbad, hdev, fun H => ?_⟩
  have hfirst := H [] _ _ rfl _ _ rfl
  exact absurd ((BlobRecorder.openFiles_iff ⟨rfl, rfl⟩).mp (reusable_open_iff.mp hfirst)) nofun

end Recorder
end Kist
