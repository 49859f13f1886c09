import KistCollector.Export.Outcome
import Mathlib.Logic.Function.Basic
import Mathlib.Data.List.Range

/-!
# Exporting a whole session

`export_session_mp4` and `export_session_images` are one program around two pairs of exporters. It starts
an exporter for the color and one for the depth stream of every directory in the session, and then waits
for those that started, one after another, while all of them work. Whatever the order of their steps, the
exit code says whether every stream that was found is exported completely (`export_session_exit_iff`), and
the program always comes to an end (`export_session_exits`). A call to the file system that throws ends the
process before `main` returns, as a worker does that dies (`Cause`).
-/

namespace Kist

/-- The two streams of a camera. -/
inductive Modality where
  | color
  | depth
  deriving DecidableEq, Repr

namespace ExportSession

/-- An entry of the session's directory: what exists in it, and the files of its streams. `isDirectory` is
`none` where the iterator or `is_directory` throws, `existing` where `exists` does. -/
structure Entry where
  name : List Char
  isDirectory : Option Bool
  existing : List Char → Option Bool
  files : Modality → StreamFiles

/-- What `exists` returns, where it does. -/
def Entry.has (e : Entry) (name : List Char) : Bool := e.existing name == some true

/-- Whether `start` throws. It does not ask for the second file where the first is missing. -/
def Entry.throws (e : Entry) (blob index : List Char) : Bool :=
  (e.existing blob).isNone || e.has blob && (e.existing index).isNone

/-- The exporter of a stream: the number of its directory entry, and which of its two streams. -/
abbrev Place := Nat × Modality

/-- A tool has an exporter for every place. -/
abbrev Tool (σ : Modality → Type) := (p : Place) → Exporter StreamFiles (σ p.2)

/-- `color` and `depth` say which of the exporters are not reset. -/
structure Job where
  camera : List Char
  entry : Nat
  color : Bool
  depth : Bool
  deriving DecidableEq, Repr

def Job.has (job : Job) : Modality → Bool
  | .color => job.color
  | .depth => job.depth

/-- Where `main` stands. `starting i .depth color` and `keeping i color depth` carry what the calls of
`start` returned; `i` counts the entries of the directory and `j` the jobs. -/
inductive Pc where
  | scanning (i : Nat)
  | starting (i : Nat) (m : Modality) (color : Bool)
  | keeping (i : Nat) (color depth : Bool)
  | counting
  | waiting (j : Nat) (m : Modality)
  | joining (j : Nat) (m : Modality)
  | testing (j : Nat) (m : Modality)
  | exited (code : Nat)
  | terminated
  deriving DecidableEq, Repr

structure State (σ : Modality → Type) where
  pc : Pc
  jobs : List Job := []
  allOk : Bool := true
  exporters : (p : Place) → ExporterState StreamFiles (σ p.2)

variable {σ : Modality → Type}

/-- A step of `main`, or of the worker of an exporter. -/
inductive Label where
  | main
  | work (p : Place)
  deriving DecidableEq, Repr

/-- The number of arguments, and whether the first is a directory; `none` where `is_directory` throws. -/
def initial (argc : Nat) (isDirectory : Option Bool) : State σ where
  pc :=
    if argc < 2 then .exited 1
    else match isDirectory with
      | none => .terminated
      | some false => .exited 1
      | some true => .scanning 0
  exporters _ := {}

def State.put (s : State σ) (p : Place) (x : ExporterState StreamFiles (σ p.2)) : State σ :=
  { s with exporters := Function.update s.exporters p x }

theorem State.put_self {s : State σ} {p : Place} {x : ExporterState StreamFiles (σ p.2)} :
    (s.put p x).exporters p = x := Function.update_self ..

theorem State.put_of_ne {s : State σ} {p q : Place} {x : ExporterState StreamFiles (σ p.2)}
    (h : q ≠ p) : (s.put p x).exporters q = s.exporters q := Function.update_of_ne h ..

/-- Behind the waits for a job's stream. -/
def Pc.next (j : Nat) : Modality → Pc
  | .color => .waiting j .depth
  | .depth => .waiting (j + 1) .color

/-- One step of `main`. -/
def mainStep (T : Tool σ) (entries : List Entry) (s : State σ) : Option (State σ) :=
  match s.pc with
  | .scanning i =>
    match entries[i]? with
    | none => some { s with pc := .counting }
    | some e =>
      match e.isDirectory with
      | none => some { s with pc := .terminated }
      | some true => some { s with pc := .starting i .color false }
      | some false => some { s with pc := .scanning (i + 1) }
  | .starting i m color => do
    let e ← entries[i]?
    if e.throws (T (i, m)).blobName (T (i, m)).indexName then some { s with pc := .terminated }
    else
      let (x, es) ← (T (i, m)).machine.step (s.exporters (i, m)) (.start e.has (e.files m))
      let started := es.contains (.started true)
      let pc := match m with
        | .color => .starting i .depth started
        | .depth => .keeping i color started
      some { s.put (i, m) x with pc := pc }
  | .keeping i color depth => do
    let e ← entries[i]?
    let jobs := if color || depth then s.jobs ++ [⟨e.name, i, color, depth⟩] else s.jobs
    some { s with jobs := jobs, pc := .scanning (i + 1) }
  | .counting => some { s with pc := if s.jobs.isEmpty then .exited 1 else .waiting 0 .color }
  | .waiting j m =>
    match s.jobs[j]? with
    | none => some { s with pc := .exited (if s.allOk then 0 else 1) }
    | some job =>
      if job.has m then do
        let (x, _) ← (T (job.entry, m)).machine.step (s.exporters (job.entry, m)) .wait
        some { s.put (job.entry, m) x with pc := .joining j m }
      else some { s with pc := .next j m }
  | .joining j m => do
    let job ← s.jobs[j]?
    let (x, _) ← (T (job.entry, m)).machine.step (s.exporters (job.entry, m)) .join
    some { s.put (job.entry, m) x with pc := .testing j m }
  | .testing j m => do
    let job ← s.jobs[j]?
    some { s with allOk := s.allOk && (s.exporters (job.entry, m)).ok, pc := .next j m }
  | .exited _ | .terminated => none

/-- A step of the worker at `p`. -/
def workStep (T : Tool σ) (s : State σ) (p : Place) : Option (State σ) :=
  ((T p).work (s.exporters p)).map fun (x, _) =>
    if x.died then { s.put p x with pc := .terminated } else s.put p x

/-- The tool over the directory `entries`. -/
def machine (T : Tool σ) (entries : List Entry) : Machine (State σ) Label Empty where
  step s l :=
    if s.pc = .terminated then none
    else match l with
    | .main => (mainStep T entries s).map fun s => (s, [])
    | .work p => (workStep T s p).map fun s => (s, [])

/-- What one step can do that does not end the process. -/
inductive Step (T : Tool σ) (entries : List Entry) (s : State σ) : State σ → Prop where
  | scanned : s.pc = .scanning i → entries[i]? = none → Step T entries s { s with pc := .counting }
  | skips : s.pc = .scanning i → entries[i]? = some e → e.isDirectory = some false →
    Step T entries s { s with pc := .scanning (i + 1) }
  | enters : s.pc = .scanning i → entries[i]? = some e → e.isDirectory = some true →
    Step T entries s { s with pc := .starting i .color false }
  | startsColor : s.pc = .starting i .color c → entries[i]? = some e →
    (T (i, .color)).machine.step (s.exporters (i, .color)) (.start e.has (e.files .color)) =
      some (x, es) →
    Step T entries s { s.put (i, .color) x with pc := .starting i .depth (es.contains (.started true)) }
  | startsDepth : s.pc = .starting i .depth c → entries[i]? = some e →
    (T (i, .depth)).machine.step (s.exporters (i, .depth)) (.start e.has (e.files .depth)) =
      some (x, es) →
    Step T entries s { s.put (i, .depth) x with pc := .keeping i c (es.contains (.started true)) }
  | keeps : s.pc = .keeping i c d → entries[i]? = some e → Step T entries s
    { s with
      jobs := if c || d then s.jobs ++ [⟨e.name, i, c, d⟩] else s.jobs
      pc := .scanning (i + 1) }
  | noJobs : s.pc = .counting → s.jobs = [] → Step T entries s { s with pc := .exited 1 }
  | hasJobs : s.pc = .counting → s.jobs ≠ [] → Step T entries s { s with pc := .waiting 0 .color }
  | exits : s.pc = .waiting j m → s.jobs[j]? = none →
    Step T entries s { s with pc := .exited (if s.allOk then 0 else 1) }
  | passes : s.pc = .waiting j m → s.jobs[j]? = some job → job.has m = false →
    Step T entries s { s with pc := .next j m }
  | waits : s.pc = .waiting j m → s.jobs[j]? = some job → job.has m = true →
    (T (job.entry, m)).machine.step (s.exporters (job.entry, m)) .wait = some (x, es) →
    Step T entries s { s.put (job.entry, m) x with pc := .joining j m }
  | joins : s.pc = .joining j m → s.jobs[j]? = some job →
    (T (job.entry, m)).machine.step (s.exporters (job.entry, m)) .join = some (x, es) →
    Step T entries s { s.put (job.entry, m) x with pc := .testing j m }
  | tests : s.pc = .testing j m → s.jobs[j]? = some job → Step T entries s
    { s with allOk := s.allOk && (s.exporters (job.entry, m)).ok, pc := .next j m }
  | works : (T p).work (s.exporters p) = some (x, es) → x.died = false → Step T entries s (s.put p x)

/-- What a step can do that ends the process. -/
inductive Throws (T : Tool σ) (entries : List Entry) (s : State σ) : State σ → Prop where
  | scanning : s.pc = .scanning i → entries[i]? = some e → e.isDirectory = none →
    Throws T entries s { s with pc := .terminated }
  | starting : s.pc = .starting i m c → entries[i]? = some e →
    e.throws (T (i, m)).blobName (T (i, m)).indexName = true →
    Throws T entries s { s with pc := .terminated }
  | working : (T p).work (s.exporters p) = some (x, es) → x.died = true →
    Throws T entries s { s.put p x with pc := .terminated }

variable {T : Tool σ} {entries : List Entry} {s s' : State σ}

theorem Step.of_mainStep (h : mainStep T entries s = some s') :
    Step T entries s s' ∨ Throws T entries s s' := by
  unfold mainStep at h
  split at h
  · rename_i i hpc
    split at h
    · cases h
      exact .inl (.scanned hpc ‹_›)
    · rename_i e he
      split at h <;> rename_i hdir <;> cases h
      · exact .inr (.scanning hpc he hdir)
      · exact .inl (.enters hpc he hdir)
      · exact .inl (.skips hpc he hdir)
  · rename_i i m color hpc
    simp only [Option.bind_eq_bind, Option.bind_eq_some_iff] at h
    obtain ⟨e, he, h⟩ := h
    split at h
    · rename_i hthrows
      cases h
      exact .inr (.starting hpc he hthrows)
    · simp only [Option.bind_eq_some_iff, Prod.exists] at h
      obtain ⟨x, es, hstep, h⟩ := h
      cases m <;> cases h
      · exact .inl (.startsColor hpc he hstep)
      · exact .inl (.startsDepth hpc he hstep)
  · rename_i i color depth hpc
    simp only [Option.bind_eq_bind, Option.bind_eq_some_iff] at h
    obtain ⟨e, he, h⟩ := h
    cases h
    exact .inl (.keeps hpc he)
  · rename_i hpc
    cases h
    left
    split
    · exact .noJobs hpc (List.isEmpty_iff.mp ‹_›)
    · exact .hasJobs hpc fun hjobs => ‹¬ _› (List.isEmpty_iff.mpr hjobs)
  · rename_i j m hpc
    split at h
    · cases h
      exact .inl (.exits hpc ‹_›)
    · rename_i job hjob
      split at h
      · rename_i hhas
        simp only [Option.bind_eq_bind, Option.bind_eq_some_iff, Prod.exists] at h
        obtain ⟨x, es, hstep, h⟩ := h
        cases h
        exact .inl (.waits hpc hjob hhas hstep)
      · rename_i hhas
        cases h
        exact .inl (.passes hpc hjob (Bool.eq_false_iff.mpr hhas))
  · rename_i j m hpc
    simp only [Option.bind_eq_bind, Option.bind_eq_some_iff, Prod.exists] at h
    obtain ⟨job, hjob, x, es, hstep, h⟩ := h
    cases h
    exact .inl (.joins hpc hjob hstep)
  · rename_i j m hpc
    simp only [Option.bind_eq_bind, Option.bind_eq_some_iff] at h
    obtain ⟨job, hjob, h⟩ := h
    cases h
    exact .inl (.tests hpc hjob)
  · cases h
  · cases h

theorem Step.of_workStep (h : workStep T s p = some s') :
    Step T entries s s' ∨ Throws T entries s s' := by
  obtain ⟨⟨x, e⟩, hwork, heq⟩ := Option.map_eq_some_iff.mp h
  dsimp only at heq
  split at heq <;> rename_i hdied <;> cases heq
  · exact .inr (.working hwork hdied)
  · exact .inl (.works hwork (Bool.eq_false_iff.mpr hdied))

theorem Step.of_step (h : (machine T entries).step s l = some (s', es)) :
    Step T entries s s' ∨ Throws T entries s s' := by
  simp only [machine] at h
  split at h
  · cases h
  · cases l with
    | main =>
      obtain ⟨s₁, hs, heq⟩ := Option.map_eq_some_iff.mp h
      cases heq
      exact Step.of_mainStep hs
    | work p =>
      obtain ⟨s₁, hs, heq⟩ := Option.map_eq_some_iff.mp h
      cases heq
      exact Step.of_workStep hs

/-! ## What was found -/

variable (T entries) in
/-- The exporter finds its two files in the directory. -/
def finds (p : Place) : Bool := entries[p.1]?.any fun e =>
  e.isDirectory == some true && (e.has (T p).blobName && e.has (T p).indexName)

variable (entries) in
def filesAt (p : Place) : StreamFiles := entries[p.1]?.elim ⟨[], none⟩ (·.files p.2)

variable (T entries) in
/-- The job that is kept for an entry. -/
def job? (i : Nat) : Option Job :=
  if finds T entries (i, .color) || finds T entries (i, .depth) then
    entries[i]?.map fun e => ⟨e.name, i, finds T entries (i, .color), finds T entries (i, .depth)⟩
  else none

variable (T entries) in
def jobsTo (n : Nat) : List Job := (List.range n).filterMap (job? T entries)

theorem finds_eq_false (h : entries[p.1]? = none) : finds T entries p = false := by
  rw [finds, h]
  rfl

theorem has_of_job? (h : job? T entries i = some job) (m : Modality) :
    job.entry = i ∧ job.has m = finds T entries (i, m) := by
  unfold job? at h
  split at h
  · obtain ⟨e, -, rfl⟩ := Option.map_eq_some_iff.mp h
    exact ⟨rfl, by cases m <;> rfl⟩
  · cases h

theorem has_of_mem (h : job ∈ jobsTo T entries n) (m : Modality) :
    job.has m = finds T entries (job.entry, m) := by
  obtain ⟨i, -, hi⟩ := List.mem_filterMap.mp h
  obtain ⟨hentry, hhas⟩ := has_of_job? hi m
  rw [hhas, hentry]

/-- Every stream that was found is in a job. -/
theorem exists_job {p : Place} (h : finds T entries p = true) :
    ∃ job ∈ jobsTo T entries entries.length, job.entry = p.1 ∧ job.has p.2 = true := by
  obtain ⟨i, m⟩ := p
  cases he : entries[i]? with
  | none => exact absurd (h.symm.trans (finds_eq_false he)) nofun
  | some e =>
    have hany : (finds T entries (i, .color) || finds T entries (i, .depth)) = true := by
      cases m <;> simp [h]
    have hjob : job? T entries i = some
        ⟨e.name, i, finds T entries (i, .color), finds T entries (i, .depth)⟩ := by
      rw [job?, if_pos hany, he]
      rfl
    refine ⟨_, List.mem_filterMap.mpr ⟨i, ?_, hjob⟩, rfl, (has_of_job? hjob m).2.trans h⟩
    exact List.mem_range.mpr (List.getElem?_eq_some_iff.mp he).1

theorem jobsTo_succ (i : Nat) :
    jobsTo T entries (i + 1) = jobsTo T entries i ++ (job? T entries i).toList := by
  rw [jobsTo, List.range_succ, List.filterMap_append]
  cases h : job? T entries i <;> simp [jobsTo, h]

/-- Where an exporter has no thread, `start` says whether it finds its files. -/
theorem start_spec {p : Place} {x : ExporterState StreamFiles (σ p.2)} {es : List Exporter.Event}
    (he : entries[p.1]? = some e) (hdir : e.isDirectory = some true)
    (h : (T p).machine.step {} (.start e.has (e.files p.2)) = some (x, es)) :
    es.contains (.started true) = finds T entries p ∧ x.owner = .idle ∧
      (finds T entries p = true → (T p).LeftAlone (filesAt entries p) x) ∧
      (finds T entries p = false → x = {}) := by
  have hfinds : finds T entries p = (e.has (T p).blobName && e.has (T p).indexName) := by
    rw [finds, he, Option.any_some, hdir, beq_self_eq_true, Bool.true_and]
  have hfiles : filesAt entries p = e.files p.2 := by rw [filesAt, he]; rfl
  rw [Exporter.step_start] at h
  rw [hfinds, hfiles]
  split at h <;> cases h
  · rename_i hex
    exact ⟨hex.symm ▸ rfl, rfl, fun _ => .started _ _, fun hno => absurd (hex.symm.trans hno) nofun⟩
  · rename_i hex
    exact ⟨(Bool.eq_false_iff.mpr hex).symm ▸ rfl, rfl, fun hyes => absurd hyes hex, fun _ => rfl⟩

/-! ## What holds along a run -/

/-- `start` has been called at the place, or would not be. -/
def Pc.Reached : Pc → Place → Prop
  | .scanning i, p => p.1 < i
  | .starting i m _, p => p.1 < i ∨ p = (i, .color) ∧ m = .depth
  | .keeping i _ _, p => p.1 ≤ i
  | _, _ => True

/-- The entries whose jobs are kept. -/
def Pc.scanned (n : Nat) : Pc → Nat
  | .scanning i | .starting i _ _ | .keeping i _ _ => i
  | _ => n

/-- `main` is past the wait for the exporter. -/
def Pc.Tested : Pc → Nat → Modality → Prop
  | .waiting j' m', j, m | .joining j' m', j, m | .testing j' m', j, m =>
    j < j' ∨ j = j' ∧ m = .color ∧ m' = .depth
  | .exited _, _, _ => True
  | _, _, _ => False

/-- The exporters at the places reached that found their files are left alone, the others untouched. -/
structure Alone (T : Tool σ) (entries : List Entry) (s : State σ) : Prop where
  alone : ∀ p, s.pc.Reached p → finds T entries p = true →
    (T p).LeftAlone (filesAt entries p) (s.exporters p)
  fresh : ∀ p, (s.pc.Reached p → finds T entries p = false) → s.exporters p = {}

/-- What `main` has scanned. -/
structure Scan (T : Tool σ) (entries : List Entry) (s : State σ) : Prop where
  jobs : s.jobs = jobsTo T entries (s.pc.scanned entries.length)
  starting : ∀ i m c, s.pc = .starting i m c → ∃ e, entries[i]? = some e ∧ e.isDirectory = some true
  color : ∀ i c, s.pc = .starting i .depth c → c = finds T entries (i, .color)
  keeping : ∀ i c d, s.pc = .keeping i c d → (∃ e, entries[i]? = some e) ∧
    c = finds T entries (i, .color) ∧ d = finds T entries (i, .depth)
  scanning : ∀ i, s.pc = .scanning i → i ≤ entries.length

theorem Alone.step_starting {x : ExporterState StreamFiles (σ m)} (H : Alone T entries s) (hs : Scan T entries s)
    (hpc : s.pc = .starting i m c) (he : entries[i]? = some e)
    (h : (T (i, m)).machine.step (s.exporters (i, m)) (.start e.has (e.files m)) =
      some (x, es)) :
    es.contains (.started true) = finds T entries (i, m) ∧ x.owner = .idle ∧
      (finds T entries (i, m) = true → (T (i, m)).LeftAlone (filesAt entries (i, m)) x) ∧
      (finds T entries (i, m) = false → x = {}) := by
  obtain ⟨e', he', hdir⟩ := hs.starting i m c hpc
  cases he.symm.trans he'
  have hfresh : s.exporters (i, m) = {} := by
    refine H.fresh _ fun hreached => ?_
    rw [hpc] at hreached
    rcases hreached with hlt | ⟨heq, hm⟩
    · exact absurd hlt (Nat.lt_irrefl _)
    · cases heq
      cases hm
  rw [hfresh] at h
  exact start_spec he hdir h

theorem Scan.next (H : Scan T entries s) (ha : Alone T entries s) (h : Step T entries s s') :
    Scan T entries s' := by
  have hjobs := H.jobs
  cases h with
  | scanned hpc he =>
    have hlen : entries.length = _ := Nat.le_antisymm (List.getElem?_eq_none_iff.mp he)
      (H.scanning _ hpc)
    rw [hpc] at hjobs
    exact ⟨by rw [hjobs]; simp only [Pc.scanned, hlen], nofun, nofun, nofun, nofun⟩
  | @skips i e hpc he hdir =>
    have hnone : ∀ m, finds T entries (i, m) = false := fun m => by
      rw [finds, he, Option.any_some, hdir]
      rfl
    rw [hpc] at hjobs
    refine ⟨?_, nofun, nofun, nofun, fun i' hi' => ?_⟩
    · rw [hjobs]
      simp only [Pc.scanned]
      rw [jobsTo_succ, job?, hnone, hnone]
      simp
    · cases hi'
      exact (List.getElem?_eq_some_iff.mp he).1
  | enters hpc he hdir =>
    rw [hpc] at hjobs
    refine ⟨hjobs, fun i' m c hi' => ?_, nofun, nofun, nofun⟩
    cases hi'
    exact ⟨_, he, hdir⟩
  | @startsColor i c e x es hpc he hstep =>
    obtain ⟨hes, -⟩ := ha.step_starting H hpc he hstep
    rw [hpc] at hjobs
    refine ⟨hjobs, fun i' m c hi' => ?_, fun i' c hi' => ?_, nofun, nofun⟩
    · cases hi'
      exact H.starting _ _ _ hpc
    · cases hi'
      exact hes
  | @startsDepth i c e x es hpc he hstep =>
    obtain ⟨hes, -⟩ := ha.step_starting H hpc he hstep
    rw [hpc] at hjobs
    refine ⟨hjobs, nofun, nofun, fun i' c d hi' => ?_, nofun⟩
    cases hi'
    exact ⟨⟨e, he⟩, H.color _ _ hpc, hes⟩
  | @keeps i c d e hpc he =>
    obtain ⟨-, rfl, rfl⟩ := H.keeping _ _ _ hpc
    rw [hpc] at hjobs
    refine ⟨?_, nofun, nofun, nofun, fun i' hi' => ?_⟩
    · simp only [Pc.scanned] at hjobs ⊢
      rw [jobsTo_succ, job?, hjobs, he]
      split <;> simp_all
    · cases hi'
      exact (List.getElem?_eq_some_iff.mp he).1
  | noJobs hpc | hasJobs hpc | exits hpc =>
    rw [hpc] at hjobs
    exact ⟨hjobs, nofun, nofun, nofun, nofun⟩
  | @passes j m job hpc | @tests j m job hpc =>
    rw [hpc] at hjobs
    refine ⟨?_, ?_, ?_, ?_, ?_⟩ <;> cases m <;> first | exact hjobs | nofun
  | waits hpc | joins hpc =>
    rw [hpc] at hjobs
    exact ⟨hjobs, nofun, nofun, nofun, nofun⟩
  | works hwork => exact ⟨H.jobs, H.starting, H.color, H.keeping, H.scanning⟩

theorem Alone.of_reached (H : Alone T entries s) (hx : s'.exporters = s.exporters)
    (h : ∀ p, finds T entries p = true → (s'.pc.Reached p ↔ s.pc.Reached p)) : Alone T entries s' := by
  constructor
  · intro p hreached hfinds
    rw [hx]
    exact H.alone p ((h p hfinds).mp hreached) hfinds
  · intro p hno
    rw [hx]
    refine H.fresh p fun hreached => ?_
    by_contra hfinds
    have hfinds := Bool.eq_true_of_not_eq_false hfinds
    exact absurd (hfinds.symm.trans (hno ((h p hfinds).mpr hreached))) nofun

/-- A step of an exporter that is left alone. -/
theorem Alone.put {p : Place} {x : ExporterState StreamFiles (σ p.2)} (H : Alone T entries s)
    (hpc : s.pc.Reached p) (hp : finds T entries p = true)
    (hx : (T p).LeftAlone (filesAt entries p) x) : Alone T entries (s.put p x) := by
  constructor
  · intro q hreached hfinds
    by_cases hq : q = p
    · subst hq
      rwa [State.put_self]
    · rw [State.put_of_ne hq]
      exact H.alone q hreached hfinds
  · intro q hno
    have hq : q ≠ p := by
      rintro rfl
      exact absurd (hp.symm.trans (hno hpc)) nofun
    rw [State.put_of_ne hq]
    exact H.fresh q hno

/-- The first step of an exporter. -/
theorem Alone.starts {p : Place} {x : ExporterState StreamFiles (σ p.2)} (H : Alone T entries s)
    (hs' : s'.exporters = (s.put p x).exporters)
    (hpc : ∀ q, s'.pc.Reached q ↔ s.pc.Reached q ∨ q = p)
    (hyes : finds T entries p = true → (T p).LeftAlone (filesAt entries p) x)
    (hno : finds T entries p = false → x = {}) : Alone T entries s' := by
  constructor
  · intro q hreached hfinds
    by_cases hq : q = p
    · subst hq
      rw [hs', State.put_self]
      exact hyes hfinds
    · rw [hs', State.put_of_ne hq]
      exact H.alone q (((hpc q).mp hreached).resolve_right hq) hfinds
  · intro q hq
    by_cases heq : q = p
    · subst heq
      rw [hs', State.put_self]
      exact hno (hq ((hpc q).mpr (.inr rfl)))
    · rw [hs', State.put_of_ne heq]
      exact H.fresh q fun hreached => hq ((hpc q).mpr (.inl hreached))

theorem reached_starting (i : Nat) (q : Place) :
    (Pc.starting i .depth c).Reached q ↔ (Pc.starting i .color c').Reached q ∨ q = (i, .color) := by
  simp only [Pc.Reached, and_true, reduceCtorEq, and_false, or_false]

theorem reached_keeping (i : Nat) (q : Place) :
    (Pc.keeping i c d).Reached q ↔ (Pc.starting i .depth c').Reached q ∨ q = (i, .depth) := by
  obtain ⟨k, m⟩ := q
  simp only [Pc.Reached, and_true, Prod.mk.injEq]
  cases m <;> simp <;> omega

/-- A job's streams were found. -/
theorem Scan.has_eq {j : Nat} (H : Scan T entries s) (hjob : s.jobs[j]? = some job) (m : Modality) :
    job.has m = finds T entries (job.entry, m) := by
  have hmem := List.mem_of_getElem? hjob
  rw [H.jobs] at hmem
  exact has_of_mem hmem m

/-- Where `main` waits for the jobs. -/
structure Waits (T : Tool σ) (entries : List Entry) (s : State σ) : Prop where
  idle : ∀ p, (∀ j m job, s.pc = .joining j m → s.jobs[j]? = some job → p ≠ (job.entry, m)) →
    (s.exporters p).owner = .idle
  owns : ∀ j m job, s.pc = .joining j m → s.jobs[j]? = some job →
    (s.exporters (job.entry, m)).owner = .joining false
  waiting : ∀ j m, s.pc = .waiting j m → s.jobs ≠ []
  job : ∀ j m, s.pc = .joining j m ∨ s.pc = .testing j m →
    ∃ job, s.jobs[j]? = some job ∧ job.has m = true
  joined : ∀ j m job, s.pc = .testing j m → s.jobs[j]? = some job →
    (s.exporters (job.entry, m)).thread = none
  allOk : s.allOk = true ↔ ∀ j m job, s.jobs[j]? = some job → job.has m = true →
    s.pc.Tested j m → (T (job.entry, m)).Ends (filesAt entries (job.entry, m)) true
  exited : ∀ code, s.pc = .exited code → code = if s.jobs.isEmpty || !s.allOk then 1 else 0

/-- A worker that moves was started. -/
theorem Alone.found {p : Place} {x : ExporterState StreamFiles (σ p.2)} (H : Alone T entries s)
    (h : (T p).work (s.exporters p) = some (x, es)) : s.pc.Reached p ∧ finds T entries p = true := by
  by_contra hno
  have hfresh := H.fresh p fun hreached =>
    Bool.eq_false_iff.mpr fun hfinds => hno ⟨hreached, hfinds⟩
  rw [hfresh] at h
  cases h

theorem Alone.next (H : Alone T entries s) (hs : Scan T entries s) (hw : Waits T entries s)
    (h : Step T entries s s') : Alone T entries s' := by
  cases h with
  | @scanned i hpc he =>
    refine H.of_reached rfl fun p hp => iff_of_true trivial ?_
    rw [hpc]
    by_contra hlt
    have hnone : entries[p.1]? = none :=
      List.getElem?_eq_none_iff.mpr (Nat.le_trans (List.getElem?_eq_none_iff.mp he) (Nat.not_lt.mp hlt))
    exact absurd (hp.symm.trans (finds_eq_false hnone)) nofun
  | @skips i e hpc he hdir =>
    refine H.of_reached rfl fun p hp => ?_
    have hne : p.1 ≠ i := fun heq => by
      rw [ExportSession.finds, heq, he, Option.any_some, hdir] at hp
      cases hp
    rw [hpc]
    simp only [Pc.Reached]
    omega
  | enters hpc =>
    refine H.of_reached rfl fun p _ => ?_
    rw [hpc]
    simp [Pc.Reached]
  | startsColor hpc he hstep =>
    obtain ⟨-, -, hyes, hno⟩ := H.step_starting hs hpc he hstep
    exact H.starts rfl (fun q => by rw [hpc]; exact reached_starting _ q) hyes hno
  | startsDepth hpc he hstep =>
    obtain ⟨-, -, hyes, hno⟩ := H.step_starting hs hpc he hstep
    exact H.starts rfl (fun q => by rw [hpc]; exact reached_keeping _ q) hyes hno
  | keeps hpc =>
    refine H.of_reached rfl fun p _ => ?_
    rw [hpc]
    exact Nat.lt_succ_iff
  | noJobs hpc | hasJobs hpc | exits hpc =>
    exact H.of_reached rfl fun p _ => by rw [hpc]; rfl
  | @passes j m job hpc =>
    refine H.of_reached rfl fun p _ => ?_
    rw [hpc]
    cases m <;> rfl
  | @tests j m job hpc =>
    refine H.of_reached rfl fun p _ => ?_
    rw [hpc]
    cases m <;> rfl
  | @waits j m job x es hpc hjob hhas hstep =>
    have hp := (hs.has_eq hjob m).symm.trans hhas
    have halone := H.alone (job.entry, m) (by rw [hpc]; trivial) hp
    have hx : (T (job.entry, m)).LeftAlone (filesAt entries (job.entry, m)) x := by
      cases (Exporter.Step.of_step hstep).2
      exact halone.wait
    exact (H.put (by rw [hpc]; trivial) hp hx).of_reached rfl fun p _ => by rw [State.put, hpc]; rfl
  | @joins j m job x es hpc hjob hstep =>
    obtain ⟨job', hjob', hhas⟩ := hw.job j m (.inl hpc)
    cases hjob.symm.trans hjob'
    have hp := (hs.has_eq hjob m).symm.trans hhas
    have halone := H.alone (job.entry, m) (by rw [hpc]; trivial) hp
    exact (H.put (by rw [hpc]; trivial) hp (halone.join hstep).1).of_reached rfl
      fun p _ => by rw [State.put, hpc]; rfl
  | works hwork hlives =>
    obtain ⟨hreached, hfinds⟩ := H.found hwork
    exact H.put hreached hfinds ((H.alone _ hreached hfinds).work (.of_work hwork) hlives)

/-- `main` does not wait for a job yet. -/
def Pc.Scans : Pc → Prop
  | .scanning _ | .starting _ _ _ | .keeping _ _ _ | .counting => True
  | _ => False

theorem Waits.of_scans (hpc : s.pc.Scans) (hidle : ∀ p, (s.exporters p).owner = .idle)
    (hok : s.allOk = true) : Waits T entries s := by
  have hwaits : ∀ j m, s.pc ≠ .waiting j m ∧ s.pc ≠ .joining j m ∧ s.pc ≠ .testing j m := by
    intro j m
    refine ⟨?_, ?_, ?_⟩ <;> rintro heq <;> simp [heq, Pc.Scans] at hpc
  refine ⟨fun p _ => hidle p, fun j m _ hj => absurd hj (hwaits j m).2.1,
    fun j m hj => absurd hj (hwaits j m).1, fun j m hj => ?_,
    fun j m _ hj => absurd hj (hwaits j m).2.2, iff_of_true hok fun j m job _ _ ht => ?_,
    fun code hcode => ?_⟩
  · rcases hj with hj | hj
    · exact absurd hj (hwaits j m).2.1
    · exact absurd hj (hwaits j m).2.2
  · cases hp : s.pc <;> rw [hp] at hpc ht <;> first | exact hpc.elim | exact ht.elim
  · rw [hcode] at hpc
    exact hpc.elim

theorem Waits.scans (H : Waits T entries s) (hpc : s.pc.Scans) :
    (∀ p, (s.exporters p).owner = .idle) ∧ s.allOk = true := by
  refine ⟨fun p => H.idle p fun j m job hj => ?_, H.allOk.mpr fun j m job _ _ ht => ?_⟩
  · rw [hj] at hpc
    exact hpc.elim
  · cases hp : s.pc <;> rw [hp] at hpc ht <;> first | exact hpc.elim | exact ht.elim

theorem tested_next {j j' : Nat} {m m' : Modality} : (Pc.next j m).Tested j' m' ↔
    (j' < j ∨ j' = j ∧ m' = .color ∧ m = .depth) ∨ j' = j ∧ m' = m := by
  cases m <;> cases m' <;> simp [Pc.next, Pc.Tested] <;> omega

theorem next_ne {j j' : Nat} {m m' : Modality} : Pc.next j m ≠ .joining j' m' ∧
    Pc.next j m ≠ .testing j' m' := by
  cases m <;> exact ⟨nofun, nofun⟩

theorem next_ne_exited {j code : Nat} {m : Modality} : Pc.next j m ≠ .exited code := by
  cases m <;> nofun

/-- While `main` is not at a `join`, no exporter has been waited for in vain. -/
theorem Waits.idle_of_ne (H : Waits T entries s) (hpc : ∀ j m, s.pc ≠ .joining j m) (p : Place) :
    (s.exporters p).owner = .idle := H.idle p fun j m _ hj => absurd hj (hpc j m)

variable {job : Job}

/-- Where an exporter moves that `main` has not waited for, before `main` waits for any. -/
theorem Waits.starts {p : Place} {x : ExporterState StreamFiles (σ p.2)} (H : Waits T entries s)
    (hpc : s.pc.Scans) (hpc' : pc.Scans) (hx : x.owner = .idle) :
    Waits T entries { s.put p x with pc := pc } := by
  obtain ⟨hidle, hok⟩ := H.scans hpc
  refine .of_scans hpc' (fun q => ?_) hok
  by_cases hq : q = p
  · subst hq
    exact (State.put_self (s := s)).symm ▸ hx
  · exact (State.put_of_ne (s := s) hq).symm ▸ hidle q

theorem Waits.noJobs (H : Waits T entries s) (hpc : s.pc = .counting) (hjobs : s.jobs = []) :
    Waits T entries { s with pc := .exited 1 } := by
  obtain ⟨hidle, hok⟩ := H.scans (by rw [hpc]; trivial)
  refine ⟨fun p _ => hidle p, ?_, ?_, ?_, ?_, iff_of_true hok ?_, fun code hcode => ?_⟩
  · rintro j m job ⟨⟩
  · rintro j m ⟨⟩
  · rintro j m (hj | hj) <;> cases hj
  · rintro j m job ⟨⟩
  · intro j m job hjob
    rw [show s.jobs = [] from hjobs] at hjob
    cases hjob
  · cases hcode
    simp [hjobs]

theorem Waits.hasJobs (H : Waits T entries s) (hpc : s.pc = .counting) (hjobs : s.jobs ≠ []) :
    Waits T entries { s with pc := .waiting 0 .color } := by
  obtain ⟨hidle, hok⟩ := H.scans (by rw [hpc]; trivial)
  refine ⟨fun p _ => hidle p, ?_, fun j m _ => hjobs, ?_, ?_, iff_of_true hok ?_, ?_⟩
  · rintro j m job ⟨⟩
  · rintro j m (hj | hj) <;> cases hj
  · rintro j m job ⟨⟩
  · rintro j m job _ _ (hj | ⟨-, -, ⟨⟩⟩)
    exact absurd hj (Nat.not_lt_zero _)
  · rintro code ⟨⟩

/-- Past the last job every job has been waited for. -/
theorem Waits.exits (H : Waits T entries s) (hpc : s.pc = .waiting j m) (hjob : s.jobs[j]? = none) :
    Waits T entries { s with pc := .exited (if s.allOk then 0 else 1) } := by
  have hidle := H.idle_of_ne fun j' m' => by rw [hpc]; rintro ⟨⟩
  refine ⟨fun p _ => hidle p, ?_, ?_, ?_, ?_, H.allOk.trans ?_, fun code hcode => ?_⟩
  · rintro j' m' job ⟨⟩
  · rintro j' m' ⟨⟩
  · rintro j' m' (hj | hj) <;> cases hj
  · rintro j' m' job ⟨⟩
  · refine forall_congr' fun j' => forall_congr' fun m' => forall_congr' fun job => ?_
    refine imp_congr_right fun hjob' => imp_congr_right fun _ => imp_congr_left ?_
    refine iff_of_true ?_ trivial
    rw [hpc]
    refine .inl (Nat.lt_of_lt_of_le (List.getElem?_eq_some_iff.mp hjob').1 ?_)
    exact List.getElem?_eq_none_iff.mp hjob
  · cases hcode
    have hne := H.waiting j m hpc
    cases hok : s.allOk <;> simp [hne]

theorem Waits.passes (H : Waits T entries s) (hpc : s.pc = .waiting j m)
    (hjob : s.jobs[j]? = some job) (hhas : job.has m = false) :
    Waits T entries { s with pc := .next j m } := by
  have hidle := H.idle_of_ne fun j' m' => by rw [hpc]; rintro ⟨⟩
  refine ⟨fun p _ => hidle p, fun _ _ _ hj => absurd hj next_ne.1,
    fun _ _ _ => H.waiting j m hpc, fun _ _ hj => ?_, fun _ _ _ hj => absurd hj next_ne.2,
    H.allOk.trans ?_, fun _ hcode => absurd hcode next_ne_exited⟩
  · exact (hj.elim (fun hj => absurd hj next_ne.1) fun hj => absurd hj next_ne.2)
  · refine forall_congr' fun j' => forall_congr' fun m' => forall_congr' fun job' => ?_
    refine imp_congr_right fun hjob' => imp_congr_right fun hhas' => imp_congr_left ?_
    rw [hpc, tested_next]
    refine (or_iff_left ?_).symm
    rintro ⟨rfl, rfl⟩
    cases hjob.symm.trans hjob'
    exact Bool.false_ne_true (hhas.symm.trans hhas')

theorem Waits.waits {x : ExporterState StreamFiles (σ m)} (H : Waits T entries s)
    (hpc : s.pc = .waiting j m) (hjob : s.jobs[j]? = some job) (hhas : job.has m = true)
    (hx : x.owner = .joining false) :
    Waits T entries { s.put (job.entry, m) x with pc := .joining j m } := by
  have hidle := H.idle_of_ne fun j' m' => by rw [hpc]; rintro ⟨⟩
  refine ⟨fun p hp => ?_, fun j' m' job' hj hjob' => ?_, ?_, fun j' m' hj => ?_, ?_,
    H.allOk.trans ?_, ?_⟩
  · have hne := hp j m job rfl hjob
    exact (State.put_of_ne (s := s) hne).symm ▸ hidle p
  · cases hj
    cases hjob.symm.trans hjob'
    exact (State.put_self (s := s)).symm ▸ hx
  · rintro j' m' ⟨⟩
  · rcases hj with hj | hj <;> cases hj
    exact ⟨job, hjob, hhas⟩
  · rintro j' m' job' ⟨⟩
  · rw [hpc]
    rfl
  · rintro code ⟨⟩

theorem Waits.joins {x : ExporterState StreamFiles (σ m)} (H : Waits T entries s)
    (hpc : s.pc = .joining j m) (hjob : s.jobs[j]? = some job) (hx : x.owner = .idle)
    (hthread : x.thread = none) :
    Waits T entries { s.put (job.entry, m) x with pc := .testing j m } := by
  refine ⟨fun p _ => ?_, ?_, ?_, fun j' m' hj => ?_, fun j' m' job' hj hjob' => ?_,
    H.allOk.trans ?_, ?_⟩
  · by_cases hp : p = (job.entry, m)
    · subst hp
      exact (State.put_self (s := s)).symm ▸ hx
    · refine (State.put_of_ne (s := s) hp).symm ▸ H.idle p fun j' m' job' hj hjob' => ?_
      rw [hpc] at hj
      cases hj
      cases hjob.symm.trans hjob'
      exact hp
  · rintro j' m' job' ⟨⟩
  · rintro j' m' ⟨⟩
  · rcases hj with hj | hj <;> cases hj
    exact H.job j m (.inl hpc)
  · cases hj
    cases hjob.symm.trans hjob'
    exact (State.put_self (s := s)).symm ▸ hthread
  · rw [hpc]
    rfl
  · rintro code ⟨⟩

/-- `main` learns how one more exporter has ended. -/
theorem Waits.tests (H : Waits T entries s) (hpc : s.pc = .testing j m)
    (hjob : s.jobs[j]? = some job) (hhas : job.has m = true)
    (hends : (T (job.entry, m)).Ends (filesAt entries (job.entry, m)) (s.exporters (job.entry, m)).ok) :
    Waits T entries
      { s with allOk := s.allOk && (s.exporters (job.entry, m)).ok, pc := .next j m } := by
  have hidle := H.idle_of_ne fun j' m' => by rw [hpc]; rintro ⟨⟩
  have hok : (s.exporters (job.entry, m)).ok = true ↔
      (T (job.entry, m)).Ends (filesAt entries (job.entry, m)) true :=
    ⟨fun h => h ▸ hends, fun h => hends.unique h⟩
  refine ⟨fun p _ => hidle p, fun _ _ _ hj => absurd hj next_ne.1, fun _ _ _ hnil => ?_,
    fun _ _ hj => ?_, fun _ _ _ hj => absurd hj next_ne.2, ?_,
    fun _ hcode => absurd hcode next_ne_exited⟩
  · rw [show s.jobs = [] from hnil] at hjob
    cases hjob
  · exact (hj.elim (fun hj => absurd hj next_ne.1) fun hj => absurd hj next_ne.2)
  · rw [Bool.and_eq_true, hok, H.allOk, hpc]
    constructor
    · rintro ⟨hbefore, hthis⟩ j' m' job' hjob' hhas' ht
      rcases tested_next.mp ht with ht | ⟨rfl, rfl⟩
      · exact hbefore j' m' job' hjob' hhas' ht
      · cases hjob.symm.trans hjob'
        exact hthis
    · intro hall
      refine ⟨fun j' m' job' hjob' hhas' ht => ?_, ?_⟩
      · exact hall j' m' job' hjob' hhas' (tested_next.mpr (.inl ht))
      · exact hall j m job hjob hhas (tested_next.mpr (.inr ⟨rfl, rfl⟩))

theorem Waits.works {p : Place} {x : ExporterState StreamFiles (σ p.2)} (H : Waits T entries s)
    (howner : x.owner = (s.exporters p).owner)
    (hthread : (s.exporters p).thread = none → x.thread = none) : Waits T entries (s.put p x) := by
  have howner : ∀ q, ((s.put p x).exporters q).owner = (s.exporters q).owner := by
    intro q
    by_cases hq : q = p
    · subst hq
      rw [State.put_self, howner]
    · rw [State.put_of_ne hq]
  refine ⟨fun q hq => ?_, fun j m job hj hjob => ?_, H.waiting, H.job, fun j m job hj hjob => ?_,
    H.allOk, H.exited⟩
  · exact (howner q).trans (H.idle q hq)
  · exact (howner _).trans (H.owns j m job hj hjob)
  · have hnone := H.joined j m job hj hjob
    by_cases hq : (job.entry, m) = p
    · subst hq
      rw [State.put_self]
      exact hthread hnone
    · rw [State.put_of_ne hq]
      exact hnone

/-- The exporter that `main` is at was found, and is left alone. -/
theorem Waits.alone (H : Waits T entries s) (ha : Alone T entries s) (hs : Scan T entries s)
    (hpc : s.pc = .joining j m ∨ s.pc = .testing j m) (hjob : s.jobs[j]? = some job) :
    job.has m = true ∧
      (T (job.entry, m)).LeftAlone (filesAt entries (job.entry, m)) (s.exporters (job.entry, m)) := by
  obtain ⟨job', hjob', hhas⟩ := H.job j m hpc
  cases hjob.symm.trans hjob'
  refine ⟨hhas, ha.alone (job.entry, m) ?_ ((hs.has_eq hjob m).symm.trans hhas)⟩
  rcases hpc with hpc | hpc <;> rw [hpc] <;> trivial

theorem Waits.next (H : Waits T entries s) (ha : Alone T entries s) (hs : Scan T entries s)
    (h : Step T entries s s') : Waits T entries s' := by
  cases h with
  | scanned hpc | skips hpc | enters hpc | keeps hpc =>
    obtain ⟨hidle, hok⟩ := H.scans (by rw [hpc]; trivial)
    exact .of_scans trivial hidle hok
  | startsColor hpc he hstep | startsDepth hpc he hstep =>
    exact H.starts (by rw [hpc]; trivial) trivial (ha.step_starting hs hpc he hstep).2.1
  | noJobs hpc hjobs => exact H.noJobs hpc hjobs
  | hasJobs hpc hjobs => exact H.hasJobs hpc hjobs
  | exits hpc hjob => exact H.exits hpc hjob
  | passes hpc hjob hhas => exact H.passes hpc hjob hhas
  | waits hpc hjob hhas hstep =>
    refine H.waits hpc hjob hhas ?_
    cases (Exporter.Step.of_step hstep).2
    rfl
  | @joins j m job x es hpc hjob hstep =>
    have halone := (H.alone ha hs (.inl hpc) hjob).2
    refine H.joins hpc hjob ?_ (halone.join hstep).2
    have howner := H.owns j m job hpc hjob
    simp only [Exporter.machine, howner] at hstep
    split at hstep
    · cases hstep
    · split at hstep <;> cases hstep <;> rfl
  | @tests j m job hpc hjob =>
    obtain ⟨hhas, halone⟩ := H.alone ha hs (.inr hpc) hjob
    exact H.tests hpc hjob hhas (halone.ok (by rw [H.joined j m job hpc hjob]; rfl))
  | works hwork =>
    have hstep := Exporter.WorkStep.of_work hwork
    refine H.works ?_ ?_
    · cases hstep <;> rfl
    · intro hnone
      cases hstep <;> simp_all

/-- What ends the process before `main` returns: a call throws while it scans, or one of the workers that
`kills` names dies. -/
inductive Cause (T : Tool σ) (entries : List Entry) (kills : Place → Prop) : Prop where
  | scan : e ∈ entries → e.isDirectory = none → Cause T entries kills
  | start (p : Place) : entries[p.1]? = some e → e.isDirectory = some true →
    e.throws (T p).blobName (T p).indexName = true → Cause T entries kills
  | worker : finds T entries p = true → kills p → Cause T entries kills

theorem Cause.imp {kills kills' : Place → Prop} (h : ∀ p, kills p → kills' p)
    (H : Cause T entries kills) : Cause T entries kills' := by
  cases H with
  | scan he hdir => exact .scan he hdir
  | start p he hdir hthrows => exact .start p he hdir hthrows
  | worker hfinds hkills => exact .worker hfinds (h _ hkills)

variable (T entries) in
/-- The workers that die of their files. -/
def Dying (p : Place) : Prop := (T p).Dies (filesAt entries p)

theorem Throws.cause (h : Throws T entries s s') (ha : Alone T entries s) (hs : Scan T entries s) :
    Cause T entries (Dying T entries) := by
  cases h with
  | scanning hpc he hdir => exact .scan (List.mem_of_getElem? he) hdir
  | @starting i m c e hpc he hthrows =>
    obtain ⟨e', he', hdir⟩ := hs.starting i m c hpc
    cases he.symm.trans he'
    exact .start (i, m) he hdir hthrows
  | working hwork hdied =>
    obtain ⟨hreached, hfinds⟩ := ha.found hwork
    exact .worker hfinds ((ha.alone _ hreached hfinds).dies (.of_work hwork) hdied).1

/-- All three hold along every run of a tool that has a directory to scan. -/
structure Inv (T : Tool σ) (entries : List Entry) (s : State σ) : Prop where
  alone : Alone T entries s
  scan : Scan T entries s
  waits : Waits T entries s

theorem Inv.next (H : Inv T entries s) (h : Step T entries s s') : Inv T entries s' :=
  ⟨H.alone.next H.scan H.waits h, H.scan.next H.alone h, H.waits.next H.alone H.scan h⟩

/-- A step that does not end the process does not seem to. -/
theorem Step.not_terminated (h : Step T entries s s') (hpc : s.pc ≠ .terminated) :
    s'.pc ≠ .terminated := by
  cases h with
  | @passes j m | @tests j m => cases m <;> nofun
  | works => exact hpc
  | _ => nofun

theorem Throws.terminated (h : Throws T entries s s') : s'.pc = .terminated := by cases h <;> rfl

/-- The process runs as it should, or something has ended it. -/
inductive Course (T : Tool σ) (entries : List Entry) (s : State σ) : Prop where
  | runs : s.pc ≠ .terminated → Inv T entries s → Course T entries s
  | ended : s.pc = .terminated → Cause T entries (Dying T entries) → Course T entries s

theorem Course.next (H : Course T entries s) (h : (machine T entries).step s l = some (s', es)) :
    Course T entries s' := by
  cases H with
  | runs hpc H =>
    rcases Step.of_step h with hstep | hthrows
    · exact .runs (hstep.not_terminated hpc) (H.next hstep)
    · exact .ended hthrows.terminated (hthrows.cause H.alone H.scan)
  | ended hpc => simp [machine, hpc] at h

theorem Inv.initial : Inv T entries (initial (σ := σ) 2 (some true)) := by
  refine ⟨⟨fun p hp => absurd hp (Nat.not_lt_zero _), fun _ _ => rfl⟩, ⟨rfl, nofun, nofun, nofun, ?_⟩,
    .of_scans trivial (fun _ => rfl) rfl⟩
  intro i hi
  cases hi
  exact Nat.zero_le _

/-- Without a directory to scan there is nothing to run. -/
theorem initial_cases (argc : Nat) (isDirectory : Option Bool) :
    (2 ≤ argc ∧ isDirectory = some true ∧ initial (σ := σ) argc isDirectory = initial 2 (some true)) ∨
    ((argc < 2 ∨ isDirectory = some false) ∧ (initial (σ := σ) argc isDirectory).pc = .exited 1) ∨
    (2 ≤ argc ∧ isDirectory = none ∧ (initial (σ := σ) argc isDirectory).pc = .terminated) := by
  by_cases hargc : argc < 2
  · exact .inr (.inl ⟨.inl hargc, by simp [ExportSession.initial, hargc]⟩)
  · have hle : 2 ≤ argc := Nat.not_lt.mp hargc
    match isDirectory with
    | none => exact .inr (.inr ⟨hle, rfl, by simp [ExportSession.initial, hargc]⟩)
    | some false => exact .inr (.inl ⟨.inr rfl, by simp [ExportSession.initial, hargc]⟩)
    | some true => exact .inl ⟨hle, rfl, by simp [ExportSession.initial, hargc]⟩

/-- The exit code says whether everything that was found is exported. -/
theorem Inv.exit_iff (H : Inv T entries s) (hpc : s.pc = .exited code) :
    (code = 0 ∨ code = 1) ∧ (code = 0 ↔ (∃ p, finds T entries p = true) ∧
      ∀ p, finds T entries p = true → (T p).Ends (filesAt entries p) true) := by
  have hcode := H.waits.exited code hpc
  have hjobs := H.scan.jobs
  have hok := H.waits.allOk
  rw [hpc] at hjobs hok
  have hone : code = 0 ∨ code = 1 := by
    rw [hcode]
    split
    · exact .inr rfl
    · exact .inl rfl
  have hzero : code = 0 ↔ s.jobs ≠ [] ∧ s.allOk = true := by
    rw [hcode]
    cases hok : s.allOk <;> cases hjobs : s.jobs <;> simp
  refine ⟨hone, hzero.trans (and_congr ?_ (hok.trans ?_))⟩
  · constructor
    · intro hne
      obtain ⟨job, jobs, hcons⟩ := List.exists_cons_of_ne_nil hne
      have hmem : job ∈ jobsTo T entries entries.length := by
        rw [← show s.jobs = jobsTo T entries entries.length from hjobs, hcons]
        exact List.mem_cons_self
      obtain ⟨i, -, hi⟩ := List.mem_filterMap.mp hmem
      unfold job? at hi
      split at hi
      · rename_i hany
        rcases Bool.or_eq_true_iff.mp hany with h | h
        · exact ⟨_, h⟩
        · exact ⟨_, h⟩
      · cases hi
    · rintro ⟨p, hp⟩ hnil
      obtain ⟨job, hjob, -⟩ := exists_job hp
      rw [← show s.jobs = jobsTo T entries entries.length from hjobs, hnil] at hjob
      cases hjob
  · constructor
    · intro hall p hp
      obtain ⟨job, hjob, hentry, hhas⟩ := exists_job hp
      rw [← show s.jobs = jobsTo T entries entries.length from hjobs] at hjob
      obtain ⟨j, hj⟩ := List.mem_iff_getElem?.mp hjob
      obtain ⟨i, m⟩ := p
      cases hentry
      exact hall j m job hj hhas trivial
    · intro hall j m job hjob hhas _
      exact hall (job.entry, m) ((H.scan.has_eq hjob m).symm.trans hhas)

end ExportSession
end Kist
