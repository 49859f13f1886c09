import KistCollector.Tools.ExportSession
import Mathlib.Algebra.BigOperators.Intervals

/-!
# Runs of a session export

Every step of `main` and of the workers leaves fewer steps to take (`ExportSession.rank`), so every run
ends, and it ends at the exit of `main` unless something has a `Cause` to end the process before.
-/

namespace Kist
namespace ExportSession

variable {σ : Modality → Type} {T : Tool σ} {entries : List Entry} {s s' : State σ}

/-! ## Every run ends -/

/-- A state in which nothing can move is past `main`. -/
theorem Inv.exited_of_stuck (H : Inv T entries s) (hlives : s.pc ≠ .terminated)
    (h : (machine T entries).Stuck s) : ∃ code, s.pc = .exited code := by
  simp only [Machine.Stuck, machine, if_neg hlives] at h
  have hmain : mainStep T entries s = none := Option.map_eq_none_iff.mp (h .main)
  have hwork : ∀ p, (T p).work (s.exporters p) = none := fun p =>
    Option.map_eq_none_iff.mp (Option.map_eq_none_iff.mp (h (.work p)))
  unfold mainStep at hmain
  split at hmain
  · split at hmain
    · cases hmain
    · split at hmain <;> cases hmain
  · rename_i i m color hpc
    obtain ⟨e, he, -⟩ := H.scan.starting i m color hpc
    have hfresh : s.exporters (i, m) = {} := by
      refine H.alone.fresh _ fun hreached => ?_
      rw [hpc] at hreached
      rcases hreached with hlt | ⟨heq, hm⟩
      · exact absurd hlt (Nat.lt_irrefl _)
      · cases heq
        cases hm
    rw [he, hfresh, Option.bind_eq_bind, Option.bind_some, Exporter.step_start] at hmain
    split at hmain
    · cases hmain
    · split at hmain <;> cases hmain
  · rename_i i color depth hpc
    obtain ⟨⟨e, he⟩, -⟩ := H.scan.keeping i color depth hpc
    rw [he] at hmain
    cases hmain
  · cases hmain
  · rename_i j m hpc
    split at hmain
    · cases hmain
    · rename_i job hjob
      split at hmain
      · rename_i hhas
        have halone := H.alone.alone (job.entry, m) (by rw [hpc]; trivial)
          ((H.scan.has_eq hjob m).symm.trans hhas)
        have hidle : (s.exporters (job.entry, m)).owner = .idle :=
          H.waits.idle _ fun _ _ _ hjoining => by cases hpc.symm.trans hjoining
        simp [Exporter.machine, halone.terminated, halone.died, hidle] at hmain
      · cases hmain
  · rename_i j m hpc
    obtain ⟨job, hjob, hhas⟩ := H.waits.job j m (.inl hpc)
    have halone := H.alone.alone (job.entry, m) (by rw [hpc]; trivial)
      ((H.scan.has_eq hjob m).symm.trans hhas)
    have howner := H.waits.owns j m job hpc hjob
    rw [hjob] at hmain
    rcases Exporter.stored_of_work_eq_none (hwork (job.entry, m)) with hthread | hthread <;>
      simp [Exporter.machine, halone.terminated, halone.died, howner, hthread] at hmain
  · rename_i j m hpc
    obtain ⟨job, hjob, -⟩ := H.waits.job j m (.inr hpc)
    rw [hjob] at hmain
    cases hmain
  · exact ⟨_, ‹_›⟩
  · exact absurd ‹_› hlives

section

variable (T entries) (r : (m : Modality) → σ m → Nat)

/-- The steps left to the worker at a place. -/
def workLeft (s : State σ) (p : Place) : Nat := (T p).workRank (r p.2) (s.exporters p).thread

/-- The steps of a worker from its start on. -/
def startCost (p : Place) : Nat := (T p).workRank (r p.2) (some (.begun (filesAt entries p)))

/-- The steps for an entry: four to scan it, six to wait for its job, and those of its two workers. -/
def entryCost (i : Nat) : Nat :=
  startCost T entries r (i, .color) + startCost T entries r (i, .depth) + 10

def remaining (i : Nat) : Nat := ∑ k ∈ Finset.Ico i entries.length, entryCost T entries r k

/-- The steps left to `main`, with those of the workers it has still to start. -/
def mainLeft (s : State σ) : Nat :=
  match s.pc with
  | .scanning i => remaining T entries r i + 6 * s.jobs.length + 3
  | .starting i .color _ => remaining T entries r (i + 1) + startCost T entries r (i, .color) +
      startCost T entries r (i, .depth) + 6 * s.jobs.length + 12
  | .starting i .depth _ =>
    remaining T entries r (i + 1) + startCost T entries r (i, .depth) + 6 * s.jobs.length + 11
  | .keeping i _ _ => remaining T entries r (i + 1) + 6 * s.jobs.length + 10
  | .counting => 6 * s.jobs.length + 2
  | .waiting j .color => 6 * (s.jobs.length - j) + 1
  | .joining j .color => 6 * (s.jobs.length - j - 1) + 6
  | .testing j .color => 6 * (s.jobs.length - j - 1) + 5
  | .waiting j .depth => 6 * (s.jobs.length - j - 1) + 4
  | .joining j .depth => 6 * (s.jobs.length - j - 1) + 3
  | .testing j .depth => 6 * (s.jobs.length - j - 1) + 2
  | .exited _ | .terminated => 0

def places : Finset Place := Finset.range entries.length ×ˢ {.color, .depth}

theorem le_one_of_ite (s : State σ) : (if s.pc = .terminated then 0 else 1) ≤ 1 := by split <;> omega

/-- The steps left to all, and that the process can end. -/
def rank (s : State σ) : Nat :=
  mainLeft T entries r s + ∑ p ∈ places entries, workLeft T r s p + if s.pc = .terminated then 0 else 1

end

variable {r : (m : Modality) → σ m → Nat}

theorem mem_places {p : Place} (h : entries[p.1]? = some e) : p ∈ places entries := by
  refine Finset.mem_product.mpr ⟨?_, ?_⟩
  · exact Finset.mem_range.mpr (List.getElem?_eq_some_iff.mp h).1
  · cases p.2 <;> simp

theorem Scan.mem_places {j : Nat} (H : Scan T entries s) (hjob : s.jobs[j]? = some job)
    (m : Modality) : (job.entry, m) ∈ places entries := by
  have hmem := List.mem_of_getElem? hjob
  rw [H.jobs] at hmem
  obtain ⟨i, -, hi⟩ := List.mem_filterMap.mp hmem
  have hentry := (has_of_job? hi m).1
  unfold job? at hi
  split at hi
  · obtain ⟨e, he, -⟩ := Option.map_eq_some_iff.mp hi
    exact ExportSession.mem_places (hentry ▸ he)
  · cases hi

/-- One exporter moves. -/
theorem sum_put {p : Place} {x : ExporterState StreamFiles (σ p.2)} (h : p ∈ places entries)
    (hs' : s'.exporters = (s.put p x).exporters) :
    ∑ q ∈ places entries, workLeft T r s' q + workLeft T r s p =
      ∑ q ∈ places entries, workLeft T r s q + (T p).workRank (r p.2) x.thread := by
  have hp : workLeft T r s' p = (T p).workRank (r p.2) x.thread := by
    rw [workLeft, hs', State.put_self]
  have hrest : ∑ q ∈ (places entries).erase p, workLeft T r s' q =
      ∑ q ∈ (places entries).erase p, workLeft T r s q := by
    refine Finset.sum_congr rfl fun q hq => ?_
    rw [workLeft, hs', State.put_of_ne (Finset.ne_of_mem_erase hq)]
    rfl
  rw [← Finset.add_sum_erase _ _ h, ← Finset.add_sum_erase _ (workLeft T r s) h, hp, hrest]
  omega

theorem remaining_succ (h : entries[i]? = some e) : remaining T entries r i =
    entryCost T entries r i + remaining T entries r (i + 1) :=
  Finset.sum_eq_sum_Ico_succ_bot (List.getElem?_eq_some_iff.mp h).1 _

theorem startCost_le {p : Place} {x : ExporterState StreamFiles (σ p.2)}
    (he : entries[p.1]? = some e)
    (h : (T p).machine.step {} (.start e.has (e.files p.2)) = some (x, es)) :
    (T p).workRank (r p.2) x.thread ≤ startCost T entries r p := by
  have hfiles : filesAt entries p = e.files p.2 := by rw [filesAt, he]; rfl
  rw [Exporter.step_start] at h
  split at h <;> cases h
  · rw [startCost, hfiles]
  · exact Nat.zero_le _

/-- A worker that starts takes over the steps it was counted with. -/
theorem rank_lt_start {m : Modality} {x : ExporterState StreamFiles (σ m)} (H : Inv T entries s)
    (hlives : s.pc ≠ .terminated) (hpc : s.pc = .starting i m c) (he : entries[i]? = some e)
    (hs' : s'.exporters = (s.put (i, m) x).exporters)
    (h : (T (i, m)).machine.step (s.exporters (i, m)) (.start e.has (e.files m)) =
      some (x, es))
    (hlt : mainLeft T entries r s' + startCost T entries r (i, m) < mainLeft T entries r s) :
    rank T entries r s' < rank T entries r s := by
  have hfresh : s.exporters (i, m) = {} := by
    refine H.alone.fresh _ fun hreached => ?_
    rw [hpc] at hreached
    rcases hreached with hlt | ⟨heq, hm⟩
    · exact absurd hlt (Nat.lt_irrefl _)
    · cases heq
      cases hm
  rw [hfresh] at h
  have hput := sum_put (r := r) (T := T) (mem_places (p := (i, m)) he) hs'
  have hcost := startCost_le (r := r) (p := (i, m)) he h
  have hle := le_one_of_ite s'
  rw [rank, rank, if_neg hlives]
  omega

theorem rank_lt_of_eq (hlives : s.pc ≠ .terminated) (hx : s'.exporters = s.exporters)
    (h : mainLeft T entries r s' < mainLeft T entries r s) : rank T entries r s' < rank T entries r s := by
  have hsum : ∑ q ∈ places entries, workLeft T r s' q = ∑ q ∈ places entries, workLeft T r s q :=
    Finset.sum_congr rfl fun q _ => by rw [workLeft, hx]; rfl
  have hle := le_one_of_ite s'
  rw [rank, rank, hsum, if_neg hlives]
  omega

/-- Where an exporter moves and does not get more to do, `main` does. -/
theorem rank_lt_put {p : Place} {x : ExporterState StreamFiles (σ p.2)} (hlives : s.pc ≠ .terminated)
    (hp : p ∈ places entries) (hs' : s'.exporters = (s.put p x).exporters)
    (hx : (T p).workRank (r p.2) x.thread ≤ workLeft T r s p)
    (h : mainLeft T entries r s' < mainLeft T entries r s) :
    rank T entries r s' < rank T entries r s := by
  have hput := sum_put (r := r) (T := T) hp hs'
  have hle := le_one_of_ite s'
  rw [rank, rank, if_neg hlives]
  omega

/-- A worker that moves has a place. -/
theorem Inv.mem_places {p : Place} {x : ExporterState StreamFiles (σ p.2)} (H : Inv T entries s)
    (h : (T p).work (s.exporters p) = some (x, es)) : p ∈ places entries := by
  cases he : entries[p.1]? with
  | some e => exact ExportSession.mem_places he
  | none =>
    have hfound := (H.alone.found h).2
    exact absurd (hfound.symm.trans (finds_eq_false he)) nofun

/-- A step that does not end the process leaves fewer steps. -/
theorem Step.rank_lt (hr : ∀ p, (T p).loop.Ranked (r p.2)) (H : Inv T entries s)
    (hlives : s.pc ≠ .terminated) (h : Step T entries s s') :
    rank T entries r s' < rank T entries r s := by
  cases h with
  | scanned hpc =>
    refine rank_lt_of_eq hlives rfl ?_
    simp only [mainLeft, hpc]
    omega
  | skips hpc he | enters hpc he =>
    refine rank_lt_of_eq hlives rfl ?_
    simp only [mainLeft, hpc]
    rw [remaining_succ he, entryCost]
    omega
  | keeps hpc he =>
    refine rank_lt_of_eq hlives rfl ?_
    simp only [mainLeft, hpc]
    split
    · rw [List.length_append, List.length_singleton]
      omega
    · omega
  | noJobs hpc =>
    refine rank_lt_of_eq hlives rfl ?_
    simp only [mainLeft, hpc]
    omega
  | hasJobs hpc =>
    refine rank_lt_of_eq hlives rfl ?_
    simp only [mainLeft, hpc]
    omega
  | @exits j m hpc =>
    refine rank_lt_of_eq hlives rfl ?_
    cases m <;> simp only [mainLeft, hpc] <;> omega
  | @passes j m job hpc hjob =>
    have hlt := (List.getElem?_eq_some_iff.mp hjob).1
    refine rank_lt_of_eq hlives rfl ?_
    cases m <;> simp only [mainLeft, Pc.next, hpc] <;> omega
  | @tests j m job hpc hjob =>
    have hlt := (List.getElem?_eq_some_iff.mp hjob).1
    refine rank_lt_of_eq hlives rfl ?_
    cases m <;> simp only [mainLeft, Pc.next, hpc] <;> omega
  | startsColor hpc he hstep | startsDepth hpc he hstep =>
    refine rank_lt_start H hlives hpc he rfl hstep ?_
    simp only [mainLeft, State.put, hpc]
    omega
  | @waits j m job x es hpc hjob hhas hstep =>
    have hlt := (List.getElem?_eq_some_iff.mp hjob).1
    have hx : x.thread = (s.exporters (job.entry, m)).thread := by
      cases (Exporter.Step.of_step hstep).2
      rfl
    refine rank_lt_put hlives (H.scan.mem_places hjob m) rfl (by rw [hx]; rfl) ?_
    cases m <;> simp only [mainLeft, State.put, hpc] <;> omega
  | @joins j m job x es hpc hjob hstep =>
    have hlt := (List.getElem?_eq_some_iff.mp hjob).1
    obtain ⟨job', hjob', hhas⟩ := H.waits.job j m (.inl hpc)
    cases hjob.symm.trans hjob'
    have halone := H.alone.alone (job.entry, m) (by rw [hpc]; trivial)
      ((H.scan.has_eq hjob m).symm.trans hhas)
    refine rank_lt_put hlives (H.scan.mem_places hjob m) rfl ?_ ?_
    · rw [(halone.join hstep).2]
      exact Nat.zero_le _
    · cases m <;> simp only [mainLeft, State.put, hpc] <;> omega
  | @works p x es hwork hdied =>
    have hlt := (Exporter.WorkStep.of_work hwork).workRank_lt (hr p) hdied
    have hput := sum_put (r := r) (T := T) (s := s) (x := x) (H.mem_places hwork) rfl
    have hmain : mainLeft T entries r (s.put p x) = mainLeft T entries r s := rfl
    have hle := le_one_of_ite (s.put p x)
    rw [rank, rank, hmain, if_neg hlives]
    simp only [workLeft] at hput ⊢
    omega

/-- So does one that ends it. -/
theorem Throws.rank_lt (H : Inv T entries s) (hlives : s.pc ≠ .terminated) (h : Throws T entries s s') :
    rank T entries r s' < rank T entries r s := by
  have hmain : mainLeft T entries r s' = 0 := by rw [mainLeft, h.terminated]
  have hsum : ∑ q ∈ places entries, workLeft T r s' q ≤ ∑ q ∈ places entries, workLeft T r s q := by
    cases h with
    | scanning | starting => exact Nat.le_refl _
    | @working p x es hwork hdied =>
      have hput : ∑ q ∈ places entries, workLeft T r { s.put p x with pc := .terminated } q +
          workLeft T r s p = ∑ q ∈ places entries, workLeft T r s q + (T p).workRank (r p.2) x.thread :=
        sum_put (H.mem_places hwork) rfl
      obtain ⟨hreached, hfinds⟩ := H.alone.found hwork
      rw [((H.alone.alone p hreached hfinds).dies (.of_work hwork) hdied).2] at hput
      simp only [workLeft] at hput ⊢
      omega
  rw [rank, rank, hmain, if_pos h.terminated, if_neg hlives]
  omega

/-- Every step leaves fewer steps. -/
theorem lowers (hr : ∀ p, (T p).loop.Ranked (r p.2)) :
    (machine T entries).Lowers (Course T entries) (rank T entries r) fun _ => 0 := by
  intro s l s' e H h
  refine ⟨H.next h, ?_⟩
  rw [Nat.add_zero]
  cases H with
  | runs hlives H =>
    rcases Step.of_step h with hstep | hthrows
    · exact hstep.rank_lt hr H hlives
    · exact hthrows.rank_lt H hlives
  | ended hpc => simp [machine, hpc] at h

/-- The steps a run of the tool over `entries` takes at most. -/
def bound (T : Tool σ) (entries : List Entry) (r : (m : Modality) → σ m → Nat) : Nat :=
  rank T entries r (initial 2 (some true))

/-- Without a directory to scan nothing is run. -/
theorem stuck_usage (h : (initial (σ := σ) argc isDirectory).pc = .exited 1 ∨
    (initial (σ := σ) argc isDirectory).pc = .terminated) :
    (machine T entries).Stuck (initial (σ := σ) argc isDirectory) := by
  intro l
  rcases h with h | h
  · cases l with
    | main => simp [machine, h, mainStep]
    | work p =>
      simp only [machine, h, workStep]
      rfl
  · simp [machine, h]

theorem eq_of_stuck {M : Machine τ ℓ ε} (hs : M.Stuck t) (h : M.run t ls = some (t', es)) :
    ls = [] ∧ t' = t := by
  cases ls with
  | nil =>
    cases h
    exact ⟨rfl, rfl⟩
  | cons l ls =>
    obtain ⟨t₁, e₁, e₂, hstep, -⟩ := Machine.run_cons.mp h
    exact absurd ((hs l).symm.trans hstep) nofun

theorem Course.initial : Course T entries (initial (σ := σ) 2 (some true)) :=
  .runs (by simp [ExportSession.initial]) Inv.initial

theorem Course.of_run (h : (machine T entries).run (ExportSession.initial 2 (some true)) ls = some (s, es)) :
    Course T entries s :=
  Machine.invariant (P := fun _ s => Course T entries s) Course.initial (fun H hs => H.next hs) h

/-- The process is over: `main` has returned, or something has ended it. -/
inductive Over (T : Tool σ) (argc : Nat) (isDirectory : Option Bool) (entries : List Entry)
    (kills : Place → Prop) (s : State σ) : Prop where
  | exited : s.pc = .exited code → Over T argc isDirectory entries kills s
  | unnamed : s.pc = .terminated → 2 ≤ argc → isDirectory = none →
    Over T argc isDirectory entries kills s
  | broken : s.pc = .terminated → 2 ≤ argc → isDirectory = some true → Cause T entries kills →
    Over T argc isDirectory entries kills s

theorem Over.imp {kills kills' : Place → Prop} (h : ∀ p, kills p → kills' p)
    (H : Over T argc isDirectory entries kills s) : Over T argc isDirectory entries kills' s := by
  cases H with
  | exited hpc => exact .exited hpc
  | unnamed hpc hargc hdir => exact .unnamed hpc hargc hdir
  | broken hpc hargc hdir hcause => exact .broken hpc hargc hdir (hcause.imp h)

theorem Course.over_of_stuck (H : Course T entries s) (h : (machine T entries).Stuck s)
    (hargc : 2 ≤ argc) : Over T argc (some true) entries (Dying T entries) s := by
  cases H with
  | runs hlives H =>
    obtain ⟨code, hcode⟩ := H.exited_of_stuck hlives h
    exact .exited hcode
  | ended hpc hcause => exact .broken hpc hargc rfl hcause

/-- Every run of the tool ends, and it can only end where the process is over. -/
theorem runs_end (hr : ∀ p, (T p).loop.Ranked (r p.2))
    (h : (machine T entries).run (initial argc isDirectory) ls = some (s, es)) :
    ls.length ≤ bound T entries r ∧
    (∃ next s' es', (machine T entries).run s next = some (s', es') ∧
      (machine T entries).Stuck s') ∧
    ((machine T entries).Stuck s → Over T argc isDirectory entries (Dying T entries) s) := by
  rcases initial_cases (σ := σ) argc isDirectory with
    ⟨hargc, rfl, heq⟩ | ⟨-, hpc⟩ | ⟨hargc, rfl, hpc⟩
  · rw [heq] at h
    have H := Course.of_run h
    obtain ⟨-, hlen⟩ := Machine.length_le_of_lowers (lowers hr) Course.initial h
    obtain ⟨next, s', es', hrun, hstuck, -⟩ := Machine.exists_stuck (lowers hr) H
    refine ⟨?_, ⟨next, s', es', hrun, hstuck⟩, fun hs => H.over_of_stuck hs hargc⟩
    rw [List.sum_eq_zero (by simp)] at hlen
    exact Nat.le_trans (Nat.le_add_right _ _) hlen
  · have hstuck : (machine T entries).Stuck _ := stuck_usage (.inl hpc)
    obtain ⟨rfl, rfl⟩ := eq_of_stuck hstuck h
    exact ⟨Nat.zero_le _, ⟨[], _, [], rfl, hstuck⟩, fun _ => .exited hpc⟩
  · have hstuck : (machine T entries).Stuck _ := stuck_usage (.inr hpc)
    obtain ⟨rfl, rfl⟩ := eq_of_stuck hstuck h
    exact ⟨Nat.zero_le _, ⟨[], _, [], rfl, hstuck⟩, fun _ => .unnamed hpc hargc rfl⟩

/-- The same, with what the process comes to. -/
theorem over_of_runs_end (hr : ∀ p, (T p).loop.Ranked (r p.2)) {kills : Place → Prop}
    (hkills : ∀ p, Dying T entries p → kills p)
    (h : (machine T entries).run (initial argc isDirectory) ls = some (s, es)) :
    ls.length ≤ bound T entries r ∧
    (∃ next s' es', (machine T entries).run s next = some (s', es') ∧
      Over T argc isDirectory entries kills s') ∧
    ((machine T entries).Stuck s → Over T argc isDirectory entries kills s) := by
  obtain ⟨hlen, ⟨next, s', es', hrun, hstuck⟩, hover⟩ := runs_end hr h
  refine ⟨hlen, ?_, fun hs => (hover hs).imp hkills⟩
  have hall := Machine.run_append.mpr ⟨s, es, es', h, hrun, rfl⟩
  exact ⟨next, s', es', hrun, ((runs_end hr hall).2.2 hstuck).imp hkills⟩

/-- The exit code of a run says whether there was something to export and all of it is complete. -/
theorem exit_iff (h : (machine T entries).run (initial argc isDirectory) ls = some (s, es))
    (hpc : s.pc = .exited code) : (code = 0 ∨ code = 1) ∧
    (code = 0 ↔ 2 ≤ argc ∧ isDirectory = some true ∧ (∃ p, finds T entries p = true) ∧
      ∀ p, finds T entries p = true → (T p).Ends (filesAt entries p) true) := by
  rcases initial_cases (σ := σ) argc isDirectory with
    ⟨hargc, rfl, heq⟩ | ⟨hwhy, hinit⟩ | ⟨hargc, rfl, hinit⟩
  · rw [heq] at h
    cases Course.of_run h with
    | runs _ H =>
      have hexit := H.exit_iff hpc
      exact ⟨hexit.1, hexit.2.trans ⟨fun hall => ⟨hargc, rfl, hall⟩, fun hall => hall.2.2⟩⟩
    | ended hterm => cases hpc.symm.trans hterm
  · obtain ⟨-, rfl⟩ := eq_of_stuck (stuck_usage (.inl hinit)) h
    cases hinit.symm.trans hpc
    refine ⟨.inr rfl, iff_of_false nofun ?_⟩
    rintro ⟨hargc, rfl, -⟩
    rcases hwhy with hwhy | hwhy
    · omega
    · cases hwhy
  · obtain ⟨-, rfl⟩ := eq_of_stuck (stuck_usage (.inr hinit)) h
    cases hinit.symm.trans hpc

/-- Where `main` does not return, something has ended the process. -/
theorem over_of_terminated {kills : Place → Prop} (hkills : ∀ p, Dying T entries p → kills p)
    (h : (machine T entries).run (initial argc isDirectory) ls = some (s, es))
    (hpc : s.pc = .terminated) : 2 ≤ argc ∧ (isDirectory = none ∨
      isDirectory = some true ∧ Cause T entries kills) := by
  rcases initial_cases (σ := σ) argc isDirectory with
    ⟨hargc, rfl, heq⟩ | ⟨-, hinit⟩ | ⟨hargc, rfl, hinit⟩
  · rw [heq] at h
    cases Course.of_run h with
    | runs hlives _ => exact absurd hpc hlives
    | ended _ hcause => exact ⟨hargc, .inr ⟨rfl, hcause.imp hkills⟩⟩
  · obtain ⟨-, rfl⟩ := eq_of_stuck (stuck_usage (.inl hinit)) h
    cases hinit.symm.trans hpc
  · exact ⟨hargc, .inl rfl⟩

/-- What is said of all places is said of the color and of the depth streams. -/
theorem forall_place {P : Place → Prop} :
    (∀ p, P p) ↔ (∀ i, P (i, .color)) ∧ ∀ i, P (i, .depth) := by
  constructor
  · exact fun h => ⟨fun i => h (i, .color), fun i => h (i, .depth)⟩
  · rintro ⟨hcolor, hdepth⟩ ⟨i, m⟩
    cases m with
    | color => exact hcolor i
    | depth => exact hdepth i

/-! ## The two tools -/

variable {F ι κ : Type} [Floats F]

/-- The locals of the loops of `export_session_mp4`. -/
abbrev Mp4Locals (F : Type) (V : VideoWriter κ) : Modality → Type
  | .color => ExportColorToMp4.Remuxing
  | .depth => Loop.Over Opened (ExportDepthToMp4.Row F) (ExportDepthToMp4.Written V)

/-- What the system answers to the exporters of each directory. -/
structure Mp4Env where
  color : Nat → ExportColorToMp4.Env
  depth : Nat → ExportDepthToMp4.Env

def exportSessionMp4 (R : Rescale) (V : VideoWriter κ) (decode : RvlInput F → Picture ι)
    (colorize : ι → F → κ) (env : Mp4Env) : Tool (Mp4Locals F V)
  | (i, .color) => ExportColorToMp4.exporter R (env.color i)
  | (i, .depth) => ExportDepthToMp4.exporter V decode colorize (env.depth i)

variable (F) in
/-- The workers of `export_session_mp4` that may die. -/
def mp4Kills (env : Mp4Env) (entries : List Entry) : Place → Prop
  | (_, .color) => False
  | (i, .depth) => ExportDepthToMp4.CanDie F (env.depth i) (filesAt entries (i, .depth))

theorem mp4Kills_of_dying {R : Rescale} {V : VideoWriter κ} {decode : RvlInput F → Picture ι}
    {colorize : ι → F → κ} {env : Mp4Env} (p : Place)
    (h : Dying (exportSessionMp4 R V decode colorize env) entries p) : mp4Kills F env entries p := by
  obtain ⟨i, m⟩ := p
  cases m with
  | color =>
    obtain ⟨x₀, n, x, -, -, -, hdied⟩ := h
    cases hdied
  | depth => exact ExportDepthToMp4.canDie_of_dies h

/-- The locals of the loops of `export_session_images`. -/
abbrev ImagesLocals (D : ExportColorToImages.H264Decoder ι) (F κ : Type) : Modality → Type
  | .color => Loop.Over Opened ExportColorToImages.Row (ExportColorToImages.Exported D)
  | .depth => Loop.Over Opened (ExportDepthToImages.Row F) (ExportDepthToImages.Exported κ)

/-- What the system answers to an image exporter, and what its folder holds before. -/
structure FolderEnv (ι : Type) where
  env : ImagesEnv
  codecOpens : Bool := true
  readOk : Nat → Bool
  folder : Folder (List Char) ι

def exportSessionImages (D : ExportColorToImages.H264Decoder ι) (decode : RvlInput F → κ)
    (color : Nat → FolderEnv ι) (depth : Nat → FolderEnv κ) : Tool (ImagesLocals D F κ)
  | (i, .color) => ExportColorToImages.exporter D (color i).env (color i).codecOpens
      (color i).readOk (color i).folder
  | (i, .depth) =>
    ExportDepthToImages.exporter decode (depth i).env (depth i).readOk (depth i).folder

variable (F) in
/-- The workers of `export_session_images` that may die. -/
def imagesKills (depth : Nat → FolderEnv κ) (entries : List Entry) : Place → Prop
  | (i, .color) => ExportColorToImages.CanDie (filesAt entries (i, .color))
  | (i, .depth) => ExportDepthToImages.CanDie F (depth i).env (filesAt entries (i, .depth))

theorem imagesKills_of_dying {D : ExportColorToImages.H264Decoder ι} {decode : RvlInput F → κ}
    {color : Nat → FolderEnv ι} {depth : Nat → FolderEnv κ} (p : Place)
    (h : Dying (exportSessionImages D decode color depth) entries p) :
    imagesKills F depth entries p := by
  obtain ⟨i, m⟩ := p
  cases m with
  | color => exact ExportColorToImages.canDie_of_dies h
  | depth => exact ExportDepthToImages.canDie_of_dies h

end ExportSession

open ExportSession

/-- **The exit code of a session export.** For both tools, whatever the session's directory holds, whatever
the reads, the demuxer, the decoder and the writes answer, and whatever the order in which `main` and the
workers of all cameras take their steps: where `main` returns, it returns 0 exactly if it was given a
directory, a stream was found in it, and each stream that was found is exported completely, as a run of its
exporter alone says. Where the process ends before, `is_directory` has thrown, or the session has a `Cause`:
the scan or an `exists` throws, or a stream was found on whose files a worker dies. -/
theorem export_session_exit_iff {F ι κ : Type} [Floats F] :
    (∀ (R : Rescale) (V : VideoWriter κ) (decode : RvlInput F → Picture ι) (colorize : ι → F → κ)
      (env : Mp4Env) argc isDirectory entries ls s es,
      (machine (exportSessionMp4 R V decode colorize env) entries).run (initial argc isDirectory) ls =
        some (s, es) →
      let finds := finds (exportSessionMp4 R V decode colorize env) entries
      (∀ code, s.pc = .exited code → (code = 0 ∨ code = 1) ∧
        (code = 0 ↔ 2 ≤ argc ∧ isDirectory = some true ∧ (∃ p, finds p = true) ∧
          (∀ i, finds (i, .color) = true → (ExportColorToMp4.run R (env.color i).uncancelled
            (filesAt entries (i, .color)).index (filesAt entries (i, .color)).blob).2 = true) ∧
          (∀ i, finds (i, .depth) = true → (ExportDepthToMp4.run V decode colorize
            (env.depth i).uncancelled (filesAt entries (i, .depth)).index
            (filesAt entries (i, .depth)).blob).2 = true))) ∧
      (s.pc = .terminated → 2 ≤ argc ∧ (isDirectory = none ∨ isDirectory = some true ∧
        Cause (exportSessionMp4 R V decode colorize env) entries (mp4Kills F env entries)))) ∧
    (∀ (D : ExportColorToImages.H264Decoder ι) (decode : RvlInput F → κ) color depth
      argc isDirectory entries ls s es,
      (machine (exportSessionImages D decode color depth) entries).run (initial argc isDirectory) ls =
        some (s, es) →
      let finds := finds (exportSessionImages D decode color depth) entries
      (∀ code, s.pc = .exited code → (code = 0 ∨ code = 1) ∧
        (code = 0 ↔ 2 ≤ argc ∧ isDirectory = some true ∧ (∃ p, finds p = true) ∧
          (∀ i, finds (i, .color) = true → ExportColorToImages.Complete D (color i).env
            (color i).codecOpens (color i).readOk (color i).folder (filesAt entries (i, .color))) ∧
          (∀ i, finds (i, .depth) = true → ExportDepthToImages.Complete decode (depth i).env
            (depth i).readOk (depth i).folder (filesAt entries (i, .depth))))) ∧
      (s.pc = .terminated → 2 ≤ argc ∧ (isDirectory = none ∨ isDirectory = some true ∧
        Cause (exportSessionImages D decode color depth) entries (imagesKills F depth entries)))) := by
  constructor
  · intro R V decode colorize env argc isDirectory entries ls s es h
    refine ⟨fun code hpc => ?_, over_of_terminated mp4Kills_of_dying h⟩
    obtain ⟨hone, hzero⟩ := exit_iff h hpc
    refine ⟨hone, hzero.trans ?_⟩
    refine and_congr_right fun _ => and_congr_right fun _ => and_congr_right fun _ => ?_
    refine forall_place.trans (and_congr ?_ ?_)
    · exact forall_congr' fun i => imp_congr_right fun _ => ExportColorToMp4.ends_iff ..
    · exact forall_congr' fun i => imp_congr_right fun _ => ExportDepthToMp4.ends_iff ..
  · intro D decode color depth argc isDirectory entries ls s es h
    refine ⟨fun code hpc => ?_, over_of_terminated imagesKills_of_dying h⟩
    obtain ⟨hone, hzero⟩ := exit_iff h hpc
    refine ⟨hone, hzero.trans ?_⟩
    refine and_congr_right fun _ => and_congr_right fun _ => and_congr_right fun _ => ?_
    refine forall_place.trans (and_congr ?_ ?_)
    · exact forall_congr' fun i => imp_congr_right fun _ => ExportColorToImages.ends_iff ..
    · exact forall_congr' fun i => imp_congr_right fun _ => ExportDepthToImages.ends_iff ..

/-- A session of one camera that has a depth stream of one frame. -/
def oneCamera : List Entry :=
  [⟨"cam".toList, some true, fun n => some (n == "depth.rvl".toList || n == "depth.idx.csv".toList),
    fun _ => oneDepthFrame ⟨7, -1, 640, 480, .milli, .vga, .vga, .vga, .vga, [9]⟩⟩]

/-- A decoder that returns no frame. -/
def noFrames : ExportColorToImages.H264Decoder Unit where
  State := Unit
  init := ()
  send _ _ := (true, ())
  receive _ := ([], ())

/-- Both exporters can write everything. -/
def roomyFolder : FolderEnv ι := ⟨.smooth, true, fun _ => true, fun _ => none⟩

theorem export_session_exit_iff_one : ∃ s es,
    (machine (exportSessionImages (F := TwoFloats) noFrames (·.data) (fun _ => roomyFolder)
        fun _ => roomyFolder) oneCamera).run (initial 2 (some true))
      (List.replicate 8 .main ++ List.replicate 8 (.work (0, .depth)) ++ List.replicate 3 .main) =
        some (s, es) ∧
    ∃ p, finds (exportSessionImages (F := TwoFloats) noFrames (·.data) (fun _ => roomyFolder)
      fun _ => roomyFolder) oneCamera p = true := by
  refine Machine.exists_run (P := fun p => p.1.pc = .exited 0) (by decide +kernel) ?_
  intro s es h hpc
  have hexit := (@export_session_exit_iff TwoFloats Unit (List UInt8) _).2 _ _ _ _ _ _ _ _ s es h
  exact ((hexit.1 0 hpc).2.mp rfl).2.2.1

/-- **A session export always comes to an end.** For both tools and any directory there is a bound on the
number of steps of `main` and of all workers together; every run can go on until `main` has exited, unless
the process has a cause to end before, and nothing is ever stuck. -/
theorem export_session_exits {F ι κ : Type} [Floats F] :
    (∀ (R : Rescale) (V : VideoWriter κ) (decode : RvlInput F → Picture ι) (colorize : ι → F → κ)
      (env : Mp4Env) entries, ∃ n, ∀ argc isDirectory ls s es,
      let M := machine (exportSessionMp4 R V decode colorize env) entries
      let Over := Over (exportSessionMp4 R V decode colorize env) argc isDirectory entries
        (mp4Kills F env entries)
      M.run (initial argc isDirectory) ls = some (s, es) →
      ls.length ≤ n ∧ (∃ next s' es', M.run s next = some (s', es') ∧ Over s') ∧ (M.Stuck s → Over s)) ∧
    (∀ (D : ExportColorToImages.H264Decoder ι) (decode : RvlInput F → κ) color depth
      entries, ∃ n, ∀ argc isDirectory ls s es,
      let M := machine (exportSessionImages D decode color depth) entries
      let Over := Over (exportSessionImages D decode color depth) argc isDirectory entries
        (imagesKills F depth entries)
      M.run (initial argc isDirectory) ls = some (s, es) →
      ls.length ≤ n ∧ (∃ next s' es', M.run s next = some (s', es') ∧ Over s') ∧
        (M.Stuck s → Over s)) := by
  constructor
  · intro R V decode colorize env entries
    let r : (m : Modality) → Mp4Locals F V m → Nat
      | .color => fun x => x.rows.length
      | .depth => fun x => x.rest.length
    refine ⟨bound (exportSessionMp4 R V decode colorize env) entries r, ?_⟩
    intro argc isDirectory ls s es M Over h
    refine over_of_runs_end (fun p => ?_) mp4Kills_of_dying h
    obtain ⟨i, m⟩ := p
    cases m with
    | color => exact ExportColorToMp4.ranked_loop R (env.color i)
    | depth => exact ExportDepthToMp4.ranked_loop V decode colorize (env.depth i)
  · intro D decode color depth entries
    let r : (m : Modality) → ImagesLocals D F κ m → Nat
      | .color => fun x => x.rest.length
      | .depth => fun x => x.rest.length
    refine ⟨bound (exportSessionImages D decode color depth) entries r, ?_⟩
    intro argc isDirectory ls s es M Over h
    refine over_of_runs_end (fun p => ?_) imagesKills_of_dying h
    obtain ⟨i, m⟩ := p
    cases m with
    | color => exact Loop.ranked_overList _
    | depth => exact Loop.ranked_overList _

/-- While the worker of the depth stream is at work, the process can still go on to its end. -/
theorem export_session_exits_one : ∃ s es,
    (machine (exportSessionImages (F := TwoFloats) noFrames (·.data) (fun _ => roomyFolder)
        fun _ => roomyFolder) oneCamera).run (initial 2 (some true))
      (List.replicate 8 .main ++ [.work (0, .depth)]) = some (s, es) ∧
    ∃ next s' es',
      (machine (exportSessionImages (F := TwoFloats) noFrames (·.data) (fun _ => roomyFolder)
        fun _ => roomyFolder) oneCamera).run s next = some (s', es') ∧
      Over (exportSessionImages (F := TwoFloats) noFrames (·.data) (fun _ => roomyFolder)
        fun _ => roomyFolder) 2 (some true) oneCamera
        (imagesKills TwoFloats (fun _ => (roomyFolder : FolderEnv (List UInt8))) oneCamera) s' := by
  refine Machine.exists_run (P := fun p => p.1.pc = .joining 0 .depth) (by decide +kernel) ?_
  intro s es h _
  obtain ⟨n, hn⟩ := (@export_session_exits TwoFloats Unit (List UInt8) _).2 noFrames (·.data)
    (fun _ => roomyFolder) (fun _ => roomyFolder) oneCamera
  exact (hn 2 (some true) _ s es h).2.1

end Kist
