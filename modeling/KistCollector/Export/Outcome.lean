import KistCollector.Export.Workers
import KistCollector.Lib.Progress

/-!
# Exporters that are left alone

A worker that nobody cancels does what its files and the answers of the system decide, whatever the owner
and the other threads do meanwhile: `Exporter.Ends` is that outcome, and `Exporter.Dies` is that it has none.
`LeftAlone` follows the worker to it. The loops of the four exporters come to an end, so every worker does
that lives on.
-/

namespace Kist
namespace Exporter

variable {δ σ : Type} {E : Exporter δ σ} {s s' : ExporterState δ σ} {rank : σ → Nat}

/-- What the conversion of `dir` comes to if it is not cancelled and its worker lives on: whether it
succeeds. -/
inductive Ends (E : Exporter δ σ) (dir : δ) : Bool → Prop where
  | fails : E.setup dir = none → Ends E dir false
  | finishes : E.setup dir = some x₀ → E.loop.Final x₀ n x → Ends E dir (E.good (E.finish x))

/-- The conversion of `dir`, if it is not cancelled, reaches a turn that its worker does not survive. -/
def Dies (E : Exporter δ σ) (dir : δ) : Prop :=
  ∃ x₀ n x, E.setup dir = some x₀ ∧ E.loop.Turns x₀ n x ∧ E.loop.more x = true ∧
    E.died (E.loop.turn x).1 = true

theorem Ends.unique (h : E.Ends dir b) (h' : E.Ends dir b') : b = b' := by
  cases h with
  | fails hsetup =>
    cases h' with
    | fails => rfl
    | finishes hsetup' => exact absurd (hsetup.symm.trans hsetup') nofun
  | finishes hsetup hfinal =>
    cases h' with
    | fails hsetup' => exact absurd (hsetup'.symm.trans hsetup) nofun
    | finishes hsetup' hfinal' =>
      cases hsetup.symm.trans hsetup'
      rw [(hfinal.unique hfinal').2]

theorem exists_ends (H : E.loop.Ranked rank) (dir : δ) : ∃ b, E.Ends dir b := by
  cases hsetup : E.setup dir with
  | none => exact ⟨false, .fails hsetup⟩
  | some x₀ =>
    obtain ⟨n, x, hfinal⟩ := H.exists_final x₀
    exact ⟨_, .finishes hsetup hfinal⟩

/-- A success is the success of a loop that was left. -/
theorem Ends.final (h : E.Ends dir b) (hb : b = true) : ∃ x₀ n x, E.setup dir = some x₀ ∧
    E.loop.Final x₀ n x ∧ E.good (E.finish x) = true := by
  cases h with
  | fails => cases hb
  | finishes hsetup hfinal => exact ⟨_, _, _, hsetup, hfinal, hb⟩

/-- The exporter was started on `dir`, was neither stopped nor destroyed since, and lives. -/
structure LeftAlone (E : Exporter δ σ) (dir : δ) (s : ExporterState δ σ) : Prop where
  cancel : s.cancel = false
  terminated : s.terminated = false
  died : s.died = false
  begun : ∀ d, s.thread = some (.begun d) → d = dir
  head : ∀ x, s.thread = some (.head x) →
    ∃ x₀ n, E.setup dir = some x₀ ∧ E.loop.Turns x₀ n x
  body : ∀ x, s.thread = some (.body x) →
    ∃ x₀ n, E.setup dir = some x₀ ∧ E.loop.Turns x₀ n x ∧ E.loop.more x = true
  left : ∀ x, s.thread = some (.left x) → ∃ x₀ n, E.setup dir = some x₀ ∧ E.loop.Final x₀ n x
  checked : ∀ c, s.thread = some (.checked c) → E.Ends dir c
  unset : stored s.thread = false → s.ok = false
  ok : stored s.thread = true → E.Ends dir s.ok

/-- A worker that is left alone dies only of its conversion, and stays where it is. -/
theorem LeftAlone.dies (H : LeftAlone E dir s) (h : WorkStep E s s' e) (hdied : s'.died = true) :
    E.Dies dir ∧ s'.thread = s.thread := by
  have hlives : s.died = false := H.died
  cases h with
  | @dies x x' go hw hturn hkills =>
    obtain ⟨x₀, n, hsetup, hturns, hmore⟩ := H.body _ hw
    exact ⟨⟨x₀, n, x, hsetup, hturns, hmore, by rw [hturn]; exact hkills⟩, rfl⟩
  | _ => exact absurd (hlives.symm.trans hdied) nofun

theorem LeftAlone.work (H : LeftAlone E dir s) (h : WorkStep E s s' e) (hlives : s'.died = false) :
    LeftAlone E dir s' := by
  obtain ⟨hcancel, hterm, hdied, h1, h2, h3, h4, h5, hunset, hok⟩ := H
  cases h with
  | fails hw hsetup =>
    cases h1 _ hw
    have hfalse : s.ok = false := hunset (by rw [hw]; rfl)
    refine ⟨hcancel, hterm, hdied, nofun, nofun, nofun, nofun, nofun, nofun, fun _ => ?_⟩
    exact hfalse ▸ .fails hsetup
  | setUp hw hsetup =>
    cases h1 _ hw
    refine ⟨hcancel, hterm, hdied, nofun, fun x hx => ?_, nofun, nofun, nofun, fun _ => ?_, nofun⟩
    · cases hx
      exact ⟨_, 0, hsetup, .zero⟩
    · exact hunset (by rw [hw]; rfl)
  | leaves hw hwhy =>
    obtain ⟨x₀, n, hsetup, hturns⟩ := h2 _ hw
    refine ⟨hcancel, hterm, hdied, nofun, nofun, nofun, fun x hx => ?_, nofun, fun _ => ?_, nofun⟩
    · cases hx
      exact ⟨x₀, n, hsetup, .exhausted hturns (hwhy.resolve_left (by simp [hcancel]))⟩
    · exact hunset (by rw [hw]; rfl)
  | takes hw _ hmore =>
    obtain ⟨x₀, n, hsetup, hturns⟩ := h2 _ hw
    refine ⟨hcancel, hterm, hdied, nofun, nofun, fun x hx => ?_, nofun, nofun, fun _ => ?_, nofun⟩
    · cases hx
      exact ⟨x₀, n, hsetup, hturns, hmore⟩
    · exact hunset (by rw [hw]; rfl)
  | dies => cases hlives
  | goesOn hw hturn =>
    obtain ⟨x₀, n, hsetup, hturns, hmore⟩ := h3 _ hw
    refine ⟨hcancel, hterm, hdied, nofun, fun x hx => ?_, nofun, nofun, nofun, fun _ => ?_, nofun⟩
    · cases hx
      exact ⟨x₀, n + 1, hsetup, .succ hturns hmore hturn⟩
    · exact hunset (by rw [hw]; rfl)
  | breaks hw hturn =>
    obtain ⟨x₀, n, hsetup, hturns, hmore⟩ := h3 _ hw
    refine ⟨hcancel, hterm, hdied, nofun, nofun, nofun, fun x hx => ?_, nofun, fun _ => ?_, nofun⟩
    · cases hx
      exact ⟨x₀, n + 1, hsetup, .leaves hturns hmore hturn⟩
    · exact hunset (by rw [hw]; rfl)
  | checks hw =>
    obtain ⟨x₀, n, hsetup, hfinal⟩ := h4 _ hw
    refine ⟨hcancel, hterm, hdied, nofun, nofun, nofun, nofun, fun c hc => ?_, fun _ => ?_, nofun⟩
    · cases hc
      rw [hcancel, Bool.not_false, Bool.and_true]
      exact .finishes hsetup hfinal
    · exact hunset (by rw [hw]; rfl)
  | storesOk hw =>
    exact ⟨hcancel, hterm, hdied, nofun, nofun, nofun, nofun, nofun, nofun, fun _ => h5 _ hw⟩
  | clears hw | ends hw =>
    have hstored : stored s.thread = true := by rw [hw]; rfl
    exact ⟨hcancel, hterm, hdied, nofun, nofun, nofun, nofun, nofun, nofun, fun _ => hok hstored⟩

/-- `start` on an exporter that has no thread leaves it running exactly if it finds its two files. -/
theorem step_start (E : Exporter δ σ) (existing : List Char → Bool) (dir : δ) :
    E.machine.step {} (.start existing dir) =
      if existing E.blobName && existing E.indexName then
        some ({ thread := some (.begun dir), running := true }, [.started true])
      else some ({}, [.started false]) := by
  cases hb : existing E.blobName <;> cases hi : existing E.indexName <;> simp [machine, hb, hi]

theorem LeftAlone.started (E : Exporter δ σ) (dir : δ) :
    LeftAlone E dir { thread := some (.begun dir), running := true } := by
  refine ⟨rfl, rfl, rfl, fun d hd => ?_, nofun, nofun, nofun, nofun, fun _ => rfl, nofun⟩
  cases hd
  rfl

theorem LeftAlone.wait (H : LeftAlone E dir s) :
    LeftAlone E dir { s with owner := .joining false } :=
  ⟨H.cancel, H.terminated, H.died, H.begun, H.head, H.body, H.left, H.checked, H.unset, H.ok⟩

/-- A join that returns leaves the outcome. -/
theorem LeftAlone.join (H : LeftAlone E dir s) (h : E.machine.step s .join = some (s', e)) :
    LeftAlone E dir s' ∧ s'.thread = none := by
  have hthread : ∀ owner, stored s.thread = true →
      LeftAlone E dir { s with owner := owner, thread := none } := fun owner hs =>
    ⟨H.cancel, H.terminated, H.died, nofun, nofun, nofun, nofun, nofun, nofun, fun _ => H.ok hs⟩
  cases (Step.of_step h).2 with
  | @returns owner hw =>
    have H' := hthread owner (by rw [hw]; rfl)
    rw [← hw] at H'
    exact ⟨H', hw⟩
  | joins hw => exact ⟨hthread _ (by rw [hw]; rfl), rfl⟩

/-! ## Every worker ends -/

/-- The steps a worker has still to take, at most. -/
def workRank (E : Exporter δ σ) (rank : σ → Nat) : Option (Worker δ σ) → Nat
  | none | some .ended => 0
  | some .cleared => 1
  | some .clearing => 2
  | some (.checked _) => 3
  | some (.left _) => 4
  | some (.body x) => 2 * rank x + 5
  | some (.head x) => 2 * rank x + 6
  | some (.begun dir) => 7 + (E.setup dir).elim 0 fun x => 2 * rank x

theorem WorkStep.workRank_lt (hrank : E.loop.Ranked rank) (h : WorkStep E s s' e)
    (hlives : s'.died = false) :
    E.workRank rank s'.thread < E.workRank rank s.thread := by
  cases h with
  | fails hw hsetup => simp [workRank, hw, hsetup]
  | setUp hw hsetup =>
    simp only [workRank, hw, hsetup, Option.elim_some]
    omega
  | dies => cases hlives
  | goesOn hw hturn =>
    have hlt := hrank hturn
    simp only [workRank, hw]
    omega
  | _ => simp_all [workRank]

/-- A worker that cannot step has ended or was never started. -/
theorem stored_of_work_eq_none (h : E.work s = none) :
    s.thread = none ∨ s.thread = some .ended := by
  unfold work at h
  split at h
  · exact .inl ‹_›
  · exact .inr ‹_›
  · split at h <;> cases h
  · split at h <;> cases h
  · split at h
    · cases h
    · split at h <;> cases h
  · cases h
  · cases h
  · cases h
  · cases h

end Exporter

/-- A worker that loops over rows dies in the turn of one of them. `P` is what the turns before it keep. -/
theorem Exporter.Dies.exists_row {γ ρ τ : Type} {turn : γ → τ → ρ → τ × Bool}
    {E : Exporter δ (Loop.Over γ ρ τ)} {P : List ρ → τ → Prop} (hloop : E.loop = .overList turn)
    (zero : ∀ {x₀}, E.setup dir = some x₀ → P [] x₀.acc)
    (succ : ∀ {ctx done acc r acc'}, P done acc → turn ctx acc r = (acc', true) → P (done ++ [r]) acc')
    (h : E.Dies dir) : ∃ x₀ done row rest acc x, E.setup dir = some x₀ ∧
      x₀.rest = done ++ row :: rest ∧ P done acc ∧ x.acc = (turn x₀.ctx acc row).1 ∧
      E.died x = true := by
  obtain ⟨x₀, n, x, hsetup, hturns, hmore, hdied⟩ := h
  rw [hloop] at hturns hmore hdied
  obtain ⟨hctx, done, hrest, -, hP⟩ := hturns.overList_rule (zero hsetup) succ
  cases hturn : (Loop.overList turn).turn x with
  | mk x' go =>
    obtain ⟨row, hrow, -, hacc⟩ := Loop.overList_turn hmore hturn
    rw [hturn] at hdied
    rw [hctx] at hacc
    exact ⟨x₀, done, row, _, _, x', hsetup, by rw [hrest, hrow], hP, by rw [hacc], hdied⟩

/-- To know when a worker succeeds it is enough to know when it does not. -/
theorem Exporter.ends_true_iff {E : Exporter δ σ} {dir : δ} {Complete : Prop} (rank : σ → Nat)
    (hrank : E.loop.Ranked rank)
    (hgood : ∀ {x₀ n x}, E.setup dir = some x₀ → E.loop.Final x₀ n x →
      E.good (E.finish x) = true → Complete)
    (hnone : E.setup dir = none → ¬ Complete)
    (hbad : ∀ {x₀ n x}, E.setup dir = some x₀ → E.loop.Final x₀ n x →
      E.good (E.finish x) = false → ¬ Complete) : E.Ends dir true ↔ Complete := by
  constructor
  · intro h
    obtain ⟨x₀, n, x, hsetup, hfinal, hx⟩ := h.final rfl
    exact hgood hsetup hfinal hx
  · intro hcomplete
    obtain ⟨b, hb⟩ := exists_ends hrank dir
    cases hb with
    | fails hsetup => exact absurd hcomplete (hnone hsetup)
    | @finishes x₀ n x hsetup hfinal =>
      cases hx : E.good (E.finish x) with
      | true => exact hx ▸ .finishes hsetup hfinal
      | false => exact absurd hcomplete (hbad hsetup hfinal hx)

namespace ExportColorToMp4

variable {R : Rescale} {env : Env}

theorem ranked_loop (R : Rescale) (env : Env) : (loop R env).Ranked fun x => x.rows.length := by
  intro x x' hturn
  obtain ⟨-, -, -, -, hrows, -, -⟩ := turn_true hturn
  dsimp only
  omega

theorem rest_of_turn_false {x x' : Remuxing} (hmore : (loop R env).more x = true)
    (h : turn R env x = (x', false)) :
    x'.writeOk = false ∧ (x.rest R env.uncancelled).writeOk = false := by
  refine ⟨turn_false hmore h, ?_⟩
  unfold turn at h
  split at h
  · rename_i unit units row rows hunits hrows
    dsimp only at h
    split at h <;> cases h
    rename_i hwrite
    simp only [Remuxing.rest, hunits, hrows]
    rw [remuxFrom]
    simp [hwrite, Env.uncancelled]
  · rename_i hne
    cases hunits : x.units with
    | nil => simp [loop, hunits] at hmore
    | cons unit units =>
      cases hrows : x.rows with
      | nil => simp [loop, hrows] at hmore
      | cons row rows => exact absurd hrows (hne _ _ _ _ hunits)

/-- Where the loop is left, its locals agree with what `remuxFrom` gives. -/
theorem loop_rest {x₀ x : Remuxing} (h : (loop R env).Final x₀ n x) (hi : x₀.i = 0)
    (hok : x₀.writeOk = true) (hpackets : x₀.packets = []) :
    x.writeOk = (x₀.rest R env.uncancelled).writeOk ∧
      (x.writeOk = true → x.i = (x₀.rest R env.uncancelled).i ∧ x.total = x₀.total) := by
  refine h.rule (P := Remuxes R env x₀) (Q := fun n x =>
    x.writeOk = (x₀.rest R env.uncancelled).writeOk ∧
      (x.writeOk = true → x.i = (x₀.rest R env.uncancelled).i ∧ x.total = x₀.total))
    ⟨hi, rfl, hok, nofun, Nat.zero_add _, by rw [hpackets]; rfl, rfl⟩ ?succ ?exhausted ?leaves
  case succ => exact fun H _ hturn => H.next hturn
  case exhausted =>
    intro n x H hmore
    rw [← H.rest, rest_eq hmore]
    exact ⟨H.writeOk, fun _ => ⟨rfl, H.total⟩⟩
  case leaves =>
    intro n x x' H hmore hturn
    obtain ⟨hfalse, hrest⟩ := rest_of_turn_false hmore hturn
    rw [← H.rest, hrest, hfalse]
    exact ⟨rfl, nofun⟩

/-- What a run that is not cancelled makes of files on which `setup` succeeds. -/
theorem run_of_setup {files : StreamFiles} (h : setup env files = some x₀) :
    x₀.i = 0 ∧ x₀.writeOk = true ∧ x₀.packets = [] ∧
      (run R env.uncancelled files.index files.blob).2 =
        ((x₀.rest R env.uncancelled).writeOk && (x₀.rest R env.uncancelled).i == x₀.total) := by
  unfold setup at h
  dsimp only at h
  split at h
  · rename_i k blob hkey hblob
    split at h
    · cases h
    rename_i hguard
    split at h
    · rename_i units key rows hdemux hdrop
      split at h <;> cases h
      rename_i hopen
      refine ⟨rfl, rfl, rfl, ?_⟩
      have hdemux' : env.uncancelled.demux
          (blob.drop (readIndex files.index).cutOffset.toNat) = some units := hdemux
      have hopen' : env.uncancelled.openOutput = true := hopen
      unfold run
      simp only [hkey, hblob, if_neg hguard, hdemux', hdrop, hopen', if_true, remux, Remuxing.rest]
      simp [Env.uncancelled]
    · cases h
  · cases h

/-- Files on which `setup` fails give no run that succeeds. -/
theorem run_of_setup_none {files : StreamFiles} (h : setup env files = none) :
    (run R env.uncancelled files.index files.blob).2 = false := by
  cases hkey : (readIndex files.index).firstKey with
  | none => simp only [run, hkey]
  | some k =>
    cases hblob : files.blob with
    | none => simp only [run, hkey]
    | some blob =>
      simp only [setup, hkey, hblob] at h
      simp only [run, hkey]
      by_cases hguard : (readIndex files.index).rows.length < 2 ∨
          2 ^ 63 ≤ (readIndex files.index).cutOffset.toNat
      · rw [if_pos hguard]
      · rw [if_neg hguard] at h ⊢
        have hdemux : ∀ cs, env.uncancelled.demux cs = env.demux cs := fun _ => rfl
        have hopen : env.uncancelled.openOutput = env.openOutput := rfl
        rw [hdemux, hopen]
        cases hunits : env.demux (blob.drop (readIndex files.index).cutOffset.toNat) with
        | none => rfl
        | some units =>
          -- the first key frame is a row
          have hk : k < (readIndex files.index).rows.length := by
            have hfirst := (readIndex_firstKey files.index).1
            rw [hkey] at hfirst
            obtain ⟨hk, -⟩ := List.findIdx?_eq_some_iff_getElem.mp hfirst.symm
            rwa [readIndex_rows, List.length_map]
          simp only [hunits, List.drop_eq_getElem_cons hk] at h
          cases hopens : env.openOutput with
          | false => simp
          | true => simp [hopens] at h

/-- The worker succeeds exactly if the run does. -/
theorem ends_iff (R : Rescale) (env : Env) (files : StreamFiles) :
    (exporter R env).Ends files true ↔
      (run R env.uncancelled files.index files.blob).2 = true := by
  refine Exporter.ends_true_iff _ (ranked_loop R env) ?_ ?_ ?_
  · intro x₀ n x hsetup hfinal hgood
    obtain ⟨hok, hall⟩ := Bool.and_eq_true_iff.mp hgood
    exact (final hsetup hfinal hok (beq_iff_eq.mp hall)).2.2.2
  · intro hsetup
    rw [run_of_setup_none hsetup]
    exact Bool.false_ne_true
  · intro x₀ n x hsetup hfinal hgood hrun
    obtain ⟨hi, hok, hpackets, heq⟩ := run_of_setup (R := R) hsetup
    obtain ⟨hwrite, hlast⟩ := loop_rest hfinal hi hok hpackets
    rw [heq, ← hwrite, Bool.and_eq_true, beq_iff_eq] at hrun
    obtain ⟨hx, htotal⟩ := hlast hrun.1
    have hgood' : (x.writeOk && x.i == x.total) = true := by
      rw [hrun.1, hx, htotal, hrun.2]
      simp
    exact Bool.false_ne_true (hgood.symm.trans hgood')

end ExportColorToMp4

namespace ExportDepthToMp4

variable {F ι κ : Type} [Floats F] {V : VideoWriter κ} {decode : RvlInput F → Picture ι}
  {colorize : ι → F → κ} {env : Env}

omit [Floats F] in
theorem ranked_loop (V : VideoWriter κ) (decode : RvlInput F → Picture ι) (colorize : ι → F → κ)
    (env : Env) : (loop V decode colorize env).Ranked fun x => x.rest.length := Loop.ranked_overList _

omit [Floats F] in
/-- Where the loop is left, it has done what `writeRows` does. -/
theorem loop_acc {rows : List (Row F)} {s₀ : Written V} (hs₀ : s₀.written = 0)
    (h : (loop V decode colorize env).Final ⟨⟨rvl, rows.length⟩, rows, s₀⟩ n x) :
    x.ctx.total = rows.length ∧
      x.acc = writeRows decode colorize env.uncancelled rvl rows s₀ := by
  obtain ⟨hctx, ⟨rfl, H⟩ | ⟨done, row, rest, acc, hrest, H, hturn⟩⟩ :=
    h.overList_rule (P := Wrote decode colorize env rvl s₀) ⟨hs₀, .nil, fun _ => rfl⟩ .snoc
  · have hall := H.eq []
    rw [List.append_nil, writeRows] at hall
    exact ⟨by rw [hctx], hall.symm⟩
  · have hrows : rows = done ++ row :: rest := hrest
    have hturn' : writeRow decode colorize env.uncancelled rvl acc row = (x.acc, false) := hturn
    refine ⟨by rw [hctx], ?_⟩
    rw [hrows, H.eq, writeRows, hturn']
    rfl

theorem exists_of_setup {files : StreamFiles} {x₀ : Loop.Over Opened (Row F) (Written V)}
    (h : setup V env files = some x₀) : ∃ first second rows rvl,
      readIndex F files.index = first :: second :: rows ∧ files.blob = some rvl ∧
      env.openWriter = true ∧ x₀ = ⟨⟨rvl, (first :: second :: rows).length⟩, first :: second :: rows,
        { writer := V.opened first.width first.height }⟩ := by
  unfold setup at h
  split at h
  · rename_i first second rows rvl hrows hblob
    split at h <;> cases h
    exact ⟨first, second, rows, rvl, hrows, hblob, ‹_›, rfl⟩
  · cases h

/-- Files on which `setup` fails give no run that succeeds. -/
theorem run_of_setup_none {files : StreamFiles}
    (h : setup V env files = (none : Option (Loop.Over Opened (Row F) (Written V)))) :
    (run V decode colorize env.uncancelled files.index files.blob).2 = false := by
  rcases hrows : readIndex F files.index with _ | ⟨first, _ | ⟨second, rows⟩⟩
  · simp only [run, hrows]
  · simp only [run, hrows]
  · cases hblob : files.blob with
    | none => simp only [run, hrows]
    | some rvl =>
      simp only [setup, hrows, hblob] at h
      cases hopens : env.openWriter with
      | false => simp [run, hrows, hopens, Env.uncancelled]
      | true => simp [hopens] at h

/-- The worker succeeds exactly if the run does. -/
theorem ends_iff (V : VideoWriter κ) (decode : RvlInput F → Picture ι) (colorize : ι → F → κ) (env : Env)
    (files : StreamFiles) : (exporter V decode colorize env).Ends files true ↔
      (run V decode colorize env.uncancelled files.index files.blob).2 = true := by
  refine Exporter.ends_true_iff _ (ranked_loop V decode colorize env) ?_ ?_ ?_
  · intro x₀ n x hsetup hfinal hgood
    exact (final hsetup hfinal (beq_iff_eq.mp hgood)).2.2
  · intro hsetup hrun
    have hfail : (run V decode colorize env.uncancelled files.index files.blob).2 = false :=
      run_of_setup_none hsetup
    exact Bool.false_ne_true (hfail.symm.trans hrun)
  · intro x₀ n x hsetup hfinal hgood hrun
    obtain ⟨first, second, rows, rvl, hrows, hblob, hopens, rfl⟩ := exists_of_setup hsetup
    obtain ⟨htotal, hacc⟩ := loop_acc rfl hfinal
    have hopens' : env.uncancelled.openWriter = true := hopens
    simp only [run, hrows, hblob, hopens', if_true, ← hacc] at hrun
    have hgood' : (x.acc.written == x.ctx.total) = true := by
      rw [htotal]
      simpa [Env.uncancelled] using hrun
    exact Bool.false_ne_true (hgood.symm.trans hgood')

variable (F) in
/-- A row has a size that no vector can have, or in one of the turns there is no memory for the payload, or
the decoder or OpenCV throw. -/
def CanDie (env : Env) (files : StreamFiles) : Prop :=
  (∃ row ∈ readIndex F files.index, 2 ^ 63 ≤ row.size.toNat) ∨
    ∃ i < (readIndex F files.index).length, env.memory i = false ∨ env.decodes i = false

theorem canDie_of_dies {files : StreamFiles} (h : (exporter V decode colorize env).Dies files) :
    CanDie F env files := by
  have hloop : (exporter V decode colorize env).loop =
      .overList fun opened => writeRow decode colorize env opened.blob := rfl
  have hzero : ∀ {x₀ : Loop.Over Opened (Row F) (Written V)}, setup V env files = some x₀ →
      x₀.acc.died = false ∧ x₀.acc.written = 0 := by
    intro x₀ hsetup
    obtain ⟨first, second, rows, rvl, -, -, -, rfl⟩ := exists_of_setup (F := F) hsetup
    exact ⟨rfl, rfl⟩
  have hsucc : ∀ {opened : Opened} {done : List (Row F)} {acc row acc'},
      acc.died = false ∧ acc.written = done.length →
      writeRow (V := V) decode colorize env opened.blob acc row = (acc', true) →
      acc'.died = false ∧ acc'.written = (done ++ [row]).length := by
    rintro opened done acc row acc' ⟨hlives, hwritten⟩ hturn
    unfold writeRow at hturn
    split at hturn <;> cases hturn
    exact ⟨hlives, by simp [hwritten]⟩
  obtain ⟨x₀, done, row, rest, acc, x, hsetup, hrest, ⟨hlives, hwritten⟩, hacc, hdied⟩ :=
    h.exists_row (P := fun done (acc : Written V) => acc.died = false ∧ acc.written = done.length) hloop
      hzero hsucc
  obtain ⟨first, second, rows, rvl, hrows, -, -, rfl⟩ := exists_of_setup hsetup
  have hall : readIndex F files.index = done ++ row :: rest := hrows.trans hrest
  have hthrew : x.acc.died = true := hdied
  rw [hacc] at hthrew
  unfold writeRow at hthrew
  split at hthrew
  · rename_i hload
    rcases load_eq_threw hload with hsize | hwhy
    · refine .inl ⟨row, ?_, hsize⟩
      rw [hall]
      exact List.mem_append_right done List.mem_cons_self
    · refine .inr ⟨acc.written, ?_, hwhy⟩
      rw [hall, hwritten, List.length_append, List.length_cons]
      omega
  · exact absurd (hlives.symm.trans hthrew) Bool.false_ne_true
  · exact absurd (hlives.symm.trans hthrew) Bool.false_ne_true

end ExportDepthToMp4

namespace ExportDepthToImages

variable {F ι : Type} [Floats F] {decode : RvlInput F → ι} {env : ImagesEnv} {readOk : Nat → Bool}

/-- Every row of the index can be read, and the run succeeds. -/
def Complete (decode : RvlInput F → ι) (env : ImagesEnv) (readOk : Nat → Bool)
    (folder : Folder (List Char) ι) (files : StreamFiles) : Prop :=
  (∃ blob, files.blob = some blob ∧
    AllRead readOk blob ((readIndex F files.index).map (·.slice))) ∧
  (run decode env.uncancelled files.index files.blob folder).2 = true

omit [Floats F] in
/-- Where the system serves the read and the loop is left at the row, `writeRows` fails there. -/
theorem writeRows_of_writeRow_false (rows : List (Row F)) {s s' : Exported ι}
    (hok : readOk s.written = true)
    (h : writeRow decode env readOk opened s row = (s', false)) :
    (writeRows decode env.uncancelled opened.blob (row :: rows) s).ioOk = false := by
  have hmemory : env.uncancelled.memory = env.memory := rfl
  have hdecodes : env.uncancelled.decodes = env.decodes := rfl
  simp only [writeRow, hok, if_true] at h
  rw [writeRows, if_neg (by simp [ImagesEnv.uncancelled]), hmemory, hdecodes]
  generalize load (env.memory s.written) (env.decodes s.written) row.size
    (readSlice opened.blob row.offset row.size) = loaded at h ⊢
  cases loaded with
  | threw | failed => rfl
  | data data =>
    dsimp only at h
    split at h <;> cases h
    rename_i hwrite
    simp [ImagesEnv.uncancelled, hwrite]

/-- The worker succeeds exactly if all can be read and the run does. -/
theorem ends_iff (decode : RvlInput F → ι) (env : ImagesEnv) (readOk : Nat → Bool)
    (folder : Folder (List Char) ι) (files : StreamFiles) :
    (exporter decode env readOk folder).Ends files true ↔
      Complete decode env readOk folder files := by
  have hranked : (Loop.overList (writeRow decode env readOk)).Ranked fun x => x.rest.length :=
    Loop.ranked_overList _
  refine Exporter.ends_true_iff _ hranked ?_ ?_ ?_
  · intro x₀ n x hsetup hfinal hgood
    obtain ⟨hok, hall⟩ := Bool.and_eq_true_iff.mp hgood
    obtain ⟨-, hread, -, hrun⟩ := final hsetup hfinal hok (beq_iff_eq.mp hall)
    exact ⟨hread, hrun⟩
  · rintro hsetup ⟨-, hrun⟩
    have hnone : setup (F := F) folder files = none := hsetup
    unfold setup at hnone
    unfold run at hrun
    split at hnone
    · cases hnone
    · rename_i hne
      split at hrun
      · rename_i row rows rvl hrows hblob
        exact hne row rows rvl hrows hblob
      · cases hrun
  · rintro x₀ n x hsetup hfinal hgood ⟨⟨blob, hblob, hread⟩, hrun⟩
    have hsome : setup (F := F) folder files = some x₀ := hsetup
    unfold setup at hsome
    split at hsome <;> cases hsome
    rename_i row rows rvl hrows hblob'
    cases hblob.symm.trans hblob'
    rw [hrows] at hread
    simp only [run, hrows, hblob, Bool.and_eq_true, ImagesEnv.uncancelled] at hrun
    obtain ⟨hctx, ⟨rfl, H⟩ | ⟨done, r, rest, acc, hrest, H, hturn⟩⟩ :=
      hfinal.overList_rule (P := Wrote decode env readOk ⟨blob, _⟩ { folder := folder })
        ⟨rfl, .nil, fun _ hj => absurd hj (Nat.not_lt_zero _), fun _ => rfl⟩ .snoc
    · have heq : writeRows decode env.uncancelled blob (row :: rows) { folder := folder } = x.acc := by
        have heq := H.eq []
        rwa [List.append_nil, writeRows] at heq
      have hok : x.acc.ioOk = true := by
        rw [← heq]
        exact hrun.1.1
      have hgood' : (x.acc.ioOk && x.acc.written == x.ctx.total) = true := by
        rw [hok, H.written, hctx]
        simp
      exact Bool.false_ne_true (hgood.symm.trans hgood')
    · have hall : row :: rows = done ++ r :: rest := hrest
      have hlen := congrArg List.length hall
      rw [List.length_append, List.length_cons, List.length_cons] at hlen
      have hok : readOk acc.written = true := by
        refine hread.1 _ ?_
        rw [H.written, List.length_map, List.length_cons]
        omega
      have hfalse := writeRows_of_writeRow_false rest hok hturn
      rw [← H.eq, ← hall] at hfalse
      exact Bool.false_ne_true (hfalse.symm.trans hrun.1.1)

variable (F) in
/-- A row has a size that no vector can have, or in one of the turns there is no memory for the payload, or
the decoder or OpenCV throw. -/
def CanDie (env : ImagesEnv) (files : StreamFiles) : Prop :=
  (∃ row ∈ readIndex F files.index, 2 ^ 63 ≤ row.size.toNat) ∨
    ∃ i < (readIndex F files.index).length, env.memory i = false ∨ env.decodes i = false

theorem canDie_of_dies {folder : Folder (List Char) ι} {files : StreamFiles}
    (h : (exporter decode env readOk folder).Dies files) : CanDie F env files := by
  have hopened : ∀ {x₀}, setup (F := F) folder files = some x₀ → x₀.rest = readIndex F files.index ∧
      x₀.acc = { folder := folder } := by
    intro x₀ hsetup
    unfold setup at hsetup
    split at hsetup <;> cases hsetup
    rename_i row rows rvl hrows hblob
    exact ⟨hrows.symm, rfl⟩
  have hsucc : ∀ {opened : Opened} {done : List (Row F)} {acc row acc'},
      acc.died = false ∧ acc.written = done.length →
      writeRow decode env readOk opened acc row = (acc', true) →
      acc'.died = false ∧ acc'.written = (done ++ [row]).length := by
    rintro opened done acc row acc' ⟨hlives, hwritten⟩ hturn
    unfold writeRow at hturn
    split at hturn
    · cases hturn
    · cases hturn
    · dsimp only at hturn
      split at hturn <;> cases hturn
      exact ⟨hlives, by simp [hwritten]⟩
  obtain ⟨x₀, done, row, rest, acc, x, hsetup, hrest, ⟨hlives, hwritten⟩, hacc, hdied⟩ :=
    h.exists_row (P := fun done acc => acc.died = false ∧ acc.written = done.length) rfl
      (fun hsetup => by rw [(hopened hsetup).2]; exact ⟨rfl, rfl⟩) hsucc
  have hall : readIndex F files.index = done ++ row :: rest := (hopened hsetup).1.symm.trans hrest
  have hthrew : x.acc.died = true := hdied
  rw [hacc] at hthrew
  unfold writeRow at hthrew
  split at hthrew
  · rename_i hload
    rcases load_eq_threw hload with hsize | hwhy
    · refine .inl ⟨row, ?_, hsize⟩
      rw [hall]
      exact List.mem_append_right done List.mem_cons_self
    · refine .inr ⟨acc.written, ?_, hwhy⟩
      rw [hall, hwritten, List.length_append, List.length_cons]
      omega
  · exact absurd (hlives.symm.trans hthrew) Bool.false_ne_true
  · dsimp only at hthrew
    split at hthrew <;> exact absurd (hlives.symm.trans hthrew) Bool.false_ne_true

end ExportDepthToImages

namespace ExportColorToImages

variable {ι : Type} {D : H264Decoder ι} {env : ImagesEnv} {codecOpens : Bool} {readOk : Nat → Bool}

/-- The decoder opens, every row from the first key frame on can be read, and the run succeeds. -/
def Complete (D : H264Decoder ι) (env : ImagesEnv) (codecOpens : Bool) (readOk : Nat → Bool)
    (folder : Folder (List Char) ι) (files : StreamFiles) : Prop :=
  codecOpens = true ∧
  (∃ blob, files.blob = some blob ∧ AllRead readOk blob ((keyRows files.index).map (·.slice))) ∧
  (run D env.uncancelled files.index files.blob folder).2 = true

theorem flush_of_ioOk_false {s : Exported D} (h : s.ioOk = false) : (flush env s).ioOk = false :=
  Bool.eq_false_iff.mpr fun hok => Bool.false_ne_true (h.symm.trans (ioOk_of_flush hok))

/-- Where a row can be read and the loop is left at it, it is too large, and `sendRows` stops there. -/
theorem sendRows_of_sendRow_false (rows : List Row) (i : Nat) {s s' : Exported D}
    (hok : readOk s.sent.length = true)
    (hslice : (readSlice opened.blob row.slice.1 row.slice.2).isSome = true)
    (h : sendRow env readOk opened s row = (s', false)) :
    (sendRows env.uncancelled opened.blob (row :: rows) i s).ioOk = false := by
  obtain ⟨data, hdata⟩ := Option.isSome_iff_exists.mp hslice
  simp only [Row.slice] at hdata
  simp only [sendRow, hok, if_true, hdata, Bool.true_and] at h
  rw [sendRows, if_neg (by simp [ImagesEnv.uncancelled])]
  split at h
  · rename_i hover
    rw [if_pos hover]
  · rename_i hover
    rw [if_neg hover]
    split at h
    · rename_i hsize
      rw [if_pos hsize]
    · cases h

/-- The worker succeeds exactly if the decoder opens, all can be read and the run does. -/
theorem ends_iff (D : H264Decoder ι) (env : ImagesEnv) (codecOpens : Bool) (readOk : Nat → Bool)
    (folder : Folder (List Char) ι) (files : StreamFiles) :
    (exporter D env codecOpens readOk folder).Ends files true ↔
      Complete D env codecOpens readOk folder files := by
  have hranked : (Loop.overList (sendRow (D := D) env readOk)).Ranked fun x => x.rest.length :=
    Loop.ranked_overList _
  refine Exporter.ends_true_iff _ hranked ?_ ?_ ?_
  · intro x₀ n x hsetup hfinal hgood
    obtain ⟨-, hread, -, hrun⟩ := final hsetup hfinal hgood
    refine ⟨?_, hread, hrun⟩
    have hsome : setup D codecOpens folder files = some x₀ := hsetup
    unfold setup at hsome
    split at hsome
    · split at hsome
      · assumption
      · cases hsome
    · cases hsome
  · rintro hsetup ⟨hopens, -, hrun⟩
    have hnone : setup D codecOpens folder files = none := hsetup
    unfold setup at hnone
    unfold run at hrun
    split at hnone
    · rw [if_pos hopens] at hnone
      cases hnone
    · rename_i hne
      split at hrun
      · rename_i rows k blob hrows hblob
        exact hne rows k blob hrows hblob
      · cases hrun
  · rintro x₀ n x hsetup hfinal hgood ⟨hopens, ⟨blob, hblob, hread⟩, hrun⟩
    have hsome : setup D codecOpens folder files = some x₀ := hsetup
    unfold setup at hsome
    split at hsome
    · rename_i rows k blob' hindex hblob'
      cases hblob.symm.trans hblob'
      rw [if_pos hopens] at hsome
      cases hsome
      have hrows : keyRows files.index = rows.drop k := by rw [keyRows, hindex]; rfl
      rw [hrows] at hread
      have hrunEq : (run D env.uncancelled files.index files.blob folder).2 =
          ((flush env (sendRows env.uncancelled blob (rows.drop k) 0
            { decoder := D.init, folder := folder })).ioOk && !false) := by
        unfold run
        rw [hindex, hblob]
        rfl
      rw [hrunEq, Bool.not_false, Bool.and_true] at hrun
      obtain ⟨hctx, ⟨rfl, H⟩ | ⟨done, r, rest, acc, hrest, H, hturn⟩⟩ :=
        hfinal.overList_rule (P := Sent env readOk ⟨blob, _⟩ { decoder := D.init, folder := folder })
          ⟨rfl, .nil, fun _ _ hj => absurd hj (Nat.not_lt_zero _), fun _ => rfl⟩ .snoc
      · have heq := H.eq []
        rw [List.append_nil, sendRows] at heq
        rw [heq] at hrun
        exact Bool.false_ne_true (hgood.symm.trans hrun)
      · have hall : rows.drop k = done ++ r :: rest := hrest
        have hlen := congrArg List.length hall
        rw [List.length_append, List.length_cons] at hlen
        have hok : readOk acc.sent.length = true := by
          refine hread.1 _ ?_
          rw [H.sent, List.length_map]
          omega
        have hslice : (readSlice blob r.slice.1 r.slice.2).isSome = true := by
          refine hread.2 _ (List.mem_map.mpr ⟨r, ?_, rfl⟩)
          rw [hall]
          exact List.mem_append_right done List.mem_cons_self
        have hfalse := sendRows_of_sendRow_false rest done.length hok hslice hturn
        rw [← H.eq, ← hall] at hfalse
        exact Bool.false_ne_true ((flush_of_ioOk_false hfalse).symm.trans hrun)
    · cases hsome

/-- A row's size is narrowed, and its packet is too short. -/
def CanDie (files : StreamFiles) : Prop :=
  ∃ blob, files.blob = some blob ∧ ∃ row ∈ keyRows files.index, overflows blob row = true

theorem canDie_of_dies {folder : Folder (List Char) ι} {files : StreamFiles}
    (h : (exporter D env codecOpens readOk folder).Dies files) : CanDie files := by
  have hopened : ∀ {x₀}, setup D codecOpens folder files = some x₀ →
      files.blob = some x₀.ctx.blob ∧ x₀.rest = keyRows files.index ∧ x₀.acc.died = false := by
    intro x₀ hsetup
    unfold setup at hsetup
    split at hsetup
    · rename_i rows k blob hindex hblob
      split at hsetup <;> cases hsetup
      exact ⟨hblob, by rw [keyRows, hindex]; rfl, rfl⟩
    · cases hsetup
  have hsucc : ∀ {opened : Opened} {acc : Exported D} {row acc'}, acc.died = false →
      sendRow env readOk opened acc row = (acc', true) → acc'.died = false := by
    intro opened acc row acc' hlives hturn
    unfold sendRow at hturn
    split at hturn
    · cases hturn
    · split at hturn
      · cases hturn
      · split at hturn <;> cases hturn
        rw [died_sendPacket]
        exact hlives
  obtain ⟨x₀, done, row, rest, acc, x, hsetup, hrest, hlives, hacc, hdied⟩ :=
    h.exists_row (P := fun _ acc => acc.died = false) rfl (fun hsetup => (hopened hsetup).2.2) hsucc
  obtain ⟨hblob, hrows, -⟩ := hopened hsetup
  refine ⟨_, hblob, row, ?_, ?_⟩
  · rw [← hrows, hrest]
    exact List.mem_append_right done List.mem_cons_self
  · have hover : x.acc.died = true := hdied
    rw [hacc] at hover
    unfold sendRow at hover
    split at hover
    · rename_i hwhy
      exact (Bool.and_eq_true_iff.mp hwhy).2
    · split at hover
      · exact absurd (hlives.symm.trans hover) Bool.false_ne_true
      · split at hover
        · exact absurd (hlives.symm.trans hover) Bool.false_ne_true
        · rw [died_sendPacket] at hover
          exact absurd (hlives.symm.trans hover) Bool.false_ne_true

end ExportColorToImages

end Kist
