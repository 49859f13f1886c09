import KistCollector.Lib.Loop
import KistCollector.Lib.Machine

/-!
# Exporters and their owner

The four exporters are one class around four conversions: `start` runs the conversion on a thread of its
own, `stop` cancels and joins it, `wait` joins it, the destructor is `stop`. `Exporter.machine` has the
calls of the owner and the steps of the worker thread in any order. `running_` is cleared by the worker and
the thread is joined by the owner, so `start` can find the one done and the other not
(`Exporter.safe_iff_along`). There is memory and a thread for every `start`, and the two calls of `exists`
do not throw.
-/

namespace Kist

/-- What one exporter does, apart from the flags: the two files it looks for, all that comes before the
loop (`none` is an early return), the loop over the rows, whether a turn has left the process nothing to
live on for, what comes after the loop, and whether the export is complete if it was not cancelled. -/
structure Exporter (δ σ : Type) where
  blobName : List Char
  indexName : List Char
  setup : δ → Option σ
  loop : Loop σ
  died : σ → Bool
  finish : σ → σ
  good : σ → Bool

/-- Where the worker thread stands in `run`. -/
inductive Worker (δ σ : Type) where
  | begun (dir : δ)
  | head (s : σ)
  | body (s : σ)
  | left (s : σ)
  | checked (complete : Bool)
  | clearing
  | cleared
  | ended

/-- Where the owner stands: outside, in the join of a call, or past the destructor. -/
inductive Owner where
  | idle
  | joining (destroys : Bool)
  | gone
  deriving DecidableEq, Repr

/-- An exporter object. `thread` is `none` where `thread_` is not joinable. The process ends where a call
of `start` terminates it, and where the worker dies. -/
structure ExporterState (δ σ : Type) where
  thread : Option (Worker δ σ) := none
  running : Bool := false
  cancel : Bool := false
  ok : Bool := false
  owner : Owner := .idle
  terminated : Bool := false
  died : Bool := false

namespace Exporter

variable {δ σ : Type}

/-- The calls of the owner, the end of a join, and a step of the worker. `existing` are the names that
exist in the camera's folder when `start` looks. -/
inductive Label (δ : Type) where
  | start (existing : List Char → Bool) (dir : δ)
  | stop
  | wait
  | destroy
  | join
  | work

/-- `took` is the worker's turn for its next row, `cancelled` the store to `cancel_`. -/
inductive Event where
  | started (ok : Bool)
  | terminated
  | died
  | cancelled
  | took
  | ended
  deriving DecidableEq, Repr

/-- One step of the worker. -/
def work (E : Exporter δ σ) (s : ExporterState δ σ) : Option (ExporterState δ σ × List Event) :=
  match s.thread with
  | none | some .ended => none
  | some (.begun dir) =>
    match E.setup dir with
    | none => some ({ s with thread := some .clearing }, [])
    | some x => some ({ s with thread := some (.head x) }, [])
  | some (.head x) =>
    if s.cancel || !E.loop.more x then some ({ s with thread := some (.left x) }, [])
    else some ({ s with thread := some (.body x) }, [.took])
  | some (.body x) =>
    if E.died (E.loop.turn x).1 then some ({ s with died := true }, [.died])
    else match E.loop.turn x with
    | (x', true) => some ({ s with thread := some (.head x') }, [])
    | (x', false) => some ({ s with thread := some (.left x') }, [])
  | some (.left x) =>
    some ({ s with thread := some (.checked (E.good (E.finish x) && !s.cancel)) }, [])
  | some (.checked c) => some ({ s with thread := some .clearing, ok := c }, [])
  | some .clearing => some ({ s with thread := some .cleared, running := false }, [])
  | some .cleared => some ({ s with thread := some .ended }, [.ended])

/-- The assignment to a joinable `std::thread` calls `std::terminate`, as an exception does that leaves the
thread; nothing happens after it. -/
def machine (E : Exporter δ σ) : Machine (ExporterState δ σ) (Label δ) Event where
  step s l :=
    if s.terminated || s.died then none
    else match l, s.owner with
    | .start existing dir, .idle =>
      if s.running then some (s, [.started false])
      else if !existing E.blobName || !existing E.indexName then some (s, [.started false])
      else
        let s := { s with cancel := false, ok := false, running := true }
        if s.thread.isSome then some ({ s with terminated := true }, [.terminated])
        else some ({ s with thread := some (.begun dir) }, [.started true])
    | .stop, .idle => some ({ s with cancel := true, owner := .joining false }, [.cancelled])
    | .wait, .idle => some ({ s with owner := .joining false }, [])
    | .destroy, .idle => some ({ s with cancel := true, owner := .joining true }, [.cancelled])
    | .join, .joining destroys =>
      let owner := if destroys then .gone else .idle
      match s.thread with
      | none => some ({ s with owner := owner }, [])
      | some .ended => some ({ s with owner := owner, thread := none }, [])
      | some _ => none
    | .work, _ => E.work s
    | _, _ => none

/-- What one step of the worker can do. -/
inductive WorkStep (E : Exporter δ σ) (s : ExporterState δ σ) :
    ExporterState δ σ → List Event → Prop where
  | fails : s.thread = some (.begun dir) → E.setup dir = none →
    WorkStep E s { s with thread := some .clearing } []
  | setUp : s.thread = some (.begun dir) → E.setup dir = some x →
    WorkStep E s { s with thread := some (.head x) } []
  | leaves : s.thread = some (.head x) → s.cancel = true ∨ E.loop.more x = false →
    WorkStep E s { s with thread := some (.left x) } []
  | takes : s.thread = some (.head x) → s.cancel = false → E.loop.more x = true →
    WorkStep E s { s with thread := some (.body x) } [.took]
  | dies : s.thread = some (.body x) → E.loop.turn x = (x', go) → E.died x' = true →
    WorkStep E s { s with died := true } [.died]
  | goesOn : s.thread = some (.body x) → E.loop.turn x = (x', true) → E.died x' = false →
    WorkStep E s { s with thread := some (.head x') } []
  | breaks : s.thread = some (.body x) → E.loop.turn x = (x', false) → E.died x' = false →
    WorkStep E s { s with thread := some (.left x') } []
  | checks : s.thread = some (.left x) →
    WorkStep E s { s with thread := some (.checked (E.good (E.finish x) && !s.cancel)) } []
  | storesOk : s.thread = some (.checked c) →
    WorkStep E s { s with thread := some .clearing, ok := c } []
  | clears : s.thread = some .clearing →
    WorkStep E s { s with thread := some .cleared, running := false } []
  | ends : s.thread = some .cleared → WorkStep E s { s with thread := some .ended } [.ended]

/-- What one step can do. -/
inductive Step (E : Exporter δ σ) (s : ExporterState δ σ) :
    Label δ → ExporterState δ σ → List Event → Prop where
  | refuses : s.running = true ∨ existing E.blobName = false ∨ existing E.indexName = false →
    Step E s (.start existing dir) s [.started false]
  | starts : s.running = false → existing E.blobName = true → existing E.indexName = true →
    s.thread = none → Step E s (.start existing dir)
      { s with
        cancel := false
        ok := false
        running := true
        thread := some (.begun dir) } [.started true]
  | terminates : s.running = false → existing E.blobName = true → existing E.indexName = true →
    s.thread ≠ none → Step E s (.start existing dir)
      { s with
        cancel := false
        ok := false
        running := true
        terminated := true } [.terminated]
  | stop : Step E s .stop { s with cancel := true, owner := .joining false } [.cancelled]
  | wait : Step E s .wait { s with owner := .joining false } []
  | destroy : Step E s .destroy { s with cancel := true, owner := .joining true } [.cancelled]
  | returns : s.thread = none → Step E s .join { s with owner := owner } []
  | joins : s.thread = some .ended → Step E s .join { s with owner := owner, thread := none } []
  | work : WorkStep E s s' es → Step E s .work s' es

variable {E : Exporter δ σ} {s s' : ExporterState δ σ}

theorem WorkStep.of_work (h : E.work s = some (s', es)) : WorkStep E s s' es := by
  unfold work at h
  split at h
  · cases h
  · cases h
  · rename_i dir hw
    split at h <;> cases h
    · exact .fails hw ‹_›
    · exact .setUp hw ‹_›
  · rename_i x hw
    split at h <;> cases h
    · rename_i hc
      exact .leaves hw (by simpa using hc)
    · rename_i hc
      simp only [Bool.or_eq_true, Bool.not_eq_true', not_or, Bool.not_eq_true,
        Bool.not_eq_false] at hc
      exact .takes hw hc.1 hc.2
  · rename_i x hw
    split at h
    · rename_i hdied
      cases h
      exact .dies hw rfl hdied
    · rename_i hlives
      split at h <;> rename_i x' hturn <;> cases h <;> rw [hturn] at hlives
      · exact .goesOn hw hturn (by simpa using hlives)
      · exact .breaks hw hturn (by simpa using hlives)
  · cases h
    exact .checks ‹_›
  · cases h
    exact .storesOk ‹_›
  · cases h
    exact .clears ‹_›
  · cases h
    exact .ends ‹_›

theorem Step.of_step (h : E.machine.step s l = some (s', es)) :
    s.terminated = false ∧ Step E s l s' es := by
  simp only [machine] at h
  split at h
  · cases h
  rename_i hends
  obtain ⟨hterm, -⟩ : s.terminated = false ∧ s.died = false := by simpa using hends
  refine ⟨hterm, ?_⟩
  split at h
  · rename_i existing dir howner
    split at h
    · cases h
      exact .refuses (.inl ‹_›)
    rename_i hrun
    have hrun : s.running = false := by simpa using hrun
    split at h
    · rename_i hex
      cases h
      exact .refuses (.inr (by simpa using hex))
    · rename_i hex
      simp only [Bool.or_eq_true, Bool.not_eq_true', not_or, Bool.not_eq_false] at hex
      split at h <;> cases h
      · rename_i hthread
        exact .terminates hrun hex.1 hex.2 (by simpa [Option.isSome_iff_ne_none] using hthread)
      · rename_i hthread
        exact .starts hrun hex.1 hex.2 (by simpa using hthread)
  · cases h
    exact .stop
  · cases h
    exact .wait
  · cases h
    exact .destroy
  · rename_i destroys howner
    split at h <;> cases h
    · exact .returns ‹_›
    · exact .joins ‹_›
  · exact .work (.of_work h)
  · cases h

/-! ## The life of an exporter -/

/-- The thread has not yet cleared `running_`. -/
def busy : Option (Worker δ σ) → Bool
  | none | some .cleared | some .ended => false
  | some _ => true

/-- The number of worker threads that run. -/
def alive : Option (Worker δ σ) → Nat
  | none | some .ended => 0
  | some _ => 1

theorem alive_le (t : Option (Worker δ σ)) : alive t ≤ 1 := by
  unfold alive
  split <;> decide

theorem busy_eq_false {t : Option (Worker δ σ)} (h : alive t = 0) : busy t = false := by
  unfold alive at h
  split at h
  · rfl
  · rfl
  · cases h

/-- The process goes on, at most one worker runs, and `running()` is false once all that were started
have ended. -/
structure Safe (es : List Event) (s : ExporterState δ σ) : Prop where
  not_terminated : .terminated ∉ es
  one_worker : es.count (.started true) ≤ es.count .ended + 1
  not_running : es.count (.started true) = es.count .ended → s.running = false

/-- How the flags stand to the thread and to the history, as long as the process goes on. -/
structure Inv (es : List Event) (s : ExporterState δ σ) : Prop where
  terminated : s.terminated = true ↔ .terminated ∈ es
  running : s.terminated = false → s.running = busy s.thread
  count : s.terminated = false → es.count (.started true) = es.count .ended + alive s.thread

theorem Inv.safe_iff (H : Inv es s) : Safe es s ↔ s.terminated = false := by
  rw [← Bool.not_eq_true, H.terminated]
  refine ⟨fun h => h.not_terminated, fun h => ?_⟩
  have hterm : s.terminated = false := by rwa [← Bool.not_eq_true, H.terminated]
  have hcount := H.count hterm
  have hle := alive_le s.thread
  refine ⟨h, by omega, fun heq => ?_⟩
  rw [H.running hterm]
  exact busy_eq_false (by omega)

/-- A step of the worker changes the flags as it changes the place of the thread. -/
theorem WorkStep.counts (h : WorkStep E s s' e) :
    s'.terminated = s.terminated ∧ .terminated ∉ e ∧ e.count (.started true) = 0 ∧
      e.count .ended + alive s'.thread = alive s.thread ∧
      (s.running = busy s.thread → s'.running = busy s'.thread) := by
  cases h <;> simp_all [alive, busy]

theorem Inv.next (H : Inv es s) (ht : s.terminated = false) (h : Step E s l s' e) :
    Inv (es ++ e) s' := by
  have hrunning := H.running ht
  have hcount := H.count ht
  have hes : Event.terminated ∉ es := fun hmem => by simp [H.terminated.mpr hmem] at ht
  cases h with
  | refuses => exact ⟨by simpa using H.terminated, fun _ => hrunning, by simpa using H.count⟩
  | starts hr _ _ hthread =>
    rw [hthread] at hcount
    exact ⟨by simpa using H.terminated, fun _ => rfl, fun _ => by simp [hcount, alive]⟩
  | terminates => exact ⟨by simp, nofun, nofun⟩
  | stop | wait | destroy | returns =>
    exact ⟨by simpa using H.terminated, fun _ => hrunning, by simpa using H.count⟩
  | joins hthread =>
    rw [hthread] at hrunning hcount
    exact ⟨by simpa using H.terminated, fun _ => hrunning, fun _ => by simpa [alive] using hcount⟩
  | work hw =>
    obtain ⟨hterm, hmem, hstarted, halive, hrun⟩ := hw.counts
    refine ⟨by simp [hterm, H.terminated, hmem], fun _ => hrun hrunning, fun _ => ?_⟩
    rw [List.count_append, List.count_append, hstarted, hcount]
    omega

theorem Inv.of_run (h : E.machine.run {} ls = some (s, es)) : Inv es s := by
  refine Machine.invariant (P := Inv) ⟨by simp, fun _ => rfl, fun _ => rfl⟩ ?_ h
  intro es s l s' e H hs
  obtain ⟨ht, hstep⟩ := Step.of_step hs
  exact H.next ht hstep

/-- `start` is called, with the input files in place, only on an exporter whose last worker is still
busy or has been joined. -/
def JoinsFirst (E : Exporter δ σ) (_ : List Event) (s : ExporterState δ σ) (l : Label δ) : Prop :=
  ∀ existing dir, l = .start existing dir → existing E.blobName = true →
    existing E.indexName = true → s.running = false → s.thread = none

theorem Step.terminated_iff (H : Step E s l s' e) (ht : s.terminated = false) :
    s'.terminated = false ↔ JoinsFirst E es s l := by
  cases H with
  | refuses hwhy =>
    refine iff_of_true ht ?_
    rintro existing dir heq hblob hindex hrun
    cases heq
    simp_all
  | starts _ _ _ hthread => exact iff_of_true ht fun _ _ _ _ _ _ => hthread
  | terminates hrun hblob hindex hthread =>
    exact iff_of_false (by simp) fun H => hthread (H _ _ rfl hblob hindex hrun)
  | work hw => exact iff_of_true (hw.counts.1.trans ht) nofun
  | _ => exact iff_of_true ht nofun

/-- The life of an exporter is safe exactly if its owner joins a finished worker before it starts the
next one. -/
theorem safe_iff_along (h : E.machine.run {} ls = some (s, es)) :
    E.machine.Throughout Safe {} ls ↔ E.machine.Along (JoinsFirst E) {} ls := by
  refine Machine.throughout_iff_along ⟨by simp, Nat.zero_le _, fun _ => rfl⟩ ?_ h
  intro pre s es l s' e hrun _ hs
  obtain ⟨ht, hstep⟩ := Step.of_step hs
  rw [((Inv.of_run hrun).next ht hstep).safe_iff]
  exact hstep.terminated_iff ht

/-! ## What success says -/

/-- The rows the worker has turned to. -/
def taken (es : List Event) : Nat := es.count .took

@[simp] theorem taken_append (es es' : List Event) : taken (es ++ es') = taken es + taken es' :=
  List.count_append

/-- The loop ran to its end and all was well, and `cancel_` was not set before its last turn. -/
def Completed (E : Exporter δ σ) (dir : δ) (es : List Event) : Prop :=
  ∃ x₀ x, E.setup dir = some x₀ ∧ E.loop.Final x₀ (taken es) x ∧ E.good (E.finish x) = true ∧
    ∀ pre post, es = pre ++ .cancelled :: post → taken pre = taken es

theorem Completed.append (H : Completed E dir es) (he : taken e = 0) :
    Completed E dir (es ++ e) := by
  obtain ⟨x₀, x, hsetup, hfinal, hgood, hlate⟩ := H
  have htaken : taken (es ++ e) = taken es := by rw [taken_append, he, Nat.add_zero]
  refine ⟨x₀, x, hsetup, htaken ▸ hfinal, hgood, fun pre post heq => ?_⟩
  rw [htaken]
  rcases List.append_eq_append_iff.mp heq with ⟨mid, rfl, rfl⟩ | ⟨mid, rfl, hmid⟩
  · rw [taken_append] at he ⊢
    omega
  · cases mid with
    | nil => rw [List.append_nil]
    | cons m mid =>
      obtain ⟨rfl, rfl⟩ := List.cons.inj hmid
      exact hlate pre mid rfl

/-- The worker is past its store to `ok_`, or returns without one. -/
def stored : Option (Worker δ σ) → Bool
  | none | some .clearing | some .cleared | some .ended => true
  | some _ => false

/-- How far the worker that was started on `dir` has come. -/
structure Progress (E : Exporter δ σ) (dir : δ) (es : List Event) (s : ExporterState δ σ) : Prop where
  uncancelled : s.cancel = false → .cancelled ∉ es
  begun : ∀ d, s.thread = some (.begun d) → d = dir ∧ taken es = 0
  head : ∀ x, s.thread = some (.head x) →
    ∃ x₀, E.setup dir = some x₀ ∧ E.loop.Turns x₀ (taken es) x
  body : ∀ x, s.thread = some (.body x) → ∃ x₀ n, E.setup dir = some x₀ ∧
    E.loop.Turns x₀ n x ∧ E.loop.more x = true ∧ taken es = n + 1
  left : ∀ x, s.thread = some (.left x) → s.cancel = false →
    ∃ x₀, E.setup dir = some x₀ ∧ E.loop.Final x₀ (taken es) x
  checked : s.thread = some (.checked true) → Completed E dir es
  ok : s.ok = true → Completed E dir es ∧ stored s.thread = true

/-- What is said of a worker that stays where it is survives what the owner does. -/
theorem Progress.of_owner (H : Progress E dir es s) (ht : s'.thread = s.thread) (ho : s'.ok = s.ok)
    (he : taken e = 0) (hc : s'.cancel = false → s.cancel = false ∧ .cancelled ∉ e) :
    Progress E dir (es ++ e) s' := by
  have htaken : taken (es ++ e) = taken es := by rw [taken_append, he, Nat.add_zero]
  constructor
  case uncancelled =>
    intro h
    obtain ⟨hs, hmem⟩ := hc h
    simp [H.uncancelled hs, hmem]
  case begun => exact htaken ▸ ht ▸ H.begun
  case head => exact htaken ▸ ht ▸ H.head
  case body => exact htaken ▸ ht ▸ H.body
  case left =>
    intro x hx h
    rw [htaken]
    exact H.left x (ht ▸ hx) (hc h).1
  case checked => exact fun h => (H.checked (ht ▸ h)).append he
  case ok =>
    intro h
    obtain ⟨hdone, hstored⟩ := H.ok (ho ▸ h)
    exact ⟨hdone.append he, ht ▸ hstored⟩

theorem Progress.work (H : Progress E dir es s) (h : WorkStep E s s' e) :
    Progress E dir (es ++ e) s' := by
  obtain ⟨h1, h2, h3, h4, h5, h6, h7⟩ := H
  have hnot : stored s.thread = false → s.ok = true → False := fun hs hok => by
    simp [hs] at h7
    simp [h7] at hok
  cases h with
  | fails hw hsetup =>
    rw [List.append_nil]
    refine ⟨h1, nofun, nofun, nofun, nofun, nofun, fun hok => ⟨(h7 hok).1, rfl⟩⟩
  | setUp hw hsetup =>
    rw [List.append_nil]
    obtain ⟨rfl, htaken⟩ := h2 _ hw
    refine ⟨h1, nofun, fun x hx => ?_, nofun, nofun, nofun, fun hok => (hnot (by rw [hw]; rfl) hok).elim⟩
    cases hx
    exact ⟨_, hsetup, htaken ▸ .zero⟩
  | leaves hw hwhy =>
    rw [List.append_nil]
    refine ⟨h1, nofun, nofun, nofun, fun x hx hc => ?_, nofun,
      fun hok => (hnot (by rw [hw]; rfl) hok).elim⟩
    cases hx
    obtain ⟨x₀, hsetup, hturns⟩ := h3 _ hw
    have hmore := hwhy.resolve_left (by simp [show s.cancel = false from hc])
    exact ⟨x₀, hsetup, .exhausted hturns hmore⟩
  | dies => exact Progress.of_owner ⟨h1, h2, h3, h4, h5, h6, h7⟩ rfl rfl rfl fun hc => ⟨hc, by simp⟩
  | takes hw hc hmore =>
    obtain ⟨x₀, hsetup, hturns⟩ := h3 _ hw
    refine ⟨fun hc => by simpa using h1 hc, nofun, nofun, fun x hx => ?_, nofun, nofun,
      fun hok => (hnot (by rw [hw]; rfl) hok).elim⟩
    cases hx
    exact ⟨x₀, taken es, hsetup, hturns, hmore, by simp [taken]⟩
  | goesOn hw hturn =>
    rw [List.append_nil]
    obtain ⟨x₀, n, hsetup, hturns, hmore, htaken⟩ := h4 _ hw
    refine ⟨h1, nofun, fun x hx => ?_, nofun, nofun, nofun,
      fun hok => (hnot (by rw [hw]; rfl) hok).elim⟩
    cases hx
    exact ⟨x₀, hsetup, htaken ▸ .succ hturns hmore hturn⟩
  | breaks hw hturn =>
    rw [List.append_nil]
    obtain ⟨x₀, n, hsetup, hturns, hmore, htaken⟩ := h4 _ hw
    refine ⟨h1, nofun, nofun, nofun, fun x hx _ => ?_, nofun,
      fun hok => (hnot (by rw [hw]; rfl) hok).elim⟩
    cases hx
    exact ⟨x₀, hsetup, htaken ▸ .leaves hturns hmore hturn⟩
  | checks hw =>
    rw [List.append_nil]
    refine ⟨h1, nofun, nofun, nofun, nofun, fun hx => ?_,
      fun hok => (hnot (by rw [hw]; rfl) hok).elim⟩
    simp only [Option.some.injEq, Worker.checked.injEq, Bool.and_eq_true, Bool.not_eq_true'] at hx
    obtain ⟨x₀, hsetup, hfinal⟩ := h5 _ hw hx.2
    refine ⟨x₀, _, hsetup, hfinal, hx.1, fun pre post heq => ?_⟩
    exact absurd (heq ▸ List.mem_append_right pre List.mem_cons_self) (h1 hx.2)
  | @storesOk c hw =>
    rw [List.append_nil]
    refine ⟨h1, nofun, nofun, nofun, nofun, nofun, fun hok => ?_⟩
    cases hok
    exact ⟨h6 hw, rfl⟩
  | clears hw =>
    rw [List.append_nil]
    exact ⟨h1, nofun, nofun, nofun, nofun, nofun, fun hok => ⟨(h7 hok).1, rfl⟩⟩
  | ends hw =>
    exact ⟨fun hc => by simpa using h1 hc, nofun, nofun, nofun, nofun, nofun,
      fun hok => ⟨(h7 hok).1.append rfl, rfl⟩⟩

/-- `start` is not called. -/
def Label.noStart : Label δ → Prop
  | .start _ _ => False
  | _ => True

theorem Progress.next (H : Progress E dir es s) (hl : l.noStart) (h : Step E s l s' e) :
    Progress E dir (es ++ e) s' := by
  cases h with
  | refuses | starts | terminates => exact hl.elim
  | stop | destroy => exact H.of_owner rfl rfl rfl nofun
  | wait | returns => exact H.of_owner rfl rfl rfl fun hc => ⟨hc, by simp⟩
  | joins hthread =>
    rw [List.append_nil]
    exact ⟨H.uncancelled, nofun, nofun, nofun, nofun, nofun, fun hok => ⟨(H.ok hok).1, rfl⟩⟩
  | work hw => exact H.work hw

theorem Progress.of_run (h₀ : s₀.thread = none) (hls : ∀ l ∈ ls, Label.noStart l)
    (h : E.machine.run s₀ (.start existing dir :: ls) = some (s, .started true :: es)) :
    Progress E dir es s := by
  obtain ⟨s₁, e₁, e₂, hstep, hrun, heq⟩ := Machine.run_cons.mp h
  have hstart : Progress E dir [] s₁ ∧ e₁ = [.started true] := by
    cases (Step.of_step hstep).2 with
    | refuses => cases heq
    | starts =>
      refine ⟨⟨fun _ => by simp, fun d hd => ?_, nofun, nofun, nofun, nofun, nofun⟩, rfl⟩
      cases hd
      exact ⟨rfl, rfl⟩
    | terminates _ _ _ hthread => exact absurd h₀ hthread
  obtain ⟨hstart, rfl⟩ := hstart
  obtain ⟨-, rfl⟩ := List.cons.inj heq
  revert hls
  refine Machine.run_induction (P := fun ls es s => (∀ l ∈ ls, Label.noStart l) →
    Progress E dir es s) (fun _ => hstart) ?_ hrun
  intro ls es s l s' e _ ih hs hls
  rw [List.forall_mem_append, List.forall_mem_singleton] at hls
  exact (ih hls.1).next hls.2 (Step.of_step hs).2

/-- After `start` returned true and until it is called again: where `succeeded()` is true the loop took
all of the `total` rows and the export was `Complete`, and where `cancel_` was set before the last row was
taken it is false. -/
def Sound (E : Exporter δ σ) (dir : δ) (total : Nat) (Complete : Prop) : Prop :=
  ∀ s₀ existing ls s es, s₀.thread = none → (∀ l ∈ ls, Label.noStart l) →
    E.machine.run s₀ (.start existing dir :: ls) = some (s, .started true :: es) →
    (s.ok = true → taken es = total ∧ Complete) ∧
    (∀ pre post, es = pre ++ .cancelled :: post → taken pre < total → s.ok = false)

theorem sound_of_final {total : Nat} {Complete : Prop}
    (hfinal : ∀ {x₀ n x}, E.setup dir = some x₀ → E.loop.Final x₀ n x →
      E.good (E.finish x) = true → n = total ∧ Complete) : E.Sound dir total Complete := by
  intro s₀ existing ls s es h₀ hls h
  have H := Progress.of_run h₀ hls h
  constructor
  · intro hok
    obtain ⟨⟨x₀, x, hsetup, hx, hgood, -⟩, -⟩ := H.ok hok
    exact hfinal hsetup hx hgood
  · intro pre post heq hlt
    apply Bool.eq_false_of_not_eq_true
    intro hok
    obtain ⟨⟨x₀, x, hsetup, hx, hgood, hlate⟩, -⟩ := H.ok hok
    have hn := (hfinal hsetup hx hgood).1
    have := hlate pre post heq
    omega

end Exporter
end Kist
