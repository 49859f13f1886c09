import KistCollector.System.LabelPrompt
import KistCollector.System.MetaRecord
import KistCollector.System.Reports

/-!
# The process

`main` reads the configuration, puts the DDS URI into the environment, starts the collector, reports once a
second until a signal comes, stops it, asks for a label and appends it (`Process.machine`). Signals may
come at any point and the recorders go on in between. The three writes of `meta.yaml` are not checked, so
each may fail or be cut short (`MetaFile`). As long as none has, the file of the session records in every
state what has happened so far (`Process.file_records`). The history of every run is reports at least a
second apart, one end, and at most one label (`Process.life`). The threads of the streams are not steps
here: `stop` of the collector is one step, which says how far their queues were drained.
-/

namespace Kist

/-! ## The DDS configuration -/

/-- What `apply_dds_config` meets: the variable `CYCLONEDDS_URI`, what `std::filesystem::absolute` makes of
a path without an error, and whether a file exists, where `none` is an exception. -/
structure DdsEnv where
  uri : Option (List Char)
  absolute : PosixPath → Option PosixPath
  fileExists : PosixPath → Option Bool

/-- The effective URI, where `none` is a false return, and the environment afterwards. -/
def applyDdsConfig {N : Type} [Yaml N] (root : N) (env : DdsEnv) : Option (Option (List Char) × DdsEnv) :=
  match env.uri with
  | some (c :: cs) => some (some (c :: cs), env)
  | _ => do
    let path ← DataCollector.Settings.fieldOf Yaml.asString root "unitree" "dds_config"
      "config/cyclonedds.xml".toList
    match env.absolute path with
    | none => pure (none, env)
    | some abs =>
      if ← env.fileExists abs then
        let uri := "file://".toList ++ abs
        pure (some uri, { env with uri := some uri })
      else pure (none, env)

/-- The URI that is returned is the one in the environment. -/
theorem applyDdsConfig_uri {N : Type} [Yaml N] {root : N} {env env' : DdsEnv}
    (h : applyDdsConfig root env = some (some uri, env')) : env'.uri = some uri := by
  unfold applyDdsConfig at h
  split at h
  · rename_i c cs huri
    cases h
    exact huri
  · obtain ⟨path, -, h⟩ := Option.bind_eq_some_iff.mp h
    cases habs : env.absolute path with
    | none =>
      simp only [habs] at h
      cases h
    | some abs =>
      simp only [habs] at h
      obtain ⟨found, -, h⟩ := Option.bind_eq_some_iff.mp h
      cases found with
      | false => cases h
      | true =>
        cases h
        rfl

/-! ## The writes of `meta.yaml` -/

/-- How far a write of a text gets: the stream cannot be opened, the device takes no more, or neither. -/
inductive WriteEnd where
  | unopened
  | upTo (n : Nat)
  | all

namespace WriteEnd

def arrived (text : List Char) : WriteEnd → List Char
  | unopened => []
  | upTo n => text.take n
  | all => text

def isAll (text : List Char) : WriteEnd → Bool
  | unopened => text.isEmpty
  | upTo n => decide (text.length ≤ n)
  | all => true

theorem arrived_of_isAll {text : List Char} {r : WriteEnd} (h : r.isAll text = true) :
    r.arrived text = text := by
  cases r with
  | unopened => exact (List.isEmpty_iff.mp h).symm
  | upTo n => exact List.take_of_length_le (of_decide_eq_true h)
  | all => rfl

end WriteEnd

/-- The file of the session. `whole` is not in the source: every write so far has gone through. -/
structure MetaFile where
  text : List Char := []
  whole : Bool := true

namespace MetaFile

/-- A stream that truncates the file when it is opened. -/
def truncate (f : MetaFile) (text : List Char) : WriteEnd → MetaFile
  | .unopened => { f with whole := false }
  | r => { text := r.arrived text, whole := r.isAll text }

/-- A stream that appends. -/
def append (f : MetaFile) (text : List Char) (r : WriteEnd) : MetaFile where
  text := f.text ++ r.arrived text
  whole := f.whole && r.isAll text

theorem truncate_of_whole {f : MetaFile} {text : List Char} {r : WriteEnd}
    (h : (f.truncate text r).whole = true) : (f.truncate text r).text = text := by
  cases r with
  | unopened => cases h
  | upTo n => exact WriteEnd.arrived_of_isAll (r := .upTo n) h
  | all => rfl

theorem append_of_whole {f : MetaFile} {text : List Char} {r : WriteEnd} (h : (f.append text r).whole = true) :
    f.whole = true ∧ (f.append text r).text = f.text ++ text := by
  obtain ⟨hwhole, hall⟩ := Bool.and_eq_true_iff.mp h
  exact ⟨hwhole, congrArg (f.text ++ ·) (WriteEnd.arrived_of_isAll hall)⟩

end MetaFile

/-! ## `main` -/

/-- What `main` meets before its loop. `steadyNs` is the first reading of the steady clock, `metaYaml` what is
in the file before it is written, and `reached` how far the first write gets. -/
structure ProcessEnv where
  dds : DdsEnv
  collector : DataCollector.Env
  utc : Int64 → Tm
  steadyNs : Int
  metaYaml : MetaFile
  reached : WriteEnd

/-- `main` from the installation of the handlers on. `window` is a time of the steady clock. -/
structure Process where
  main : LabelPrompt.State := {}
  collector : Collector
  window : Int
  metaYaml : MetaFile

namespace Process

open LabelPrompt (Signal Move Pc)
open BlockYaml (plainSafe quotedSafe)

/-- What `start` writes to `meta.yaml`. -/
def writtenAtStart (utc : Int64 → Tm) (settings : DataCollector.Settings) : Collector.Event → List Char
  | .started session names =>
    sessionWriteMeta utc session settings.domainId settings.ddsUri names settings.task
  | _ => []

/-- `main` up to its loop, with the environment it leaves. `none` is an exception, and a `none` inside is the
exit code 1. -/
def boot {N : Type} [Yaml N] (env : ProcessEnv) (root : N) : Option (Option Process × DdsEnv) := do
  let settings ← DataCollector.Settings.fromYaml root
  let (uri, dds) ← applyDdsConfig root env.dds
  match uri with
  | none => pure (none, dds)
  | some uri =>
    let settings := { settings with ddsUri := uri }
    match ({} : Collector).start env.collector settings with
    | (false, _, _) => pure (none, dds)
    | (true, collector, events) =>
      let text := events.flatMap (writtenAtStart env.utc settings)
      pure (some
        { collector := collector
          window := env.steadyNs
          metaYaml := env.metaYaml.truncate text env.reached }, dds)

/-- `wake` is the end of a sleep with the reading of the clock after it, `stop` and `writeResult` the calls
of these names, with how far their writes of `meta.yaml` get, and `main` any other step of `main`, of a signal
or of a handler. -/
inductive Label where
  | main (m : Move)
  | wake (now : Int)
  | stop (drain : Stream → StreamStats) (endedNs : Int64) (reached : WriteEnd)
  | writeResult (reached : WriteEnd)
  | arrive (more : Stream → StreamStats)

inductive Event where
  | delivered (signal : Signal)
  | collector (e : Collector.Event)
  | reportedAt (now : Int)
  | finalized (endedNs : Int64) (summary : List StreamSummary)
  | labelled (result : List Char)

def Event.ofPrompt : LabelPrompt.Event → Event
  | .delivered signal => .delivered signal

/-- The summaries that the collector appends. -/
def summaries (es : List Collector.Event) : List (List StreamSummary) :=
  es.filterMap fun
    | .finalized _ summary => some summary
    | _ => none

/-- A second of the steady clock. -/
def second : Int := 1000000000

/-- `main` with its collector, under any schedule of its steps, of signals and of the recorders. -/
def machine (utc : Int64 → Tm) (tty : Bool) : Machine Process Label Event where
  step s
    | .main m =>
      -- these steps of `main` have labels of their own
      if m = .main ∧ s.main.pc ∈ [Pc.sleep, .collectorStop, .writeResult] then none
      else ((LabelPrompt.machine tty).step s.main m).map fun p =>
        ({ s with main := p.1 }, p.2.map .ofPrompt)
    | .wake now =>
      if s.main.pc = .sleep then
        let s := { s with main := { s.main with pc := .loop } }
        if now - s.window < second then some (s, [])
        else
          match s.collector.printReport with
          | some (lines, collector) =>
            some ({ s with collector := collector, window := now },
              [.reportedAt now, .collector (.reported lines)])
          | none => some ({ s with window := now }, [.reportedAt now, .collector .outOfRange])
      else none
    | .stop drain endedNs reached =>
      if s.main.pc = .collectorStop then
        let (collector, events) := s.collector.stop drain
        let text := (summaries events).flatMap (sessionFinalizeMeta utc endedNs)
        some ({ s with
            main := { s.main with pc := .testSignal }
            collector := collector
            metaYaml := s.metaYaml.append text reached },
          events.map .collector ++ (summaries events).map (.finalized endedNs))
      else none
    | .writeResult reached =>
      if s.main.pc = .writeResult then
        let text := sessionAppendResult s.collector.session s.main.result
        some ({ s with
            main := { s.main with pc := .exit }
            metaYaml := s.metaYaml.append text reached },
          [.labelled s.main.result])
      else none
    | .arrive more => some ({ s with collector := s.collector.arrive more }, [])

/-! ## One step -/

/-- What one step of the process can do. -/
inductive Step (utc : Int64 → Tm) (tty : Bool) (s : Process) : Label → Process → List Event → Prop
  | main : ¬ (m = .main ∧ s.main.pc ∈ [Pc.sleep, .collectorStop, .writeResult]) →
    (LabelPrompt.machine tty).step s.main m = some (next, es) →
    Step utc tty s (.main m) { s with main := next } (es.map .ofPrompt)
  | early : s.main.pc = .sleep → now - s.window < second →
    Step utc tty s (.wake now) { s with main := { s.main with pc := .loop } } []
  | report : s.main.pc = .sleep → s.window + second ≤ now → s.collector.printReport = some (lines, c) →
    Step utc tty s (.wake now)
      { s with main := { s.main with pc := .loop }, collector := c, window := now }
      [.reportedAt now, .collector (.reported lines)]
  | outOfRange : s.main.pc = .sleep → s.window + second ≤ now → s.collector.printReport = none →
    Step utc tty s (.wake now) { s with main := { s.main with pc := .loop }, window := now }
      [.reportedAt now, .collector .outOfRange]
  | stop : s.main.pc = .collectorStop → s.collector.stop drain = (c, events) →
    Step utc tty s (.stop drain endedNs reached)
      { s with
        main := { s.main with pc := .testSignal }
        collector := c
        metaYaml := s.metaYaml.append ((summaries events).flatMap (sessionFinalizeMeta utc endedNs)) reached }
      (events.map .collector ++ (summaries events).map (.finalized endedNs))
  | writeResult : s.main.pc = .writeResult → Step utc tty s (.writeResult reached)
      { s with
        main := { s.main with pc := .exit }
        metaYaml := s.metaYaml.append (sessionAppendResult s.collector.session s.main.result) reached }
      [.labelled s.main.result]
  | arrive : Step utc tty s (.arrive more) { s with collector := s.collector.arrive more } []

variable {utc : Int64 → Tm} {tty : Bool} {p s s' : Process}

theorem Step.of_step (h : (machine utc tty).step s l = some (s', es)) : Step utc tty s l s' es := by
  cases l with
  | main m =>
    obtain ⟨hm, h⟩ := Option.ite_none_left_eq_some.mp h
    obtain ⟨⟨main, e⟩, hstep, heq⟩ := Option.map_eq_some_iff.mp h
    cases heq
    exact .main hm hstep
  | wake now =>
    obtain ⟨hpc, h⟩ := Option.ite_none_right_eq_some.mp h
    by_cases hnow : now - s.window < second
    · rw [if_pos hnow] at h
      cases h
      exact .early hpc hnow
    · rw [if_neg hnow] at h
      have hlate : s.window + second ≤ now := by omega
      cases hr : s.collector.printReport with
      | some r =>
        simp only [hr] at h
        cases h
        exact .report hpc hlate hr
      | none =>
        simp only [hr] at h
        cases h
        exact .outOfRange hpc hlate hr
  | stop drain endedNs reached =>
    obtain ⟨hpc, h⟩ := Option.ite_none_right_eq_some.mp h
    cases h
    exact .stop hpc rfl
  | writeResult reached =>
    obtain ⟨hpc, h⟩ := Option.ite_none_right_eq_some.mp h
    cases h
    exact .writeResult hpc
  | arrive more =>
    cases h
    exact .arrive

/-! ## The parts of a run -/

def Event.signal? : Event → Option LabelPrompt.Event
  | .delivered signal => some (.delivered signal)
  | _ => none

def Event.collector? : Event → Option Collector.Event
  | .collector e => some e
  | _ => none

def Event.reportedAt? : Event → Option Int
  | .reportedAt now => some now
  | _ => none

def Event.finalized? : Event → Option (Int64 × List StreamSummary)
  | .finalized endedNs summary => some (endedNs, summary)
  | _ => none

def Event.labelled? : Event → Option (List Char)
  | .labelled result => some result
  | _ => none

theorem signal?_ofPrompt (es : List LabelPrompt.Event) :
    (es.map Event.ofPrompt).filterMap Event.signal? = es := by
  induction es with
  | nil => rfl
  | cons e es ih =>
    obtain ⟨signal⟩ := e
    exact congrArg (LabelPrompt.Event.delivered signal :: ·) ih

theorem collector?_collector (es : List Collector.Event) :
    (es.map Event.collector).filterMap Event.collector? = es := by
  simp [List.filterMap_map, Function.comp_def, Event.collector?]

/-- Nothing but the calls of the collector is seen of it. -/
theorem seen_collector {f : Event → Option α} (hf : ∀ e, f (.collector e) = none)
    (es : List Collector.Event) : seen f (es.map Event.collector) = [] := by
  rw [seen, List.filterMap_eq_nil_iff]
  intro e he
  obtain ⟨e, -, rfl⟩ := List.mem_map.mp he
  exact hf e

/-- Nothing but signals is seen of the prompt. -/
theorem seen_ofPrompt {f : Event → Option α} (hf : ∀ signal, f (.delivered signal) = none)
    (es : List LabelPrompt.Event) : seen f (es.map Event.ofPrompt) = [] := by
  rw [seen, List.filterMap_eq_nil_iff]
  intro e he
  obtain ⟨⟨signal⟩, -, rfl⟩ := List.mem_map.mp he
  exact hf signal

/-- A run of the process is a run of `main` with its signals and its prompt. -/
theorem main_run (h : (machine utc tty).run p ls = some (s, es)) :
    ∃ ms, (LabelPrompt.machine tty).run p.main ms = some (s.main, seen Event.signal? es) := by
  refine Machine.project (fun s : Process => s.main) Event.signal? ?_ h
  intro s l s' e hs
  have hmain (pc : Pc) (hpc : LabelPrompt.advance tty s.main = some { s.main with pc := pc }) :
      (LabelPrompt.machine tty).run s.main [.main] = some ({ s.main with pc := pc }, []) := by
    rw [Machine.run_singleton]
    exact congrArg (Option.map fun s => (s, [])) hpc
  cases Step.of_step hs with
  | @main m next e _ hstep =>
    refine ⟨[m], ?_⟩
    rw [Machine.run_singleton, hstep, signal?_ofPrompt]
  | early hpc | report hpc | outOfRange hpc =>
    exact ⟨[.main], hmain .loop (by rw [LabelPrompt.advance, hpc])⟩
  | @stop _ _ events _ _ hpc =>
    refine ⟨[.main], (hmain .testSignal (by rw [LabelPrompt.advance, hpc])).trans ?_⟩
    have hnone := seen_collector (f := Event.signal?) (fun _ => rfl) events
    rw [seen] at hnone
    rw [List.filterMap_append, hnone]
    simp [Event.signal?, List.filterMap_map]
  | writeResult hpc => exact ⟨[.main], hmain .exit (by rw [LabelPrompt.advance, hpc])⟩
  | arrive => exact ⟨[], rfl⟩

/-- What one step of the process is to its collector: nothing, or one of its calls. -/
theorem Step.collector (h : Step utc tty s l s' es) :
    (s'.collector = s.collector ∧ seen Event.collector? es = []) ∨
      ∃ k, k.isStart = false ∧
        Collector.machine.step s.collector k = some (s'.collector, seen Event.collector? es) := by
  cases h with
  | main => exact .inl ⟨rfl, seen_ofPrompt (fun _ => rfl) _⟩
  | early | writeResult => exact .inl ⟨rfl, rfl⟩
  | report _ _ hr | outOfRange _ _ hr =>
    refine .inr ⟨.report, rfl, ?_⟩
    simp only [Collector.machine, hr]
    rfl
  | @stop drain c events endedNs _ hpc hstop =>
    refine .inr ⟨.stop drain, rfl, ?_⟩
    rw [seen_append, seen, collector?_collector]
    simp [Collector.machine, hstop, seen, Event.collector?, List.filterMap_map]
  | @arrive more => exact .inr ⟨.arrive more, rfl, rfl⟩

/-- A run of the process is a run of its collector, in one session. -/
theorem collector_run (h : (machine utc tty).run p ls = some (s, es)) :
    ∃ ks, Collector.machine.run p.collector ks = some (s.collector, seen Event.collector? es) ∧
      ∀ k ∈ ks, k.isStart = false := by
  refine Machine.invariant (P := fun es s => ∃ ks,
    Collector.machine.run p.collector ks = some (s.collector, seen Event.collector? es) ∧
      ∀ k ∈ ks, k.isStart = false) ⟨[], rfl, by simp⟩ ?_ h
  rintro es s l s' e ⟨ks, hrun, hks⟩ hs
  rw [seen_append]
  rcases (Step.of_step hs).collector with ⟨hsame, hnone⟩ | ⟨k, hk, hstep⟩
  · rw [hsame, hnone, List.append_nil]
    exact ⟨ks, hrun, hks⟩
  · refine ⟨ks ++ [k], Machine.run_snoc.mpr ⟨_, _, _, hrun, hstep, rfl⟩, fun k' hk' => ?_⟩
    rcases List.mem_append.mp hk' with hk' | hk'
    · exact hks k' hk'
    · rw [List.mem_singleton.mp hk']
      exact hk

/-! ## The file of the session -/

/-- `stop` has not been called. -/
def recording : Pc → Bool
  | .loop | .sleep | .collectorStop => true
  | _ => false

/-- The file as `start` wrote it and with what was appended since. `names` are the cameras in it. -/
structure Filed (utc : Int64 → Tm) (written : List Char) (session : SessionInfo)
    (names : List (List Char)) (es : List Event) (s : Process) : Prop where
  inv : Collector.Inv s.collector
  sameSession : s.collector.session = session
  text : s.metaYaml.whole = true → s.metaYaml.text = written ++
    (seen Event.finalized? es).flatMap (fun p => sessionFinalizeMeta utc p.1 p.2) ++
    (seen Event.labelled? es).flatMap (sessionAppendResult session)
  running : recording s.main.pc = true → s.collector.running = true ∧
    s.collector.cameras.map (·.name) = names ∧ seen Event.finalized? es = []
  stopped : recording s.main.pc = false → ∃ endedNs summary,
    seen Event.finalized? es = [(endedNs, summary)] ∧ OfStreams names summary
  labels : seen Event.labelled? es ≠ [] → s.main.pc = .exit ∧
    ∃ result ∈ results, seen Event.labelled? es = [result]

theorem recording_advance {s s' : LabelPrompt.State}
    (hpc : s.pc ∉ [Pc.sleep, .collectorStop, .writeResult]) (h : LabelPrompt.advance tty s = some s') :
    recording s'.pc = recording s.pc ∧ (s.pc = .exit → s'.pc = .exit) := by
  unfold LabelPrompt.advance at h
  cases hs : s.pc <;> rw [hs] at h <;> cases h
  case sleep | collectorStop | writeResult => simp [hs] at hpc
  case loop | testSignal | isatty =>
    dsimp only
    split <;> exact ⟨rfl, nofun⟩
  all_goals exact ⟨rfl, nofun⟩

/-- The steps without a label of their own do not cross from the recording to its end. -/
theorem recording_main {s s' : LabelPrompt.State} {m : Move}
    (hm : ¬ (m = .main ∧ s.pc ∈ [Pc.sleep, .collectorStop, .writeResult]))
    (h : (LabelPrompt.machine tty).step s m = some (s', es)) :
    recording s'.pc = recording s.pc ∧ (s.pc = .exit → s'.pc = .exit) := by
  cases m with
  | main =>
    obtain ⟨s₁, hs, heq⟩ := Option.map_eq_some_iff.mp h
    cases heq
    exact recording_advance (fun hpc => hm ⟨rfl, hpc⟩) hs
  | tcgetattr ok =>
    obtain ⟨hpc, heq⟩ := Option.ite_none_right_eq_some.mp h
    cases heq
    rw [hpc]
    cases ok <;> exact ⟨rfl, nofun⟩
  | read answer =>
    obtain ⟨hpc, heq⟩ := Option.ite_none_right_eq_some.mp h
    cases heq
    have hold : recording s.pc = false ∧ s.pc ≠ .exit := by
      rcases hpc with hpc | ⟨hpc, -⟩ <;> rw [hpc] <;> exact ⟨rfl, nofun⟩
    refine ⟨?_, fun hexit => absurd hexit hold.2⟩
    rw [hold.1]
    cases answer with
    | nothing | failed => rfl
    | key c =>
      simp only [LabelPrompt.answered]
      split_ifs <;> rfl
  | deliver signal =>
    cases h
    cases signal with
    | sigterm => exact ⟨rfl, id⟩
    | sigint =>
      simp only [LabelPrompt.deliver]
      split_ifs with _ hpc
      · rw [hpc]
        exact ⟨rfl, nofun⟩
      · exact ⟨rfl, id⟩
      · exact ⟨rfl, id⟩
  | store i =>
    obtain ⟨s₁, hs, heq⟩ := Option.map_eq_some_iff.mp h
    cases heq
    obtain ⟨handler, -, rfl⟩ := Option.map_eq_some_iff.mp hs
    split <;> exact ⟨rfl, id⟩

theorem summaries_stop {c : Collector} (hrun : c.running = true) (drain : Stream → StreamStats) :
    summaries (c.stop drain).2 = [((c.stopAll drain).flatMap Collector.Stopped.entries).map Prod.snd] := by
  have hnone : summaries ((c.stopAll drain).flatMap Collector.Stopped.events) = [] := by
    rw [summaries, List.filterMap_eq_nil_iff]
    intro e he
    obtain ⟨t, -, he⟩ := List.mem_flatMap.mp he
    rcases List.mem_cons.mp he with rfl | he
    · rfl
    · obtain ⟨p, -, rfl⟩ := List.mem_map.mp he
      rfl
  rw [(Collector.stop_of_running hrun drain).1, summaries, List.filterMap_append]
  exact congrArg (· ++ _) hnone

section

variable {written : List Char} {session : SessionInfo} {names : List (List Char)} {es e : List Event}

/-- A step that leaves the file as it is. -/
theorem Filed.move (h : Filed utc written session names es s) {main : LabelPrompt.State} {c : Collector}
    (window : Int) (hpc : recording main.pc = recording s.main.pc)
    (hexit : s.main.pc = .exit → main.pc = .exit) (hinv : Collector.Inv c)
    (hcollector : c.running = s.collector.running ∧ c.session = s.collector.session ∧
      c.cameras.map (·.name) = s.collector.cameras.map (·.name))
    (he : ∀ d ∈ e, Event.finalized? d = none ∧ Event.labelled? d = none) :
    Filed utc written session names (es ++ e) ⟨main, c, window, s.metaYaml⟩ := by
  obtain ⟨hrun, hsession, hnames⟩ := hcollector
  have hfinalized : seen Event.finalized? e = [] := List.filterMap_eq_nil_iff.mpr fun d hd => (he d hd).1
  have hlabelled : seen Event.labelled? e = [] := List.filterMap_eq_nil_iff.mpr fun d hd => (he d hd).2
  refine ⟨hinv, hsession.trans h.sameSession, ?_, fun hp => ?_, fun hp => ?_, fun hl => ?_⟩
  all_goals simp only [seen_append, hfinalized, hlabelled, List.append_nil] at *
  · exact h.text
  · rw [hrun, hnames]
    exact h.running (hpc ▸ hp)
  · exact h.stopped (hpc ▸ hp)
  · exact (h.labels hl).imp_left hexit

theorem Filed.stop (h : Filed utc written session names es s) (hpc : s.main.pc = .collectorStop)
    (drain : Stream → StreamStats) (endedNs : Int64) (reached : WriteEnd) :
    Filed utc written session names
      (es ++ ((s.collector.stop drain).2.map .collector ++
        (summaries (s.collector.stop drain).2).map (.finalized endedNs)))
      { s with
        main := { s.main with pc := .testSignal }
        collector := (s.collector.stop drain).1
        metaYaml := s.metaYaml.append
          ((summaries (s.collector.stop drain).2).flatMap (sessionFinalizeMeta utc endedNs)) reached } := by
  obtain ⟨hrun, rfl, hnone⟩ := h.running (by rw [hpc]; rfl)
  have hlabels : seen Event.labelled? es = [] := by
    by_contra hl
    rw [(h.labels hl).1] at hpc
    cases hpc
  have hdead := (Collector.stop_of_running hrun drain).2
  have hfinalized := seen_collector (f := Event.finalized?) fun _ => rfl
  have hlabelled := seen_collector (f := Event.labelled?) fun _ => rfl
  have htext := h.text
  rw [hnone, hlabels] at htext
  rw [summaries_stop hrun drain]
  refine ⟨.of_dead hdead.1, ?_, fun hwhole => ?_, by simp [recording],
    fun _ => ⟨endedNs, _, ?_, Collector.ofStreams_stopAll h.inv drain⟩, fun hl => absurd ?_ hl⟩
  · rw [Collector.stop, if_pos hrun]
    exact h.sameSession
  · obtain ⟨hbefore, hafter⟩ := MetaFile.append_of_whole hwhole
    refine hafter.trans ?_
    simp [htext hbefore, hnone, hlabels, hfinalized, hlabelled, Event.finalized?, Event.labelled?]
  · simp [hnone, hfinalized, Event.finalized?]
  · simp [hlabels, hlabelled, Event.labelled?]

theorem Filed.writeResult (h : Filed utc written session names es s) (hpc : s.main.pc = .writeResult)
    (hresult : s.main.result ∈ results) (reached : WriteEnd) :
    Filed utc written session names (es ++ [.labelled s.main.result])
      { s with
        main := { s.main with pc := .exit }
        metaYaml := s.metaYaml.append (sessionAppendResult s.collector.session s.main.result) reached } := by
  have hlabels : seen Event.labelled? es = [] := by
    by_contra hl
    rw [(h.labels hl).1] at hpc
    cases hpc
  obtain ⟨endedNs, summary, hfinalized, hsummary⟩ := h.stopped (by rw [hpc]; rfl)
  have htext := h.text
  rw [hlabels] at htext
  refine ⟨h.inv, h.sameSession, fun hwhole => ?_, by simp [recording],
    fun _ => ⟨endedNs, summary, ?_, hsummary⟩, fun _ => ⟨rfl, s.main.result, hresult, ?_⟩⟩
  · obtain ⟨hbefore, hafter⟩ := MetaFile.append_of_whole hwhole
    refine hafter.trans ?_
    simp [htext hbefore, hlabels, h.sameSession, Event.finalized?, Event.labelled?]
  · simp [hfinalized, Event.finalized?]
  · simp [hlabels, Event.labelled?]

theorem Filed.step (h : Filed utc written session names es s) (hresult : s.main.result ∈ results)
    (hs : Step utc tty s l s' e) : Filed utc written session names (es ++ e) s' := by
  have hloop (hpc : s.main.pc = .sleep) : recording .loop = recording s.main.pc := by
    rw [hpc]
    rfl
  have hexit (hpc : s.main.pc = .sleep) (he : s.main.pc = .exit) : (Pc.loop = .exit) := by
    rw [hpc] at he
    cases he
  cases hs with
  | main hm hstep =>
    obtain ⟨hpc, hexit⟩ := recording_main hm hstep
    refine h.move s.window hpc hexit h.inv ⟨rfl, rfl, rfl⟩ fun d hd => ?_
    obtain ⟨⟨signal⟩, -, rfl⟩ := List.mem_map.mp hd
    exact ⟨rfl, rfl⟩
  | early hpc => exact h.move s.window (hloop hpc) (hexit hpc) h.inv ⟨rfl, rfl, rfl⟩ (by simp)
  | report hpc _ hr =>
    have hinv := h.inv.step (.report hr)
    obtain ⟨_, _, _, _, _, _, _, rfl⟩ := Collector.printReport_frame hr
    refine h.move _ (hloop hpc) (hexit hpc) hinv ⟨rfl, rfl, rfl⟩ ?_
    simp [Event.finalized?, Event.labelled?]
  | outOfRange hpc =>
    refine h.move _ (hloop hpc) (hexit hpc) h.inv ⟨rfl, rfl, rfl⟩ ?_
    simp [Event.finalized?, Event.labelled?]
  | @stop drain c events endedNs reached hpc hstop =>
    have hfiled := h.stop hpc drain endedNs reached
    rwa [hstop] at hfiled
  | @writeResult reached hpc => exact h.writeResult hpc hresult reached
  | @arrive more =>
    refine h.move s.window rfl id (h.inv.arrive more) ⟨rfl, rfl, ?_⟩ (by simp)
    apply List.ext_getElem <;> simp [Collector.arrive, CameraRecorder.grow]

end

theorem Filed.of_run (hmain : p.main = {}) (hp : Filed utc written session names [] p)
    (h : (machine utc tty).run p ls = some (s, es)) : Filed utc written session names es s := by
  refine Machine.run_induction (P := fun _ es s => Filed utc written session names es s) hp ?_ h
  intro ls es s l s' e hrun hfiled hs
  obtain ⟨ms, hms⟩ := main_run hrun
  rw [hmain] at hms
  exact hfiled.step (LabelPrompt.Caused.of_run hms).result (.of_step hs)

/-! ## The start -/

/-- A process that has begun to record. -/
structure Booted (env : ProcessEnv) (settings : DataCollector.Settings) (p : Process) : Prop where
  main : p.main = {}
  window : p.window = env.steadyNs
  collector : p.collector = (Collector.start env.collector settings {}).2.1
  running : p.collector.running = true
  session : p.collector.session = sessionCreate env.collector.localtime env.collector.createDirectories
    env.collector.nowNs settings.outputDir
  dir : p.collector.session.dir ≠ []
  cameras : (p.collector.cameras.map (·.name)).Sublist settings.cameras
  metaYaml : p.metaYaml = env.metaYaml.truncate (sessionWriteMeta env.utc p.collector.session
    settings.domainId settings.ddsUri (p.collector.cameras.map (·.name)) settings.task) env.reached

theorem booted_of_start {env : ProcessEnv} {settings : DataCollector.Settings}
    (h : Collector.start env.collector settings {} = (true, c, events)) :
    Booted env settings
      { collector := c
        window := env.steadyNs
        metaYaml := env.metaYaml.truncate
          (events.flatMap (writtenAtStart env.utc settings)) env.reached } := by
  have hnot : ¬ ({} : Collector).running = true := by simp
  have hcollector := congrArg (fun r : Bool × Collector × List Collector.Event => r.2.1) h
  simp only [Collector.start, if_neg hnot] at h
  split_ifs at h with hnothing hdir hstreams
  · cases h
  · cases h
  · cases h
    refine ⟨rfl, rfl, hcollector.symm, rfl, rfl, fun hnil => hdir (List.isEmpty_iff.mpr hnil), ?_, ?_⟩
    · simp only [Collector.resetLast, Collector.keepStarted, List.nil_append, List.map_map]
      exact Collector.kept_sublist _ _
    · simp only [Collector.resetLast, Collector.keepStarted, List.nil_append, List.map_map, List.flatMap_cons,
        List.flatMap_nil, List.append_nil, writtenAtStart]
      rfl
  · cases h

theorem booted_of_boot {N : Type} [Yaml N] {env : ProcessEnv} {root : N} {dds : DdsEnv}
    (h : boot env root = some (some p, dds)) : ∃ settings uri,
      DataCollector.Settings.fromYaml root = some settings ∧ dds.uri = some uri ∧
        Booted env { settings with ddsUri := uri } p := by
  obtain ⟨settings, hsettings, h⟩ := Option.bind_eq_some_iff.mp h
  obtain ⟨⟨uri, dds'⟩, happly, h⟩ := Option.bind_eq_some_iff.mp h
  cases uri with
  | none => cases h
  | some uri =>
    dsimp only at h
    split at h
    · cases h
    · rename_i collector events hstart
      cases h
      exact ⟨settings, uri, hsettings, applyDdsConfig_uri happly, booted_of_start hstart⟩

theorem Booted.filed {env : ProcessEnv} {settings : DataCollector.Settings} (h : Booted env settings p) :
    Filed env.utc (sessionWriteMeta env.utc p.collector.session settings.domainId settings.ddsUri
      (p.collector.cameras.map (·.name)) settings.task) p.collector.session
      (p.collector.cameras.map (·.name)) [] p where
  inv := by
    rw [h.collector]
    exact Collector.Inv.start (.of_dead ⟨rfl, rfl, rfl, rfl, rfl, rfl, rfl⟩) _ _
  sameSession := rfl
  text hwhole := by
    rw [h.metaYaml] at hwhole ⊢
    simpa using MetaFile.truncate_of_whole hwhole
  running _ := ⟨h.running, rfl, rfl⟩
  stopped hpc := by
    rw [h.main] at hpc
    cases hpc
  labels hl := absurd rfl hl

/-! ## What the file records -/

/-- How a session ended, as its history has it. -/
def ended (utc : Int64 → Tm) (es : List Event) : Option MetaEnd :=
  (seen Event.finalized? es).head?.map fun p => .of utc p.1 p.2

/-- The label in a history. -/
def label (es : List Event) : Option (List Char) := (seen Event.labelled? es).head?.filter (· ≠ [])

theorem Filed.records {isString : List Char → Bool} {session : SessionInfo} {domainId : Int32}
    {ddsConfig task : List Char} {names : List (List Char)}
    (h : Filed utc (sessionWriteMeta utc session domainId ddsConfig names task) session names es s)
    (hwhole : s.metaYaml.whole = true) (hdir : session.dir ≠ []) (hu : plainSafe ddsConfig = true)
    (hustring : isString ddsConfig = true) (ht : quotedSafe task = true)
    (hnames : ∀ name ∈ names, plainSafe name = true ∧ isString name = true) :
    readRecord isString s.metaYaml.text =
      some (.of utc session domainId ⟨ddsConfig, task, names⟩ (ended utc es) (label es)) := by
  rw [h.text hwhole, ended, label]
  cases hpc : recording s.main.pc with
  | true =>
    have hlabels : seen Event.labelled? es = [] := by
      by_contra hl
      rw [(h.labels hl).1] at hpc
      cases hpc
    rw [(h.running hpc).2.2, hlabels, List.flatMap_nil, List.flatMap_nil, List.append_nil, List.append_nil]
    exact readRecord_written utc session domainId hu hustring ht hnames
  | false =>
    obtain ⟨endedNs, summary, hfinalized, hsummary⟩ := h.stopped hpc
    rw [hfinalized, List.flatMap_singleton]
    by_cases hl : seen Event.labelled? es = []
    · rw [hl, List.flatMap_nil, List.append_nil]
      exact readRecord_finalized utc session domainId hu hustring ht hnames endedNs hsummary
    · obtain ⟨-, result, hresult, hlabel⟩ := h.labels hl
      have hfilter : [result].head?.filter (· ≠ []) = if result = [] then none else some result := by
        by_cases hnil : result = [] <;> simp [hnil]
      rw [hlabel, List.flatMap_singleton, hfilter]
      exact readRecord_labelled utc session domainId hu hustring ht hnames endedNs hsummary hresult hdir

/-- **The file of a running session.** Where the strings of the configuration are safe, `meta.yaml` can be
read in every state of every run whose writes of it so far went through, and says what has happened: the start,
the URI that is in the environment, the cameras that record; after the end, its time and the summary; and the
label, if one was given. -/
theorem file_records {N : Type} [Yaml N] {env : ProcessEnv} {root : N} {dds : DdsEnv}
    {settings : DataCollector.Settings} {uri : List Char} {isString : List Char → Bool}
    (hboot : boot env root = some (some p, dds))
    (hsettings : DataCollector.Settings.fromYaml root = some settings) (huri : dds.uri = some uri)
    (hu : plainSafe uri = true) (hustring : isString uri = true) (ht : quotedSafe settings.task = true)
    (hcameras : ∀ name ∈ settings.cameras, plainSafe name = true ∧ isString name = true)
    (h : (machine env.utc tty).run p ls = some (s, es)) (hwhole : s.metaYaml.whole = true) :
    let session := sessionCreate env.collector.localtime env.collector.createDirectories
      env.collector.nowNs settings.outputDir
    let names := p.collector.cameras.map (·.name)
    names.Sublist settings.cameras ∧
      readRecord isString s.metaYaml.text = some (.of env.utc session settings.domainId
        ⟨uri, settings.task, names⟩ (ended env.utc es) (label es)) := by
  obtain ⟨settings', uri', hsettings', huri', hbooted⟩ := booted_of_boot hboot
  cases hsettings.symm.trans hsettings'
  cases huri.symm.trans huri'
  refine ⟨hbooted.cameras, ?_⟩
  rw [← hbooted.session]
  exact (hbooted.filed.of_run hbooted.main h).records hwhole hbooted.dir hu hustring ht fun name hname =>
    hcameras name (hbooted.cameras.subset hname)

/-- A configuration with a camera and the lowstate. -/
def headAndLowstate : ConfigNode :=
  .map [("task".toList, .scalar "pick".toList),
    ("lowstate".toList, .map [("enabled".toList, .scalar "true".toList)]),
    ("realsense_cameras".toList,
      .map [("cameras".toList, .sequence [.map [("name".toList, .scalar "head".toList)]])])]

/-- `CYCLONEDDS_URI` is set. -/
def ddsSet : DdsEnv := ⟨some ['u'], some, fun _ => some true⟩

/-- A system on which everything works. -/
def works (toTm : Int64 → Tm) : ProcessEnv where
  dds := ddsSet
  collector := .works toTm 5
  utc := toTm
  steadyNs := 0
  metaYaml := {}
  reached := .all

/-- Two reports, then SIGINT; the operator presses `s`. -/
def labelledRun : List Label :=
  [.main .main, .arrive fun _ => { received := 3, written := 3 }, .wake second, .main .main, .wake (second + 9),
    .main .main, .wake (2 * second), .main (.deliver .sigint), .main (.store 0), .main (.store 0), .main .main,
    .stop (fun _ => {}) 9 .all, .main .main, .main .main, .main .main, .main (.tcgetattr true),
    .main .main, .main .main, .main (.read (.key 's')), .main .main, .writeResult .all]

theorem exists_labelledRun : ∃ p s es,
    boot (works fun _ => ⟨2024, 0, 1, 0, 0, 0⟩) headAndLowstate = some (some p, ddsSet) ∧
    (machine (fun _ => ⟨2024, 0, 1, 0, 0, 0⟩) true).run p labelledRun = some (s, es) ∧
    label es = some "success".toList ∧ s.metaYaml.whole = true ∧
      p.collector.cameras.map (·.name) = ["head".toList] := by
  have hends : ((boot (works fun _ => ⟨2024, 0, 1, 0, 0, 0⟩) headAndLowstate).bind Prod.fst).any (fun p =>
      p.collector.cameras.map (·.name) = ["head".toList] ∧
        ((machine (fun _ => ⟨2024, 0, 1, 0, 0, 0⟩) true).run p labelledRun).any
          fun q => label q.2 = some "success".toList ∧ q.1.metaYaml.whole = true) = true := by
    decide
  have hdds : (boot (works fun _ => ⟨2024, 0, 1, 0, 0, 0⟩) headAndLowstate).map Prod.snd =
      some ddsSet := rfl
  obtain ⟨⟨p?, _⟩, hboot, rfl⟩ := Option.map_eq_some_iff.mp hdds
  rw [hboot] at hends
  obtain ⟨p, hp, hnames⟩ := (Option.any_eq_true _ _).mp hends
  cases hp
  obtain ⟨hnames, hany⟩ := of_decide_eq_true hnames
  obtain ⟨⟨s, es⟩, hrun, hends⟩ := (Option.any_eq_true _ _).mp hany
  obtain ⟨hlabel, hwhole⟩ := of_decide_eq_true hends
  exact ⟨p, s, es, hboot, hrun, hlabel, hwhole, hnames⟩

theorem file_records_labelled : ∃ p s es,
    boot (works fun _ => ⟨2024, 0, 1, 0, 0, 0⟩) headAndLowstate = some (some p, ddsSet) ∧
    (machine (fun _ => ⟨2024, 0, 1, 0, 0, 0⟩) true).run p labelledRun = some (s, es) ∧
    readRecord (fun _ => true) s.metaYaml.text = some (.of (fun _ => ⟨2024, 0, 1, 0, 0, 0⟩)
      { dir := "sessions/20240101_000000".toList, startedNs := 5 } 0 ⟨['u'], "pick".toList, ["head".toList]⟩
      (ended (fun _ => ⟨2024, 0, 1, 0, 0, 0⟩) es) (some "success".toList)) := by
  obtain ⟨p, s, es, hboot, hrun, hlabel, hwhole, hcameras⟩ := exists_labelledRun
  have hsettings : DataCollector.Settings.fromYaml headAndLowstate = some _ := rfl
  have huri : ddsSet.uri = some ['u'] := rfl
  have hrecord : readRecord (fun _ => true) s.metaYaml.text = _ :=
    (file_records hboot hsettings huri (by decide) rfl (by decide) (by decide) hrun hwhole).2
  rw [hlabel, hcameras] at hrecord
  exact ⟨p, s, es, hboot, hrun, hrecord⟩

/-! ## The life of the process -/

/-- What the events before it have to say of an event. `start` is the first reading of the clock. -/
def Event.Due (tty : Bool) (start : Int) (es : List Event) : Event → Prop
  | .delivered _ | .collector _ => True
  | .reportedAt now => seen Event.finalized? es = [] ∧
    ∀ t ∈ start :: seen Event.reportedAt? es, t + second ≤ now
  | .finalized _ summary => seen Event.finalized? es = [] ∧ (∃ signal, .delivered signal ∈ es) ∧
    ∃ session, .collector (.finalized session summary) ∈ es
  | .labelled result => seen Event.finalized? es ≠ [] ∧ seen Event.labelled? es = [] ∧
    .delivered .sigint ∈ es ∧ result ∈ results ∧ (result ≠ [] → tty = true)

theorem mem_signal? {signal : Signal} (h : .delivered signal ∈ seen Event.signal? es) :
    .delivered signal ∈ es := by
  obtain ⟨e, he, hsome⟩ := List.mem_filterMap.mp h
  cases e <;> cases hsome
  exact he

/-- What is known of a state after a history. -/
structure Lives (tty : Bool) (start : Int) (es : List Event) (s : Process) : Prop where
  admitted : Admitted (Event.Due tty start) es
  window : ∀ t ∈ start :: seen Event.reportedAt? es, t ≤ s.window

theorem Lives.quiet (h : Lives tty start es s) (he : ∀ d ∈ e, ∀ pre, Event.Due tty start pre d)
    (hnone : seen Event.reportedAt? e = []) {main : LabelPrompt.State} {c : Collector} {file : MetaFile} :
    Lives tty start (es ++ e) ⟨main, c, s.window, file⟩ where
  admitted := h.admitted.append he
  window t ht := by
    rw [seen_append, hnone, List.append_nil] at ht
    exact h.window t ht

theorem Lives.report (h : Lives tty start es s) (hlate : s.window + second ≤ now)
    (hnone : seen Event.finalized? es = []) (e : Collector.Event) {main : LabelPrompt.State} {c : Collector} :
    Lives tty start (es ++ [.reportedAt now, .collector e]) ⟨main, c, now, s.metaYaml⟩ where
  admitted := by
    have hdue : Event.Due tty start es (.reportedAt now) := by
      refine ⟨hnone, fun t ht => ?_⟩
      have hold := h.window t ht
      omega
    rw [List.append_cons]
    exact (h.admitted.snoc hdue).snoc trivial
  window t ht := by
    have hlater : s.window ≤ now := by
      have hsecond : (0 : Int) ≤ second := by decide
      omega
    rw [seen_append, List.mem_cons, List.mem_append] at ht
    rcases ht with rfl | ht | ht
    · exact (h.window t (.head _)).trans hlater
    · exact (h.window t (.tail _ ht)).trans hlater
    · exact (List.mem_singleton.mp ht).le

theorem Lives.stop (h : Lives tty start es s) (hsignal : .delivered signal ∈ es)
    (hnone : seen Event.finalized? es = []) (hrun : s.collector.running = true)
    (hstop : s.collector.stop drain = (c, events)) {main : LabelPrompt.State} {file : MetaFile} :
    Lives tty start (es ++ (events.map .collector ++ (summaries events).map (.finalized endedNs)))
      ⟨main, c, s.window, file⟩ := by
  have hevents : events = _ := (congrArg Prod.snd hstop).symm.trans (Collector.stop_of_running hrun drain).1
  have hsummaries : summaries events = _ :=
    (congrArg (fun p => summaries p.2) hstop).symm.trans (summaries_stop hrun drain)
  have hcollector : Lives tty start (es ++ events.map .collector) ⟨main, c, s.window, file⟩ := by
    refine h.quiet (fun d hd => ?_) (seen_collector (fun _ => rfl) events)
    obtain ⟨e, -, rfl⟩ := List.mem_map.mp hd
    exact fun _ => trivial
  have hdue : Event.Due tty start (es ++ events.map .collector) (.finalized endedNs
      (((s.collector.stopAll drain).flatMap Collector.Stopped.entries).map Prod.snd)) := by
    refine ⟨?_, ⟨signal, List.mem_append_left _ hsignal⟩, s.collector.session,
      List.mem_append_right _ (List.mem_map_of_mem ?_)⟩
    · rw [seen_append, hnone, seen_collector fun _ => rfl, List.append_nil]
    · rw [hevents]
      exact List.mem_append_right _ (.head _)
  rw [hsummaries, List.map_singleton, ← List.append_assoc]
  refine ⟨hcollector.admitted.snoc hdue, fun t ht => hcollector.window t ?_⟩
  rwa [seen_append, show seen Event.reportedAt? [.finalized endedNs _] = [] from rfl, List.append_nil] at ht

theorem Lives.step (h : Lives tty start es s) (hcaused : LabelPrompt.Caused tty (seen Event.signal? es) s.main)
    (hfiled : Filed utc written session names es s) (hs : Step utc tty s l s' e) :
    Lives tty start (es ++ e) s' := by
  have hnone (hpc : recording s.main.pc = true) : seen Event.finalized? es = [] := (hfiled.running hpc).2.2
  cases hs with
  | main hm hstep =>
    refine h.quiet (fun d hd => ?_) (seen_ofPrompt (fun _ => rfl) _)
    obtain ⟨⟨signal⟩, -, rfl⟩ := List.mem_map.mp hd
    exact fun _ => trivial
  | early => exact h.quiet (by simp) rfl
  | report hpc hlate | outOfRange hpc hlate =>
    exact h.report hlate (hnone (by rw [hpc]; rfl)) _
  | stop hpc hstop =>
    obtain ⟨signal, hsignal⟩ := hcaused.left (by rw [hpc]; rfl)
    have hrecording : recording s.main.pc = true := by
      rw [hpc]
      rfl
    exact h.stop (mem_signal? hsignal) (hnone hrecording) (hfiled.running hrecording).1 hstop
  | writeResult hpc =>
    obtain ⟨endedNs, summary, hfinalized, -⟩ := hfiled.stopped (by rw [hpc]; rfl)
    have hlabels : seen Event.labelled? es = [] := by
      by_contra hl
      rw [(hfiled.labels hl).1] at hpc
      cases hpc
    have hdue : Event.Due tty start es (.labelled s.main.result) :=
      ⟨by simp [hfinalized], hlabels, mem_signal? (hcaused.labels (by rw [hpc]; rfl)), hcaused.result,
        hcaused.typed⟩
    refine ⟨h.admitted.snoc hdue, fun t ht => h.window t ?_⟩
    rwa [seen_append, show seen Event.reportedAt? [.labelled s.main.result] = [] from rfl,
      List.append_nil] at ht
  | arrive => exact h.quiet (by simp) rfl

/-- **The life of the process.** Whatever the order of the steps of `main`, of signals and of the recorders:
every report is a second or more after the one before it, before the end, and true; the session ends once,
after a signal; a label is given once, after the end and a SIGINT, and is one of three, where without a
terminal it is empty. -/
theorem life {N : Type} [Yaml N] {env : ProcessEnv} {root : N} {dds : DdsEnv}
    (hboot : boot env root = some (some p, dds)) (h : (machine env.utc tty).run p ls = some (s, es)) :
    Admitted (Event.Due tty env.steadyNs) es ∧
      Collector.TrueReports (.started p.collector.session (p.collector.cameras.map (·.name)) ::
        seen Event.collector? es) := by
  obtain ⟨settings, uri, -, -, hbooted⟩ := booted_of_boot hboot
  constructor
  · have hnil : Lives tty env.steadyNs [] p :=
      ⟨admitted_nil, fun t ht => (List.mem_singleton.mp ht).trans hbooted.window.symm |>.le⟩
    refine (Machine.run_induction (P := fun _ es s => Lives tty env.steadyNs es s) hnil ?_ h).admitted
    intro ls es s l s' e hrun hlives hs
    obtain ⟨ms, hms⟩ := main_run hrun
    rw [hbooted.main] at hms
    exact hlives.step (.of_run hms) (hbooted.filed.of_run hbooted.main hrun) (.of_step hs)
  · obtain ⟨ks, hks, hsession⟩ := collector_run h
    have hrunning := hbooted.running
    rw [hbooted.collector] at hks hrunning ⊢
    have hbegun := Collector.names_start ⟨rfl, rfl, rfl, rfl, rfl, rfl, rfl⟩ rfl _ _ hrunning
    have htrue := Collector.trueReports_session _ _ hks hsession
    rw [hbegun] at htrue
    exact htrue

/-- The two reports of the run are a second apart, and true. -/
theorem life_labelled : ∃ p s es,
    boot (works fun _ => ⟨2024, 0, 1, 0, 0, 0⟩) headAndLowstate = some (some p, ddsSet) ∧
    (machine (fun _ => ⟨2024, 0, 1, 0, 0, 0⟩) true).run p labelledRun = some (s, es) ∧
    Admitted (Event.Due true 0) es ∧
      Collector.TrueReports (.started p.collector.session (p.collector.cameras.map (·.name)) ::
        seen Event.collector? es) := by
  obtain ⟨p, s, es, hboot, hrun, -⟩ := exists_labelledRun
  exact ⟨p, s, es, hboot, hrun, life hboot hrun⟩

end Process
end Kist
