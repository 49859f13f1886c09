import KistCollector.Common.Snapshot
import KistCollector.System.Reports
import Mathlib.Logic.Function.Basic

/-!
# The collector with its recorders at work

`Collector` takes the counters of its recorders as they come. Here each stream of a session has a
`Recorder`, whose producer and writer thread take their steps while the collector's own thread reports or
stops: it loads the counters one after the other, and `stop` closes each queue, joins each writer thread and
closes each sink in turn. Every run of `Live.machine` is a run of `Collector.machine` that shows the same
(`Live.refines`).

Of each recorder's `stop` this is the second half. The first is left out, in which its subscriber stops: the
grace period, the join of the take-thread, and the last drain of the reader, whose pushes are pushes of the
producer here (`RealsenseRecorder.camera_stop_returns` is about both halves for a camera).
-/

namespace Kist

open StreamStats (Le)

/-- What `close` does to a recorder, in this order. -/
inductive CloseStep where
  | close
  | join
  | closeSink
  deriving DecidableEq, Repr

def CloseStep.all : List CloseStep := [.close, .join, .closeSink]

def CloseStep.label {R : Type} : CloseStep → Recorder.Label R
  | .close => .close
  | .join => .join
  | .closeSink => .closeSink

namespace Recorder

variable {R σ : Type}

/-- A step that the recorder's owner takes. -/
def Label.isOwners : Label R → Bool
  | .close | .join | .closeSink => true
  | _ => false

/-- A recorder as it is constructed and opened. -/
structure Fresh (W : Sink R σ) where
  constructed : σ
  out : σ
  capacity : Nat
  wireGaps_eq : W.wireGaps out = 0

def Fresh.recorder {W : Sink R σ} (f : Fresh W) : Recorder R σ :=
  (init f.constructed).start f.out f.capacity

/-- A run of a recorder leads here. -/
def Reached (W : Sink R σ) (r : Recorder R σ) : Prop :=
  ∃ (f : Fresh W) (ls : List (Label R)) (es : List (Event R)),
    (machine W).run f.recorder ls = some (r, es)

theorem Reached.next {W : Sink R σ} {r r' : Recorder R σ} (H : Reached W r)
    (h : (machine W).step r l = some (r', es)) : Reached W r' := by
  obtain ⟨f, ls, es₀, hrun⟩ := H
  exact ⟨f, ls ++ [l], es₀ ++ es, Machine.run_snoc.mpr ⟨r, es₀, es, hrun, h, rfl⟩⟩

theorem stats_le {W : Sink R σ} {r r' : Recorder R σ} (h : (machine W).step r l = some (r', es)) :
    Le (r.stats W) (r'.stats W) := by
  obtain ⟨d, hd⟩ := stats_grow (Machine.run_singleton.trans h)
  exact hd ▸ StreamStats.le_add _ d

end Recorder

namespace Collector

/-- The collector with the counters that calls of `stats` have returned. -/
def observe (got : Stream → StreamStats) (s : Collector) : Collector :=
  let row (x : Row) (r : StreamRecorder) : StreamRecorder := { r with stats := got (.row x) }
  { s with
    cameras := s.cameras.mapIdx fun i r => { r with color := got (.color i), depth := got (.depth i) }
    lowstate := s.lowstate.map (row .lowstate)
    hands := s.hands.mapIdx fun i r => row (.hand i) r
    uwb := s.uwb.map (row .uwb)
    bodyCmds := s.bodyCmds.mapIdx fun i r => row (.bodyCmd i) r
    handCmds := s.handCmds.mapIdx fun i r => row (.handCmd i) r
    motionToken := s.motionToken.map (row .motionToken) }

/-- The streams in the order in which `print_report` calls `stats`. -/
def reportStreams (s : Collector) : List Stream :=
  (List.range s.cameras.length).flatMap (fun i => [.color i, .depth i]) ++
    (s.lowstate.toList.map (fun _ => .row .lowstate) ++ s.uwb.toList.map (fun _ => .row .uwb) ++
      (List.range s.hands.length).map (fun i => .row (.hand i)) ++
      (List.range s.bodyCmds.length).map (fun i => .row (.bodyCmd i)) ++
      (List.range s.handCmds.length).map (fun i => .row (.handCmd i)) ++
      s.motionToken.toList.map fun _ => .row .motionToken)

/-- The streams of each recorder, in the order in which `stop` stops them. -/
def stopGroups (s : Collector) : List (List Stream) :=
  (List.range s.cameras.length).map (fun i => [.color i, .depth i]) ++
    s.rows.map fun p => [.row p.1]

end Collector

/-- One step of the collector's thread inside `print_report` or `stop`. -/
inductive Op where
  | closing (x : Stream) (a : CloseStep)
  | load (x : Stream) (c : Counter)
  deriving DecidableEq, Repr

namespace Op

/-- A call of `stats`. -/
def stats (x : Stream) : List Op := Counter.all.map (.load x)

/-- A call of `close`. -/
def closes (x : Stream) : List Op := CloseStep.all.map (.closing x)

/-- `print_report` reads the counters of each stream. -/
def report (s : Collector) : List Op := s.reportStreams.flatMap stats

/-- `stop` closes the recorders of a stream or of a camera, whose subscribers have stopped, then reads their
counters. -/
def stop (s : Collector) : List Op :=
  s.stopGroups.flatMap fun xs => xs.flatMap closes ++ xs.flatMap stats

/-- The counters of `x` that are still to be loaded. -/
def loads (x : Stream) : List Op → List Counter :=
  List.filterMap fun
    | .load y c => if y = x then some c else none
    | .closing .. => none

/-- What is still to be done to close the recorder of `x`. -/
def closings (x : Stream) : List Op → List CloseStep :=
  List.filterMap fun
    | .closing y a => if y = x then some a else none
    | .load .. => none

end Op

/-- `print_report` or `stop`. -/
inductive CallKind where
  | report
  | stop
  deriving DecidableEq, Repr

/-- What the collector's thread is in the middle of: what it has read, and what it still has to do. -/
inductive Call where
  | idle
  | inside (kind : CallKind) (got : Stream → StreamStats) (todo : List Op)

/-- The counters in `collector` are those last read. -/
structure Live (R σ : Stream → Type) where
  collector : Collector := {}
  recorders : (x : Stream) → Option (Recorder (R x) (σ x)) := fun _ => none
  call : Call := .idle

namespace Live

open Collector (Event)

variable {R σ : Stream → Type}

/-- A call of `start`, with the recorders it opens; the start of the other two calls; a step of the thread
inside them; or a step of the producer or of the writer thread of a stream. -/
inductive Label (W : (x : Stream) → Sink (R x) (σ x)) where
  | start (env : DataCollector.Env) (settings : DataCollector.Settings)
    (fresh : (x : Stream) → Recorder.Fresh (W x))
  | report
  | stop
  | step
  | record (x : Stream) (l : Recorder.Label (R x))

def put (s : Live R σ) (x : Stream) (r : Recorder (R x) (σ x)) : Live R σ :=
  { s with recorders := Function.update s.recorders x (some r) }

/-- `start` opens the recorders of the streams that then record. -/
def start {W : (x : Stream) → Sink (R x) (σ x)} (s : Live R σ) (env : DataCollector.Env)
    (settings : DataCollector.Settings) (fresh : (x : Stream) → Recorder.Fresh (W x)) :
    Live R σ × List Event :=
  let (_, c, es) := s.collector.start env settings
  ({ s with
      collector := c
      recorders := if s.collector.running then s.recorders else
        fun x => (c.stats? x).map fun _ => (fresh x).recorder }, es)

variable (W : (x : Stream) → Sink (R x) (σ x))

def exec (s : Live R σ) (got : Stream → StreamStats) : Op → Option (Live R σ × (Stream → StreamStats))
  | .closing x a => do
    let r ← s.recorders x
    let (r, _) ← (Recorder.machine (W x)).step r a.label
    some (s.put x r, got)
  | .load x c => do
    let r ← s.recorders x
    some (s, Function.update got x (c.load (r.stats (W x)) (got x)))

/-- The collector's thread and those of its recorders under any schedule. What `stop` has stopped and read
is shown when it writes the summary. -/
def machine : Machine (Live R σ) (Label W) Event where
  step s
    | .start env settings fresh =>
      match s.call with
      | .idle => some (s.start env settings fresh)
      | _ => none
    | .report =>
      match s.call with
      | .idle => some ({ s with call := .inside .report (fun _ => {}) (Op.report s.collector) }, [])
      | _ => none
    | .stop =>
      match s.call with
      | .idle =>
        if s.collector.running then
          some ({ s with call := .inside .stop (fun _ => {}) (Op.stop s.collector) }, [])
        else some (s, [])
      | _ => none
    | .step =>
      match s.call with
      | .idle => none
      | .inside kind got (op :: todo) =>
        (s.exec W got op).map fun (s, got) => ({ s with call := .inside kind got todo }, [])
      | .inside .report got [] =>
        let c := s.collector.observe got
        match c.printReport with
        | some (lines, c) => some ({ s with collector := c, call := .idle }, [.reported lines])
        | none => some ({ s with collector := c, call := .idle }, [.outOfRange])
      | .inside .stop got [] =>
        let (c, es) := (s.collector.observe got).stop fun _ => {}
        some ({ collector := c }, es)
    | .record x l =>
      if l.isOwners then none else do
        let r ← s.recorders x
        let (r, _) ← (Recorder.machine (W x)).step r l
        some (s.put x r, [])

variable {W} {s s' : Live R σ}

/-- What one step can do. -/
inductive Step (s : Live R σ) : Label W → Live R σ → List Event → Prop
  | start : s.call = .idle → Step s (.start env settings fresh) (s.start env settings fresh).1
    (s.start env settings fresh).2
  | reports : s.call = .idle → Step s .report
    { s with call := .inside .report (fun _ => {}) (Op.report s.collector) } []
  | stops : s.call = .idle → s.collector.running = true → Step s .stop
    { s with call := .inside .stop (fun _ => {}) (Op.stop s.collector) } []
  | stopsNot : s.call = .idle → s.collector.running = false → Step s .stop s []
  | closing : s.call = .inside kind got (.closing x a :: todo) → s.recorders x = some r →
    (Recorder.machine (W x)).step r a.label = some (r', e) →
    Step s .step { s.put x r' with call := .inside kind got todo } []
  | load : s.call = .inside kind got (.load x c :: todo) → s.recorders x = some r → Step s .step
    { s with call := .inside kind (Function.update got x (c.load (r.stats (W x)) (got x))) todo } []
  | reported : s.call = .inside .report got [] →
    (s.collector.observe got).printReport = some (lines, c) →
    Step s .step { s with collector := c, call := .idle } [.reported lines]
  | outOfRange : s.call = .inside .report got [] → (s.collector.observe got).printReport = none →
    Step s .step { s with collector := s.collector.observe got, call := .idle } [.outOfRange]
  | stopped : s.call = .inside .stop got [] → Step s .step
    { collector := ((s.collector.observe got).stop fun _ => {}).1 }
    ((s.collector.observe got).stop fun _ => {}).2
  | record : l.isOwners = false → s.recorders x = some r →
    (Recorder.machine (W x)).step r l = some (r', e) → Step s (.record x l) (s.put x r') []

theorem Step.of_step {l : Label W} (h : (machine W).step s l = some (s', es)) : Step s l s' es := by
  cases l with
  | start env settings fresh =>
    cases hcall : s.call with
    | idle =>
      simp only [machine, hcall] at h
      cases h
      exact .start hcall
    | inside => simp only [machine, hcall] at h; cases h
  | report =>
    cases hcall : s.call with
    | idle =>
      simp only [machine, hcall] at h
      cases h
      exact .reports hcall
    | inside => simp only [machine, hcall] at h; cases h
  | stop =>
    cases hcall : s.call with
    | idle =>
      cases hrun : s.collector.running <;> simp only [machine, hcall, hrun] at h <;> cases h
      · exact .stopsNot hcall hrun
      · exact .stops hcall hrun
    | inside => simp only [machine, hcall] at h; cases h
  | step =>
    cases hcall : s.call with
    | idle => simp only [machine, hcall] at h; cases h
    | inside kind got todo =>
      cases todo with
      | nil =>
        cases kind with
        | report =>
          cases hr : (s.collector.observe got).printReport <;> simp only [machine, hcall, hr] at h <;>
            cases h
          · exact .outOfRange hcall hr
          · exact .reported hcall hr
        | stop =>
          simp only [machine, hcall] at h
          cases h
          exact .stopped hcall
      | cons op todo =>
        simp only [machine, hcall] at h
        obtain ⟨⟨t, got'⟩, hexec, heq⟩ := Option.map_eq_some_iff.mp h
        cases heq
        cases op with
        | closing x a =>
          simp only [exec, Option.bind_eq_bind, Option.bind_eq_some_iff, Prod.exists] at hexec
          obtain ⟨r, hr, r', e, hstep, heq⟩ := hexec
          cases heq
          exact .closing hcall hr hstep
        | load x c =>
          simp only [exec, Option.bind_eq_bind, Option.bind_eq_some_iff] at hexec
          obtain ⟨r, hr, heq⟩ := hexec
          cases heq
          exact .load hcall hr
  | record x l =>
    cases hl : l.isOwners <;> simp only [machine, hl] at h
    · simp only [Bool.false_eq_true, if_false, Option.bind_eq_bind, Option.bind_eq_some_iff,
        Prod.exists] at h
      obtain ⟨r, hr, r', e, hstep, heq⟩ := h
      cases heq
      exact .record hl hr hstep
    · cases h

theorem put_self {x : Stream} {r : Recorder (R x) (σ x)} : (s.put x r).recorders x = some r :=
  Function.update_self ..

theorem put_of_ne {x y : Stream} {r : Recorder (R x) (σ x)} (h : y ≠ x) :
    (s.put x r).recorders y = s.recorders y := Function.update_of_ne h ..

end Live

/-! ## Reading all counters -/

namespace Collector

variable {s s' : Collector}

theorem stats?_observe (got : Stream → StreamStats) (s : Collector) (x : Stream) :
    (s.observe got).stats? x = (s.stats? x).map fun _ => got x := by
  rcases x with i | i | x
  · cases h : s.cameras[i]? <;> simp [stats?, observe, h]
  · cases h : s.cameras[i]? <;> simp [stats?, observe, h]
  · cases x with
    | lowstate => cases h : s.lowstate <;> simp [stats?, row?, observe, h]
    | uwb => cases h : s.uwb <;> simp [stats?, row?, observe, h]
    | motionToken => cases h : s.motionToken <;> simp [stats?, row?, observe, h]
    | hand i => cases h : s.hands[i]? <;> simp [stats?, row?, observe, h]
    | bodyCmd i => cases h : s.bodyCmds[i]? <;> simp [stats?, row?, observe, h]
    | handCmd i => cases h : s.handCmds[i]? <;> simp [stats?, row?, observe, h]

theorem streams_observe (got : Stream → StreamStats) (s : Collector) :
    (s.observe got).streams = s.streams := by
  have hrows (s : Collector) : (s.rows.map fun p => Stream.row p.1) = (s.rows.map Prod.fst).map .row :=
    (List.map_map ..).symm
  simp only [streams, hrows, map_fst_rows]
  simp only [observe, List.length_mapIdx]
  cases s.lowstate <;> cases s.uwb <;> cases s.motionToken <;> rfl

/-- Where every counter read has come further than what was known, reading them is the arrival of
records. -/
theorem observe_eq_arrive (h : ∀ x st, s.stats? x = some st → Le st (got x)) :
    s.observe got = s.arrive fun x => (s.stats? x).elim {} (·.since (got x)) := by
  have hgrow {x : Stream} {st : StreamStats} (hst : s.stats? x = some st) :
      st.add ((s.stats? x).elim {} (·.since (got x))) = got x := by
    rw [hst]
    exact (h x st hst).add_since
  have hone {x : Row} {r : StreamRecorder} (hr : s.row? x = some r) :
      { r with stats := got (.row x) } =
        r.grow ((s.stats? (.row x)).elim {} (·.since (got (.row x)))) := by
    rw [StreamRecorder.grow, hgrow (x := .row x) (by rw [stats?, hr]; rfl)]
  have hlist {f : Nat → Row} {rs : List StreamRecorder} (hrow : ∀ i, s.row? (f i) = rs[i]?) :
      (rs.mapIdx fun i r => { r with stats := got (.row (f i)) }) =
        rs.mapIdx fun i r => r.grow ((s.stats? (.row (f i))).elim {} (·.since (got (.row (f i))))) := by
    apply List.ext_getElem (by simp)
    intro i hi _
    simp only [List.length_mapIdx] at hi
    simp only [List.getElem_mapIdx]
    exact hone (by rw [hrow, List.getElem?_eq_getElem hi])
  have hsingle {x : Row} {o : Option StreamRecorder} (hrow : s.row? x = o) :
      (o.map fun r => { r with stats := got (.row x) }) =
        o.map (·.grow ((s.stats? (.row x)).elim {} (·.since (got (.row x))))) := by
    cases o with
    | none => rfl
    | some r => exact congrArg some (hone hrow)
  have hcameras : (s.cameras.mapIdx fun i r => { r with color := got (.color i), depth := got (.depth i) }) =
      s.cameras.mapIdx fun i r => r.grow ((s.stats? (.color i)).elim {} (·.since (got (.color i))))
        ((s.stats? (.depth i)).elim {} (·.since (got (.depth i)))) := by
    apply List.ext_getElem (by simp)
    intro i hi _
    simp only [List.length_mapIdx] at hi
    have hr := List.getElem?_eq_getElem hi
    simp only [List.getElem_mapIdx]
    rw [CameraRecorder.grow, hgrow (x := .color i) (by rw [stats?, hr]; rfl),
      hgrow (x := .depth i) (by rw [stats?, hr]; rfl)]
  rw [observe, arrive, hcameras, hlist (f := .hand) (fun _ => rfl), hlist (f := .bodyCmd) (fun _ => rfl),
    hlist (f := .handCmd) (fun _ => rfl)]
  dsimp only
  rw [hsingle (x := .lowstate) (o := s.lowstate) rfl, hsingle (x := .uwb) (o := s.uwb) rfl,
    hsingle (x := .motionToken) (o := s.motionToken) rfl]

end Collector

/-! ## The loads of a call -/

namespace Op

theorem loads_append (x : Stream) (ops ops' : List Op) : loads x (ops ++ ops') = loads x ops ++ loads x ops' :=
  List.filterMap_append

theorem closings_append (x : Stream) (ops ops' : List Op) :
    closings x (ops ++ ops') = closings x ops ++ closings x ops' := List.filterMap_append

theorem loads_stats (x y : Stream) : loads x (stats y) = if y = x then Counter.all else [] := by
  by_cases h : y = x <;> simp [loads, stats, Counter.all, h]

theorem loads_closes (x y : Stream) : loads x (closes y) = [] := rfl

theorem closings_stats (x y : Stream) : closings x (stats y) = [] := rfl

theorem closings_closes (x y : Stream) : closings x (closes y) = if y = x then CloseStep.all else [] := by
  by_cases h : y = x <;> simp [closings, closes, CloseStep.all, h]

/-- Of streams that are all different, each is loaded once. -/
theorem loads_flatMap_stats {xs : List Stream} (h : xs.Nodup) (x : Stream) :
    loads x (xs.flatMap stats) = if x ∈ xs then Counter.all else [] := by
  induction xs with
  | nil => rfl
  | cons y xs ih =>
    obtain ⟨hy, hxs⟩ := List.nodup_cons.mp h
    rw [List.flatMap_cons, loads_append, ih hxs, loads_stats]
    by_cases hyx : y = x
    · subst hyx
      simp [hy]
    · simp [hyx, Ne.symm hyx]

theorem closings_flatMap_closes {xs : List Stream} (h : xs.Nodup) (x : Stream) :
    closings x (xs.flatMap closes) = if x ∈ xs then CloseStep.all else [] := by
  induction xs with
  | nil => rfl
  | cons y xs ih =>
    obtain ⟨hy, hxs⟩ := List.nodup_cons.mp h
    rw [List.flatMap_cons, closings_append, ih hxs, closings_closes]
    by_cases hyx : y = x
    · subst hyx
      simp [hy]
    · simp [hyx, Ne.symm hyx]

theorem loads_flatMap_closes (x : Stream) (xs : List Stream) : loads x (xs.flatMap closes) = [] := by
  induction xs with
  | nil => rfl
  | cons y xs ih => rw [List.flatMap_cons, loads_append, ih, loads_closes, List.append_nil]

theorem closings_flatMap_stats (x : Stream) (xs : List Stream) : closings x (xs.flatMap stats) = [] := by
  induction xs with
  | nil => rfl
  | cons y xs ih => rw [List.flatMap_cons, closings_append, ih, closings_stats, List.append_nil]

variable {s : Collector}

theorem stop_loads (x : Stream) : loads x (stop s) = loads x (s.stopGroups.flatten.flatMap stats) := by
  rw [stop, List.flatten_eq_flatMap, List.flatMap_assoc]
  induction s.stopGroups with
  | nil => rfl
  | cons xs groups ih =>
    simp only [List.flatMap_cons, loads_append, loads_flatMap_closes, List.nil_append, ih, id]

theorem stop_closings (x : Stream) :
    closings x (stop s) = closings x (s.stopGroups.flatten.flatMap closes) := by
  rw [stop, List.flatten_eq_flatMap, List.flatMap_assoc]
  induction s.stopGroups with
  | nil => rfl
  | cons xs groups ih =>
    simp only [List.flatMap_cons, closings_append, closings_flatMap_stats, List.append_nil, ih, id]

/-- The groups are the streams of the summary. -/
theorem flatten_stopGroups (s : Collector) : s.stopGroups.flatten = s.streams := by
  rw [Collector.stopGroups, Collector.streams, List.flatten_append, ← List.flatMap_def]
  congr 1
  rw [← List.flatMap_def]
  exact List.map_eq_flatMap.symm

/-- A report reads the streams of the summary, in another order. -/
theorem reportStreams_perm (s : Collector) : s.reportStreams.Perm s.streams := by
  have hrows : (s.rows.map fun p => Stream.row p.1) = (s.rows.map Prod.fst).map .row :=
    (List.map_map ..).symm
  rw [Collector.reportStreams, Collector.streams, hrows, Collector.map_fst_rows]
  simp only [List.map_append, List.map_map]
  refine .append_left _ ?_
  refine .append_right _ (.append_right _ (.append_right _ ?_))
  rw [List.append_assoc, List.append_assoc]
  exact .append_left _ List.perm_append_comm

theorem loads_report (x : Stream) : loads x (report s) =
    if (s.stats? x).isSome then Counter.all else [] := by
  rw [report, loads_flatMap_stats ((reportStreams_perm s).nodup_iff.mpr s.nodup_streams)]
  exact if_congr ((reportStreams_perm s).mem_iff.trans Collector.mem_streams) rfl rfl

theorem loads_stop (x : Stream) : loads x (stop s) =
    if (s.stats? x).isSome then Counter.all else [] := by
  rw [stop_loads, flatten_stopGroups, loads_flatMap_stats s.nodup_streams]
  exact if_congr Collector.mem_streams rfl rfl

theorem closings_stop (x : Stream) : closings x (stop s) =
    if (s.stats? x).isSome then CloseStep.all else [] := by
  rw [stop_closings, flatten_stopGroups, closings_flatMap_closes s.nodup_streams]
  exact if_congr Collector.mem_streams rfl rfl

end Op

/-! ## What holds along a run -/

namespace Live

open Collector (Event)

variable {R σ : Stream → Type} {W : (x : Stream) → Sink (R x) (σ x)} {s s' : Live R σ}

/-- What the call in progress will have read of a stream if nothing more is counted. -/
def willRead (got : Stream → StreamStats) (todo : List Op) (x : Stream) (now : StreamStats) : StreamStats :=
  Loading.rest ⟨got x, Op.loads x todo⟩ now

/-- Every stream that records has a recorder that has been run, and what is known of its counters is behind
them; so is what the call in progress reads, and it is not behind what was known. -/
structure Inv (W : (x : Stream) → Sink (R x) (σ x)) (s : Live R σ) : Prop where
  inv : Collector.Inv s.collector
  alive : ∀ x, (s.recorders x).isSome = (s.collector.stats? x).isSome
  reached : ∀ x r, s.recorders x = some r → Recorder.Reached (W x) r
  known : ∀ x r st, s.recorders x = some r → s.collector.stats? x = some st → Le st (r.stats (W x))
  reading : ∀ kind got todo, s.call = .inside kind got todo → ∀ x r st, s.recorders x = some r →
    s.collector.stats? x = some st → Le (got x) (r.stats (W x)) ∧
      Le st (willRead got todo x (r.stats (W x)))

/-- Nothing records. -/
theorem Inv.of_none (hinv : Collector.Inv s.collector) (hstats : ∀ x, s.collector.stats? x = none)
    (hrec : ∀ x, s.recorders x = none) (hcall : s.call = .idle) : Inv W s where
  inv := hinv
  alive x := by rw [hstats, hrec]; rfl
  reached x r hr := by rw [hrec] at hr; cases hr
  known x r st hr := by rw [hrec] at hr; cases hr
  reading kind got todo hinside := by rw [hcall] at hinside; cases hinside

theorem Inv.initial : Inv W ({} : Live R σ) :=
  have hdead : Collector.Dead {} := ⟨rfl, rfl, rfl, rfl, rfl, rfl, rfl⟩
  .of_none (.of_dead hdead) hdead.stats? (fun _ => rfl) rfl

theorem zero_le (st : StreamStats) : Le {} st :=
  ⟨Nat.zero_le _, Nat.zero_le _, Nat.zero_le _, Nat.zero_le _, Nat.zero_le _⟩

/-- A recorder takes a step. -/
theorem Inv.put {x : Stream} {r r' : Recorder (R x) (σ x)} {l : Recorder.Label (R x)}
    {e : List (Recorder.Event (R x))} (H : Inv W s) (hr : s.recorders x = some r)
    (hstep : (Recorder.machine (W x)).step r l = some (r', e)) : Inv W (s.put x r') := by
  have hle := Recorder.stats_le hstep
  refine ⟨H.inv, fun y => ?_, fun y t ht => ?_, fun y t st ht hst => ?_,
    fun kind got todo hcall y t st ht hst => ?_⟩
  · by_cases hy : y = x
    · subst hy
      have hsame := H.alive y
      rw [hr] at hsame
      rw [put_self]
      exact hsame
    · rw [put_of_ne hy]
      exact H.alive y
  · by_cases hy : y = x
    · subst hy
      cases Option.some.inj (put_self.symm.trans ht)
      exact (H.reached y r hr).next hstep
    · exact H.reached y t ((put_of_ne hy).symm.trans ht)
  · by_cases hy : y = x
    · subst hy
      cases Option.some.inj (put_self.symm.trans ht)
      exact (H.known y r st hr hst).trans hle
    · exact H.known y t st ((put_of_ne hy).symm.trans ht) hst
  · by_cases hy : y = x
    · subst hy
      cases Option.some.inj (put_self.symm.trans ht)
      obtain ⟨hgot, hwill⟩ := H.reading kind got todo hcall y r st hr hst
      exact ⟨hgot.trans hle, hwill.trans (Loading.rest_mono _ hle)⟩
    · exact H.reading kind got todo hcall y t st ((put_of_ne hy).symm.trans ht) hst

/-- Another call than the one in progress has begun, or the one in progress has come further. -/
theorem Inv.call (H : Inv W s) (call : Call)
    (h : ∀ kind got todo, call = .inside kind got todo → ∀ x r st, s.recorders x = some r →
      s.collector.stats? x = some st → Le (got x) (r.stats (W x)) ∧
        Le st (willRead got todo x (r.stats (W x)))) : Inv W { s with call := call } :=
  ⟨H.inv, H.alive, H.reached, H.known, h⟩

/-- Whatever a new call loads, it loads all counters of every stream. -/
theorem Inv.begins (H : Inv W s) (kind : CallKind) {ops : List Op}
    (hops : ∀ x, (s.collector.stats? x).isSome = true → Op.loads x ops = Counter.all) :
    Inv W { s with call := .inside kind (fun _ => {}) ops } := by
  refine H.call _ fun kind' got todo hcall x r st hr hst => ?_
  cases hcall
  refine ⟨zero_le _, ?_⟩
  rw [willRead, hops x (by rw [hst]; rfl), Loading.rest_all]
  exact H.known x r st hr hst

/-- What a call has read can be taken for the counters. -/
theorem Inv.read (H : Inv W s) (hcall : s.call = .inside kind got []) (x : Stream) (st : StreamStats)
    (hst : s.collector.stats? x = some st) : Le st (got x) := by
  have halive : (s.recorders x).isSome = true := by rw [H.alive, hst]; rfl
  obtain ⟨r, hr⟩ := Option.isSome_iff_exists.mp halive
  exact (H.reading kind got [] hcall x r st hr hst).2

/-- To the collector without recorders, what a call has read is what has arrived. -/
theorem Inv.arrives (H : Inv W s) (hcall : s.call = .inside kind got []) : ∃ more,
    Collector.machine.step s.collector (.arrive more) = some (s.collector.observe got, []) ∧
    Collector.Inv (s.collector.observe got) := by
  have harrive := Collector.observe_eq_arrive (H.read hcall)
  refine ⟨_, congrArg (fun c => some (c, [])) harrive.symm, ?_⟩
  rw [harrive]
  exact H.inv.arrive _

/-- A collector that has the same streams, with the counters that were read. -/
theorem Inv.observed (H : Inv W s) (hcall : s.call = .inside kind got []) {c : Collector}
    (hc : Collector.Inv c) (hstats : ∀ x, c.stats? x = (s.collector.stats? x).map fun _ => got x) :
    Inv W { s with collector := c, call := .idle } := by
  refine ⟨hc, fun x => ?_, H.reached, fun x r st hr hst => ?_, nofun⟩
  · rw [hstats, Option.isSome_map]
    exact H.alive x
  · have hst' : (s.collector.stats? x).map (fun _ => got x) = some st := (hstats x).symm.trans hst
    obtain ⟨st', hknown, rfl⟩ := Option.map_eq_some_iff.mp hst'
    exact (H.reading kind got [] hcall x r st' hr hknown).1

theorem Inv.start (H : Inv W s) (hcall : s.call = .idle) (env : DataCollector.Env)
    (settings : DataCollector.Settings) (fresh : (x : Stream) → Recorder.Fresh (W x)) :
    Inv W (s.start env settings fresh).1 := by
  have hinv := H.inv.start env settings
  obtain ⟨hrun, heq⟩ | ⟨hrun, c, heq, -, hdead⟩ | ⟨hrun, session, started, heq⟩ :=
    Collector.start_cases env settings s.collector
  · simp only [Live.start, heq, hrun, if_true]
    exact H
  · have hnone := (hdead (H.inv.dead hrun)).stats?
    rw [heq] at hinv
    simp only [Live.start, heq, hrun, hnone]
    exact .of_none hinv hnone (fun _ => rfl) hcall
  · -- the counters of a session begin at zero
    have hzero {x : Stream} {st : StreamStats}
        (hst : (s.start env settings fresh).1.collector.stats? x = some st) : st = {} := by
      have hcollector : (s.start env settings fresh).1.collector =
        { (Collector.keepStarted env settings session.dir
          { s.collector with session := session }).resetLast with running := true } := by
        simp only [Live.start, heq]
      rw [hcollector] at hst
      have hkept : (Collector.keepStarted env settings session.dir
          { s.collector with session := session }).stats? x = some st := by
        rcases x with i | i | x
        · exact hst
        · exact hst
        · cases x <;> exact hst
      obtain ⟨h1, h2, h3, h4, h5, h6, h7⟩ := H.inv.dead hrun
      exact Collector.stats?_keepStarted ⟨h1, h2, h3, h4, h5, h6, h7⟩ hkept
    have hrec (x : Stream) : (s.start env settings fresh).1.recorders x =
        ((s.start env settings fresh).1.collector.stats? x).map fun _ => (fresh x).recorder := by
      simp only [Live.start, hrun]
      rfl
    refine ⟨hinv, fun x => ?_, fun x r hr => ?_, fun x r st hr hst => ?_, fun kind got todo hinside => ?_⟩
    · rw [hrec, Option.isSome_map]
    · obtain ⟨-, -, rfl⟩ := Option.map_eq_some_iff.mp ((hrec x).symm.trans hr)
      exact ⟨fresh x, [], [], rfl⟩
    · rw [hzero hst]
      exact zero_le _
    · exact absurd (hcall.symm.trans hinside) nofun

/-- Every step is answered by calls of the collector that show the same. -/
theorem Inv.next {l : Label W} (H : Inv W s) (h : Step s l s' es) : Inv W s' ∧
    ∃ ks, Collector.machine.run s.collector ks = some (s'.collector, es) := by
  cases h with
  | start hcall => exact ⟨H.start hcall .., [.start _ _], by rw [Machine.run_singleton]; rfl⟩
  | reports hcall =>
    refine ⟨H.begins .report fun x hx => ?_, [], rfl⟩
    rw [Op.loads_report, if_pos hx]
  | stops hcall hrun =>
    refine ⟨H.begins .stop fun x hx => ?_, [], rfl⟩
    rw [Op.loads_stop, if_pos hx]
  | stopsNot hcall hrun => exact ⟨H, [], rfl⟩
  | record hl hr hstep => exact ⟨H.put hr hstep, [], rfl⟩
  | @closing kind got x a todo r r' e hcall hr hstep =>
    refine ⟨(H.put hr hstep).call _ fun kind' got' todo' hcall' => ?_, [], rfl⟩
    cases hcall'
    exact (H.put hr hstep).reading kind got (.closing x a :: todo) hcall
  | @load kind got x c todo r hcall hr =>
    refine ⟨H.call _ fun kind' got' todo' hcall' y t st ht hst => ?_, [], rfl⟩
    cases hcall'
    obtain ⟨hgot, hwill⟩ := H.reading _ _ _ hcall y t st ht hst
    by_cases hy : y = x
    · subst hy
      cases Option.some.inj (hr.symm.trans ht)
      have hloads : Op.loads y (.load y c :: todo) = c :: Op.loads y todo := by simp [Op.loads]
      rw [willRead, hloads] at hwill
      rw [willRead, Function.update_self]
      exact ⟨c.load_le hgot, hwill⟩
    · have hloads : Op.loads y (.load x c :: todo) = Op.loads y todo := by
        simp [Op.loads, Ne.symm hy]
      rw [willRead, hloads] at hwill
      rw [willRead, Function.update_of_ne hy]
      exact ⟨hgot, hwill⟩
  | @reported got lines c hcall hprint =>
    obtain ⟨more, harrive, hinv⟩ := H.arrives hcall
    refine ⟨H.observed hcall (hinv.step (.report hprint)) fun x => ?_, [.arrive more, .report], ?_⟩
    · rw [← Collector.stats?_observe]
      obtain ⟨_, _, _, _, _, _, _, rfl⟩ := Collector.printReport_frame hprint
      rcases x with i | i | x
      · rfl
      · rfl
      · cases x <;> rfl
    · refine Machine.run_cons.mpr ⟨_, [], [.reported lines], harrive, ?_, rfl⟩
      rw [Machine.run_singleton]
      simp only [Collector.machine, hprint]
  | @outOfRange got hcall hprint =>
    obtain ⟨more, harrive, hinv⟩ := H.arrives hcall
    refine ⟨H.observed hcall hinv (Collector.stats?_observe got s.collector), [.arrive more, .report], ?_⟩
    refine Machine.run_cons.mpr ⟨_, [], [.outOfRange], harrive, ?_, rfl⟩
    rw [Machine.run_singleton]
    simp only [Collector.machine, hprint]
  | @stopped got hcall =>
    obtain ⟨more, harrive, hinv⟩ := H.arrives hcall
    have hdead : Collector.Dead ((s.collector.observe got).stop fun _ => {}).1 := by
      cases hrun : (s.collector.observe got).running with
      | true => exact (Collector.stop_of_running hrun _).2.1
      | false =>
        rw [Collector.stop_of_not_running hrun]
        exact hinv.dead hrun
    refine ⟨.of_none (.of_dead hdead) hdead.stats? (fun _ => rfl) rfl,
      [.arrive more, .stop fun _ => {}], ?_⟩
    refine Machine.run_cons.mpr ⟨_, [], _, harrive, ?_, rfl⟩
    rw [Machine.run_singleton]
    rfl

theorem Inv.of_run (h : (machine W).run {} ls = some (s, es)) : Inv W s :=
  Machine.invariant (P := fun _ s => Inv W s) Inv.initial (fun H hs => (H.next (.of_step hs)).1) h

/-- **The collector with its recorders refines the one without.** Whatever the order in which the
producers and writer threads of all streams and the collector's own thread take their steps, and however
the loads of `print_report` and `stop` fall between them: what is shown is what some calls of the
collector without recorders show, which reads all counters of a stream at once, and both know the same
in the end. -/
theorem refines {R σ : Stream → Type} (W : (x : Stream) → Sink (R x) (σ x)) {ls : List (Label W)}
    {s : Live R σ} {es : List Event} (h : (machine W).run {} ls = some (s, es)) :
    ∃ ks, Collector.machine.run {} ks = some (s.collector, es) := by
  obtain ⟨ks, c, hrun, -, rfl⟩ := Machine.simulate
    (fun (s : Live R σ) (c : Collector) => Inv W s ∧ c = s.collector) some
    (fun {s c l s' e} hR hs => by
      obtain ⟨H, rfl⟩ := hR
      obtain ⟨H', ks, hrun⟩ := H.next (.of_step hs)
      exact ⟨ks, s'.collector, by rwa [List.filterMap_some], H', rfl⟩)
    ⟨Inv.initial, rfl⟩ h
  rw [List.filterMap_some] at hrun
  exact ⟨ks, hrun⟩

/-- Every stream has a recorder of rows. -/
def numbers (_ : Stream) : Sink (Nat × Int64) (OStream Char) := RowRecorder.writer fun n _ => Text.decimal n

/-- A session of one hand, that receives a number. A report loads `received` before the number is written
and the other counters after that; `stop` waits for the writer thread. -/
def oneHand (file : Device) (localtime : Int64 → Tm) : List (Label numbers) :=
  let works := DataCollector.Env.works localtime 0
  let env : DataCollector.Env :=
    { works with hand := fun side => ⟨(works.hand side).openFile, side == "left".toList⟩ }
  let hand : Stream := .row (.hand 0)
  [.start env { dex3Enabled := true } fun _ =>
      ⟨.init, (RowRecorder.openFile (some file) ['n'] .init).2, 4, rfl⟩,
    .record hand (.push (7, 5)), .report, .step, .record hand .enqueue, .record hand .popAll,
    .record hand .write, .record hand .count] ++ List.replicate 6 .step ++
  [.record hand .addBytes, .record hand .flush, .stop, .step, .record hand .popAll] ++
    List.replicate 9 .step

theorem refines_oneHand : ∃ s es,
    (machine numbers).run {} (oneHand ⟨100, 8, by decide⟩ fun _ => ⟨2024, 0, 1, 0, 0, 0⟩) = some (s, es) ∧
    ∃ ks, Collector.machine.run {} ks = some (s.collector, es) :=
  Machine.exists_run (P := fun p => p.2.length = 5) (by decide) fun _ _ h _ => refines numbers h

end Live
end Kist
