import KistCollector.Lib.PosixPath
import KistCollector.Realsense.FrameRows
import KistCollector.Realsense.PipeRuns

/-!
# The recorder of one camera

`RealsenseRecorder` runs two pipes, one for color and one for depth: two readers, two take-threads,
two writer threads, and one owner. `stop` stops both subscribers, then closes both recorders.
-/

namespace Kist

/-- A started subscriber, where `created` says whether DDS gave it a reader. -/
def ReliableSubscriber.start (created reliable : Bool) (sub : ReliableSubscriber M) :
    Bool × ReliableSubscriber M :=
  if created then (true, .started reliable) else (false, sub)

/-- `stop` has returned. -/
def Stop.returned : Stop M → Bool
  | .closed => true
  | _ => false

structure RealsenseRecorder (MC MD F : Type) where
  running : Bool := false
  color : Pipe MC H264ColorFrame BlobWriter
  depth : Pipe MD (RvlDepthFrame F) BlobWriter

/-- What the system answers while a camera starts: whether a directory can be created, the device
behind a file that can be opened, and whether DDS gives the two readers. -/
structure CameraEnv where
  createDirectories : PosixPath → Bool
  openFile : PosixPath → Option Device
  colorReader : Bool
  depthReader : Bool

namespace RealsenseRecorder

variable {MC MD F : Type}

/-- A recorder as it is constructed: no thread, no reader. -/
def new : RealsenseRecorder MC MD F where
  color := ⟨⟨false, [], false, false, .exited, .closed⟩, BlobRecorder.new⟩
  depth := ⟨⟨false, [], false, false, .exited, .closed⟩, BlobRecorder.new⟩

/-- `none` is a false return, after which what was opened is closed again. -/
def start (env : CameraEnv) (name sessionDir : PosixPath) (queueCapacity : Nat) (reliable : Bool)
    (s : RealsenseRecorder MC MD F) : Option (RealsenseRecorder MC MD F) :=
  let dir := sessionDir.join name
  if s.running then some s
  else if !env.createDirectories dir then none
  else
    match BlobRecorder.open s.color.recorder (env.openFile (dir.join "color.h264".toList))
        (env.openFile (dir.join "color.idx.csv".toList)) colorIdxHeader queueCapacity,
      BlobRecorder.open s.depth.recorder (env.openFile (dir.join "depth.rvl".toList))
        (env.openFile (dir.join "depth.idx.csv".toList)) depthIdxHeader queueCapacity with
    | (true, colorRec), (true, depthRec) =>
      match s.color.sub.start env.colorReader reliable,
        s.depth.sub.start env.depthReader reliable with
      | (true, colorSub), (true, depthSub) =>
        some { running := true, color := ⟨colorSub, colorRec⟩, depth := ⟨depthSub, depthRec⟩ }
      | _, _ => none
    | _, _ => none

/-- The steps of a camera: those of its two pipes, and the end of `stop`. -/
inductive Label (MC MD F : Type) where
  | color (l : Pipe.Label MC H264ColorFrame)
  | depth (l : Pipe.Label MD (RvlDepthFrame F))
  | stopped

inductive Event (MC MD F : Type) where
  | color (e : Pipe.Event MC H264ColorFrame)
  | depth (e : Pipe.Event MD (RvlDepthFrame F))
  | stopped

/-- `stop` closes the color recorder after both subscribers have stopped. -/
def colorTurn (s : RealsenseRecorder MC MD F) : Pipe.Label MC H264ColorFrame → Bool
  | .recorder .close => s.depth.sub.stop.returned
  | _ => true

/-- `stop` stops the depth subscriber after the color subscriber, and closes the depth recorder
last. -/
def depthTurn (s : RealsenseRecorder MC MD F) : Pipe.Label MD (RvlDepthFrame F) → Bool
  | .setFlag => s.color.sub.stop.returned
  | .recorder .close => s.color.recorder.closer = .closed
  | _ => true

@[simp] def Event.color? : Event MC MD F → Option (Pipe.Event MC H264ColorFrame)
  | .color e => some e
  | .depth _ | .stopped => none

@[simp] def Event.depth? : Event MC MD F → Option (Pipe.Event MD (RvlDepthFrame F))
  | .depth e => some e
  | .color _ | .stopped => none

/-- The history of the color stream. -/
def colorEvents (es : List (Event MC MD F)) : List (Pipe.Event MC H264ColorFrame) :=
  seen Event.color? es

/-- The history of the depth stream. -/
def depthEvents (es : List (Event MC MD F)) : List (Pipe.Event MD (RvlDepthFrame F)) :=
  seen Event.depth? es

@[simp] theorem colorEvents_color (e : List (Pipe.Event MC H264ColorFrame)) :
    colorEvents (e.map Event.color : List (Event MC MD F)) = e := by
  simp [colorEvents, seen, List.filterMap_map, Function.comp_def]

@[simp] theorem depthEvents_depth (e : List (Pipe.Event MD (RvlDepthFrame F))) :
    depthEvents (e.map Event.depth : List (Event MC MD F)) = e := by
  simp [depthEvents, seen, List.filterMap_map, Function.comp_def]

@[simp] theorem colorEvents_depth (e : List (Pipe.Event MD (RvlDepthFrame F))) :
    colorEvents (e.map Event.depth : List (Event MC MD F)) = [] := by
  simp [colorEvents, seen, List.filterMap_map, Function.comp_def]

@[simp] theorem depthEvents_color (e : List (Pipe.Event MC H264ColorFrame)) :
    depthEvents (e.map Event.color : List (Event MC MD F)) = [] := by
  simp [depthEvents, seen, List.filterMap_map, Function.comp_def]

/-- As constructed, or as `stop` leaves it: no push is in progress and every record received is
counted as written, dropped or failed. -/
structure Idle (s : RealsenseRecorder MC MD F) : Prop where
  running : s.running = false
  color : s.color.recorder.producer = .idle ∧ s.color.recorder.received =
    s.color.recorder.written + s.color.recorder.dropped + s.color.recorder.writeErrors
  depth : s.depth.recorder.producer = .idle ∧ s.depth.recorder.received =
    s.depth.recorder.written + s.depth.recorder.dropped + s.depth.recorder.writeErrors

theorem Idle.new : (new : RealsenseRecorder MC MD F).Idle := ⟨rfl, ⟨rfl, rfl⟩, rfl, rfl⟩

/-- A successful start on an idle camera opens both recorders and gives both subscribers a reader. -/
theorem start_eq_some {r r₀ : RealsenseRecorder MC MD F} (hr : r.running = false)
    (h : r.start env name dir cap b = some r₀) : ∃ outC outD, r₀ = ⟨true,
      ⟨.started b, r.color.recorder.start outC cap⟩, ⟨.started b, r.depth.recorder.start outD cap⟩⟩ := by
  simp only [start, hr, Bool.false_eq_true, if_false, Option.ite_none_left_eq_some] at h
  obtain ⟨-, h⟩ := h
  split at h
  · rename_i c d hcolor hdepth
    obtain ⟨outC, rfl⟩ := Recorder.openWith_eq_true hcolor
    obtain ⟨outD, rfl⟩ := Recorder.openWith_eq_true hdepth
    simp only [ReliableSubscriber.start] at h
    split at h
    · rename_i hc hd
      split at hc <;> cases hc
      split at hd <;> cases hd
      cases h
      exact ⟨outC, outD, rfl⟩
    · cases h
  · cases h

section

variable [Floats F] (mapColor : MC → H264ColorFrame) (mapDepth : MD → RvlDepthFrame F)

abbrev colorMachine := Pipe.machine mapColor (BlobRecorder.writer colorRow)

abbrev depthMachine := Pipe.machine mapDepth (BlobRecorder.writer depthRow)

/-- A started camera under any schedule of its threads, of arriving samples and of `stop`. -/
def machine : Machine (RealsenseRecorder MC MD F) (Label MC MD F) (Event MC MD F) where
  step s
    | .color l =>
      if s.colorTurn l then
        ((colorMachine mapColor).step s.color l).map fun p =>
          ({ s with color := p.1 }, p.2.map .color)
      else none
    | .depth l =>
      if s.depthTurn l then
        ((depthMachine mapDepth).step s.depth l).map fun p =>
          ({ s with depth := p.1 }, p.2.map .depth)
      else none
    | .stopped =>
      if s.running ∧ s.depth.recorder.closer = .closed then
        some ({ s with running := false }, [.stopped])
      else none

/-- What one step of a camera can do. -/
inductive Step (s : RealsenseRecorder MC MD F) :
    Label MC MD F → RealsenseRecorder MC MD F → List (Event MC MD F) → Prop
  | color : s.colorTurn l = true → (colorMachine mapColor).step s.color l = some (c, es) →
    Step s (.color l) { s with color := c } (es.map .color)
  | depth : s.depthTurn l = true → (depthMachine mapDepth).step s.depth l = some (d, es) →
    Step s (.depth l) { s with depth := d } (es.map .depth)
  | stopped : s.running = true → s.depth.recorder.closer = .closed →
    Step s .stopped { s with running := false } [.stopped]

end

variable [Floats F] {mapColor : MC → H264ColorFrame} {mapDepth : MD → RvlDepthFrame F}
  {s s' : RealsenseRecorder MC MD F}

theorem Step.of_step (h : (machine mapColor mapDepth).step s l = some (s', es)) :
    Step mapColor mapDepth s l s' es := by
  cases l with
  | color l =>
    simp only [machine, Option.ite_none_right_eq_some, Option.map_eq_some_iff] at h
    obtain ⟨hturn, ⟨c, e⟩, hstep, heq⟩ := h
    cases heq
    exact .color hturn hstep
  | depth l =>
    simp only [machine, Option.ite_none_right_eq_some, Option.map_eq_some_iff] at h
    obtain ⟨hturn, ⟨d, e⟩, hstep, heq⟩ := h
    cases heq
    exact .depth hturn hstep
  | stopped =>
    simp only [machine, Option.ite_none_right_eq_some] at h
    obtain ⟨⟨hrunning, hclosed⟩, heq⟩ := h
    cases heq
    exact .stopped hrunning hclosed

/-! ## The two pipes of a run -/

/-- A run of a camera is a run of its color pipe. -/
theorem color_run (h : (machine mapColor mapDepth).run r ls = some (s, es)) :
    ∃ ks, (colorMachine mapColor).run r.color ks = some (s.color, colorEvents es) := by
  refine Machine.project (fun s : RealsenseRecorder MC MD F => s.color) Event.color? ?_ h
  intro s l s' e hs
  cases Step.of_step hs with
  | @color k c e _ hstep =>
    refine ⟨[k], ?_⟩
    rw [Machine.run_singleton]
    exact hstep.trans (congrArg (fun e => some (c, e)) (colorEvents_color e).symm)
  | @depth k d e _ hstep =>
    exact ⟨[], congrArg (fun e => some (_, e)) (colorEvents_depth e).symm⟩
  | stopped => exact ⟨[], rfl⟩

/-- A run of a camera is a run of its depth pipe. -/
theorem depth_run (h : (machine mapColor mapDepth).run r ls = some (s, es)) :
    ∃ ks, (depthMachine mapDepth).run r.depth ks = some (s.depth, depthEvents es) := by
  refine Machine.project (fun s : RealsenseRecorder MC MD F => s.depth) Event.depth? ?_ h
  intro s l s' e hs
  cases Step.of_step hs with
  | @depth k d e _ hstep =>
    refine ⟨[k], ?_⟩
    rw [Machine.run_singleton]
    exact hstep.trans (congrArg (fun e => some (d, e)) (depthEvents_depth e).symm)
  | @color k c e _ hstep =>
    exact ⟨[], congrArg (fun e => some (_, e)) (depthEvents_color e).symm⟩
  | stopped => exact ⟨[], rfl⟩

/-! ## Stopping -/

/-- How far `stop` has come. -/
structure Stopping (s : RealsenseRecorder MC MD F) : Prop where
  depthLast : s.depth.recorder.closer ≠ .idle → s.color.recorder.closer = .closed
  returned : s.running = false → s.depth.recorder.closer = .closed

theorem Stopping.next (H : Stopping s) (h : Step mapColor mapDepth s l s' e) : Stopping s' := by
  cases h with
  | color _ hstep =>
    have hc := (Pipe.Step.of_step hstep).closer.2
    exact ⟨fun h => hc (H.depthLast h), H.returned⟩
  | depth hturn hstep =>
    obtain ⟨hopens, hc⟩ := (Pipe.Step.of_step hstep).closer
    refine ⟨fun h => ?_, fun h => hc (H.returned h)⟩
    rcases hopens h with h | rfl
    · exact H.depthLast h
    · exact of_decide_eq_true hturn
  | stopped _ hclosed => exact ⟨H.depthLast, fun _ => hclosed⟩

theorem Stopping.of_run {c : Pipe MC H264ColorFrame BlobWriter}
    {r : Recorder (RvlDepthFrame F × Int64) BlobWriter} {out : BlobWriter}
    (h : (machine mapColor mapDepth).run ⟨true, c, ⟨sub, r.start out cap⟩⟩ ls = some (s, es)) :
    Stopping s := by
  refine Machine.invariant (P := fun _ s => Stopping s) ?_ (fun H hs => H.next (.of_step hs)) h
  exact ⟨fun h => absurd rfl h, nofun⟩

omit [Floats F] in
/-- When `stop` has returned, both recorders are closed. -/
theorem Stopping.closed (H : Stopping s) (hs : s.running = false) :
    s.color.recorder.closer = .closed ∧ s.depth.recorder.closer = .closed := by
  have hd := H.returned hs
  exact ⟨H.depthLast (by simp [hd]), hd⟩

/-- Only the return of `stop` shows as `stopped`. -/
theorem running_of_stopped (h : (machine mapColor mapDepth).step s l = some (s', [.stopped])) :
    s'.running = false := by
  generalize he : [Event.stopped] = e at h
  cases Step.of_step h with
  | color _ _ | depth _ _ =>
    obtain ⟨_, -, hx⟩ := List.map_eq_singleton_iff.mp he.symm
    cases hx
  | stopped => rfl

theorem oneEvent (mapColor : MC → H264ColorFrame) (mapDepth : MD → RvlDepthFrame F) :
    (machine mapColor mapDepth).OneEvent := by
  intro s l s' es h
  cases Step.of_step h with
  | color _ hstep => simpa using Pipe.oneEvent _ _ hstep
  | depth _ hstep => simpa using Pipe.oneEvent _ _ hstep
  | stopped => exact Nat.le_refl _

/-- **`stop` abandons nothing.** From a successful start on, whatever the schedule: each stream pushes
what arrived, once and in order, never after its queue was closed or `stop` returned, and loses
records only to a full queue. When `stop` has returned, every valid sample that arrived before the
final sweep and that its reader did not displace was pushed (a reliable reader displaces none,
`Pipe.kept_true`), and the counters account for every valid sample taken. -/
theorem stop_abandons_nothing {r r₀ : RealsenseRecorder MC MD F} (hr : r.Idle)
    (hstart : r.start env name sessionDir cap b = some r₀)
    (h : (machine mapColor mapDepth).run r₀ ls = some (s, es)) :
    Pipe.Kept mapColor b cap (colorEvents es) ∧ Pipe.Kept mapDepth b cap (depthEvents es) ∧
    (∀ pre post, es = pre ++ .stopped :: post →
      Pipe.pushed (colorEvents post) = [] ∧ Pipe.pushed (depthEvents post) = []) ∧
    (s.running = false →
      Pipe.Settled mapColor b r.color.recorder (colorEvents es) s.color ∧
      Pipe.Settled mapDepth b r.depth.recorder (depthEvents es) s.depth ∧ s.Idle) := by
  obtain ⟨outC, outD, rfl⟩ := start_eq_some hr.running hstart
  obtain ⟨ksC, hC⟩ := color_run h
  obtain ⟨ksD, hD⟩ := depth_run h
  refine ⟨.of_run hr.color.1 hC, .of_run hr.depth.1 hD, ?_, fun hs => ?_⟩
  · rintro pre post rfl
    obtain ⟨ls₁, l, ls₂, s₁, s₂, -, h₁, hl, h₂⟩ :=
      Machine.run_at_event (oneEvent mapColor mapDepth) h
    have hpre := Machine.run_snoc.mpr ⟨s₁, pre, _, h₁, hl, rfl⟩
    obtain ⟨hc, hd⟩ := (Stopping.of_run hpre).closed (running_of_stopped hl)
    obtain ⟨js, hjs⟩ := color_run hpre
    obtain ⟨js', hjs'⟩ := depth_run hpre
    obtain ⟨ks, hks⟩ := color_run h₂
    obtain ⟨ks', hks'⟩ := depth_run h₂
    exact ⟨(Pipe.Inv.of_run hr.color.1 hjs).quiet (by simp [hc]) hks,
      (Pipe.Inv.of_run hr.depth.1 hjs').quiet (by simp [hd]) hks'⟩
  · obtain ⟨hc, hd⟩ := (Stopping.of_run h).closed hs
    have HC := Pipe.Settled.of_run hr.color.1 hr.color.2 hC hc
    have HD := Pipe.Settled.of_run hr.depth.1 hr.depth.2 hD hd
    exact ⟨HC, HD, hs, ⟨HC.idle, HC.balanced⟩, HD.idle, HD.balanced⟩

/-- The take-thread takes and pushes one sample. -/
def takeOne (x : M) : List (Pipe.Label M F) :=
  [.arrive ⟨true, x⟩, .test, .wake, .take, .deliver .taker 5, .recorder .enqueue, .resume .taker,
    .finish .taker]

/-- A subscriber stops while one more sample arrives, next to an invalid one. -/
def sweepOne (x : M) : List (Pipe.Label M F) :=
  [.setFlag, .arrive ⟨false, x⟩, .arrive ⟨true, x⟩, .test, .joinThread, .sweep, .deliver .owner 6,
    .deliver .owner 6, .recorder .enqueue, .resume .owner, .finish .owner, .closeReader]

/-- A recorder with `n` queued records closes. -/
def closeAfter (n : Nat) : List (Pipe.Label M F) :=
  let steps : List (Recorder.Label (F × Int64)) :=
    .close :: .popAll :: (List.replicate n [.write, .count, .addBytes]).flatten ++
      [.flush, .popAll, .join, .closeSink]
  steps.map .recorder

/-- A schedule that takes one frame of each stream before `stop` and one in the final sweeps. -/
def fourFrames (c c' : MC) (d d' : MD) : List (Label MC MD F) :=
  (takeOne d).map .depth ++ (takeOne c ++ sweepOne c').map .color ++ (sweepOne d').map .depth ++
    (closeAfter 2).map .color ++ (closeAfter 2).map .depth ++ [.stopped]

/-- Files of 1000 bytes each. -/
theorem stop_abandons_nothing_four : ∃ r₀ s es,
    (new : RealsenseRecorder H264ColorFrame (RvlDepthFrame TwoFloats) TwoFloats).start
      ⟨fun _ => true, fun _ => some ⟨1000, 64, by decide⟩, true, true⟩ ['h'] ['d'] 4 true = some r₀ ∧
    (machine id id).run r₀ (fourFrames ⟨1, 2, 640, 480, true, [9]⟩ ⟨2, 3, 640, 480, false, [8]⟩
      ⟨7, -1, 640, 480, .milli, .vga, .vga, .vga, .vga, [7]⟩
      ⟨8, -1, 640, 480, .milli, .vga, .vga, .vga, .vga, [6, 5]⟩) = some (s, es) ∧
    s.running = false ∧ Pipe.Settled id true BlobRecorder.new (colorEvents es) s.color ∧
    Pipe.Settled id true BlobRecorder.new (depthEvents es) s.depth := by
  refine Machine.exists_run_from (P := fun p => p.1.running = false) ?ends ?_
  case ends => decide +kernel
  intro r₀ s es hstart h hs
  obtain ⟨-, -, -, hsettled⟩ := stop_abandons_nothing .new hstart h
  obtain ⟨hc, hd, -⟩ := hsettled hs
  exact ⟨hs, hc, hd⟩

/-- A subscriber stops after more samples have arrived than a reader keeps that is not reliable. The
queue takes none of them. -/
def sweepMany (x : Nat → M) (n : Nat) : List (Pipe.Label M F) :=
  (List.range n).map (fun i => .arrive ⟨true, x i⟩) ++
    [.setFlag, .test, .joinThread, .sweep] ++
    (List.replicate (min n ReliableSubscriber.historyDepth)
      [.deliver .owner 6, .recorder .enqueue, .recorder .drop, .resume .owner]).flatten ++
    [.finish .owner, .closeReader]

/-- A recorder with an empty queue closes. -/
def closeEmpty : List (Pipe.Label M F) := [.close, .popAll, .join, .closeSink].map .recorder

/-- A reader that is not reliable: 31 samples arrive before the first take, and the first of them is
never pushed. -/
theorem stop_abandons_displaced : ∃ r₀ s es,
    (new : RealsenseRecorder H264ColorFrame (RvlDepthFrame TwoFloats) TwoFloats).start
      ⟨fun _ => true, fun _ => some ⟨1000, 64, by decide⟩, true, true⟩ ['h'] ['d'] 0 false = some r₀ ∧
    (machine id id).run r₀ ((sweepMany (fun i => ⟨.ofNat i, 2, 640, 480, true, [9]⟩) 31).map .color ++
      (sweepMany (fun i => ⟨.ofNat i, 3, 640, 480, .milli, .vga, .vga, .vga, .vga, [7]⟩) 0).map .depth ++
      closeEmpty.map .color ++ closeEmpty.map .depth ++ [.stopped]) = some (s, es) ∧
    s.running = false ∧
    0 ∈ (Pipe.frames id (Pipe.arrived (Pipe.beforeSweep (colorEvents es)))).map (·.sequence) ∧
    0 ∉ (Pipe.pushed (colorEvents es)).map (·.sequence) := by
  refine Machine.exists_run_from (P := fun p => p.1.running = false ∧
    0 ∈ (Pipe.frames id (Pipe.arrived (Pipe.beforeSweep (colorEvents p.2)))).map (·.sequence) ∧
    0 ∉ (Pipe.pushed (colorEvents p.2)).map (·.sequence)) ?ends ?_
  case ends => decide +kernel
  intro _ _ _ _ _ h
  exact h

end RealsenseRecorder
end Kist
