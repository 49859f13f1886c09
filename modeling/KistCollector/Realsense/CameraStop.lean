import KistCollector.Common.Closing
import KistCollector.Realsense.RealsenseRecorder

/-!
# Stopping a camera comes to an end

A subscriber's `stop` waits for the take-thread, which may be about to take all that its reader holds, and
then takes what has arrived since. A reader holds at most 4096 samples, and a push never waits. `close` of a
recorder waits for its writer thread. A camera does both for its two streams, one after the other; the steps
that its `stop` waits for are bounded, and one of them can always be taken
(`RealsenseRecorder.camera_stop_returns`). The grace period is no step here.
-/

namespace Kist

open ReliableSubscriber (maxSamples)

/-- `stop` has taken its first step. -/
def Stop.called : Stop M → Bool
  | .running => false
  | _ => true

/-- The steps left inside `drain`, apart from those of a push that has begun. -/
def Drain.left : Drain M → Nat
  | .delivering rest => 4 * rest.length + 1
  | .pushing rest => 4 * rest.length + 2

def Producer.left : Producer R → Nat
  | .idle => 0
  | .counted _ => 2
  | .refused => 1

theorem Producer.left_le (p : Producer R) : p.left ≤ 2 := by
  cases p <;> simp [left]

/-- The steps the take-thread has left once the flag is down. -/
def Taker.left : Taker M → Nat
  | .exited => 0
  | .top => 1
  | .draining d => d.left + 1
  | .taking => 4 * maxSamples + 3
  | .waiting => 4 * maxSamples + 4

def Stop.left : Stop M → Nat
  | .closed => 0
  | .swept => 1
  | .draining d => d.left + 1
  | .joined => 4 * maxSamples + 3
  | .flagged | .running => 4 * maxSamples + 4

namespace ReliableSubscriber

variable {M : Type} {sub : ReliableSubscriber M}

/-- What a subscriber holds at any time. -/
structure Within (sub : ReliableSubscriber M) : Prop where
  reader : sub.reader.length ≤ maxSamples
  taker : sub.taker.pending.length ≤ maxSamples
  owner : sub.stop.pending.length ≤ maxSamples
  flag : sub.stop.called = true → sub.running = false

/-- The steps left before `stop` returns. -/
def left (sub : ReliableSubscriber M) : Nat := sub.taker.left + sub.stop.left

theorem length_arrive (h : sub.admits = true) (x : Sample M) :
    (sub.arrive x).reader.length ≤ maxSamples := by
  obtain ⟨-, hroom⟩ := Bool.and_eq_true_iff.mp h
  rw [arrive, keep]
  cases hb : sub.reliable with
  | true =>
    simp only [hb, Bool.not_true, Bool.false_or, decide_eq_true_iff] at hroom
    simpa using Nat.succ_le_of_lt hroom
  | false =>
    have hdepth : historyDepth ≤ maxSamples := by decide
    simp only [Bool.false_eq_true, if_false, List.length_drop]
    omega

theorem Within.setDrain (H : sub.Within) (hd : sub.drain th = some d)
    (hle : d'.rest.length ≤ d.rest.length) : (sub.setDrain d' th).Within := by
  obtain ⟨hreader, htaker, howner, hflag⟩ := H
  cases th with
  | taker =>
    rw [drain_taker.mp hd] at htaker
    exact ⟨hreader, hle.trans htaker, howner, hflag⟩
  | owner =>
    rw [drain_owner.mp hd] at howner hflag
    exact ⟨hreader, htaker, hle.trans howner, fun _ => hflag rfl⟩

theorem Within.drained (H : sub.Within) (hd : sub.drain th = some d) : (sub.drained th).Within := by
  obtain ⟨hreader, htaker, howner, hflag⟩ := H
  cases th with
  | taker => exact ⟨hreader, Nat.zero_le _, howner, hflag⟩
  | owner =>
    rw [drain_owner.mp hd] at hflag
    exact ⟨hreader, htaker, Nat.zero_le _, fun _ => hflag rfl⟩

/-- `drain` is not the first step of `stop`. -/
theorem called_setDrain (h : sub.stop.called = true) (d : Drain M) (th : Thread) :
    (sub.setDrain d th).stop.called = true := by
  cases th with
  | taker => exact h
  | owner => rfl

theorem called_drained (h : sub.stop.called = true) (th : Thread) : (sub.drained th).stop.called = true := by
  cases th with
  | taker => exact h
  | owner => rfl

/-- A step inside `drain` counts for the thread that takes it. -/
theorem left_setDrain (hd : sub.drain th = some d) (d' : Drain M) :
    (sub.setDrain d' th).left + d.left = sub.left + d'.left := by
  cases th with
  | taker =>
    have ht := drain_taker.mp hd
    simp only [left, ReliableSubscriber.setDrain, ht, Taker.left]
    omega
  | owner =>
    have hs := drain_owner.mp hd
    simp only [left, ReliableSubscriber.setDrain, hs, Stop.left]
    omega

theorem left_drained (hd : sub.drain th = some (.delivering [])) :
    (sub.drained th).left + 1 = sub.left := by
  cases th with
  | taker =>
    have ht := drain_taker.mp hd
    simp only [left, ReliableSubscriber.drained, ht, Taker.left, Drain.left, List.length_nil]
    omega
  | owner =>
    have hs := drain_owner.mp hd
    simp only [left, ReliableSubscriber.drained, hs, Stop.left, Drain.left, List.length_nil]

/-- What is left is bounded by what a reader holds. -/
theorem Within.left_le (H : sub.Within) : sub.left ≤ 8 * maxSamples + 8 := by
  have hdrain (d : Drain M) : d.left ≤ 4 * d.rest.length + 2 := by
    cases d <;> simp only [Drain.left, Drain.rest] <;> omega
  have ht : sub.taker.left ≤ 4 * maxSamples + 4 := by
    have hle := H.taker
    cases hp : sub.taker with
    | draining d =>
      have hd := hdrain d
      simp only [hp, Taker.pending] at hle
      simp only [Taker.left]
      omega
    | _ => simp only [Taker.left]; omega
  have hs : sub.stop.left ≤ 4 * maxSamples + 4 := by
    have hle := H.owner
    cases hp : sub.stop with
    | draining d =>
      have hd := hdrain d
      simp only [hp, Stop.pending] at hle
      simp only [Stop.left]
      omega
    | _ => simp only [Stop.left]; omega
  rw [left]
  omega

end ReliableSubscriber

namespace Pipe

variable {M F σ : Type} {map : M → F} {W : Sink (F × Int64) σ} {s s' : Pipe M F σ}

/-- A step of the take-thread or of the subscriber's `stop`, also inside a push, once `stop` is called. -/
def awaitsStop (s : Pipe M F σ) : Label M F → Bool
  | .arrive _ => false
  | .setFlag => true
  | .recorder l => s.sub.stop.called && l.isPush
  | _ => s.sub.stop.called

/-- A step of `close`, or of the writer thread once `close` is called. -/
def awaitsClose (s : Pipe M F σ) : Label M F → Bool
  | .recorder .close => true
  | .recorder l => !l.isPush && s.recorder.closer != .idle
  | _ => false

def awaits (s : Pipe M F σ) (l : Label M F) : Bool := s.awaitsStop l || s.awaitsClose l

/-- The steps left to the two threads, with those of a push that has begun. -/
def threadsLeft (s : Pipe M F σ) : Nat := s.recorder.producer.left + s.sub.left

/-- The steps left before the subscriber's `stop` returns. -/
def stopLeft (s : Pipe M F σ) : Nat :=
  if s.sub.stop.called then s.threadsLeft else 8 * maxSamples + 11

/-- The steps left before `close` returns. -/
def closeLeft (s : Pipe M F σ) : Nat := s.recorder.budget + if s.recorder.closer = .idle then 1 else 0

theorem within_next (H : s.sub.Within) (h : Step map W s l s' e) : s'.sub.Within := by
  obtain ⟨hreader, htaker, howner, hflag⟩ := H
  have H : s.sub.Within := ⟨hreader, htaker, howner, hflag⟩
  cases h with
  | @arrive x hadmits => exact ⟨ReliableSubscriber.length_arrive hadmits x, htaker, howner, hflag⟩
  | test =>
    refine ⟨hreader, ?_, howner, hflag⟩
    dsimp only
    split <;> exact Nat.zero_le _
  | wake | timeout => exact ⟨hreader, Nat.zero_le _, howner, hflag⟩
  | take => exact ⟨Nat.zero_le _, hreader, howner, hflag⟩
  | push hd => exact H.setDrain hd (by simp)
  | skip hd => exact H.setDrain hd (by simp)
  | resume hd => exact H.setDrain hd (Nat.le_refl _)
  | finish hd => exact H.drained hd
  | setFlag => exact ⟨hreader, htaker, Nat.zero_le _, fun _ => rfl⟩
  | joinThread hs | closeReader hs =>
    exact ⟨hreader, htaker, Nat.zero_le _, fun _ => hflag (by rw [hs]; rfl)⟩
  | sweep hs => exact ⟨Nat.zero_le _, htaker, hreader, fun _ => hflag (by rw [hs]; rfl)⟩
  | recorder => exact H

/-- Once `stop` is called, each step of the two threads brings it nearer to its end. -/
theorem threadsLeft_step (H : s.sub.Within) (hcalled : s.sub.stop.called = true) (h : Step map W s l s' e) :
    s'.sub.stop.called = true ∧ s'.threadsLeft + (if s.awaitsStop l then 1 else 0) ≤ s.threadsLeft := by
  have hrunning := H.flag hcalled
  have hreader := H.reader
  cases h with
  | arrive => exact ⟨hcalled, Nat.le_refl _⟩
  | test ht | wake ht | timeout ht | take ht =>
    refine ⟨hcalled, ?_⟩
    simp only [threadsLeft, ReliableSubscriber.left, ht, hrunning, Taker.left, Drain.left, awaitsStop, hcalled]
    simp only [Bool.false_eq_true, if_true, if_false]
    omega
  | @push th x rest t r e hd hv hstep =>
    have hleft := ReliableSubscriber.left_setDrain hd (.pushing rest)
    refine ⟨ReliableSubscriber.called_setDrain hcalled _ th, ?_⟩
    cases Recorder.Step.of_step hstep with
    | push hp =>
      simp only [threadsLeft, hp, Producer.left, Drain.left, List.length_cons, awaitsStop, hcalled,
        if_true] at hleft ⊢
      omega
  | @skip th x rest t hd | @resume th rest hd =>
    have hleft := ReliableSubscriber.left_setDrain hd (.delivering rest)
    refine ⟨ReliableSubscriber.called_setDrain hcalled _ th, ?_⟩
    simp only [threadsLeft, Drain.left, List.length_cons, awaitsStop, hcalled, if_true] at hleft ⊢
    omega
  | @finish th hd =>
    have hleft := ReliableSubscriber.left_drained hd
    refine ⟨ReliableSubscriber.called_drained hcalled th, ?_⟩
    simp only [threadsLeft, awaitsStop, hcalled, if_true]
    omega
  | setFlag hs => rw [hs] at hcalled; cases hcalled
  | joinThread hs | sweep hs | closeReader hs =>
    refine ⟨rfl, ?_⟩
    simp only [threadsLeft, ReliableSubscriber.left, hs, Stop.left, Drain.left, awaitsStop, Stop.called,
      if_true]
    omega
  | recorder hl _ hstep =>
    refine ⟨hcalled, ?_⟩
    cases Recorder.Step.of_step hstep with
    | push => exact absurd rfl (hl _)
    | accept hp | refuse hp | drop hp =>
      simp only [threadsLeft, hp, Producer.left, awaitsStop, hcalled, Recorder.Label.isPush, Bool.and_true,
        if_true]
      omega
    | _ => simp [threadsLeft, awaitsStop, Recorder.Label.isPush]

/-- Before `stop` is called no thread but the take-thread is inside `drain`. -/
theorem stop_of_drain {sub : ReliableSubscriber M} (hcalled : sub.stop.called = false)
    (hd : sub.drain th = some d) (d' : Drain M) :
    (sub.setDrain d' th).stop = sub.stop ∧ (sub.drained th).stop = sub.stop := by
  cases th with
  | taker => exact ⟨rfl, rfl⟩
  | owner =>
    rw [ReliableSubscriber.drain_owner.mp hd] at hcalled
    cases hcalled

theorem stopLeft_step (H : s.sub.Within) (h : Step map W s l s' e) :
    s'.stopLeft + (if s.awaitsStop l then 1 else 0) ≤ s.stopLeft := by
  cases hcalled : s.sub.stop.called with
  | true =>
    obtain ⟨hcalled', hle⟩ := threadsLeft_step H hcalled h
    rw [stopLeft, stopLeft, if_pos hcalled, if_pos hcalled']
    exact hle
  | false =>
    have hsame (hstop : s'.sub.stop = s.sub.stop) (hl : s.awaitsStop l = s.sub.stop.called) :
        s'.stopLeft + (if s.awaitsStop l then 1 else 0) ≤ s.stopLeft := by
      simp [stopLeft, hstop, hl, hcalled]
    have hle := (within_next H h).left_le
    cases h with
    | setFlag =>
      have hproducer := s.recorder.producer.left_le
      have hbefore : s.stopLeft = 8 * maxSamples + 11 := by
        rw [stopLeft, hcalled]
        rfl
      rw [hbefore]
      exact (Nat.succ_le_succ (Nat.add_le_add hproducer hle)).trans (by omega)
    | arrive => exact hsame rfl hcalled.symm
    | push hd => exact hsame (stop_of_drain hcalled hd _).1 rfl
    | skip hd | resume hd => exact hsame (stop_of_drain hcalled hd _).1 rfl
    | finish hd => exact hsame (stop_of_drain hcalled hd (.delivering [])).2 rfl
    | joinThread hs | sweep hs | closeReader hs =>
      rw [hs] at hcalled
      cases hcalled
    | recorder => exact hsame rfl (by simp [awaitsStop, hcalled])
    | _ => exact hsame rfl rfl

/-- Once `close` is called, each step of it and of the writer thread brings it nearer to its end. -/
theorem closeLeft_step (H : Recorder.Opened W s.recorder) (h : Step map W s l s' e) :
    s'.closeLeft + (if s.awaitsClose l then 1 else 0) ≤ s.closeLeft := by
  cases h with
  | push _ _ hstep =>
    have hle := H.budget_step hstep
    cases Recorder.Step.of_step hstep
    exact Nat.add_le_add_right hle _
  | @recorder k r e hl _ hstep =>
    have hle := H.budget_step hstep
    cases Recorder.Step.of_step hstep with
    | push => exact absurd rfl (hl _)
    | close hc =>
      simp [hc, Recorder.Label.isPush] at hle
      simpa [closeLeft, awaitsClose, hc] using hle
    | join hc | closeSink hc =>
      simp [hc, Recorder.Label.isPush] at hle
      simpa [closeLeft, awaitsClose, hc, Recorder.Label.isPush] using hle
    | _ => exact (Nat.add_right_comm ..).le.trans (Nat.add_le_add_right hle _)
  | _ => exact Nat.le_refl _

/-- The steps left before both have returned. -/
def left (s : Pipe M F σ) : Nat := s.stopLeft + s.closeLeft

theorem left_step (H : s.sub.Within) (HO : Recorder.Opened W s.recorder) (h : Step map W s l s' e) :
    s'.left + (if s.awaits l then 1 else 0) ≤ s.left := by
  have hstop := stopLeft_step H h
  have hclose := closeLeft_step HO h
  have hone : (if s.awaits l then 1 else 0) ≤
      (if s.awaitsStop l then 1 else 0) + (if s.awaitsClose l then 1 else 0) := by
    rw [awaits]
    cases s.awaitsStop l <;> cases s.awaitsClose l <;> simp
  rw [left, left]
  omega

section

variable {r : Recorder (F × Int64) σ} {out : σ}

theorem within_of_run (h : (machine map W).run ⟨.started b, r.start out cap⟩ ls = some (s, es)) :
    s.sub.Within := by
  refine Machine.invariant (P := fun _ (s : Pipe M F σ) => s.sub.Within) ?_
    (fun H hs => within_next H (.of_step hs)) h
  exact ⟨Nat.zero_le _, Nat.zero_le _, Nat.zero_le _, nofun⟩

theorem opened_of_run (h : (machine map W).run ⟨.started b, r.start out cap⟩ ls = some (s, es)) :
    Recorder.Opened W s.recorder ∧ s.recorder.queue.capacity = cap := by
  obtain ⟨ks, hr⟩ := recorder_run h
  exact ⟨⟨r, out, cap, ks, _, hr⟩, (Recorder.queue_inv hr).1⟩

/-- What is left is bounded by what the reader and the queue hold. -/
theorem left_le (h : (machine map W).run ⟨.started b, r.start out cap⟩ ls = some (s, es)) :
    s.left ≤ 8 * (maxSamples + cap) + 17 := by
  obtain ⟨hopened, hcap⟩ := opened_of_run h
  have hclose : s.closeLeft ≤ 8 * cap + 6 := by
    have hle := hcap ▸ hopened.budget_le
    rw [closeLeft]
    split <;> omega
  have hstop : s.stopLeft ≤ 8 * maxSamples + 11 := by
    have hle := (within_of_run h).left_le
    have hproducer := s.recorder.producer.left_le
    rw [stopLeft, threadsLeft]
    split <;> omega
  rw [left]
  omega

end

/-- A thread inside `drain` is not stuck. -/
theorem Inv.exists_drain_step (H : Inv map es s) (hcalled : s.sub.stop.called = true)
    (hd : s.sub.drain th = some d) :
    ∃ l, s.awaitsStop l = true ∧ ((machine map W).step s l).isSome = true := by
  cases d with
  | delivering rest =>
    have hidle := H.producer_idle_of_delivering hd
    cases rest with
    | nil => exact ⟨.finish th, hcalled, by simp [machine, hd]⟩
    | cons x rest =>
      refine ⟨.deliver th 0, hcalled, ?_⟩
      cases hv : x.valid with
      | true => simp [machine, hd, hv, recorderStep, Recorder.machine, hidle]
      | false => simp [machine, hd, hv]
  | pushing rest =>
    cases hp : s.recorder.producer with
    | idle => exact ⟨.resume th, hcalled, by simp [machine, hd, hp]⟩
    | counted x =>
      refine ⟨.recorder .enqueue, by simp [awaitsStop, hcalled, Recorder.Label.isPush], ?_⟩
      simp only [machine, recorderStep, Recorder.machine, hp, Option.isSome_map]
      split <;> rfl
    | refused =>
      exact ⟨.recorder .drop, by simp [awaitsStop, hcalled, Recorder.Label.isPush],
        by simp [machine, recorderStep, Recorder.machine, hp]⟩

/-- Until the subscriber's `stop` has returned, the take-thread or `stop` itself can go on. -/
theorem Inv.exists_stop_step (H : Inv map es s) (hcalled : s.sub.stop.called = true)
    (hc : s.sub.stop ≠ .closed) :
    ∃ l, s.awaitsStop l = true ∧ ((machine map W).step s l).isSome = true := by
  cases hs : s.sub.stop with
  | running => rw [hs] at hcalled; cases hcalled
  | flagged =>
    cases ht : s.sub.taker with
    | top => exact ⟨.test, hcalled, by simp [machine, ht]⟩
    | waiting => exact ⟨.timeout, hcalled, by simp [machine, ht]⟩
    | taking => exact ⟨.take, hcalled, by simp [machine, ht]⟩
    | draining d => exact H.exists_drain_step hcalled (ReliableSubscriber.drain_taker.mpr ht)
    | exited => exact ⟨.joinThread, hcalled, by simp [machine, hs, ht]⟩
  | joined => exact ⟨.sweep, hcalled, by simp [machine, hs]⟩
  | draining d => exact H.exists_drain_step hcalled (ReliableSubscriber.drain_owner.mpr hs)
  | swept => exact ⟨.closeReader, hcalled, by simp [machine, hs]⟩
  | closed => exact absurd hs hc

/-- Until `close` has returned, the writer thread or `close` itself can go on. -/
theorem exists_close_step (map : M → F) (H : Recorder.Opened W s.recorder) (hs : s.sub.stop = .closed)
    (hc : s.recorder.closer ≠ .closed) :
    ∃ l, s.awaitsClose l = true ∧ ((machine map W).step s l).isSome = true := by
  by_cases hidle : s.recorder.closer = .idle
  · obtain ⟨s₀, out, cap, ls, es, h⟩ := H
    have hstarted := (Recorder.Inv.of_run h).started
    exact ⟨.recorder .close, rfl, by simp [machine, recorderStep, Recorder.machine, hs, hidle, hstarted]⟩
  · obtain ⟨k, hpush, hstep⟩ := (H.closing hidle).exists_step hc
    refine ⟨.recorder k, ?_, ?_⟩
    · cases k <;> simp_all [awaitsClose, Recorder.Label.isPush]
    · have hinner : (machine map W).step s (.recorder k) = recorderStep W s s.sub k := by
        cases k with
        | push => cases hpush
        | close => simp only [machine, hs]
        | _ => rfl
      rw [hinner, recorderStep, Option.isSome_map]
      exact hstep

end Pipe

namespace RealsenseRecorder

variable {MC MD F : Type} [Floats F] {mapColor : MC → H264ColorFrame} {mapDepth : MD → RvlDepthFrame F}
  {s s' : RealsenseRecorder MC MD F}

/-- A step that `stop` waits for: one of its own, one of a take-thread whose flag is down, or one of a writer
thread whose queue is closed. -/
def awaits (s : RealsenseRecorder MC MD F) : Label MC MD F → Bool
  | .color l => s.color.awaits l
  | .depth l => s.depth.awaits l
  | .stopped => true

/-- The steps left before `stop` returns. -/
def left (s : RealsenseRecorder MC MD F) : Nat := s.color.left + s.depth.left + s.running.toNat

/-- A run from `r₀` leads here. -/
def ReachedFrom (mapColor : MC → H264ColorFrame) (mapDepth : MD → RvlDepthFrame F)
    (r₀ s : RealsenseRecorder MC MD F) : Prop :=
  ∃ ls es, (machine mapColor mapDepth).run r₀ ls = some (s, es)

theorem ReachedFrom.next {r₀ : RealsenseRecorder MC MD F} (H : ReachedFrom mapColor mapDepth r₀ s)
    (h : (machine mapColor mapDepth).step s l = some (s', e)) : ReachedFrom mapColor mapDepth r₀ s' := by
  obtain ⟨ls, es, hrun⟩ := H
  exact ⟨ls ++ [l], es ++ e, Machine.run_snoc.mpr ⟨s, es, e, hrun, h, rfl⟩⟩

/-- What holds of a camera after any run from its start. -/
structure Sound (mapColor : MC → H264ColorFrame) (mapDepth : MD → RvlDepthFrame F)
    (s : RealsenseRecorder MC MD F) : Prop where
  color : ∃ es, Pipe.Inv mapColor es s.color
  depth : ∃ es, Pipe.Inv mapDepth es s.depth
  within : s.color.sub.Within ∧ s.depth.sub.Within
  opened : Recorder.Opened (BlobRecorder.writer colorRow) s.color.recorder ∧
    Recorder.Opened (BlobRecorder.writer depthRow) s.depth.recorder
  stopping : Stopping s

theorem Sound.of_run {r r₀ : RealsenseRecorder MC MD F} (hr : r.Idle)
    (hstart : r.start env name sessionDir cap b = some r₀)
    (h : (machine mapColor mapDepth).run r₀ ls = some (s, es)) :
    Sound mapColor mapDepth s ∧ s.left ≤ 16 * (maxSamples + cap) + 35 := by
  obtain ⟨outC, outD, rfl⟩ := start_eq_some hr.running hstart
  obtain ⟨ksC, hC⟩ := color_run h
  obtain ⟨ksD, hD⟩ := depth_run h
  have hinv : Sound mapColor mapDepth s :=
    { color := ⟨_, .of_run hr.color.1 hC⟩
      depth := ⟨_, .of_run hr.depth.1 hD⟩
      within := ⟨Pipe.within_of_run hC, Pipe.within_of_run hD⟩
      opened := ⟨(Pipe.opened_of_run hC).1, (Pipe.opened_of_run hD).1⟩
      stopping := .of_run h }
  refine ⟨hinv, ?_⟩
  have hcolor := Pipe.left_le hC
  have hdepth := Pipe.left_le hD
  have hrunning : s.running.toNat ≤ 1 := Bool.toNat_le _
  rw [left]
  omega

theorem left_step (H : Sound mapColor mapDepth s) (h : Step mapColor mapDepth s l s' e) :
    s'.left + (if s.awaits l then 1 else 0) ≤ s.left := by
  cases h with
  | @color l c e _ hstep =>
    have hle := Pipe.left_step H.within.1 H.opened.1 (.of_step hstep)
    change c.left + s.depth.left + s.running.toNat + (if s.color.awaits l then 1 else 0) ≤
      s.color.left + s.depth.left + s.running.toNat
    omega
  | @depth l d e _ hstep =>
    have hle := Pipe.left_step H.within.2 H.opened.2 (.of_step hstep)
    change s.color.left + d.left + s.running.toNat + (if s.depth.awaits l then 1 else 0) ≤
      s.color.left + s.depth.left + s.running.toNat
    omega
  | stopped hrunning =>
    rw [left, left, hrunning]
    exact Nat.le_refl _

omit [Floats F] in
/-- The color subscriber stops first. -/
theorem colorTurn_of_awaitsStop (h : s.color.awaitsStop l = true) : s.colorTurn l = true := by
  unfold colorTurn
  split
  · simp [Pipe.awaitsStop, Recorder.Label.isPush] at h
  · rfl

omit [Floats F] in
theorem depthTurn_of_awaitsStop (hs : s.color.sub.stop = .closed) (h : s.depth.awaitsStop l = true) :
    s.depthTurn l = true := by
  unfold depthTurn
  split
  · rw [hs]
    rfl
  · simp [Pipe.awaitsStop, Recorder.Label.isPush] at h
  · rfl

/-- Until `stop` has returned, one of the steps it waits for can be taken. -/
theorem Sound.exists_step (H : Sound mapColor mapDepth s) (hcalled : s.color.sub.stop.called = true)
    (hrunning : s.running = true) :
    ∃ l, s.awaits l = true ∧ ((machine mapColor mapDepth).step s l).isSome = true := by
  obtain ⟨⟨_, hcolor⟩, ⟨_, hdepth⟩, -, ⟨hopenC, hopenD⟩, -⟩ := H
  -- a step of the pipe whose turn it is
  have colorStep {l} (hturn : s.colorTurn l = true) (hawaits : s.color.awaits l = true)
      (hstep : ((colorMachine mapColor).step s.color l).isSome = true) :
      ∃ l, s.awaits l = true ∧ ((machine mapColor mapDepth).step s l).isSome = true :=
    ⟨.color l, hawaits, by simpa only [machine, hturn, if_true, Option.isSome_map] using hstep⟩
  have depthStep {l} (hturn : s.depthTurn l = true) (hawaits : s.depth.awaits l = true)
      (hstep : ((depthMachine mapDepth).step s.depth l).isSome = true) :
      ∃ l, s.awaits l = true ∧ ((machine mapColor mapDepth).step s l).isSome = true :=
    ⟨.depth l, hawaits, by simpa only [machine, hturn, if_true, Option.isSome_map] using hstep⟩
  by_cases hcolorSub : s.color.sub.stop = .closed
  case neg =>
    obtain ⟨l, hl, hstep⟩ := hcolor.exists_stop_step hcalled hcolorSub
    exact colorStep (colorTurn_of_awaitsStop hl) (by rw [Pipe.awaits, hl, Bool.true_or]) hstep
  by_cases hdepthSub : s.depth.sub.stop = .closed
  case neg =>
    obtain ⟨l, hl, hstep⟩ : ∃ l, s.depth.awaitsStop l = true ∧
        ((depthMachine mapDepth).step s.depth l).isSome = true := by
      cases hd : s.depth.sub.stop with
      | running => exact ⟨.setFlag, rfl, by simp [Pipe.machine, hd]⟩
      | _ => exact hdepth.exists_stop_step (by rw [hd]; rfl) hdepthSub
    exact depthStep (depthTurn_of_awaitsStop hcolorSub hl) (by rw [Pipe.awaits, hl, Bool.true_or]) hstep
  by_cases hcolorRec : s.color.recorder.closer = .closed
  case neg =>
    obtain ⟨l, hl, hstep⟩ := Pipe.exists_close_step mapColor hopenC hcolorSub hcolorRec
    refine colorStep ?_ (by rw [Pipe.awaits, hl, Bool.or_true]) hstep
    unfold colorTurn
    split
    · rw [hdepthSub]
      rfl
    · rfl
  by_cases hdepthRec : s.depth.recorder.closer = .closed
  case neg =>
    obtain ⟨l, hl, hstep⟩ := Pipe.exists_close_step mapDepth hopenD hdepthSub hdepthRec
    refine depthStep ?_ (by rw [Pipe.awaits, hl, Bool.or_true]) hstep
    unfold depthTurn
    split
    · rw [hcolorSub]
      rfl
    · exact decide_eq_true hcolorRec
    · rfl
  exact ⟨.stopped, rfl, by simp [machine, hrunning, hdepthRec]⟩

/-- When `stop` takes its first step, the camera is running. -/
theorem Sound.running_of_setFlag (H : Sound mapColor mapDepth s) (hs : s.color.sub.stop = .running) :
    s.running = true := by
  obtain ⟨_, hcolor⟩ := H.color
  by_contra hrunning
  have hclosed := (H.stopping.closed (Bool.eq_false_iff.mpr hrunning)).1
  cases hs.symm.trans (hcolor.closing (by simp [hclosed]))

theorem called_step (H : Sound mapColor mapDepth s) (hcalled : s.color.sub.stop.called = true)
    (h : Step mapColor mapDepth s l s' e) : s'.color.sub.stop.called = true := by
  cases h with
  | color _ hstep => exact (Pipe.threadsLeft_step H.within.1 hcalled (.of_step hstep)).1
  | depth | stopped => exact hcalled

/-- **`stop` of a camera returns.** Whatever arrives in the readers, reliable or not, and whatever the threads
are at: from the first step of `stop` on, the steps that it waits for are bounded by what a reader and a
queue can hold, and until it has returned one of them can be taken. -/
theorem camera_stop_returns {r r₀ : RealsenseRecorder MC MD F} (hr : r.Idle)
    (hstart : r.start env name sessionDir cap b = some r₀)
    (h : (machine mapColor mapDepth).run r₀ ls = some (s, es))
    (h' : (machine mapColor mapDepth).run s (.color .setFlag :: ls') = some (s', es')) :
    .stopped ∈ es' ∨
    ∃ n, ((machine mapColor mapDepth).counted awaits).run (s, 0) (.color .setFlag :: ls') =
        some ((s', n), es') ∧
      n ≤ 16 * (maxSamples + cap) + 35 ∧
      ∃ l, s'.awaits l = true ∧ ((machine mapColor mapDepth).step s' l).isSome = true := by
  obtain ⟨H, hbound⟩ := Sound.of_run hr hstart h
  have hreached : ReachedFrom mapColor mapDepth r₀ s := ⟨ls, es, h⟩
  have hsound {t} (ht : ReachedFrom mapColor mapDepth r₀ t) : Sound mapColor mapDepth t := by
    obtain ⟨ks, e, hrun⟩ := ht
    exact (Sound.of_run hr hstart hrun).1
  obtain ⟨s₁, e₁, e₂, hfirst, hrest, rfl⟩ := Machine.run_cons.mp h'
  have hbefore : s.color.sub.stop = .running ∧ s₁.color.sub.stop.called = true := by
    cases Step.of_step hfirst with
    | color _ hstep =>
      cases Pipe.Step.of_step hstep with
      | setFlag hs => exact ⟨hs, rfl⟩
  have hcalled := (Machine.invariant
    (P := fun _ t => ReachedFrom mapColor mapDepth r₀ t ∧ t.color.sub.stop.called = true)
    ⟨hreached.next hfirst, hbefore.2⟩
    (fun ⟨ht, hc⟩ hstep => ⟨ht.next hstep, called_step (hsound ht) hc (.of_step hstep)⟩) hrest).2
  obtain ⟨x, hx, rfl⟩ | ⟨n, hcount, ⟨hend, hrunning⟩, hn⟩ :=
    Machine.counted_le (fun t => ReachedFrom mapColor mapDepth r₀ t ∧ t.running = true) left awaits
      (fun e => e = Event.stopped) (fun {t l t' e} ⟨ht, hrun⟩ hstep => by
        have hle := left_step (hsound ht) (.of_step hstep)
        cases Step.of_step hstep with
        | stopped => exact .inl ⟨_, List.mem_singleton_self _, rfl⟩
        | color | depth => exact .inr ⟨⟨ht.next hstep, hrun⟩, hle⟩)
      ⟨hreached, H.running_of_setFlag hbefore.1⟩ h'
  · exact .inl hx
  · exact .inr ⟨n, hcount, by omega, (hsound hend).exists_step hcalled hrunning⟩

/-- One frame of each stream has been pushed when the camera is stopped; one more arrives. -/
theorem camera_stop_returns_four : ∃ r₀ s es,
    (new : RealsenseRecorder H264ColorFrame (RvlDepthFrame TwoFloats) TwoFloats).start
      ⟨fun _ => true, fun _ => some ⟨1000, 64, by decide⟩, true, true⟩ ['h'] ['d'] 4 false = some r₀ ∧
    (machine id id).run r₀ ((fourFrames ⟨1, 2, 640, 480, true, [9]⟩ ⟨2, 3, 640, 480, false, [8]⟩
      ⟨7, -1, 640, 480, .milli, .vga, .vga, .vga, .vga, [7]⟩
      ⟨8, -1, 640, 480, .milli, .vga, .vga, .vga, .vga, [6, 5]⟩).take 16) = some (s, es) ∧
    ∃ s' es', (machine id id).run s [.color .setFlag, .color (.arrive ⟨true, ⟨2, 3, 640, 480, false, [8]⟩⟩)] =
      some (s', es') ∧
    (.stopped ∈ es' ∨
    ∃ n, ((machine id id).counted awaits).run (s, 0)
        [.color .setFlag, .color (.arrive ⟨true, ⟨2, 3, 640, 480, false, [8]⟩⟩)] = some ((s', n), es') ∧
      n ≤ 16 * (maxSamples + 4) + 35 ∧
      ∃ l, s'.awaits l = true ∧ ((machine id id).step s' l).isSome = true) := by
  refine Machine.exists_run_from (P := fun p => ((machine (F := TwoFloats) id id).run p.1
    [.color .setFlag, .color (.arrive ⟨true, ⟨2, 3, 640, 480, false, [8]⟩⟩)]).isSome = true) ?runs ?_
  case runs => decide +kernel
  intro r₀ s es hstart h hsome
  obtain ⟨⟨s', es'⟩, h'⟩ := Option.isSome_iff_exists.mp hsome
  exact ⟨s', es', h', camera_stop_returns .new hstart h h'⟩

end RealsenseRecorder
end Kist
