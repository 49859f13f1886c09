import KistCollector.Realsense.ReliableSubscriber

/-!
# Runs of a pipe

A run of a pipe is a run of its recorder (`Pipe.recorder_run`). Of what arrived before the final
sweep, what the reader kept (`Pipe.kept`) was taken or is still there, and what was taken was pushed
or waits in the hands of the thread that took it (`Pipe.Inv`). While a thread is inside a push the
queue is open, and once the queue is closed no thread is left that could push.
-/

namespace Kist

namespace Drain

/-- The samples not yet given to the recorder. -/
@[simp] def rest : Drain M → List (Sample M)
  | .delivering rest | .pushing rest => rest

end Drain

/-- The samples the take-thread has taken and not yet given to the recorder. -/
def Taker.pending : Taker M → List (Sample M)
  | .draining d => d.rest
  | .top | .waiting | .taking | .exited => []

/-- The samples of the final sweep not yet given to the recorder. -/
def Stop.pending : Stop M → List (Sample M)
  | .draining d => d.rest
  | .running | .flagged | .joined | .swept | .closed => []

/-- The take-thread has been joined. -/
def Stop.joins : Stop M → Bool
  | .running | .flagged => false
  | .joined | .draining _ | .swept | .closed => true

/-- The final sweep has taken its samples. -/
def Stop.sweeps : Stop M → Bool
  | .draining _ | .swept | .closed => true
  | .running | .flagged | .joined => false

namespace ReliableSubscriber

variable {M : Type}

def pending (sub : ReliableSubscriber M) : List (Sample M) := sub.taker.pending ++ sub.stop.pending

/-- A thread is inside a push. -/
def Pushing (sub : ReliableSubscriber M) : Prop := ∃ th rest, sub.drain th = some (.pushing rest)

/-- The take-thread is gone before the owner takes anything. -/
def Joined (sub : ReliableSubscriber M) : Prop := sub.stop.joins = true → sub.taker = .exited

@[simp] theorem keep_nil (b : Bool) : keep b ([] : List (Sample M)) = [] := by cases b <;> rfl

@[simp] theorem keep_true (xs : List (Sample M)) : keep true xs = xs := rfl

theorem keep_sublist (b : Bool) (xs : List (Sample M)) : (keep b xs).Sublist xs := by
  cases b with
  | true => exact .refl _
  | false => exact List.drop_sublist ..

/-- A full reader makes room from its oldest end. -/
theorem keep_append (b : Bool) (xs : List (Sample M)) (x : Sample M) :
    keep b (keep b xs ++ [x]) = keep b (xs ++ [x]) := by
  cases b with
  | true => rfl
  | false =>
    have hlen : xs.length - historyDepth ≤ xs.length := Nat.sub_le ..
    rw [keep, keep, if_neg Bool.false_ne_true, if_neg Bool.false_ne_true,
      ← List.drop_append_of_le_length hlen, List.drop_drop, keep, if_neg Bool.false_ne_true]
    simp only [List.length_drop, List.length_append, List.length_singleton]
    congr 1
    omega

@[simp] theorem arrive_reliable (sub : ReliableSubscriber M) (x : Sample M) :
    (sub.arrive x).reliable = sub.reliable := rfl

@[simp] theorem setDrain_reader (sub : ReliableSubscriber M) (d : Drain M) (th : Thread) :
    (sub.setDrain d th).reader = sub.reader := by cases th <;> rfl

@[simp] theorem setDrain_reliable (sub : ReliableSubscriber M) (d : Drain M) (th : Thread) :
    (sub.setDrain d th).reliable = sub.reliable := by cases th <;> rfl

@[simp] theorem drained_reader (sub : ReliableSubscriber M) (th : Thread) :
    (sub.drained th).reader = sub.reader := by cases th <;> rfl

@[simp] theorem drained_reliable (sub : ReliableSubscriber M) (th : Thread) :
    (sub.drained th).reliable = sub.reliable := by cases th <;> rfl

theorem drain_taker {sub : ReliableSubscriber M} :
    sub.drain .taker = some d ↔ sub.taker = .draining d := by
  cases h : sub.taker <;> simp [drain, h]

theorem drain_owner {sub : ReliableSubscriber M} :
    sub.drain .owner = some d ↔ sub.stop = .draining d := by
  cases h : sub.stop <;> simp [drain, h]

/-- At most one thread is inside `drain`. -/
theorem Joined.drain_unique {sub : ReliableSubscriber M} (H : sub.Joined)
    (hd : sub.drain th = some d) (hd' : sub.drain th' = some d') : d = d' := by
  match th, th' with
  | .taker, .taker | .owner, .owner => exact Option.some.inj (hd.symm.trans hd')
  | .taker, .owner =>
    rw [drain_taker] at hd; rw [drain_owner] at hd'
    simp [H (by simp [hd', Stop.joins])] at hd
  | .owner, .taker =>
    rw [drain_owner] at hd; rw [drain_taker] at hd'
    simp [H (by simp [hd, Stop.joins])] at hd'

theorem Joined.pending_eq {sub : ReliableSubscriber M} (H : sub.Joined)
    (hd : sub.drain th = some d) : sub.pending = d.rest := by
  cases th with
  | taker =>
    rw [drain_taker] at hd
    cases hs : sub.stop <;> simp [pending, hd, hs, Taker.pending, Stop.pending]
    simp [H (by simp [hs, Stop.joins])] at hd
  | owner =>
    rw [drain_owner] at hd
    simp [pending, hd, H (by simp [hd, Stop.joins]), Taker.pending, Stop.pending]

/-- A step inside `drain` changes no more than what is pending. -/
theorem Joined.setDrain {sub : ReliableSubscriber M} (H : sub.Joined)
    (hd : sub.drain th = some d) (d' : Drain M) : (sub.setDrain d' th).Joined ∧
      (sub.setDrain d' th).drain th = some d' ∧
      (sub.setDrain d' th).stop.sweeps = sub.stop.sweeps ∧
      (sub.stop = .closed → (sub.setDrain d' th).stop = .closed) := by
  cases th with
  | taker =>
    rw [drain_taker] at hd
    refine ⟨fun hj => ?_, rfl, rfl, id⟩
    simp [H hj] at hd
  | owner =>
    rw [drain_owner] at hd
    exact ⟨fun _ => H (by simp [hd, Stop.joins]), rfl,
      by simp [ReliableSubscriber.setDrain, hd, Stop.sweeps], by simp [hd]⟩

theorem Joined.drained {sub : ReliableSubscriber M} (H : sub.Joined)
    (hd : sub.drain th = some (.delivering [])) : (sub.drained th).Joined ∧
      (sub.drained th).pending = [] ∧ (sub.drained th).stop.sweeps = sub.stop.sweeps ∧
      sub.stop ≠ .closed := by
  cases th with
  | taker =>
    rw [drain_taker] at hd
    have hj : sub.stop.joins ≠ true := fun hj => by simp [H hj] at hd
    refine ⟨fun h => absurd h hj, ?_, rfl, fun hc => by simp [hc, Stop.joins] at hj⟩
    cases hs : sub.stop <;>
      simp [pending, ReliableSubscriber.drained, hs, Stop.joins, Taker.pending, Stop.pending] at hj ⊢
  | owner =>
    rw [drain_owner] at hd
    have ht := H (by simp [hd, Stop.joins])
    exact ⟨fun _ => ht,
      by simp [pending, ReliableSubscriber.drained, ht, Taker.pending, Stop.pending],
      by simp [ReliableSubscriber.drained, hd, Stop.sweeps], by simp [hd]⟩

theorem not_pushing {sub : ReliableSubscriber M}
    (ht : ∀ d, sub.taker ≠ .draining d) (hs : ∀ d, sub.stop ≠ .draining d) : ¬ sub.Pushing := by
  rintro ⟨th, rest, hd⟩
  cases th with
  | taker => exact ht _ (drain_taker.mp hd)
  | owner => exact hs _ (drain_owner.mp hd)

end ReliableSubscriber

namespace Pipe

variable {M F σ : Type}

/-! ## Histories -/

@[simp] def Event.arrived? : Event M F → Option (Sample M)
  | .arrived x => some x
  | _ => none

@[simp] def Event.taken? : Event M F → Option (List (Sample M))
  | .took batch | .swept batch => some batch
  | _ => none

@[simp] def Event.recorder? : Event M F → Option (Recorder.Event (F × Int64))
  | .recorder e => some e
  | _ => none

@[simp] def Event.sweeps : Event M F → Bool
  | .swept _ => true
  | .arrived _ | .took _ | .recorder _ => false

/-- The samples that entered the reader. -/
def arrived (es : List (Event M F)) : List (Sample M) := seen Event.arrived? es

/-- The samples `take` returned, in the take-thread and in the final sweep. -/
def taken (es : List (Event M F)) : List (Sample M) := (seen Event.taken? es).flatten

/-- What the recorder shows. -/
def recorded (es : List (Event M F)) : List (Recorder.Event (F × Int64)) :=
  seen Event.recorder? es

/-- The frames push was called with. -/
def pushed (es : List (Event M F)) : List F := (Recorder.pushed (recorded es)).map Prod.fst

/-- The history before the final sweep. -/
def beforeSweep (es : List (Event M F)) : List (Event M F) := es.takeWhile fun e => !e.sweeps

/-- The frames of the valid samples. -/
def frames (map : M → F) (xs : List (Sample M)) : List F :=
  (xs.filter (·.valid)).map fun x => map x.data

@[simp] theorem arrived_singleton (e : Event M F) : arrived [e] = e.arrived?.toList :=
  seen_singleton ..

@[simp] theorem arrived_nil : arrived ([] : List (Event M F)) = [] := rfl

@[simp] theorem taken_append (es es' : List (Event M F)) :
    taken (es ++ es') = taken es ++ taken es' := by simp [taken]

@[simp] theorem taken_singleton (e : Event M F) : taken [e] = e.taken?.getD [] := by
  cases e <;> simp [taken]

@[simp] theorem recorded_append (es es' : List (Event M F)) :
    recorded (es ++ es') = recorded es ++ recorded es' := seen_append ..

@[simp] theorem recorded_singleton (e : Event M F) : recorded [e] = e.recorder?.toList :=
  seen_singleton ..

@[simp] theorem pushed_append (es es' : List (Event M F)) :
    pushed (es ++ es') = pushed es ++ pushed es' := by simp [pushed]

@[simp] theorem pushed_nil : pushed ([] : List (Event M F)) = [] := rfl

@[simp] theorem pushed_singleton (e : Event M F) :
    pushed [e] = (Recorder.pushed e.recorder?.toList).map Prod.fst := by simp [pushed]

@[simp] theorem frames_append (map : M → F) (xs ys : List (Sample M)) :
    frames map (xs ++ ys) = frames map xs ++ frames map ys := by simp [frames]

@[simp] theorem frames_nil (map : M → F) : frames map [] = [] := rfl

theorem frames_cons_valid (map : M → F) {x : Sample M} (h : x.valid = true) (xs : List (Sample M)) :
    frames map (x :: xs) = map x.data :: frames map xs := by simp [frames, h]

theorem frames_cons_invalid (map : M → F) {x : Sample M} (h : x.valid = false)
    (xs : List (Sample M)) : frames map (x :: xs) = frames map xs := by simp [frames, h]

/-- One event of a history, after takes that returned the first list and arrivals of the second since
the last of them. -/
def Event.read (reliable : Bool) (p : List (Sample M) × List (Sample M)) :
    Event M F → List (Sample M) × List (Sample M)
  | .arrived x => (p.1, p.2 ++ [x])
  | .took _ => (p.1 ++ ReliableSubscriber.keep reliable p.2, [])
  | .swept _ | .recorder _ => p

/-- What was kept for the takes before the final sweep, and what arrived since the last of them. -/
def reading (reliable : Bool) (es : List (Event M F)) : List (Sample M) × List (Sample M) :=
  (beforeSweep es).foldl (Event.read reliable) ([], [])

/-- The samples that arrived before the final sweep and were not displaced: of those between two takes
a reader keeps all if it is reliable, and the last 30 otherwise. -/
def kept (reliable : Bool) (es : List (Event M F)) : List (Sample M) :=
  let p := reading reliable es
  p.1 ++ ReliableSubscriber.keep reliable p.2

theorem arrived_cons (e : Event M F) (es : List (Event M F)) :
    arrived (e :: es) = e.arrived?.toList ++ arrived es := by
  cases e <;> rfl

theorem kept_true (es : List (Event M F)) : kept true es = arrived (beforeSweep es) := by
  have H (es : List (Event M F)) (p : List (Sample M) × List (Sample M)) :
      (es.foldl (Event.read true) p).1 ++ (es.foldl (Event.read true) p).2 =
        p.1 ++ p.2 ++ arrived es := by
    induction es generalizing p with
    | nil => simp
    | cons e es ih =>
      rw [List.foldl_cons, ih, arrived_cons]
      cases e <;> simp [Event.read]
  exact H (beforeSweep es) ([], [])

/-- Whatever is displaced, no other order and no sample twice. -/
theorem kept_sublist (b : Bool) (es : List (Event M F)) :
    (kept b es).Sublist (arrived (beforeSweep es)) := by
  have H (es : List (Event M F)) (p : List (Sample M) × List (Sample M)) :
      ((es.foldl (Event.read b) p).1 ++ (es.foldl (Event.read b) p).2).Sublist
        (p.1 ++ p.2 ++ arrived es) := by
    induction es generalizing p with
    | nil => simp
    | cons e es ih =>
      rw [List.foldl_cons, arrived_cons]
      refine (ih _).trans ?_
      cases e with
      | arrived x => simp [Event.read]
      | took batch =>
        simpa [Event.read] using (ReliableSubscriber.keep_sublist b p.2).append_right (arrived es)
      | swept batch | recorder e => simp [Event.read]
  have hkeep := (ReliableSubscriber.keep_sublist b (reading b es).2).append_left (reading b es).1
  exact hkeep.trans (H (beforeSweep es) ([], []))

theorem beforeSweep_append (es es' : List (Event M F)) :
    beforeSweep (es ++ es') =
      if es.any Event.sweeps then beforeSweep es else beforeSweep es ++ beforeSweep es' := by
  induction es with
  | nil => simp [beforeSweep]
  | cons e es ih =>
    cases e with
    | swept batch => rfl
    | arrived x | took batch | recorder e =>
      simp only [beforeSweep, List.cons_append, List.any_cons, Event.sweeps, Bool.false_or,
        Bool.not_false, List.takeWhile_cons_of_pos] at ih ⊢
      rw [ih]
      split <;> rfl

/-- Only what happens before the final sweep counts. -/
theorem reading_append (b : Bool) (es es' : List (Event M F)) :
    reading b (es ++ es') = if es.any Event.sweeps then reading b es
      else (beforeSweep es').foldl (Event.read b) (reading b es) := by
  rw [reading, beforeSweep_append]
  split
  · rfl
  · rw [List.foldl_append, ← reading]

section

variable (e : List (Recorder.Event (F × Int64)))

@[simp] theorem reading_append_recorder (b : Bool) (es : List (Event M F)) :
    reading b (es ++ e.map Event.recorder) = reading b es := by
  rw [reading_append]
  split
  · rfl
  · generalize reading b es = p
    induction e with
    | nil => rfl
    | cons e es ih => exact ih

@[simp] theorem taken_recorder : taken (e.map Event.recorder : List (Event M F)) = [] := by
  simp [taken, seen, List.filterMap_map]

@[simp] theorem recorded_recorder : recorded (e.map Event.recorder : List (Event M F)) = e := by
  simp [recorded, seen, List.filterMap_map, Function.comp_def]

@[simp] theorem pushed_recorder :
    pushed (e.map Event.recorder : List (Event M F)) = (Recorder.pushed e).map Prod.fst := by
  simp [pushed]

end

variable {map : M → F} {W : Sink (F × Int64) σ} {s s' : Pipe M F σ}

/-! ## The recorder inside a pipe -/

/-- A run of a pipe is a run of its recorder. -/
theorem recorder_run {s₀ : Pipe M F σ} (h : (machine map W).run s₀ ls = some (s, es)) :
    ∃ ks, (Recorder.machine W).run s₀.recorder ks = some (s.recorder, recorded es) := by
  refine Machine.project (fun s : Pipe M F σ => s.recorder) Event.recorder? ?_ h
  intro s l s' e hs
  cases Step.of_step hs with
  | @push th x rest t r e _ _ hstep =>
    refine ⟨[.push (map x.data, t)], ?_⟩
    rw [Machine.run_singleton]
    exact hstep.trans (congrArg (fun e => some (r, e)) (recorded_recorder e).symm)
  | @recorder k r e _ _ hstep =>
    refine ⟨[k], ?_⟩
    rw [Machine.run_singleton]
    exact hstep.trans (congrArg (fun e => some (r, e)) (recorded_recorder e).symm)
  | _ => exact ⟨[], rfl⟩

/-- What the recorder's steps other than the beginning of a push do to the threads. -/
theorem step_of_not_push {r r' : Recorder (F × Int64) σ} (hl : ∀ x, l ≠ .push x)
    (h : (Recorder.machine W).step r l = some (r', e)) : Recorder.pushed e = [] ∧
      (r'.producer ≠ .idle → r.producer ≠ .idle) ∧
      (r'.closer ≠ .idle → r.closer ≠ .idle ∨ l = .close) := by
  cases Recorder.Step.of_step h with
  | push => exact absurd rfl (hl _)
  | accept hp | refuse hp | drop hp => exact ⟨rfl, fun _ => by simp [hp], .inl⟩
  | close => exact ⟨rfl, id, fun _ => .inr rfl⟩
  | join hc | closeSink hc => exact ⟨rfl, id, fun _ => .inl (by simp [hc])⟩
  | _ => exact ⟨rfl, id, .inl⟩

/-- What a step of a pipe does to the owner of its recorder. -/
theorem Step.closer (h : Step map W s l s' e) :
    (s'.recorder.closer ≠ .idle → s.recorder.closer ≠ .idle ∨ l = .recorder .close) ∧
    (s.recorder.closer = .closed → s'.recorder.closer = .closed) := by
  cases h with
  | push _ _ hr => cases Recorder.Step.of_step hr; exact ⟨.inl, id⟩
  | @recorder k r e hl _ hr =>
    refine ⟨fun h => ((step_of_not_push hl hr).2.2 h).imp_right (congrArg _), fun hc => ?_⟩
    cases Recorder.Step.of_step hr <;> simp_all
  | _ => exact ⟨.inl, id⟩

/-! ## Where the samples are -/

structure Inv (map : M → F) (es : List (Event M F)) (s : Pipe M F σ) : Prop where
  joined : s.sub.Joined
  sweeps : s.sub.stop.sweeps = es.any Event.sweeps
  holds : s.sub.stop.sweeps = false → (reading s.sub.reliable es).1 = taken es ∧
    s.sub.reader = ReliableSubscriber.keep s.sub.reliable (reading s.sub.reliable es).2
  swept : s.sub.stop.sweeps = true → kept s.sub.reliable es = taken es
  pushed : frames map (taken es) = pushed es ++ frames map s.sub.pending
  pushing : s.recorder.producer ≠ .idle → s.sub.Pushing
  closing : s.recorder.closer ≠ .idle → s.sub.stop = .closed

/-- A step of the subscriber that takes nothing and pushes nothing. -/
theorem Inv.of_sub {sub : ReliableSubscriber M} (H : Inv map es s) (hj : sub.Joined)
    (hsw : sub.stop.sweeps = s.sub.stop.sweeps)
    (hread : sub.reader = s.sub.reader ∧ sub.reliable = s.sub.reliable)
    (hpend : frames map sub.pending = frames map s.sub.pending)
    (hin : s.recorder.producer ≠ .idle → sub.Pushing)
    (hcl : s.sub.stop = .closed → sub.stop = .closed) :
    Inv map (es ++ []) { s with sub := sub } := by
  rw [List.append_nil]
  refine ⟨hj, hsw.trans H.sweeps, ?_, ?_, hpend ▸ H.pushed, hin, fun h => hcl (H.closing h)⟩
  · simpa only [hsw, hread] using H.holds
  · simpa only [hsw, hread] using H.swept

/-- As long as the take-thread has not exited, the owner has not joined it. -/
theorem Inv.not_joins (H : Inv map es s) (ht : s.sub.taker ≠ .exited) :
    s.sub.stop.joins = false :=
  Bool.eq_false_iff.mpr fun h => ht (H.joined h)

/-- Outside `drain` nothing is inside a push. -/
theorem Inv.producer_idle (H : Inv map es s) (ht : ∀ d, s.sub.taker ≠ .draining d)
    (hs : ∀ d, s.sub.stop ≠ .draining d) : s.recorder.producer = .idle :=
  Classical.byContradiction fun hp => ReliableSubscriber.not_pushing ht hs (H.pushing hp)

/-- Before a sample is taken off a batch, and after the last one, nothing is inside a push. -/
theorem Inv.producer_idle_of_delivering (H : Inv map es s)
    (hd : s.sub.drain th = some (.delivering rest)) : s.recorder.producer = .idle := by
  refine Classical.byContradiction fun hp => ?_
  obtain ⟨th', rest', hd'⟩ := H.pushing hp
  cases H.joined.drain_unique hd hd'

/-- A step of the take-thread outside `drain`. -/
theorem Inv.setTaker (H : Inv map es s) (ht : s.sub.taker = .top ∨ s.sub.taker = .waiting)
    (hp : t = .waiting ∨ t = .taking ∨ t = .top ∨ t = .exited) :
    Inv map (es ++ []) { s with sub := { s.sub with taker := t } } := by
  have hnj : s.sub.stop.joins = false := H.not_joins (by rcases ht with ht | ht <;> simp [ht])
  have hidle : s.recorder.producer = .idle := H.producer_idle
    (fun d hd => by rcases ht with ht | ht <;> simp [ht] at hd)
    (fun d hd => by simp [hd, Stop.joins] at hnj)
  refine H.of_sub (fun h => ?_) rfl ⟨rfl, rfl⟩ (congrArg _ ?_) (fun h => absurd hidle h) id
  · cases hnj.symm.trans h
  · rcases ht with ht | ht <;> rcases hp with rfl | rfl | rfl | rfl <;>
      simp [ReliableSubscriber.pending, ht, Taker.pending]

/-- A step of the owner outside `drain`. -/
theorem Inv.setStop (H : Inv map es s) (hj : t.joins = true → s.sub.taker = .exited)
    (hsw : t.sweeps = s.sub.stop.sweeps) (hpend : t.pending = s.sub.stop.pending)
    (hin : s.recorder.producer ≠ .idle → ∃ rest, s.sub.taker = .draining (.pushing rest))
    (hcl : s.sub.stop = .closed → t = .closed) :
    Inv map (es ++ [])
      { s with sub := { s.sub with running := run, readerOpen := opened, stop := t } } := by
  refine H.of_sub hj hsw ⟨rfl, rfl⟩ ?_ (fun hp => ?_) hcl
  · simp only [ReliableSubscriber.pending, hpend]
  · obtain ⟨rest, hd⟩ := hin hp
    exact ⟨.taker, rest, ReliableSubscriber.drain_taker.mpr hd⟩

theorem Inv.next (H : Inv map es s) (h : Step map W s l s' e) : Inv map (es ++ e) s' := by
  obtain ⟨hj, hsw, hholds, hswept, hpu, hin, hcl⟩ := H
  have H : Inv map es s := ⟨hj, hsw, hholds, hswept, hpu, hin, hcl⟩
  cases h with
  | @arrive x hadmits =>
    have hpend : (s.sub.arrive x).pending = s.sub.pending := rfl
    refine ⟨hj, hsw.trans (by simp), fun hs => ?_, fun hs => ?_, by simpa [hpend] using hpu, hin, hcl⟩
    · obtain ⟨htaken, hreader⟩ := hholds hs
      rw [reading_append, ← hsw, show s.sub.stop.sweeps = false from hs]
      refine ⟨htaken.trans (by simp), ?_⟩
      change ReliableSubscriber.keep _ (s.sub.reader ++ [x]) = _
      rw [hreader, ReliableSubscriber.keep_append]
      rfl
    · have hs : s.sub.stop.sweeps = true := hs
      simpa [kept, reading_append, ← hsw, hs] using hswept hs
  | test ht => exact H.setTaker (.inl ht) (by split <;> simp)
  | wake ht => exact H.setTaker (.inr ht) (by simp)
  | timeout ht => exact H.setTaker (.inr ht) (by simp)
  | take ht =>
    have hnj : s.sub.stop.joins = false := H.not_joins (by simp [ht])
    have hidle := H.producer_idle (by simp [ht]) (fun d hd => by simp [hd, Stop.joins] at hnj)
    have hstop : s.sub.stop.sweeps = false ∧ s.sub.stop.pending = [] := by
      cases hs : s.sub.stop <;> simp [hs, Stop.joins, Stop.sweeps, Stop.pending] at hnj ⊢
    simp only [ReliableSubscriber.pending, ht, hstop, Taker.pending, List.append_nil,
      frames_nil] at hpu
    refine ⟨fun h => absurd h (by simp [hnj]), by simp [hsw], fun _ => ?_, fun hs => ?_, ?_,
      fun h => absurd hidle h, hcl⟩
    · obtain ⟨htaken, hreader⟩ := hholds hstop.1
      rw [reading_append, ← hsw, hstop.1, hreader]
      simp [beforeSweep, Event.read, htaken]
    · cases hstop.1.symm.trans hs
    · simp [ReliableSubscriber.pending, hstop, hpu, Taker.pending]
  | @push th x rest t r e hd hv hstep =>
    obtain ⟨h1, h2, h3, h5⟩ := hj.setDrain hd (.pushing rest)
    have hpend := hj.pending_eq hd
    have hpend' := h1.pending_eq h2
    obtain ⟨he, hcloser⟩ : e = [.pushed (map x.data, t)] ∧ r.closer = s.recorder.closer := by
      cases Recorder.Step.of_step hstep; exact ⟨rfl, rfl⟩
    refine ⟨h1, by rw [h3, hsw]; simp, ?_, ?_, ?_, fun _ => ⟨th, rest, h2⟩,
      fun h => h5 (hcl (hcloser ▸ h))⟩
    · simpa [h3] using hholds
    · simpa [h3, kept] using hswept
    · rw [hpend, Drain.rest, frames_cons_valid map hv] at hpu
      rw [hpend', Drain.rest, taken_append, taken_recorder, List.append_nil, hpu, pushed_append,
        pushed_recorder, he]
      simp
  | @skip th x rest t hd hv =>
    obtain ⟨h1, h2, h3, h5⟩ := hj.setDrain hd (.delivering rest)
    have hidle := H.producer_idle_of_delivering hd
    refine H.of_sub h1 h3 (by simp) ?_ (fun h => absurd hidle h) h5
    rw [hj.pending_eq hd, h1.pending_eq h2, Drain.rest, Drain.rest, frames_cons_invalid map hv]
  | @resume th rest hd hp =>
    obtain ⟨h1, h2, h3, h5⟩ := hj.setDrain hd (.delivering rest)
    refine H.of_sub h1 h3 (by simp) ?_ (fun h => absurd hp h) h5
    rw [hj.pending_eq hd, h1.pending_eq h2, Drain.rest, Drain.rest]
  | finish hd =>
    obtain ⟨h1, h2, h3, h5⟩ := hj.drained hd
    have hidle := H.producer_idle_of_delivering hd
    refine H.of_sub h1 h3 (by simp) ?_ (fun h => absurd hidle h) (fun h => absurd h h5)
    rw [hj.pending_eq hd, h2, Drain.rest]
  | setFlag hs =>
    refine H.setStop (by simp [Stop.joins]) (by simp [hs, Stop.sweeps]) (by simp [hs, Stop.pending])
      (fun hp => ?_) (by simp [hs])
    obtain ⟨th, rest, hd⟩ := hin hp
    cases th with
    | taker => exact ⟨rest, ReliableSubscriber.drain_taker.mp hd⟩
    | owner => cases hs.symm.trans (ReliableSubscriber.drain_owner.mp hd)
  | joinThread hs ht =>
    have hidle := H.producer_idle (by simp [ht]) (by simp [hs])
    exact H.setStop (fun _ => ht) (by simp [hs, Stop.sweeps]) (by simp [hs, Stop.pending])
      (fun hp => absurd hidle hp) (by simp [hs])
  | sweep hs =>
    have ht := hj (by simp [hs, Stop.joins])
    have hidle := H.producer_idle (by simp [ht]) (by simp [hs])
    have hsweeps : s.sub.stop.sweeps = false := by simp [hs, Stop.sweeps]
    simp only [ReliableSubscriber.pending, ht, hs, Taker.pending, Stop.pending, List.append_nil,
      frames_nil] at hpu
    refine ⟨fun _ => ht, by simp [Stop.sweeps], nofun, fun _ => ?_, ?_, fun h => absurd hidle h,
      fun h => ?_⟩
    · obtain ⟨htaken, hreader⟩ := hholds hsweeps
      simp only [kept, reading_append, ← hsw, hsweeps]
      simp [beforeSweep, htaken, hreader]
    · simp [ReliableSubscriber.pending, ht, hpu, Taker.pending, Stop.pending]
    · cases hs.symm.trans (hcl h)
  | closeReader hs =>
    have ht := hj (by simp [hs, Stop.joins])
    have hidle := H.producer_idle (by simp [ht]) (by simp [hs])
    exact H.setStop (fun _ => ht) (by simp [hs, Stop.sweeps]) (by simp [hs, Stop.pending])
      (fun hp => absurd hidle hp) (fun _ => rfl)
  | @recorder k r e hl hclose hstep =>
    obtain ⟨hpushed, hprod, hcloser⟩ := step_of_not_push hl hstep
    refine ⟨hj, by simp [hsw], ?_, ?_, ?_, fun h => hin (hprod h), fun h => ?_⟩
    · simpa using hholds
    · simpa [kept] using hswept
    · simpa [hpushed] using hpu
    · rcases hcloser h with h | h
      · exact hcl h
      · exact hclose h

theorem Inv.of_run {r : Recorder (F × Int64) σ} {out : σ} (hp : r.producer = .idle)
    (h : (machine map W).run ⟨.started b, r.start out cap⟩ ls = some (s, es)) : Inv map es s := by
  refine Machine.invariant (P := Inv map) ?_ (fun H hs => H.next (.of_step hs)) h
  exact ⟨nofun, rfl, fun _ => ⟨rfl, (ReliableSubscriber.keep_nil b).symm⟩, nofun, rfl,
    fun h => absurd hp h, fun h => absurd rfl h⟩

/-- A reader keeps its QoS. -/
theorem reliable_run {s₀ : Pipe M F σ} (h : (machine map W).run s₀ ls = some (s, es)) :
    s.sub.reliable = s₀.sub.reliable := by
  refine Machine.invariant (P := fun _ (s : Pipe M F σ) => s.sub.reliable = s₀.sub.reliable) rfl
    (fun H hs => ?_) h
  cases Step.of_step hs with
  | push | skip | resume | finish => simpa using H
  | _ => exact H

/-! ## Stopping -/

theorem oneEvent (map : M → F) (W : Sink (F × Int64) σ) : (machine map W).OneEvent := by
  intro s l s' es h
  cases Step.of_step h with
  | push _ _ hstep | recorder _ _ hstep =>
    cases Recorder.Step.of_step hstep <;> exact Nat.le_of_ble_eq_true rfl
  | _ => exact Nat.le_of_ble_eq_true rfl

/-- Nothing is pushed through a subscriber that has stopped. -/
theorem pushed_of_closed (hs : s.sub.stop = .closed) (ht : s.sub.taker = .exited)
    (h : (machine map W).run s ls = some (s', es)) : pushed es = [] := by
  refine (Machine.invariant (P := fun es (s : Pipe M F σ) =>
    pushed es = [] ∧ s.sub.stop = .closed ∧ s.sub.taker = .exited) ⟨rfl, hs, ht⟩ ?_ h).1
  rintro es s l s' e ⟨hp, hs, ht⟩ hstep
  have hd (th : Thread) : s.sub.drain th = none := by
    cases th <;> simp [ReliableSubscriber.drain, hs, ht]
  cases Step.of_step hstep with
  | arrive => exact ⟨by simpa using hp, hs, ht⟩
  | recorder hl _ hr => exact ⟨by simpa [(step_of_not_push hl hr).1] using hp, hs, ht⟩
  | push hd' | skip hd' | resume hd' | finish hd' => simp [hd] at hd'
  | test ht' | wake ht' | timeout ht' | take ht' => cases ht.symm.trans ht'
  | setFlag hs' | joinThread hs' | sweep hs' | closeReader hs' => cases hs.symm.trans hs'

/-- Once `close` has begun, nothing is pushed any more. -/
theorem Inv.quiet (H : Inv map es s) (hc : s.recorder.closer ≠ .idle)
    (h : (machine map W).run s ls = some (s', es')) : Pipe.pushed es' = [] := by
  have hstop := H.closing hc
  exact pushed_of_closed hstop (H.joined (by simp [hstop, Stop.joins])) h

/-- What holds of a pipe at any time. -/
structure Kept (map : M → F) (reliable : Bool) (cap : Nat) (es : List (Event M F)) : Prop where
  /-- Nothing is pushed that did not arrive, twice, or out of order. -/
  inOrder : pushed es <+: frames map (kept reliable es)
  /-- Nothing is pushed once the queue is closed. -/
  quiet : ∀ pre post, es = pre ++ .recorder .closed :: post → pushed post = []
  /-- A record is refused only while the queue holds `cap` records. -/
  full : ∀ pre r post, es = pre ++ .recorder (.refused r) :: post →
    (Recorder.accepted (recorded pre)).length = (Recorder.delivered (recorded pre)).length + cap

/-- What holds once the recorder is closed. `r` is the recorder as it was before it was opened. -/
structure Settled (map : M → F) (reliable : Bool) (r : Recorder (F × Int64) σ)
    (es : List (Event M F)) (s : Pipe M F σ) : Prop where
  idle : s.recorder.producer = .idle
  /-- Every valid sample that arrived before the final sweep and was not displaced is pushed once, in
  arrival order. -/
  pushed_eq : pushed es = frames map (kept reliable es)
  /-- A reliable reader displaces none. -/
  all : reliable = true → pushed es = frames map (arrived (beforeSweep es))
  received : s.recorder.received = r.received + (taken es).countP (·.valid)
  dropped : s.recorder.dropped = r.dropped + (Recorder.refused (recorded es)).length
  balanced : s.recorder.received =
    s.recorder.written + s.recorder.dropped + s.recorder.writeErrors

variable {r : Recorder (F × Int64) σ} {out : σ}

/-- Inside a push the queue is open, so only a full queue refuses. -/
theorem queue_of_producer (hp : r.producer = .idle)
    (h : (machine map W).run ⟨.started b, r.start out cap⟩ ls = some (s, es))
    (hs : s.recorder.producer ≠ .idle) : s.recorder.queue.closed = false := by
  have H : Inv map es s := .of_run hp h
  obtain ⟨ks, hr⟩ := recorder_run h
  obtain ⟨th, rest, hd⟩ := H.pushing hs
  refine Bool.eq_false_iff.mpr fun hc => ?_
  have hstop := H.closing ((Recorder.Inv.of_run hr).closed_iff.mp hc)
  have ht := H.joined (by simp [hstop, Stop.joins])
  cases th <;> simp [ReliableSubscriber.drain, hstop, ht] at hd

/-- Only `close` shows as `closed`. -/
theorem closer_of_closed (h : (machine map W).step s l = some (s', [.recorder .closed])) :
    s'.recorder.closer ≠ .idle := by
  generalize he : [Event.recorder .closed] = e at h
  cases Step.of_step h with
  | push _ _ hr | recorder _ _ hr => cases Recorder.Step.of_step hr <;> simp at he ⊢
  | _ => cases he

/-- Only a refused push shows as `refused`. -/
theorem push_of_refused (h : (machine map W).step s l = some (s', [.recorder (.refused x)])) :
    s.recorder.producer ≠ .idle ∧ (s.recorder.queue.push x).1 = false := by
  generalize he : [Event.recorder (.refused x)] = e at h
  cases Step.of_step h with
  | push _ _ hr => cases Recorder.Step.of_step hr; cases he
  | recorder _ _ hr =>
    cases Recorder.Step.of_step hr with
    | refuse hp hq => cases he; simp [hp, hq]
    | _ => cases he
  | _ => cases he

theorem Kept.of_run (hp : r.producer = .idle)
    (h : (machine map W).run ⟨.started b, r.start out cap⟩ ls = some (s, es)) :
    Kept map b cap es := by
  refine ⟨?_, ?_, ?_⟩
  · have H : Inv map es s := .of_run hp h
    have hb : s.sub.reliable = b := reliable_run h
    have htaken : frames map (taken es) <+: frames map (kept b es) := by
      cases hs : s.sub.stop.sweeps with
      | true => rw [← hb, H.swept hs]
      | false =>
        rw [kept, ← hb, (H.holds hs).1, frames_append]
        exact List.prefix_append ..
    refine .trans ?_ htaken
    rw [H.pushed]
    exact List.prefix_append ..
  · rintro pre post rfl
    obtain ⟨ls₁, l, ls₂, s₁, s₂, -, h₁, hl, h₂⟩ := Machine.run_at_event (oneEvent map W) h
    have H : Inv map (pre ++ [.recorder .closed]) s₂ :=
      .of_run hp (Machine.run_snoc.mpr ⟨s₁, pre, _, h₁, hl, rfl⟩)
    exact H.quiet (closer_of_closed hl) h₂
  · rintro pre x post rfl
    obtain ⟨ls₁, l, ls₂, s₁, s₂, -, h₁, hl, -⟩ := Machine.run_at_event (oneEvent map W) h
    obtain ⟨hp₁, hq⟩ := push_of_refused hl
    obtain ⟨ks, hr⟩ := recorder_run h₁
    obtain ⟨js, hqr⟩ := Recorder.queue_run hr
    have hqr : RecordQueue.machine.run (r.queue.open cap) js = _ := hqr
    have Hq := RecordQueue.Inv.of_run hqr
    have hlen : s₁.recorder.queue.queue.length = cap := by
      rcases RecordQueue.push_eq_false_iff.mp hq with hc | hle
      · simp [queue_of_producer hp h₁ hp₁] at hc
      · exact Nat.le_antisymm Hq.length_le (Hq.capacity_eq ▸ hle)
    rw [← Recorder.accepted_queueEvent, RecordQueue.accepted_eq hqr, List.length_append,
      Recorder.delivered_queueEvent, hlen]

theorem Settled.of_run (hp : r.producer = .idle)
    (hb : r.received = r.written + r.dropped + r.writeErrors)
    (h : (machine map W).run ⟨.started b, r.start out cap⟩ ls = some (s, es))
    (hc : s.recorder.closer = .closed) : Settled map b r es s := by
  have H : Inv map es s := .of_run hp h
  have hstop := H.closing (by simp [hc])
  have ht := H.joined (by simp [hstop, Stop.joins])
  have hidle := H.producer_idle (by simp [ht]) (by simp [hstop])
  have hpu := H.pushed
  simp only [ReliableSubscriber.pending, ht, hstop, Taker.pending, Stop.pending, List.append_nil,
    frames_nil] at hpu
  have hkept := H.swept (by simp [hstop, Stop.sweeps])
  rw [show s.sub.reliable = b from reliable_run h] at hkept
  obtain ⟨ks, hr⟩ := recorder_run h
  have hcounts := Recorder.Counts.of_run hp hr
  have hbal : Recorder.Balanced s.recorder := .of_run hp (by omega) hr
  obtain ⟨hq, -, hw⟩ := Recorder.closed_drained hr hc
  have hdrop := hcounts.dropped
  rw [hidle] at hdrop
  have hpushed : Pipe.pushed es = frames map (kept b es) := by rw [hkept, hpu]
  refine ⟨hidle, hpushed, fun hall => ?_, ?_, by simpa using hdrop, ?_⟩
  · rw [hpushed, hall, kept_true]
  · have hlen := congrArg List.length hpu
    rw [hcounts.received]
    simp only [frames, pushed, List.length_map, ← List.countP_eq_length_filter] at hlen
    rw [hlen]
  · rw [Recorder.Balanced, hq, hw, hidle] at hbal
    simp only [Writer.uncounted, Writer.rest, Producer.inFlight, List.length_nil] at hbal
    omega

end Pipe
end Kist
