import KistCollector.Lib.Monitor
import KistCollector.Common.RecordQueue

/-!
# The threads at the queue

`RecordQueue.machine` takes each critical section as one step. Here the calls are taken apart: `push` and
`close` lock, update, unlock and then notify, for any number of callers, and the writer's `pop_all` locks,
tests, sleeps, wakes and tests again. The runs of the threads are runs of `RecordQueue.machine`
(`refines_machine`); what the threads add is that a writer which sleeps on will be woken
(`writer_woken`).
-/

namespace Kist
namespace RecordQueue

variable {T τ : Type}

inductive Call (T : Type) where
  | push (item : T)
  | close
  deriving DecidableEq

/-- The critical sections of the queue. A refused push does not notify; `pop_all` returns false once the
queue is closed and empty. -/
def monitor : Monitor (RecordQueue T) (Call T) (Event T) where
  update q
    | .push x => ((q.push x).1, (q.push x).2, [.pushed x (q.push x).1])
    | .close => (true, q.close, [.closed])
  ready q := !q.queue.isEmpty || q.closed
  take q :=
    if q.queue.isEmpty then (false, q, [.stopped])
    else (true, { q with queue := [] }, [.popped q.queue])

/-- The queue, its callers `τ` and its writer. -/
abbrev Threads (τ T : Type) := Monitor.State (RecordQueue T) τ (Call T)

theorem update_push (q : RecordQueue T) (x : T) :
    monitor.update q (.push x) = ((q.push x).1, (q.push x).2, [.pushed x (q.push x).1]) := rfl

theorem ready_iff {q : RecordQueue T} :
    monitor.ready q = true ↔ q.queue ≠ [] ∨ q.closed = true := by
  simp [monitor]

theorem take_nil {q : RecordQueue T} (h : q.queue = []) : monitor.take q = (false, q, [.stopped]) := by
  simp [monitor, h]

theorem take_batch {q : RecordQueue T} (h : q.queue ≠ []) :
    monitor.take q = (true, { q with queue := [] }, [.popped q.queue]) := by
  simp [monitor, h]

theorem push_of_refused {q : RecordQueue T} (h : (q.push x).1 = false) : (q.push x).2 = q := by
  unfold push at h ⊢
  split
  case isTrue => rfl
  case isFalse hopen => rw [if_neg hopen] at h; cases h

theorem push_of_closed {q : RecordQueue T} (h : q.closed = true) (x : T) : q.push x = (false, q) := by
  rw [push, h, Bool.true_or, if_pos rfl]

/-! ## The threads run the queue -/

theorem announces : (monitor (T := T)).Announces := by
  intro q i hsilent hready
  cases i with
  | push x => rwa [update_push, push_of_refused hsilent] at hready
  | close => cases hsilent

/-- The critical sections of the threads are the steps of the queue. -/
theorem refines_machine [DecidableEq τ] {q : RecordQueue T} {s : Threads τ T}
    (h : monitor.machine.run (Monitor.init q) ls = some (s, es)) :
    ∃ ks, machine.run q ks = some (s.inner, es) := by
  have hsim := Machine.simulate (N := machine)
    (fun (s : Threads τ T) q => Monitor.Inv monitor s ∧ q = s.inner) some ?_ ⟨.init q, rfl⟩ h
  · obtain ⟨ks, _, hrun, -, rfl⟩ := hsim
    rw [List.filterMap_some] at hrun
    exact ⟨ks, hrun⟩
  · rintro s _ l s' es ⟨H, rfl⟩ hs
    have hstep := Monitor.Step.of_step hs
    have H' := H.next announces hstep
    rw [List.filterMap_some]
    cases hstep with
    | @update t i =>
      cases i with
      | push x => exact ⟨[.push x], _, rfl, H', rfl⟩
      | close => exact ⟨[.close], _, rfl, H', rfl⟩
    | back hw hb =>
      have hq : s.inner.queue ≠ [] := fun hq => by rw [take_nil hq] at hb; cases hb
      rw [take_batch hq] at H' ⊢
      exact ⟨[.popAll], _, by rw [Machine.run_singleton]; simp [machine, popAll, hq], H', rfl⟩
    | done hw hb =>
      have hq : s.inner.queue = [] := by
        by_contra hq
        rw [take_batch hq] at hb
        cases hb
      have hc := (ready_iff.mp (H.ready hw)).resolve_left fun hne => hne hq
      rw [take_nil hq] at H' ⊢
      exact ⟨[.popAll], _, by rw [Machine.run_singleton]; simp [machine, popAll, hq, hc], H', rfl⟩
    | lock | unlock | leave | notify | enter | pass | fail | sleep | wake => exact ⟨[], _, rfl, H', rfl⟩

/-! ## A closed queue -/

/-- A closed queue stays closed and keeps its writer awake. -/
theorem latch : Monitor.Latch (monitor (T := T)) (·.closed = true) where
  ready hc := ready_iff.mpr (.inr hc)
  update {q} i hc := by
    cases i with
    | push x => rwa [update_push, push_of_closed hc]
    | close => rfl
  take {q} hc := by
    by_cases hq : q.queue = []
    · rwa [take_nil hq]
    · rwa [take_batch hq]

theorem closes : (monitor (T := T)).Closes (·.closed = true) .close := fun _ => ⟨rfl, rfl⟩

/-- A closed queue is emptied by one batch at most. -/
theorem drains : Monitor.Drains (monitor (T := T)) (·.closed = true) (·.queue.length) where
  update {q} i hc := by
    cases i with
    | push x => rw [update_push, push_of_closed hc]
    | close => exact Nat.le_refl _
  take {q} _ := by
    by_cases hq : q.queue = []
    · rw [take_nil hq]
    · rw [take_batch hq]
      exact Nat.zero_le _
  back {q} _ hb := by
    by_cases hq : q.queue = []
    · rw [take_nil hq] at hb
      cases hb
    · rw [take_batch hq]
      exact List.length_pos_iff.mpr hq

/-- **No lost wake-up.** In every state of every interleaving, if the writer sleeps un-notified although
the queue is nonempty or closed, then a `push` or `close` is between its update and its `notify_one`; if no
caller holds the mutex, it is between its unlock and its `notify_one`. Where a call of `close` has returned
and goes on to join the writer, the writer is awake, and it can come to its end. -/
theorem writer_woken [DecidableEq τ] {q₀ : RecordQueue T} {s : Threads τ T}
    (h : monitor.machine.run (Monitor.init (q₀.open cap)) ls = some (s, es)) :
    (s.waiter = .asleep → s.inner.queue ≠ [] ∨ s.inner.closed = true →
      (∃ t, (s.callers t).Signals) ∧
      ((∀ t, s.mutex ≠ .caller t) → ∃ t i, s.callers t = .unlocked i)) ∧
    ∀ t, s.callers t = .returned .close →
      s.inner.closed = true ∧ s.waiter ≠ .asleep ∧
      ∃ ls' s' es', monitor.machine.run s ls' = some (s', es') ∧ s'.waiter = .done := by
  refine ⟨fun hw hr => ?_, fun t ht => ?_⟩
  · have hready := ready_iff.mpr hr
    exact ⟨Monitor.no_lost_wakeup announces h hw hready,
      Monitor.no_lost_wakeup_free announces h hw hready⟩
  · have hawake := Monitor.awake_of_returned announces latch closes h ht
    exact ⟨hawake.1, hawake.2,
      Monitor.exists_done announces latch drains (Monitor.Inv.of_run announces h) hawake⟩

/-- A pusher that has unlocked wakes the sleeping writer; after a call of `close` it can end. -/
theorem writer_woken_twice :
    (∃ (s : Threads Unit Nat) (es : List (Event Nat)),
      monitor.machine.run (Monitor.init (({} : RecordQueue Nat).open 1))
        [.enter, .test, .sleep, .lock () (.push 7), .update (), .unlock ()] = some (s, es) ∧
      ∃ t i, s.callers t = .unlocked i) ∧
    ∃ (s : Threads Unit Nat) (es : List (Event Nat)),
      monitor.machine.run (Monitor.init (({} : RecordQueue Nat).open 1))
        [.enter, .test, .sleep, .lock () .close, .update (), .unlock (), .notify ()] = some (s, es) ∧
      s.waiter ≠ .asleep ∧
      ∃ ls' s' es', monitor.machine.run s ls' = some (s', es') ∧ s'.waiter = .done := by
  constructor
  · refine Machine.exists_run (P := fun p => p.1.waiter = .asleep ∧ p.1.inner.queue = [7] ∧
      p.1.mutex = .free) (by decide) ?_
    rintro s es h ⟨hw, hq, hfree⟩
    have hne : s.inner.queue ≠ [] := fun hnil => List.cons_ne_nil _ _ (hq.symm.trans hnil)
    refine ((writer_woken h).1 hw (.inl hne)).2 fun t ht => ?_
    cases hfree.symm.trans ht
  · refine Machine.exists_run (P := fun p => p.1.callers () = .returned .close) (by decide) ?_
    rintro s es h ht
    exact ((writer_woken h).2 () ht).2

/-- While a pusher has updated the queue and still holds the mutex, the writer sleeps un-notified and no
call is between its unlock and its `notify_one`. -/
theorem writer_woken_fails :
    ¬∀ (ls : List (Monitor.Label Unit (Call Nat))) (s : Threads Unit Nat) (es : List (Event Nat)),
      monitor.machine.run (Monitor.init (({} : RecordQueue Nat).open 1)) ls = some (s, es) →
      ¬(s.waiter = .asleep ∧ (s.inner.queue ≠ [] ∨ s.inner.closed = true) ∧
        ∀ t i, s.callers t ≠ .unlocked i) := by
  intro H
  have hrun : ∃ (s : Threads Unit Nat) (es : List (Event Nat)),
      monitor.machine.run (Monitor.init (({} : RecordQueue Nat).open 1))
        [.enter, .test, .sleep, .lock () (.push 7), .update ()] = some (s, es) ∧
      s.waiter = .asleep ∧ s.inner.queue = [7] ∧ s.callers () = .updated (.push 7) true :=
    Machine.exists_run (P := fun p => p.1.waiter = .asleep ∧ p.1.inner.queue = [7] ∧
      p.1.callers () = .updated (.push 7) true) (by decide) fun _ _ _ hp => hp
  obtain ⟨s, es, h, hw, hq, ht⟩ := hrun
  refine H _ s es h ⟨hw, .inl fun hnil => List.cons_ne_nil _ _ (hq.symm.trans hnil), fun t i hu => ?_⟩
  cases ht.symm.trans hu

end RecordQueue
end Kist
