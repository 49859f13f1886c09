import KistCollector.Common.Closing
import KistCollector.System.Live
import Mathlib.Algebra.Order.BigOperators.Group.List

/-!
# `stop` with the recorders at work

`stop` takes the recorders one after the other, and waits for each writer thread in turn. That comes to an
end: the steps it waits for are bounded, whatever the other recorders do meanwhile, and one of them can
always be taken (`Live.stop_returns`; the stop of a recorder's subscriber, which comes before, is not part
of it). If each recorder is fed no more when it is closed, the summary shows the counters that every
recorder is left with (`Live.summary_final`).
-/

namespace Kist

open StreamStats (Le)

/-- What `close` still has to do. -/
def Closer.todo : Closer → List CloseStep
  | .idle => CloseStep.all
  | .joining => [.join, .closeSink]
  | .joined => [.closeSink]
  | .closed => []

theorem Closer.todo_eq_nil {c : Closer} : c.todo = [] ↔ c = .closed := by
  cases c <;> simp [todo, CloseStep.all]

theorem Closer.todo_eq_all {c : Closer} : c.todo = CloseStep.all ↔ c = .idle := by
  cases c <;> simp [todo, CloseStep.all]

namespace Recorder

variable {R σ : Type} {W : Sink R σ} {r r' : Recorder R σ}

theorem Step.closer_eq (h : Step W r l r' e) (hl : l.isOwners = false) : r'.closer = r.closer := by
  cases h <;> first | rfl | exact absurd hl Bool.true_eq_false.mp

theorem Step.closer_todo {a : CloseStep} (h : Step W r a.label r' e) :
    r.closer.todo = a :: r'.closer.todo := by
  cases a with
  | close => cases h with | close hc => rw [hc]; rfl
  | join => cases h with | join hc => rw [hc]; rfl
  | closeSink => cases h with | closeSink hc => rw [hc]; rfl

/-- Only `push` moves the producer. -/
theorem Step.producer_eq (h : Step W r l r' e) (hl : l.isPush = false) : r'.producer = r.producer := by
  cases h <;> first | rfl | cases hl

theorem Reached.opened (H : Reached W r) : Opened W r := by
  obtain ⟨f, ls, es, h⟩ := H
  exact ⟨init f.constructed, f.out, f.capacity, ls, es, h⟩

/-- The writer thread that is waited for is not stuck. -/
theorem Closing.exists_writer_step (H : Closing r) (hw : r.writer ≠ .exited) :
    ∃ l, l.isPush = false ∧ l.isOwners = false ∧ ((machine W).step r l).isSome = true := by
  cases hwriter : r.writer with
  | none => exact absurd H.started (by simp [hwriter, Writer.started])
  | waiting =>
    refine ⟨.popAll, rfl, rfl, ?_⟩
    cases hq : r.queue.queue <;> simp [machine, hwriter, RecordQueue.popAll, hq, H.queue]
  | writing rest =>
    cases rest with
    | nil => exact ⟨.flush, rfl, rfl, by simp [machine, hwriter]⟩
    | cons x rest => exact ⟨.write, rfl, rfl, by simp [machine, hwriter]⟩
  | wrote x ok rest => exact ⟨.count, rfl, rfl, by cases ok <;> simp [machine, hwriter]⟩
  | counted x rest => exact ⟨.addBytes, rfl, rfl, by simp [machine, hwriter]⟩
  | exited => exact absurd hwriter hw

/-- The next step of `close`, unless it waits for the writer thread. -/
theorem Reached.exists_close {a : CloseStep} (H : Reached W r) (ha : r.closer.todo = a :: todo) :
    (a = .join ∧ r.writer ≠ .exited) ∨ ((machine W).step r a.label).isSome = true := by
  cases hc : r.closer with
  | idle =>
    rw [hc] at ha
    cases ha
    obtain ⟨s₀, out, cap, ls, es, h⟩ := H.opened
    exact .inr (by simp [machine, CloseStep.label, hc, (Inv.of_run h).started])
  | joining =>
    rw [hc] at ha
    cases ha
    by_cases hw : r.writer = .exited
    · exact .inr (by simp [machine, CloseStep.label, hc, hw])
    · exact .inl ⟨rfl, hw⟩
  | joined =>
    rw [hc] at ha
    cases ha
    exact .inr (by simp [machine, CloseStep.label, hc])
  | closed => rw [hc] at ha; cases ha

end Recorder

namespace Op

def stream : Op → Stream
  | .closing x _ => x
  | .load x _ => x

/-- No counter of a recorder is loaded before it is closed. -/
def Before : Op → Op → Prop
  | .load x _, .closing y _ => x ≠ y
  | _, _ => True

variable {s : Collector}

theorem stream_of_mem_group {op : Op} {xs : List Stream}
    (h : op ∈ xs.flatMap closes ++ xs.flatMap stats) : op.stream ∈ xs := by
  rcases List.mem_append.mp h with h | h
  · obtain ⟨x, hx, hop⟩ := List.mem_flatMap.mp h
    obtain ⟨a, -, rfl⟩ := List.mem_map.mp hop
    exact hx
  · obtain ⟨x, hx, hop⟩ := List.mem_flatMap.mp h
    obtain ⟨c, -, rfl⟩ := List.mem_map.mp hop
    exact hx

theorem stream_of_mem_stop {op : Op} (h : op ∈ stop s) : op.stream ∈ s.streams := by
  obtain ⟨xs, hxs, hop⟩ := List.mem_flatMap.mp h
  rw [← flatten_stopGroups]
  exact List.mem_flatten.mpr ⟨xs, hxs, stream_of_mem_group hop⟩

theorem stream_of_mem_report {op : Op} (h : op ∈ report s) : op.stream ∈ s.streams := by
  obtain ⟨x, hx, hop⟩ := List.mem_flatMap.mp h
  obtain ⟨c, -, rfl⟩ := List.mem_map.mp hop
  exact (reportStreams_perm s).mem_iff.mp hx

theorem before_of_ne {a b : Op} (h : a.stream ≠ b.stream) : Before a b := by
  cases a <;> cases b <;> first | exact h | trivial

theorem pairwise_group (xs : List Stream) :
    (xs.flatMap closes ++ xs.flatMap stats).Pairwise Before := by
  have hcloses {op : Op} (h : op ∈ xs.flatMap closes) (op' : Op) : Before op op' := by
    obtain ⟨x, -, hop⟩ := List.mem_flatMap.mp h
    obtain ⟨a, -, rfl⟩ := List.mem_map.mp hop
    trivial
  have hstats {op' : Op} (h : op' ∈ xs.flatMap stats) (op : Op) : Before op op' := by
    obtain ⟨x, -, hop⟩ := List.mem_flatMap.mp h
    obtain ⟨c, -, rfl⟩ := List.mem_map.mp hop
    cases op <;> trivial
  rw [List.pairwise_append]
  refine ⟨?_, ?_, fun op hop op' _ => hcloses hop op'⟩
  · exact List.pairwise_of_forall_mem_list fun op hop op' _ => hcloses hop op'
  · exact List.pairwise_of_forall_mem_list fun op _ op' hop' => hstats hop' op

theorem pairwise_stop (s : Collector) : (stop s).Pairwise Before := by
  rw [stop, List.pairwise_flatMap]
  refine ⟨fun xs _ => pairwise_group xs, ?_⟩
  have hnodup := s.nodup_streams
  rw [← flatten_stopGroups, List.nodup_flatten] at hnodup
  refine hnodup.2.imp fun {xs ys} hdisj op hop op' hop' => before_of_ne fun heq => ?_
  exact hdisj (stream_of_mem_group hop) (heq ▸ stream_of_mem_group hop')

/-- After a load the recorder is not closed any more. -/
theorem closings_of_pairwise {x : Stream} {c : Counter} (h : (Op.load x c :: ops).Pairwise Before) :
    closings x ops = [] := by
  rw [closings, List.filterMap_eq_nil_iff]
  intro op hop
  have hbefore := (List.pairwise_cons.mp h).1 op hop
  cases op with
  | closing y a => exact if_neg fun heq => hbefore heq.symm
  | load y d => rfl

theorem closings_report (x : Stream) : closings x (report s) = [] := closings_flatMap_stats x _

end Op

namespace Live

open Collector (Event)

variable {R σ : Stream → Type} {W : (x : Stream) → Sink (R x) (σ x)} {s s' : Live R σ}

/-- What is still to be done to close the recorder of `x`, now or by the next `stop`. -/
def pending (x : Stream) : Call → List CloseStep
  | .inside .stop _ todo => Op.closings x todo
  | _ => CloseStep.all

/-- A recorder has been closed as far as `stop` has come, and no further. -/
structure Orderly (W : (x : Stream) → Sink (R x) (σ x)) (s : Live R σ) : Prop where
  inv : Inv W s
  present : ∀ kind got todo, s.call = .inside kind got todo → ∀ op ∈ todo,
    (s.recorders op.stream).isSome = true
  running : ∀ got todo, s.call = .inside .stop got todo → s.collector.running = true
  reads : ∀ got todo, s.call = .inside .report got todo → ∀ x, Op.closings x todo = []
  pending : ∀ x r, s.recorders x = some r → pending x s.call = r.closer.todo

/-- Outside of `stop` nothing is being closed. -/
theorem Orderly.of_idle {call : Call} (H : Orderly W s) (hcall : s.call = .idle)
    (hpending : ∀ x, (s.recorders x).isSome = true → Live.pending x call = CloseStep.all)
    (x : Stream) (r : Recorder (R x) (σ x)) (hr : s.recorders x = some r) :
    Live.pending x call = r.closer.todo := by
  rw [hpending x (by rw [hr]; rfl), ← H.pending x r hr, hcall]
  rfl

theorem Orderly.initial : Orderly W ({} : Live R σ) where
  inv := .initial
  present _ _ _ h := by cases h
  running _ _ h := by cases h
  reads _ _ h := by cases h
  pending _ _ h := by cases h

theorem Orderly.put {x : Stream} {r r' : Recorder (R x) (σ x)} {l : Recorder.Label (R x)} {call : Call}
    {e : List (Recorder.Event (R x))} (H : Orderly W s) (hr : s.recorders x = some r)
    (hstep : (Recorder.machine (W x)).step r l = some (r', e))
    (hinv : Inv W { s.put x r' with call := call })
    (hcall : ∀ kind got todo, call = .inside kind got todo → ∃ pre, s.call = .inside kind got (pre ++ todo))
    (hpending : Live.pending x call = r'.closer.todo)
    (hothers : ∀ y, y ≠ x → Live.pending y call = Live.pending y s.call) :
    Orderly W { s.put x r' with call := call } where
  inv := hinv
  present kind got todo hinside op hop := by
    obtain ⟨pre, hbefore⟩ := hcall kind got todo hinside
    have hpresent := H.present _ _ _ hbefore op (List.mem_append_right _ hop)
    by_cases hx : op.stream = x
    · subst hx
      exact Option.isSome_iff_exists.mpr ⟨r', put_self⟩
    · exact (congrArg Option.isSome (put_of_ne hx)).trans hpresent
  running got todo hinside := by
    obtain ⟨pre, hbefore⟩ := hcall .stop got todo hinside
    exact H.running _ _ hbefore
  reads got todo hinside y := by
    obtain ⟨pre, hbefore⟩ := hcall .report got todo hinside
    have hreads := H.reads _ _ hbefore y
    rw [Op.closings_append] at hreads
    exact (List.append_eq_nil_iff.mp hreads).2
  pending y t ht := by
    by_cases hy : y = x
    · subst hy
      cases Option.some.inj (put_self.symm.trans ht)
      exact hpending
    · exact (hothers y hy).trans (H.pending y t ((put_of_ne hy).symm.trans ht))

theorem Orderly.next {l : Label W} (H : Orderly W s) (h : Step s l s' es) : Orderly W s' := by
  have hinv := (H.inv.next h).1
  cases h with
  | @start env settings fresh hcall =>
    have hidle : (s.start env settings fresh).1.call = .idle := hcall
    refine ⟨hinv, fun kind got todo h => ?_, fun got todo h => ?_, fun got todo h => ?_, fun x r hr => ?_⟩
    · exact absurd (hidle.symm.trans h) (by simp)
    · exact absurd (hidle.symm.trans h) (by simp)
    · exact absurd (hidle.symm.trans h) (by simp)
    · rw [hidle]
      cases hrun : s.collector.running with
      | true =>
        have hsame : (s.start env settings fresh).1.recorders = s.recorders := by
          simp only [Live.start, hrun, if_true]
        exact H.of_idle hcall (fun _ _ => rfl) x r (by rw [← hsame]; exact hr)
      | false =>
        -- the recorders have just been opened
        have hnew : (s.start env settings fresh).1.recorders x =
            ((s.start env settings fresh).1.collector.stats? x).map fun _ => (fresh x).recorder := by
          simp only [Live.start, hrun]
          rfl
        obtain ⟨-, -, rfl⟩ := Option.map_eq_some_iff.mp (hnew.symm.trans hr)
        rfl
  | reports hcall =>
    refine ⟨hinv, ?_, ?_, ?_, ?_⟩
    · rintro kind got todo ⟨⟩ op hop
      rw [H.inv.alive]
      exact Collector.mem_streams.mp (Op.stream_of_mem_report hop)
    · rintro got todo ⟨⟩
    · rintro got todo ⟨⟩ x
      exact Op.closings_report x
    · exact H.of_idle hcall fun _ _ => rfl
  | stops hcall hrun =>
    refine ⟨hinv, ?_, ?_, ?_, ?_⟩
    · rintro kind got todo ⟨⟩ op hop
      rw [H.inv.alive]
      exact Collector.mem_streams.mp (Op.stream_of_mem_stop hop)
    · rintro got todo ⟨⟩
      exact hrun
    · rintro got todo ⟨⟩
    · refine H.of_idle hcall fun x hx => ?_
      rw [H.inv.alive] at hx
      exact (Op.closings_stop x).trans (if_pos hx)
  | stopsNot => exact H
  | record hl hr hstep =>
    refine H.put hr hstep hinv (fun kind got todo h => ⟨[], h⟩) ?_ fun y _ => rfl
    rw [(Recorder.Step.of_step hstep).closer_eq hl]
    exact H.pending _ _ hr
  | @closing kind got x a todo r r' e hcall hr hstep =>
    have htodo := (Recorder.Step.of_step hstep).closer_todo
    have hself : Op.closings x (.closing x a :: todo) = a :: Op.closings x todo := by
      simp [Op.closings]
    have hother (y : Stream) (hy : y ≠ x) : Op.closings y (.closing x a :: todo) = Op.closings y todo := by
      simp [Op.closings, Ne.symm hy]
    cases kind with
    | report =>
      -- a report closes nothing
      have hreads := H.reads _ _ hcall x
      rw [hself] at hreads
      cases hreads
    | stop =>
      refine H.put hr hstep hinv ?_ ?_ fun y hy => ?_
      · rintro kind got' todo' ⟨⟩
        exact ⟨[.closing x a], hcall⟩
      · have hpending := H.pending x r hr
        rw [hcall, Live.pending, hself, htodo] at hpending
        exact (List.cons.inj hpending).2
      · rw [hcall]
        exact (hother y hy).symm
  | @load kind got x c todo r hcall hr =>
    have hsame (y : Stream) : Op.closings y (.load x c :: todo) = Op.closings y todo := rfl
    refine ⟨hinv, ?_, ?_, ?_, fun y t ht => ?_⟩
    · rintro kind' got' todo' ⟨⟩ op hop
      exact H.present _ _ _ hcall op (List.mem_cons_of_mem _ hop)
    · rintro got' todo' ⟨⟩
      exact H.running _ _ hcall
    · rintro got' todo' ⟨⟩ y
      exact H.reads _ _ hcall y
    · rw [← H.pending y t ht, hcall]
      cases kind <;> rfl
  | reported hcall =>
    refine ⟨hinv, ?_, ?_, ?_, fun x r hr => ?_⟩
    · rintro kind got todo ⟨⟩
    · rintro got todo ⟨⟩
    · rintro got todo ⟨⟩
    · rw [← H.pending x r hr, hcall]
      rfl
  | outOfRange hcall =>
    refine ⟨hinv, ?_, ?_, ?_, fun x r hr => ?_⟩
    · rintro kind got todo ⟨⟩
    · rintro got todo ⟨⟩
    · rintro got todo ⟨⟩
    · rw [← H.pending x r hr, hcall]
      rfl
  | stopped =>
    refine ⟨hinv, ?_, ?_, ?_, ?_⟩
    · rintro kind got todo ⟨⟩
    · rintro got todo ⟨⟩
    · rintro got todo ⟨⟩
    · rintro x r ⟨⟩

theorem Orderly.of_run (h : (machine W).run {} ls = some (s, es)) : Orderly W s :=
  Machine.invariant (P := fun _ s => Orderly W s) Orderly.initial (fun H hs => H.next (.of_step hs)) h

/-! ## `stop` returns -/

/-- A step that `stop` waits for: its own, or one of a writer thread whose queue it has closed. -/
def awaited (s : Live R σ) : Label W → Bool
  | .step => true
  | .record x l => !l.isPush && (s.recorders x).any (·.closer != .idle)
  | _ => false

def budget (s : Live R σ) (x : Stream) : Nat := (s.recorders x).elim 0 Recorder.budget

/-- The steps left of the call in progress itself. -/
def own : Call → Nat
  | .idle => 0
  | .inside _ _ todo => todo.length + 1

def left (s : Live R σ) : Nat := own s.call + (s.collector.streams.map s.budget).sum

theorem sum_map_add_le {xs : List α} {f g : α → Nat} (hx : x ∈ xs) (hle : ∀ y, f y ≤ g y)
    (hlt : f x + k ≤ g x) : (xs.map f).sum + k ≤ (xs.map g).sum := by
  induction xs with
  | nil => cases hx
  | cons y xs ih =>
    simp only [List.map_cons, List.sum_cons]
    rcases List.mem_cons.mp hx with rfl | hx
    · have hrest := List.sum_le_sum (l := xs) fun y _ => hle y
      omega
    · have hrest := ih hx
      have hy := hle y
      omega

/-- A recorder's step counts for `stop` if it is waited for. -/
theorem Orderly.budget_put {x : Stream} {r r' : Recorder (R x) (σ x)} {l : Recorder.Label (R x)}
    {e : List (Recorder.Event (R x))} (H : Orderly W s) (hr : s.recorders x = some r)
    (hstep : (Recorder.machine (W x)).step r l = some (r', e)) :
    (s.collector.streams.map (s.put x r').budget).sum +
        (if !l.isPush && r.closer != .idle then 1 else 0) ≤ (s.collector.streams.map s.budget).sum := by
  have hone : (s.put x r').budget x + (if !l.isPush && r.closer != .idle then 1 else 0) ≤ s.budget x := by
    rw [budget, budget, put_self, hr]
    exact (H.inv.reached x r hr).opened.budget_step hstep
  have hmem : x ∈ s.collector.streams := by
    rw [Collector.mem_streams, ← H.inv.alive, hr]
    rfl
  refine sum_map_add_le hmem (fun y => ?_) hone
  by_cases hy : y = x
  · subst hy
    omega
  · rw [budget, budget, put_of_ne hy]

theorem Orderly.left_step {l : Label W} (H : Orderly W s) (hcall : s.call = .inside .stop got todo)
    (h : Step s l s' e) : (∃ session summary, .finalized session summary ∈ e) ∨
      (Orderly W s' ∧ ∃ got todo, s'.call = .inside .stop got todo) ∧
        s'.left + (if awaited s l then 1 else 0) ≤ s.left := by
  have H' := H.next h
  cases h with
  | start hidle | reports hidle | stops hidle | stopsNot hidle =>
    exact absurd (hidle.symm.trans hcall) (by simp)
  | reported hreport | outOfRange hreport => exact absurd (hreport.symm.trans hcall) (by simp)
  | record hl hr hstep =>
    refine .inr ⟨⟨H', got, todo, hcall⟩, ?_⟩
    have hsum := H.budget_put hr hstep
    simp only [left, awaited, hr, Option.any_some]
    exact (Nat.add_assoc ..).trans_le (Nat.add_le_add_left hsum _)
  | closing hcall' hr hstep =>
    cases hcall.symm.trans hcall'
    refine .inr ⟨⟨H', _, _, rfl⟩, ?_⟩
    have hsum := H.budget_put hr hstep
    have hle : (s.collector.streams.map (s.put _ _).budget).sum ≤ (s.collector.streams.map s.budget).sum :=
      (Nat.le_add_right _ _).trans hsum
    simp only [left, awaited, hcall, own, List.length_cons, if_true]
    exact (Nat.add_right_comm ..).trans_le (Nat.add_le_add_left hle _)
  | load hcall' hr =>
    cases hcall.symm.trans hcall'
    refine .inr ⟨⟨H', _, _, rfl⟩, ?_⟩
    simp only [left, awaited, hcall, own, List.length_cons, if_true]
    exact Nat.le_of_eq (Nat.add_right_comm ..)
  | stopped hcall' =>
    cases hcall.symm.trans hcall'
    have hrun : (s.collector.observe got).running = true := H.running _ _ hcall
    obtain ⟨before, summary, hes⟩ : ∃ before summary, ((s.collector.observe got).stop fun _ => {}).2 =
        before ++ [.finalized s.collector.session summary] :=
      ⟨_, _, (Collector.stop_of_running hrun fun _ => {}).1⟩
    refine .inl ⟨s.collector.session, summary, ?_⟩
    rw [hes]
    exact List.mem_append_right _ (List.mem_singleton.mpr rfl)

/-- Inside `stop`, the collector's thread or the writer thread it waits for can go on. -/
theorem Orderly.exists_step (H : Orderly W s) (hcall : s.call = .inside .stop got todo) :
    ∃ l : Label W, awaited s l = true ∧ ((machine W).step s l).isSome = true := by
  cases todo with
  | nil => exact ⟨.step, rfl, by simp [machine, hcall]⟩
  | cons op todo =>
    obtain ⟨r, hr⟩ := Option.isSome_iff_exists.mp (H.present _ _ _ hcall op List.mem_cons_self)
    cases op with
    | load x c =>
      have hexec : s.exec W got (.load x c) =
          some (s, Function.update got x (c.load (r.stats (W x)) (got x))) := by
        simp only [exec, show s.recorders x = some r from hr]
        rfl
      exact ⟨.step, rfl, by simp [machine, hcall, hexec]⟩
    | closing x a =>
      simp only [Op.stream] at r hr
      have htodo := H.pending x r hr
      rw [hcall, Live.pending, show Op.closings x (.closing x a :: todo) = a :: Op.closings x todo by
        simp [Op.closings]] at htodo
      have hreached := H.inv.reached x r hr
      rcases hreached.exists_close htodo.symm with ⟨rfl, hw⟩ | hstep
      · have hjoining : r.closer = .joining := by
          cases hc : r.closer <;> rw [hc] at htodo <;> cases htodo
        have hclosing := hreached.opened.closing (by rw [hjoining]; simp)
        obtain ⟨l, hpush, hl, hstep⟩ := hclosing.exists_writer_step (W := W x) hw
        obtain ⟨p, hp⟩ := Option.isSome_iff_exists.mp hstep
        refine ⟨.record x l, ?_, ?_⟩
        · simp [awaited, hpush, hr, hjoining]
        · simp [machine, hl, hr, hp]
      · obtain ⟨p, hp⟩ := Option.isSome_iff_exists.mp hstep
        have hexec : s.exec W got (.closing x a) = some (s.put x p.1, got) := by
          simp only [exec, hr, hp, Option.bind_eq_bind, Option.bind_some]
        exact ⟨.step, rfl, by simp [machine, hcall, hexec]⟩

theorem length_stop (s : Collector) : (Op.stop s).length = 9 * s.streams.length := by
  rw [Op.stop, ← Op.flatten_stopGroups]
  induction s.stopGroups with
  | nil => rfl
  | cons xs groups ih =>
    have hcloses : (xs.flatMap Op.closes).length = 3 * xs.length := by
      induction xs with
      | nil => rfl
      | cons x xs ih => simp [Op.closes, CloseStep.all]; omega
    have hstats : (xs.flatMap Op.stats).length = 6 * xs.length := by
      induction xs with
      | nil => rfl
      | cons x xs ih => simp [Op.stats, Counter.all]; omega
    simp only [List.flatMap_cons, List.length_append, List.flatten_cons, ih, hcloses, hstats]
    omega

/-- The capacity of the queue of a stream. -/
def capacity (s : Live R σ) (x : Stream) : Nat := (s.recorders x).elim 0 (·.queue.capacity)

/-- **No recorder holds `stop` up.** Whatever the recorders go on doing and whatever is still pushed, once
`stop` is called on a running collector, and apart from what its subscribers do in their own `stop`: until
it has written the summary, its steps and those of the writer threads it waits for are bounded by the
streams and their capacities, and one of them can be taken. -/
theorem stop_returns {R σ : Stream → Type} (W : (x : Stream) → Sink (R x) (σ x)) {ls ls' : List (Label W)}
    {s s' : Live R σ} {es es' : List Event} (h : (machine W).run {} ls = some (s, es))
    (hrun : s.collector.running = true)
    (h' : (machine W).run s (.stop :: ls') = some (s', es')) :
    (∃ session summary, .finalized session summary ∈ es') ∨
    ∃ n, ((machine W).counted awaited).run (s, 0) (.stop :: ls') = some ((s', n), es') ∧
      n ≤ 9 * s.collector.streams.length + 1 +
        (s.collector.streams.map fun x => 8 * s.capacity x + 5).sum ∧
      ∃ l : Label W, awaited s' l = true ∧ ((machine W).step s' l).isSome = true := by
  have H := Orderly.of_run h
  obtain ⟨s₁, e₁, e₂, hstop, hrest, rfl⟩ := Machine.run_cons.mp h'
  have hstart : s₁ = { s with call := .inside .stop (fun _ => {}) (Op.stop s.collector) } := by
    cases Step.of_step hstop with
    | stops => rfl
    | stopsNot _ hnot => exact absurd (hrun.symm.trans hnot) (by simp)
  have H₁ := H.next (.of_step hstop)
  obtain ⟨e, he, session, summary, rfl⟩ | ⟨n, hcount, ⟨H', got, todo, hinside⟩, hn⟩ :=
    Machine.counted_le (fun s => Orderly W s ∧ ∃ got todo, s.call = .inside .stop got todo) left awaited
      (fun e => ∃ session summary, e = Event.finalized session summary)
      (fun {s l s' e} ⟨H, got, todo, hcall⟩ hstep => by
        rcases H.left_step hcall (.of_step hstep) with ⟨session, summary, he⟩ | hle
        · exact .inl ⟨_, he, session, summary, rfl⟩
        · exact .inr hle)
      ⟨H₁, _, _, congrArg Live.call hstart⟩ hrest
  · exact .inl ⟨session, summary, List.mem_append_right _ he⟩
  · refine .inr ⟨n, Machine.run_cons.mpr ⟨(s₁, 0), e₁, e₂, ?_, hcount, rfl⟩, ?_,
      H'.exists_step hinside⟩
    · simp only [Machine.counted, hstop, awaited, Option.map_some]
      rfl
    · have hsum : (s.collector.streams.map s.budget).sum ≤
          (s.collector.streams.map fun x => 8 * s.capacity x + 5).sum := by
        refine List.sum_le_sum fun x _ => ?_
        rw [budget, capacity]
        cases hr : s.recorders x with
        | none => exact Nat.zero_le _
        | some r => exact (H.inv.reached x r hr).opened.budget_le
      have hleft : s₁.left = 9 * s.collector.streams.length + 1 + (s.collector.streams.map s.budget).sum := by
        rw [hstart, left, own, length_stop]
        rfl
      omega

theorem stop_returns_oneHand : ∃ s es s' es',
    (machine numbers).run {} ((oneHand ⟨100, 8, by decide⟩ fun _ => ⟨2024, 0, 1, 0, 0, 0⟩).take 16) =
      some (s, es) ∧
    (machine numbers).run s [.stop] = some (s', es') ∧
    ((∃ session summary, .finalized session summary ∈ es') ∨
      ∃ n, ((machine numbers).counted awaited).run (s, 0) [.stop] = some ((s', n), es') ∧
        n ≤ 9 * s.collector.streams.length + 1 +
          (s.collector.streams.map fun x => 8 * s.capacity x + 5).sum ∧
        ∃ l : Label numbers, awaited s' l = true ∧ ((machine numbers).step s' l).isSome = true) := by
  obtain ⟨s, es, h, hown, hrun⟩ := Machine.exists_run
    (P := fun p => own p.1.call = 0 ∧ p.1.collector.running = true)
    (Q := fun s es => own s.call = 0 ∧ s.collector.running = true)
    (show ((machine numbers).run {}
      ((oneHand ⟨100, 8, by decide⟩ fun _ => ⟨2024, 0, 1, 0, 0, 0⟩).take 16)).any _ = true by decide)
    fun _ _ _ hp => hp
  have hcall : s.call = .idle := by
    cases hc : s.call with
    | idle => rfl
    | inside => rw [hc] at hown; cases hown
  have hstop : (machine numbers).run s [.stop] =
      some ({ s with call := .inside .stop (fun _ => {}) (Op.stop s.collector) }, []) := by
    rw [Machine.run_singleton]
    simp only [machine, hcall, hrun, if_true]
  exact ⟨s, es, _, _, h, hstop, stop_returns numbers h hrun hstop⟩

/-! ## What the summary shows -/

/-- The stream whose recorder `stop` closes next. -/
def Call.closes? : Call → Option Stream
  | .inside .stop _ (.closing x .close :: _) => some x
  | _ => none

/-- A recorder is fed as `close` asks for: by the time it is called the last `push` has returned, and no
other comes. -/
def FeedStopped (_ : List Event) (s : Live R σ) : Label W → Prop
  | .record x l => l.isPush = true → ∀ r ∈ s.recorders x, r.closer = .idle
  | .step => ∀ x ∈ Call.closes? s.call, ∀ r ∈ s.recorders x, r.producer = .idle
  | _ => True

instance [∀ x, DecidableEq (R x)] (es : List Event) (s : Live R σ) :
    DecidablePred (FeedStopped (W := W) es s)
  | .record x l => inferInstanceAs (Decidable (l.isPush = true → ∀ r ∈ s.recorders x, r.closer = .idle))
  | .step => inferInstanceAs (Decidable (∀ x ∈ Call.closes? s.call, ∀ r ∈ s.recorders x, r.producer = .idle))
  | .start .. | .report | .stop => inferInstanceAs (Decidable True)

/-- What `stop` has read are the counters that the recorders are left with. -/
structure Final (W : (x : Stream) → Sink (R x) (σ x)) (s : Live R σ) : Prop where
  orderly : Orderly W s
  fed : ∀ x r, s.recorders x = some r → r.closer ≠ .idle → r.producer = .idle
  ordered : ∀ got todo, s.call = .inside .stop got todo → todo.Pairwise Op.Before
  unread : ∀ got todo, s.call = .inside .stop got todo → ∀ x, (s.recorders x).isSome = true →
    Op.closings x todo ≠ [] → Op.loads x todo = Counter.all
  final : ∀ got todo, s.call = .inside .stop got todo → ∀ x r, s.recorders x = some r →
    r.closer = .closed → willRead got todo x (r.stats (W x)) = r.stats (W x)

/-- A recorder that is closed and fed no more is done. -/
theorem Reached.done {R σ : Type} {W : Sink R σ} {r r' : Recorder R σ} {l : Recorder.Label R}
    {e : List (Recorder.Event R)} (H : Recorder.Reached W r) (hp : r.producer = .idle)
    (hc : r.closer = .closed) (hl : l.isPush = false) :
    (Recorder.machine W).step r l ≠ some (r', e) := by
  obtain ⟨f, ls, es, h⟩ := H
  rw [Recorder.stopped_final h hp hc fun x hx => by rw [hx] at hl; cases hl]
  simp

/-- Outside of `stop` there is little to say. -/
theorem Final.of_outside (H : Orderly W s) (hfed : ∀ x r, s.recorders x = some r → r.closer ≠ .idle →
    r.producer = .idle) (hcall : ∀ got todo, s.call ≠ .inside .stop got todo) : Final W s where
  orderly := H
  fed := hfed
  ordered got todo h := absurd h (hcall got todo)
  unread got todo h := absurd h (hcall got todo)
  final got todo h := absurd h (hcall got todo)

theorem Final.stops (H : Final W s) (hcall : s.call = .idle)
    (H' : Orderly W { s with call := .inside .stop (fun _ => {}) (Op.stop s.collector) }) :
    Final W { s with call := .inside .stop (fun _ => {}) (Op.stop s.collector) } := by
  have hopen (x : Stream) (r : Recorder (R x) (σ x)) (hr : s.recorders x = some r) : r.closer = .idle := by
    have hpending := H.orderly.pending x r hr
    rw [hcall] at hpending
    exact Closer.todo_eq_all.mp hpending.symm
  refine ⟨H', H.fed, ?_, ?_, ?_⟩
  · rintro got todo ⟨⟩
    exact Op.pairwise_stop _
  · rintro got todo ⟨⟩ x hx -
    rw [H.orderly.inv.alive] at hx
    exact (Op.loads_stop x).trans (if_pos hx)
  · rintro got todo ⟨⟩ x r hr hc
    exact absurd ((hopen x r hr).symm.trans hc) (by simp)

/-- A recorder whose queue is closed takes no push, and once it is closed nothing of it moves. -/
theorem Final.record {x : Stream} {r r' : Recorder (R x) (σ x)} {l : Recorder.Label (R x)}
    {e : List (Recorder.Event (R x))} (H : Final W s) (hl : l.isOwners = false)
    (hr : s.recorders x = some r) (hstep : (Recorder.machine (W x)).step r l = some (r', e))
    (hfed : l.isPush = true → r.closer = .idle) (H' : Orderly W (s.put x r')) :
    Final W (s.put x r') := by
  have hcloser := (Recorder.Step.of_step hstep).closer_eq hl
  have hpush (hc : r.closer ≠ .idle) : l.isPush = false :=
    Bool.eq_false_iff.mpr fun h => hc (hfed h)
  refine ⟨H', fun y t ht hc => ?_, H.ordered, fun got todo hcall y hy => ?_,
    fun got todo hcall y t ht hc => ?_⟩
  · by_cases hy : y = x
    · subst hy
      cases Option.some.inj (put_self.symm.trans ht)
      rw [hcloser] at hc
      rw [(Recorder.Step.of_step hstep).producer_eq (hpush hc)]
      exact H.fed y r hr hc
    · exact H.fed y t ((put_of_ne hy).symm.trans ht) hc
  · refine H.unread got todo hcall y ?_
    rw [H.orderly.inv.alive]
    exact (H'.inv.alive y).symm.trans hy
  · by_cases hy : y = x
    · subst hy
      cases Option.some.inj (put_self.symm.trans ht)
      rw [hcloser] at hc
      have hne : r.closer ≠ .idle := by rw [hc]; simp
      exact absurd hstep (Reached.done (H.orderly.inv.reached y r hr) (H.fed y r hr hne) hc (hpush hne))
    · exact H.final got todo hcall y t ((put_of_ne hy).symm.trans ht) hc

/-- `stop` takes a step of a `close`: of this stream nothing has been read yet. -/
theorem Final.closing {x : Stream} {r r' : Recorder (R x) (σ x)} {e : List (Recorder.Event (R x))}
    (H : Final W s) (hcall : s.call = .inside .stop got (.closing x a :: todo))
    (hr : s.recorders x = some r) (hstep : (Recorder.machine (W x)).step r a.label = some (r', e))
    (hfed : r.closer = .idle → a = .close → r.producer = .idle)
    (H' : Orderly W { s.put x r' with call := .inside .stop got todo }) :
    Final W { s.put x r' with call := .inside .stop got todo } := by
  have hloads (y : Stream) : Op.loads y (.closing x a :: todo) = Op.loads y todo := rfl
  have hpush : (a.label (R := R x)).isPush = false := by cases a <;> rfl
  refine ⟨H', fun y t ht hc => ?_, ?_, ?_, ?_⟩
  · by_cases hy : y = x
    · subst hy
      cases Option.some.inj (put_self.symm.trans ht)
      rw [(Recorder.Step.of_step hstep).producer_eq hpush]
      by_cases hidle : r.closer = .idle
      · have htodo := (Recorder.Step.of_step hstep).closer_todo
        rw [hidle] at htodo
        exact hfed hidle (List.cons.inj htodo).1.symm
      · exact H.fed y r hr hidle
    · exact H.fed y t ((put_of_ne hy).symm.trans ht) hc
  · rintro got' todo' ⟨⟩
    exact (List.pairwise_cons.mp (H.ordered _ _ hcall)).2
  · rintro got' todo' ⟨⟩ y hy hne
    have hsome : (s.recorders y).isSome = true := by
      rw [H.orderly.inv.alive]
      exact (H'.inv.alive y).symm.trans hy
    refine H.unread _ _ hcall y hsome fun hnil => hne ?_
    have happend := Op.closings_append y [.closing x a] todo
    rw [List.singleton_append, hnil] at happend
    exact (List.append_eq_nil_iff.mp happend.symm).2
  · rintro got' todo' ⟨⟩ y t ht hc
    by_cases hy : y = x
    · subst hy
      cases Option.some.inj (put_self.symm.trans ht)
      have hself : Op.closings y (.closing y a :: todo) ≠ [] := by simp [Op.closings]
      have hall := H.unread _ _ hcall y (by rw [hr]; rfl) hself
      rw [hloads] at hall
      rw [willRead, hall, Loading.rest_all]
    · exact H.final _ _ hcall y t ((put_of_ne hy).symm.trans ht) hc

/-- `stop` loads a counter of a recorder that it has closed. -/
theorem Final.load {x : Stream} {r : Recorder (R x) (σ x)} (H : Final W s)
    (hcall : s.call = .inside .stop got (.load x c :: todo)) (hr : s.recorders x = some r)
    (H' : Orderly W { s with
      call := .inside .stop (Function.update got x (c.load (r.stats (W x)) (got x))) todo }) :
    Final W { s with
      call := .inside .stop (Function.update got x (c.load (r.stats (W x)) (got x))) todo } := by
  have hother {y : Stream} (hy : y ≠ x) : Op.loads y (.load x c :: todo) = Op.loads y todo := by
    simp [Op.loads, Ne.symm hy]
  refine ⟨H', H.fed, ?_, ?_, ?_⟩
  · rintro got' todo' ⟨⟩
    exact (List.pairwise_cons.mp (H.ordered _ _ hcall)).2
  · rintro got' todo' ⟨⟩ y hy hne
    by_cases hyx : y = x
    · subst hyx
      exact absurd (Op.closings_of_pairwise (H.ordered _ _ hcall)) hne
    · rw [← hother hyx]
      exact H.unread _ _ hcall y hy hne
  · rintro got' todo' ⟨⟩ y t ht hc
    have hfinal := H.final _ _ hcall y t ht hc
    by_cases hyx : y = x
    · subst hyx
      cases Option.some.inj (hr.symm.trans ht)
      have hself : Op.loads y (.load y c :: todo) = c :: Op.loads y todo := by simp [Op.loads]
      rw [willRead, hself] at hfinal
      rw [willRead, Function.update_self]
      exact hfinal
    · rw [willRead, hother hyx] at hfinal
      rw [willRead, Function.update_of_ne hyx]
      exact hfinal

/-- Outside of `stop` no queue is closed. -/
theorem Orderly.final_of_outside (H : Orderly W s) (hcall : ∀ got todo, s.call ≠ .inside .stop got todo) :
    Final W s := by
  refine .of_outside H (fun x r hr hc => ?_) hcall
  have hpending := H.pending x r hr
  have hall : Live.pending x s.call = CloseStep.all := by
    cases hcall' : s.call with
    | idle => rfl
    | inside kind got todo =>
      cases kind with
      | report => rfl
      | stop => exact absurd hcall' (hcall got todo)
  rw [hall] at hpending
  exact absurd (Closer.todo_eq_all.mp hpending.symm) hc

theorem Final.next {l : Label W} (H : Final W s) (h : Step s l s' es) (hfed : FeedStopped pre s l) :
    Final W s' := by
  have H' := H.orderly.next h
  cases h with
  | @start env settings fresh hcall =>
    have hsame : (s.start env settings fresh).1.call = .idle := hcall
    exact H'.final_of_outside fun got todo h => absurd (hsame.symm.trans h) (by simp)
  | stopsNot => exact H
  | reports | reported | outOfRange | stopped => exact H'.final_of_outside fun got todo h => by cases h
  | stops hcall => exact H.stops hcall H'
  | record hl hr hstep => exact H.record hl hr hstep (fun h => hfed h _ hr) H'
  | @closing kind got x a todo r r' e hcall hr hstep =>
    cases kind with
    | report => exact H'.final_of_outside fun got todo h => by cases h
    | stop =>
      refine H.closing hcall hr hstep (fun _ ha => ?_) H'
      subst ha
      exact hfed x (by rw [hcall]; rfl) r hr
  | @load kind got x c todo r hcall hr =>
    cases kind with
    | report => exact H'.final_of_outside fun got todo h => by cases h
    | stop => exact H.load hcall hr H'

theorem Final.of_run (h : (machine W).run {} ls = some (s, es)) (hfed : (machine W).Along FeedStopped {} ls) :
    Final W s := by
  have H : (machine W).Along FeedStopped {} ls → Final W s := by
    refine Machine.run_induction (P := fun ls _ s => (machine W).Along FeedStopped {} ls → Final W s) ?_ ?_ h
    · exact fun _ => .of_outside .initial (fun x r hr => by cases hr) fun got todo hc => by cases hc
    · intro ls es s l s' e hrun ih hs hfed
      obtain ⟨hbefore, hlast⟩ := (Machine.along_snoc hrun).mp hfed
      exact (ih hbefore).next (.of_step hs) hlast
  exact H hfed

/-- **The summary is final.** In a run in which every recorder is fed as its `close` asks for, the summary
has one entry for each recorder, in the order in which they were closed: the counters of a recorder that is
closed and drained, which account for every record received. -/
theorem summary_final {R σ : Stream → Type} (W : (x : Stream) → Sink (R x) (σ x)) {ls : List (Label W)}
    {s s' : Live R σ} {es e : List Event} {l : Label W} (h : (machine W).run {} ls = some (s, es))
    (hfed : (machine W).Along FeedStopped {} ls) (hstep : (machine W).step s l = some (s', e))
    (hsum : .finalized session summary ∈ e) :
    ∃ entries : List (Stream × StreamSummary), summary = entries.map Prod.snd ∧
      entries.map Prod.fst = s.collector.streams ∧
      ∀ p ∈ entries, ∃ r, s.recorders p.1 = some r ∧ p.2.stats = r.stats (W p.1) ∧
        r.closer = .closed ∧ r.queue.queue = [] ∧
        r.received = r.written + r.dropped + r.writeErrors := by
  have H := Final.of_run h hfed
  cases Step.of_step hstep with
  | @start env settings fresh =>
    have hes : .finalized session summary ∈ (s.collector.start env settings).2.2 := hsum
    obtain ⟨-, heq⟩ | ⟨-, c, heq, -⟩ | ⟨-, session', started, heq⟩ :=
      Collector.start_cases env settings s.collector <;> rw [heq] at hes
    · cases hes
    · cases hes
    · cases List.mem_singleton.mp hes
  | reports | stops | stopsNot | closing | load | record => cases hsum
  | reported | outOfRange => cases List.mem_singleton.mp hsum
  | @stopped got hcall =>
    have hrun : (s.collector.observe got).running = true := H.orderly.running _ _ hcall
    obtain ⟨more, harrive, hinv⟩ := H.orderly.inv.arrives hcall
    have hsummary := Collector.summarizes_stopAll hinv fun _ => {}
    have hfinal : summary = (((s.collector.observe got).stopAll fun _ => {}).flatMap
        Collector.Stopped.entries).map Prod.snd := by
      rw [(Collector.stop_of_running hrun fun _ => {}).1] at hsum
      rcases List.mem_append.mp hsum with hev | hev
      · obtain ⟨t, -, hev⟩ := List.mem_flatMap.mp hev
        rcases List.mem_cons.mp hev with hev | hev
        · cases hev
        · obtain ⟨p, -, hev⟩ := List.mem_map.mp hev
          cases hev
      · cases List.mem_singleton.mp hev
        rfl
    refine ⟨_, hfinal, ?_, fun p hp => ?_⟩
    · rw [Collector.entries_stopAll, Collector.streams_observe]
    · have hread := hsummary.final p hp
      rw [Collector.stats?_observe, Option.map_map] at hread
      obtain ⟨st, hst, hadd⟩ := Option.map_eq_some_iff.mp hread
      have halive : (s.recorders p.1).isSome = true := by rw [H.orderly.inv.alive, hst]; rfl
      obtain ⟨r, hr⟩ := Option.isSome_iff_exists.mp halive
      have hclosed : r.closer = .closed := by
        have hpending := H.orderly.pending p.1 r hr
        rw [hcall] at hpending
        exact Closer.todo_eq_nil.mp hpending.symm
      have hproducer := H.fed p.1 r hr (by rw [hclosed]; simp)
      have hgot : got p.1 = r.stats (W p.1) := H.final _ _ hcall p.1 r hr hclosed
      obtain ⟨f, ls, es, hrun⟩ := H.orderly.inv.reached p.1 r hr
      refine ⟨r, hr, ?_, hclosed, (Recorder.closed_drained hrun hclosed).1,
        (Recorder.accounted hrun).2 hproducer hclosed⟩
      rw [← hgot]
      exact hadd.symm.trans (StreamStats.add_zero _)

def isFinalized : Event → Bool
  | .finalized .. => true
  | _ => false

theorem summary_final_oneHand : ∃ s es s' e session summary,
    (machine numbers).run {} ((oneHand ⟨100, 8, by decide⟩ fun _ => ⟨2024, 0, 1, 0, 0, 0⟩).dropLast) =
      some (s, es) ∧
    (machine numbers).step s .step = some (s', e) ∧ .finalized session summary ∈ e ∧
    ∃ entries : List (Stream × StreamSummary), summary = entries.map Prod.snd ∧
      entries.map Prod.fst = s.collector.streams ∧
      ∀ p ∈ entries, ∃ r, s.recorders p.1 = some r ∧ p.2.stats = r.stats (numbers p.1) ∧
        r.closer = .closed ∧ r.queue.queue = [] ∧
        r.received = r.written + r.dropped + r.writeErrors := by
  have hfed : (machine numbers).Along FeedStopped {}
      ((oneHand ⟨100, 8, by decide⟩ fun _ => ⟨2024, 0, 1, 0, 0, 0⟩).dropLast) :=
    Machine.along_of_check (by decide)
  obtain ⟨s, es, h, hlast⟩ := Machine.exists_run
    (P := fun p => ((machine numbers).step p.1 .step).any (fun q => q.2.any isFinalized) = true)
    (Q := fun s es => ((machine numbers).step s .step).any (fun q => q.2.any isFinalized) = true)
    (show ((machine numbers).run {}
      ((oneHand ⟨100, 8, by decide⟩ fun _ => ⟨2024, 0, 1, 0, 0, 0⟩).dropLast)).any _ = true by decide)
    fun _ _ _ hp => hp
  obtain ⟨⟨s', e⟩, hstep, hany⟩ := (Option.any_eq_true ..).mp hlast
  obtain ⟨x, hx, hfinalized⟩ := List.any_eq_true.mp hany
  cases x with
  | finalized session summary =>
    exact ⟨s, es, s', e, session, summary, h, hstep, hx, summary_final numbers h hfed hstep hx⟩
  | _ => cases hfinalized

end Live
end Kist
