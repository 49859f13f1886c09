import KistCollector.Common.InFlight
import KistCollector.Lib.Progress

/-!
# Closing a recorder comes to an end

`close` waits for the writer thread, which first writes what the queue still holds. Once the queue is
closed nothing is added to that, however often `push` is called; so the steps until `close` returns are
bounded by the capacity, and there is always one of them that can be taken (`Recorder.close_returns`).
-/

namespace Kist

/-- The steps the writer thread has left for its batch, its flush and its exit. -/
def Writer.left : Writer R → Nat
  | .none | .exited => 0
  | .waiting => 1
  | .writing rest => 3 * rest.length + 2
  | .wrote _ _ rest => 3 * rest.length + 4
  | .counted _ rest => 3 * rest.length + 3

def Closer.left : Closer → Nat
  | .idle => 3
  | .joining => 2
  | .joined => 1
  | .closed => 0

namespace Recorder

open Text

variable {R σ : Type} {W : Sink R σ} {s s₀ s' : Recorder R σ}

/-- A step that is taken inside `push`. -/
def Label.isPush : Label R → Bool
  | .push _ | .enqueue | .drop => true
  | _ => false

/-- The steps left before `close` returns. -/
def left (s : Recorder R σ) : Nat := 5 * s.queue.queue.length + s.writer.left + s.closer.left

/-- `close` has closed the queue. -/
structure Closing (s : Recorder R σ) : Prop where
  queue : s.queue.closed = true
  closer : s.closer ≠ .idle
  started : s.writer.started = true

theorem Closing.of_run {out : σ} (h : (machine W).run (s₀.start out cap) ls = some (s, es))
    (hc : s.closer ≠ .idle) : Closing s :=
  have H := Inv.of_run h
  ⟨H.closed_iff.mpr hc, hc, H.started⟩

/-- Pushes are refused, every other step brings `close` nearer to its end. -/
theorem Closing.next (H : Closing s) (h : Step W s l s' e) :
    Closing s' ∧ s'.left < s.left + if l.isPush then 1 else 0 := by
  obtain ⟨hq, hc, hw⟩ := H
  cases h with
  | push hp => exact ⟨⟨hq, hc, hw⟩, Nat.lt_succ_self _⟩
  | accept hp hpush => exact absurd (push_eq_true hpush).1 (by simp [hq])
  | refuse hp hpush =>
    cases push_eq_false hpush
    exact ⟨⟨hq, hc, hw⟩, Nat.lt_succ_self _⟩
  | drop hp => exact ⟨⟨hq, hc, hw⟩, Nat.lt_succ_self _⟩
  | stop hwr hpop =>
    obtain ⟨rfl, -, -⟩ := popAll_eq_stop hpop
    refine ⟨⟨hq, hc, rfl⟩, ?_⟩
    simp [left, hwr, Writer.left, Label.isPush]
  | @batch rs q hwr hpop =>
    -- a batch has at least one record
    have hpos : s.queue.queue ≠ [] := fun hnil => by simp [RecordQueue.popAll, hnil, hq] at hpop
    have hlen := List.length_pos_iff.mpr hpos
    obtain ⟨rfl, rfl⟩ := popAll_eq_batch hpop
    refine ⟨⟨hq, hc, rfl⟩, ?_⟩
    simp only [left, hwr, Writer.left, Label.isPush, List.length_nil]
    simp only [Bool.false_eq_true, if_false]
    omega
  | write hwr | countWritten hwr | countError hwr | addBytes hwr | flush hwr =>
    refine ⟨⟨hq, hc, rfl⟩, ?_⟩
    simp only [left, hwr, Writer.left, Label.isPush, List.length_cons, List.length_nil]
    simp only [Bool.false_eq_true, if_false]
    omega
  | close hidle => exact absurd hidle hc
  | join hjoining hwr =>
    refine ⟨⟨hq, by simp, hw⟩, ?_⟩
    simp [left, hjoining, Closer.left, Label.isPush]
  | closeSink hjoined =>
    refine ⟨⟨hq, by simp, hw⟩, ?_⟩
    simp [left, hjoined, Closer.left, Label.isPush]

theorem lowers_left (W : Sink R σ) :
    (machine W).Lowers Closing left fun l => if l.isPush then 1 else 0 :=
  fun H hs => H.next (.of_step hs)

/-- Until `close` has returned, the writer thread or `close` itself can go on. -/
theorem Closing.exists_step (H : Closing s) (hc : s.closer ≠ .closed) :
    ∃ l, l.isPush = false ∧ ((machine W).step s l).isSome = true := by
  cases hw : s.writer with
  | none => exact absurd H.started (by simp [hw, Writer.started])
  | waiting =>
    refine ⟨.popAll, rfl, ?_⟩
    cases hq : s.queue.queue <;> simp [machine, hw, RecordQueue.popAll, hq, H.queue]
  | writing rest =>
    cases rest with
    | nil => exact ⟨.flush, rfl, by simp [machine, hw]⟩
    | cons r rest => exact ⟨.write, rfl, by simp [machine, hw]⟩
  | wrote r ok rest => exact ⟨.count, rfl, by cases ok <;> simp [machine, hw]⟩
  | counted r rest => exact ⟨.addBytes, rfl, by simp [machine, hw]⟩
  | exited =>
    cases hcl : s.closer with
    | idle => exact absurd hcl H.closer
    | joining => exact ⟨.join, rfl, by simp [machine, hw, hcl]⟩
    | joined => exact ⟨.closeSink, rfl, by simp [machine, hcl]⟩
    | closed => exact absurd hcl hc

/-- What is left is bounded by the capacity. -/
theorem left_le {out : σ} (h : (machine W).run (s₀.start out cap) ls = some (s, es))
    (hc : s.closer ≠ .idle) : s.left ≤ 8 * cap + 5 := by
  have hqueue := (queue_inv h).2
  have hhand := inHand_le h
  have hcloser : s.closer.left ≤ 2 := by
    cases hcl : s.closer with
    | idle => exact absurd hcl hc
    | joining | joined | closed => simp [Closer.left]
  have hwriter : s.writer.left ≤ 3 * s.writer.inHand + 3 := by
    cases s.writer <;> simp only [Writer.left, Writer.inHand, Writer.uncounted, Writer.rest,
      List.length_cons, List.length_nil] <;> omega
  rw [left]
  omega

theorem Step.capacity_eq (h : Step W s l s' e) : s'.queue.capacity = s.queue.capacity := by
  cases h with
  | accept hp hpush =>
    simp only [RecordQueue.push] at hpush
    split at hpush <;> cases hpush
    rfl
  | refuse hp hpush => rw [push_eq_false hpush]
  | stop hw hpop => rw [(popAll_eq_stop hpop).1]
  | batch hw hpop => rw [(popAll_eq_batch hpop).2]
  | _ => rfl

/-- A run from a recorder that was opened leads here. -/
def Opened (W : Sink R σ) (s : Recorder R σ) : Prop :=
  ∃ (s₀ : Recorder R σ) (out : σ) (cap : Nat) (ls : List (Label R)) (es : List (Event R)),
    (machine W).run (s₀.start out cap) ls = some (s, es)

theorem Opened.next (H : Opened W s) (h : (machine W).step s l = some (s', e)) : Opened W s' := by
  obtain ⟨s₀, out, cap, ls, es, hrun⟩ := H
  exact ⟨s₀, out, cap, ls ++ [l], es ++ e, Machine.run_snoc.mpr ⟨s, es, e, hrun, h, rfl⟩⟩

theorem Opened.closing (H : Opened W s) (hc : s.closer ≠ .idle) : Closing s := by
  obtain ⟨s₀, out, cap, ls, es, h⟩ := H
  exact .of_run h hc

/-- The steps that are left until `close` has returned, or that there can be when it is called. -/
def budget (s : Recorder R σ) : Nat := if s.closer = .idle then 8 * s.queue.capacity + 5 else s.left

theorem Opened.budget_le (H : Opened W s) : s.budget ≤ 8 * s.queue.capacity + 5 := by
  obtain ⟨s₀, out, cap, ls, es, h⟩ := H
  rw [budget]
  split
  · exact Nat.le_refl _
  · rw [(queue_inv h).1]
    exact left_le h ‹_›

/-- Whatever happens before `close`, it does not leave more to do. -/
theorem Opened.budget_step (H : Opened W s) (h : (machine W).step s l = some (s', e)) :
    s'.budget + (if !l.isPush && s.closer != .idle then 1 else 0) ≤ s.budget := by
  have hstep := Step.of_step h
  by_cases hc : s.closer = .idle
  · have hle := (H.next h).budget_le
    rw [hstep.capacity_eq] at hle
    simpa [budget, hc] using hle
  · obtain ⟨H', hlt⟩ := (H.closing hc).next hstep
    rw [budget, budget, if_neg hc, if_neg H'.closer]
    cases hl : l.isPush <;> simp [hl, hc] at hlt ⊢ <;> omega

/-- The steps outside `push` that follow. -/
def others (ls : List (Label R)) : Nat := ls.countP fun l => !l.isPush

theorem sum_cost (ls : List (Label R)) :
    (ls.map fun l => if l.isPush then 1 else 0).sum + others ls = ls.length := by
  induction ls with
  | nil => rfl
  | cons l ls ih =>
    simp only [List.map_cons, List.sum_cons, others, List.countP_cons, List.length_cons] at ih ⊢
    cases l.isPush <;> simp <;> omega

/-- **`close` returns.** For both recorders, once `close` has closed the queue: whatever pushes still come,
the steps of the writer thread and of `close` that follow are bounded by the capacity, and as long as
`close` has not returned one of them can be taken. -/
theorem close_returns {F : Type} [Frame F] :
    (∀ (row : RowFn F) (data index : Option Device) (header : List Char) (cap : Nat)
      (s s₀ : BlobRecorder F), s.open data index header cap = (true, s₀) →
      ∀ ls s₁ es, (BlobRecorder.machine row).run s₀ ls = some (s₁, es) → s₁.closer ≠ .idle →
      ∀ ls' s₂ es', (BlobRecorder.machine row).run s₁ ls' = some (s₂, es') →
        others ls' ≤ 8 * cap + 5 ∧ (s₂.closer = .closed ∨
          ∃ l, l.isPush = false ∧ ((BlobRecorder.machine row).step s₂ l).isSome = true)) ∧
    (∀ (row : RowFn R) (csv : Option Device) (header : List Char) (cap : Nat)
      (s s₀ : RowRecorder R), s.open csv header cap = (true, s₀) →
      ∀ ls s₁ es, (RowRecorder.machine row).run s₀ ls = some (s₁, es) → s₁.closer ≠ .idle →
      ∀ ls' s₂ es', (RowRecorder.machine row).run s₁ ls' = some (s₂, es') →
        others ls' ≤ 8 * cap + 5 ∧ (s₂.closer = .closed ∨
          ∃ l, l.isPush = false ∧ ((RowRecorder.machine row).step s₂ l).isSome = true)) := by
  have hall : ∀ {R σ : Type} {W : Sink R σ} {s₀ s₁ s₂ : Recorder R σ} {out : σ} {cap ls es ls' es'},
      (machine W).run (s₀.start out cap) ls = some (s₁, es) → s₁.closer ≠ .idle →
      (machine W).run s₁ ls' = some (s₂, es') → others ls' ≤ 8 * cap + 5 ∧ (s₂.closer = .closed ∨
        ∃ l, l.isPush = false ∧ ((machine W).step s₂ l).isSome = true) := by
    intro R σ W s₀ s₁ s₂ out cap ls es ls' es' h hc h'
    obtain ⟨H, hlen⟩ := Machine.length_le_of_lowers (lowers_left W) (.of_run h hc) h'
    constructor
    · have hcost := sum_cost ls'
      have hle := left_le h hc
      omega
    · by_cases hclosed : s₂.closer = .closed
      · exact .inl hclosed
      · exact .inr (H.exists_step hclosed)
  constructor
  · intro row data index header cap s s₀ hopen ls s₁ es h hc ls' s₂ es' h'
    obtain ⟨out, rfl⟩ := openWith_eq_true hopen
    exact hall h hc h'
  · intro row csv header cap s s₀ hopen ls s₁ es h hc ls' s₂ es' h'
    obtain ⟨out, rfl⟩ := openWith_eq_true hopen
    exact hall h hc h'

/-- A full queue of one record is closed while the writer thread is at work, and a push comes after. -/
theorem close_returns_full : ∃ s es,
    (RowRecorder.machine fun (n : Nat) _ => decimal n).run
      (RowRecorder.new.open (some ⟨100, 8, by decide⟩) ['n'] 1).2 (refilled (7, 5) ++ [.close]) =
        some (s, es) ∧
    (s.closer = .closed ∨ ∃ l, l.isPush = false ∧
      ((RowRecorder.machine fun (n : Nat) _ => decimal n).step s l).isSome = true) := by
  refine Machine.exists_run (P := fun p => p.1.closer ≠ .idle) (by decide) ?_
  intro s es h hc
  exact ((close_returns (F := UInt64 × List UInt8)).2 _ _ _ _ _ _ (RowRecorder.open_eq rfl _ _ _)
    _ _ _ h hc [] s [] rfl).2

end Recorder
end Kist
