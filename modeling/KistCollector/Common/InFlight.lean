import KistCollector.Common.RowRecorder

/-!
# Records in flight

A record that is accepted and not yet counted is in the queue or in the batch the writer thread has
swapped out of it. `RecordQueue.push` compares the queue alone with the capacity, so the two together
hold up to twice the capacity; `Recorder.in_flight_iff` says in which runs the capacity bounds both.
-/

namespace Kist

/-- The records of the current batch that are not yet counted, neither as written nor as errors. -/
def Writer.inHand (w : Writer R) : Nat := w.uncounted.length + w.rest.length

namespace Recorder

open Text

variable {R σ : Type} {W : Sink R σ} {s s₀ s' : Recorder R σ}

/-- The records in the queue and in the writer's hands. -/
def inFlight (s : Recorder R σ) : Nat := s.queue.queue.length + s.writer.inHand

/-- The records in flight are those accepted and not yet counted. -/
theorem length_accepted {out : σ} (h : (machine W).run (s₀.start out cap) ls = some (s, es)) :
    (accepted es).length = (tallied es).length + s.inFlight := by
  have hacc := congrArg List.length (accepted_eq h)
  have hwrote := congrArg List.length (Inv.of_run h).wrote_eq
  simp only [List.length_append] at hacc hwrote
  rw [inFlight, Writer.inHand]
  omega

theorem queue_inv {out : σ} (h : (machine W).run (s₀.start out cap) ls = some (s, es)) :
    s.queue.capacity = cap ∧ s.queue.queue.length ≤ cap := by
  obtain ⟨ks, hq⟩ := queue_run h
  have H := RecordQueue.Inv.of_run (show RecordQueue.machine.run (s₀.queue.open cap) _ = _ from hq)
  exact ⟨H.capacity_eq, H.length_le⟩

/-- A batch is no longer than the queue it was swapped out of. -/
theorem inHand_le {out : σ} (h : (machine W).run (s₀.start out cap) ls = some (s, es)) :
    s.writer.inHand ≤ cap := by
  refine Machine.run_induction (P := fun _ _ (s : Recorder R σ) => s.writer.inHand ≤ cap)
    (Nat.zero_le _) ?_ h
  intro ls es s l s' e hrun ih hs
  cases Step.of_step hs with
  | batch hw hq =>
    obtain ⟨rfl, rfl⟩ := popAll_eq_batch hq
    simpa [Writer.inHand] using (queue_inv hrun).2
  | stop => exact Nat.zero_le _
  | write hw =>
    simp only [Writer.inHand, hw, Writer.uncounted, Writer.rest, List.length_cons,
      List.length_nil] at ih ⊢
    omega
  | countWritten hw | countError hw =>
    simp only [Writer.inHand, hw, Writer.uncounted, Writer.rest, List.length_cons,
      List.length_nil] at ih ⊢
    omega
  | addBytes hw => simpa [Writer.inHand, hw] using ih
  | flush => exact Nat.zero_le _
  | _ => exact ih

/-- What a step does to the number of records in flight. -/
theorem Step.inFlight_le (h : Step W s l s' e) :
    (l = .enqueue ∧ s.queue.closed = false ∧ s.queue.queue.length < s.queue.capacity ∧
      s'.inFlight = s.inFlight + 1) ∨
    ((l = .enqueue → s.queue.closed = true ∨ s.queue.capacity ≤ s.queue.queue.length) ∧
      s'.inFlight ≤ s.inFlight) := by
  cases h with
  | @accept r q hp hq =>
    simp only [RecordQueue.push] at hq
    split at hq <;> cases hq
    simp_all [inFlight]
    omega
  | @refuse r q hp hq =>
    have hq' := push_eq_false hq
    subst hq'
    exact .inr ⟨fun _ => RecordQueue.push_eq_false_iff.mp (congrArg Prod.fst hq), Nat.le_refl _⟩
  | batch hw hq =>
    obtain ⟨rfl, rfl⟩ := popAll_eq_batch hq
    right
    simp [inFlight, Writer.inHand, hw]
  | stop hw hq =>
    obtain ⟨rfl, -⟩ := popAll_eq_stop hq
    right
    simp [inFlight, Writer.inHand, hw]
  | write hw | addBytes hw | flush hw =>
    right
    simp [inFlight, Writer.inHand, hw]
    try omega
  | countWritten hw | countError hw =>
    right
    simp [inFlight, Writer.inHand, hw]
  | _ =>
    right
    simp [inFlight, RecordQueue.close]

/-- No more than `cap` records are accepted and not yet counted. -/
def Bounded (cap : Nat) (es : List (Event R)) (_ : Recorder R σ) : Prop :=
  (accepted es).length ≤ (tallied es).length + cap

/-- If the queue takes the record that is offered to it, it has room for the batch in the writer's
hands as well. -/
def RoomForBatch (cap : Nat) (_ : List (Event R)) (s : Recorder R σ) (l : Label R) : Prop :=
  l = .enqueue → s.queue.closed = false → s.queue.queue.length < cap →
    s.queue.queue.length + s.writer.inHand < cap

theorem bounded_iff_along {out : σ} (h : (machine W).run (s₀.start out cap) ls = some (s, es)) :
    (machine W).Throughout (Bounded cap) (s₀.start out cap) ls ↔
      (machine W).Along (RoomForBatch cap) (s₀.start out cap) ls := by
  refine Machine.throughout_iff_along (Nat.zero_le _) ?_ h
  intro pre s es l s' e hrun hb hs
  have hpre := length_accepted hrun
  have hpost := length_accepted (Machine.run_snoc.mpr ⟨s, es, e, hrun, hs, rfl⟩)
  have hcap := (queue_inv hrun).1
  simp only [Bounded, RoomForBatch] at hb ⊢
  rcases (Step.of_step hs).inFlight_le with ⟨hl, hc, hlt, heq⟩ | ⟨hl, hle⟩
  · rw [hcap] at hlt
    have hkept : s'.inFlight ≤ cap ↔ s.queue.queue.length + s.writer.inHand < cap := by
      rw [heq]; exact Nat.succ_le_iff
    simp only [hl, hc, hlt, true_imp_iff, ← hkept]
    omega
  · refine iff_of_true (by omega) ?_
    intro hen hc hlt
    rcases hl hen with hc' | hge
    · exact absurd (hc.symm.trans hc') nofun
    · omega

/-- **The bound on records in flight.** In every run of either recorder at most twice the capacity
is accepted and not yet counted; the capacity bounds it throughout exactly if each record the queue
takes finds room for the batch in the writer's hands as well. -/
theorem in_flight_iff {F : Type} [Frame F] :
    (∀ (row : RowFn F) (data index : Option Device) (header : List Char) (cap : Nat)
      (s s₀ : BlobRecorder F), s.open data index header cap = (true, s₀) →
      ∀ ls s' es, (BlobRecorder.machine row).run s₀ ls = some (s', es) →
        Bounded (2 * cap) es s' ∧
        ((BlobRecorder.machine row).Throughout (Bounded cap) s₀ ls ↔
          (BlobRecorder.machine row).Along (RoomForBatch cap) s₀ ls)) ∧
    (∀ (row : RowFn R) (csv : Option Device) (header : List Char) (cap : Nat)
      (s s₀ : RowRecorder R), s.open csv header cap = (true, s₀) →
      ∀ ls s' es, (RowRecorder.machine row).run s₀ ls = some (s', es) →
        Bounded (2 * cap) es s' ∧
        ((RowRecorder.machine row).Throughout (Bounded cap) s₀ ls ↔
          (RowRecorder.machine row).Along (RoomForBatch cap) s₀ ls)) := by
  have hbound : ∀ {R σ : Type} {W : Sink R σ} {s₀ s : Recorder R σ} {out : σ} {cap ls es},
      (machine W).run (s₀.start out cap) ls = some (s, es) → Bounded (2 * cap) es s := by
    intro R σ W s₀ s out cap ls es h
    have h1 := (queue_inv h).2
    have h2 := inHand_le h
    rw [Bounded, length_accepted h, inFlight]
    omega
  constructor
  · intro row data index header cap s s₀ hopen ls s' es h
    obtain ⟨out, rfl⟩ := openWith_eq_true hopen
    exact ⟨hbound h, bounded_iff_along h⟩
  · intro row csv header cap s s₀ hopen ls s' es h
    obtain ⟨out, rfl⟩ := openWith_eq_true hopen
    exact ⟨hbound h, bounded_iff_along h⟩

/-- A queue of one record, refilled while the writer thread is busy with the record before. -/
def refilled (r : R) : List (Label R) := [.push r, .enqueue, .popAll, .push r, .enqueue]

theorem in_flight_iff_refilled : ∃ s es,
    (RowRecorder.machine fun (n : Nat) _ => decimal n).run
      (RowRecorder.new.open (some ⟨100, 8, by decide⟩) ['n'] 1).2 (refilled (7, 5)) =
        some (s, es) ∧
    ((RowRecorder.machine fun (n : Nat) _ => decimal n).Throughout (Bounded 1)
        (RowRecorder.new.open (some ⟨100, 8, by decide⟩) ['n'] 1).2 (refilled (7, 5)) ↔
      (RowRecorder.machine fun (n : Nat) _ => decimal n).Along (RoomForBatch 1)
        (RowRecorder.new.open (some ⟨100, 8, by decide⟩) ['n'] 1).2 (refilled (7, 5))) := by
  refine Machine.exists_run (P := fun _ => True) (by decide) ?_
  intro s es h _
  exact ((in_flight_iff (F := UInt64 × List UInt8)).2 _ _ _ _ _ _ (RowRecorder.open_eq rfl _ _ _)
    _ _ _ h).2

/-- With a capacity of one, two records are in flight. -/
theorem in_flight_exceeds : ∃ s es,
    (RowRecorder.machine fun (n : Nat) _ => decimal n).run
      (RowRecorder.new.open (some ⟨100, 8, by decide⟩) ['n'] 1).2 (refilled (7, 5)) =
        some (s, es) ∧
    (accepted es).length = 2 ∧ tallied es = [] ∧ ¬ Bounded 1 es s := by
  refine Machine.exists_run (P := fun p => (accepted p.2).length = 2 ∧ tallied p.2 = [])
    (by decide) ?_
  rintro s es h ⟨hacc, htal⟩
  refine ⟨hacc, htal, ?_⟩
  simp [Bounded, hacc, htal]

end Recorder
end Kist
