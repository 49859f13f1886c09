import KistCollector.Common.RowRecorder

/-!
# What the counters say

The summary of a session is read off the recorders' counters. For both recorders: in every reachable
state of a first run every record received is accounted for (`Recorder.counters_balance`), and
`written` counts records that are on the files exactly as long as no failure reaches back to a record
already counted (`Recorder.lossless_iff_spared`). Counters only grow (`Recorder.stats_grow`), and those
of a stopped recorder are final (`Recorder.stopped_final`).
-/

namespace Kist

/-- Counters that counted `d` more. -/
def StreamStats.add (st d : StreamStats) : StreamStats where
  received := st.received + d.received
  written := st.written + d.written
  dropped := st.dropped + d.dropped
  writeErrors := st.writeErrors + d.writeErrors
  wireGaps := st.wireGaps + d.wireGaps
  bytes := st.bytes + d.bytes

theorem StreamStats.add_assoc (a b c : StreamStats) : (a.add b).add c = a.add (b.add c) := by
  simp only [add, Nat.add_assoc, UInt64.add_assoc]

namespace Recorder

open Text

variable {R σ : Type} {W : Sink R σ} {s : Recorder R σ}

/-- The counters account for every record received, in every reachable state and at the end. -/
theorem accounted {out₀ out : σ}
    (h : (machine W).run ((init out₀).start out cap) ls = some (s, es)) :
    Balanced s ∧ (s.producer = .idle → s.closer = .closed →
      s.received = s.written + s.dropped + s.writeErrors) := by
  have hbal : Balanced s := .of_run rfl rfl h
  refine ⟨hbal, fun hp hc => ?_⟩
  obtain ⟨hq, -, hw⟩ := closed_drained h hc
  rw [Balanced, hq, hw, hp] at hbal
  simp only [Writer.uncounted, Writer.rest, Producer.inFlight, List.length_nil] at hbal
  omega

/-- **Loss accounting.** For both recorders, whatever the schedule of the producer, the writer thread
and `close`, and whatever the files refuse. -/
theorem counters_balance {F : Type} [Frame F] :
    (∀ (row : RowFn F) (data index : Option Device) (header : List Char) (cap : Nat)
      (s₀ : BlobRecorder F), BlobRecorder.new.open data index header cap = (true, s₀) →
      ∀ ls s es, (BlobRecorder.machine row).run s₀ ls = some (s, es) →
        Balanced s ∧ (s.producer = .idle → s.closer = .closed →
          s.received = s.written + s.dropped + s.writeErrors)) ∧
    (∀ (row : RowFn R) (csv : Option Device) (header : List Char) (cap : Nat)
      (s₀ : RowRecorder R), RowRecorder.new.open csv header cap = (true, s₀) →
      ∀ ls s es, (RowRecorder.machine row).run s₀ ls = some (s, es) →
        Balanced s ∧ (s.producer = .idle → s.closer = .closed →
          s.received = s.written + s.dropped + s.writeErrors)) := by
  constructor
  · intro row data index header cap s₀ hopen ls s es h
    obtain ⟨d, i, rfl, rfl⟩ := BlobRecorder.exists_of_open hopen
    cases (BlobRecorder.open_eq ⟨rfl, rfl⟩ d i header cap).symm.trans hopen
    exact accounted h
  · intro row csv header cap s₀ hopen ls s es h
    obtain ⟨d, rfl, rfl⟩ := RowRecorder.exists_of_open hopen
    exact accounted h

/-- Whatever a recorder does, its counters have then counted something more. -/
theorem stats_grow (h : (machine W).run s ls = some (s', es)) :
    ∃ d, s'.stats W = (s.stats W).add d := by
  refine Machine.invariant (P := fun _ t => ∃ d, t.stats W = (s.stats W).add d) ?_ ?_ h
  · exact ⟨{}, by simp [stats, StreamStats.add]⟩
  · rintro es t l t' e ⟨d, hd⟩ hstep
    have hmore : ∃ d', t'.stats W = (t.stats W).add d' := by
      refine ⟨⟨t'.received - t.received, t'.written - t.written, t'.dropped - t.dropped,
        t'.writeErrors - t.writeErrors, W.wireGaps t'.out - W.wireGaps t.out,
        t'.bytes - t.bytes⟩, ?_⟩
      have hgaps (a b : UInt64) : b = a + (b - a) := by
        rw [UInt64.add_comm, UInt64.sub_add_cancel]
      cases Step.of_step hstep <;> simp [stats, StreamStats.add, ← hgaps]
    obtain ⟨d', hd'⟩ := hmore
    exact ⟨d.add d', by rw [hd', hd, StreamStats.add_assoc]⟩

/-- A recorder that is stopped, and is not pushed to, does nothing more. -/
theorem stopped_final {out₀ out : σ}
    (h : (machine W).run ((init out₀).start out cap) ls = some (s, es))
    (hp : s.producer = .idle) (hc : s.closer = .closed) (hl : ∀ r, l ≠ .push r) :
    (machine W).step s l = none := by
  obtain ⟨-, -, hw⟩ := closed_drained h hc
  rw [Option.eq_none_iff_forall_ne_some]
  rintro ⟨s', e⟩ hstep
  cases Step.of_step hstep with
  | push => exact hl _ rfl
  | _ => simp_all

/-- A push that races with `close` and is refused. -/
theorem counters_balance_refused : ∃ s es,
    (RowRecorder.machine fun (n : Nat) _ => decimal n).run
      (RowRecorder.new.open (some ⟨100, 8, by decide⟩) ['n'] 4).2
      [.push (7, 5), .close, .enqueue, .popAll, .join, .closeSink, .drop] = some (s, es) ∧
    s.received = s.written + s.dropped + s.writeErrors := by
  refine Machine.exists_run (P := fun p => p.1.producer = .idle ∧ p.1.closer = .closed)
    (by decide) ?_
  rintro s es h ⟨hp, hc⟩
  exact ((counters_balance (F := UInt64 × List UInt8)).2 _ _ _ _ _ (RowRecorder.open_eq rfl _ _ _)
    _ _ _ h).2 hp hc

/-- **When `written` can be trusted.** For both recorders, a run that has closed is lossless exactly
when every step that made a file fail (a spill during an append, the flush after a batch, the last
flush in `close`) spared the records counted before it. -/
theorem lossless_iff_spared {F : Type} [Frame F] :
    (∀ (row : RowFn F) (d i : Device) (header : List Char) (cap : Nat) (s₀ : BlobRecorder F),
      BlobRecorder.new.open (some d) (some i) header cap = (true, s₀) →
      ∀ ls s es, (BlobRecorder.machine row).run s₀ ls = some (s, es) → s.closer = .closed →
        (Lossless (BlobRecorder.OnDevice row header) es s ↔ (BlobRecorder.machine row).Along
          (SparesCounted (BlobRecorder.writer row) (BlobRecorder.Room row d i header)) s₀ ls)) ∧
    (∀ (row : RowFn R) (d : Device) (header : List Char) (cap : Nat) (s₀ : RowRecorder R),
      RowRecorder.new.open (some d) header cap = (true, s₀) →
      ∀ ls s es, (RowRecorder.machine row).run s₀ ls = some (s, es) → s.closer = .closed →
        (Lossless (RowRecorder.OnDevice row header) es s ↔ (RowRecorder.machine row).Along
          (SparesCounted (RowRecorder.writer row) (RowRecorder.Room row d header)) s₀ ls)) :=
  ⟨fun _ _ _ _ _ _ hopen _ _ _ h hc => BlobRecorder.lossless_iff_along hopen h hc,
    fun _ _ _ _ _ hopen _ _ _ h hc => RowRecorder.lossless_iff_along hopen h hc⟩

/-- A device that takes the header only: the flush that fails does not spare the counted record. -/
theorem lossless_iff_spared_full : ∃ s es,
    (RowRecorder.machine fun (n : Nat) _ => decimal n).run
      (RowRecorder.new.open (some ⟨2, 4096, by decide⟩) ['n'] 4).2 (oneRecord (7, 5)) =
        some (s, es) ∧
    (Lossless (RowRecorder.OnDevice (fun n _ => decimal n) ['n']) es s ↔
      (RowRecorder.machine fun (n : Nat) _ => decimal n).Along
        (SparesCounted (RowRecorder.writer fun n _ => decimal n)
          (RowRecorder.Room (fun n _ => decimal n) ⟨2, 4096, by decide⟩ ['n']))
        (RowRecorder.new.open (some ⟨2, 4096, by decide⟩) ['n'] 4).2 (oneRecord (7, 5))) := by
  refine Machine.exists_run (P := fun p => p.1.closer = .closed) (by decide) ?_
  intro s es h hc
  exact (lossless_iff_spared (F := UInt64 × List UInt8)).2 _ _ _ _ _ (RowRecorder.open_eq rfl _ _ _)
    _ _ _ h hc

/-- On a device that takes the header only, a record is counted as written, no error is counted, and
nothing of it is on the device. -/
theorem lossless_fails : ∃ s es,
    (RowRecorder.machine fun (n : Nat) _ => decimal n).run
      (RowRecorder.new.open (some ⟨2, 4096, by decide⟩) ['n'] 4).2 (oneRecord (7, 5)) =
        some (s, es) ∧
    s.closer = .closed ∧ s.written = 1 ∧ s.dropped = 0 ∧ s.writeErrors = 0 ∧
    ¬ Lossless (RowRecorder.OnDevice (fun n _ => decimal n) ['n']) es s := by
  refine Machine.exists_run (P := fun p => p.1.closer = .closed ∧ p.1.written = 1 ∧
    p.1.dropped = 0 ∧ p.1.writeErrors = 0 ∧
    ¬ p.1.written ≤ Nat.count (RowRecorder.OnDevice (fun n _ => decimal n) ['n'] p.1.out
      (accepted p.2)) (accepted p.2).length) (by decide) ?_
  rintro s es h ⟨hc, hw, hd, he, hcount⟩
  exact ⟨hc, hw, hd, he, fun H => hcount H.2⟩

end Recorder
end Kist
