import KistCollector.Common.BlobRecorder
import KistCollector.Lib.Gaps

/-!
# What `wire_gaps` counts

The writer thread compares the sequence numbers of the frames it pops, after the queue has refused
some. So `wire_gaps` is the number of sequence numbers between one accepted frame and the next
(`wireGaps_eq`): refused frames among them count as lost on the wire, and losses on the wire before the
first or after the last accepted frame do not count. `wire_gaps_iff` says when neither happens.
-/

namespace Kist

open Gaps

namespace BlobRecorder

variable {F : Type} [Frame F] {row : RowFn F} {s₀ s : BlobRecorder F}

/-- The sequence numbers of frames. -/
def seqs (rs : List (F × Int64)) : List Nat := rs.map fun r => (Frame.sequence r.1).toNat

theorem seqs_lt (rs : List (F × Int64)) : ∀ n ∈ seqs rs, n < 2 ^ 64 := by
  intro n hn
  obtain ⟨r, -, rfl⟩ := List.mem_map.mp hn
  exact UInt64.toNat_lt _

theorem seqs_concat (rs : List (F × Int64)) (r : F × Int64) :
    seqs (rs ++ [r]) = seqs rs ++ [(Frame.sequence r.1).toNat] := List.map_append

/-- The test and the difference of the writer thread are exact where the numbers increase. -/
theorem skipped {last seq : UInt64} (h : last.toNat < seq.toNat) :
    (last + 1 < seq ↔ last.toNat + 1 < seq.toNat) ∧
      (seq - last - 1).toNat = seq.toNat - last.toNat - 1 := by
  have hlt := seq.toNat_lt
  have hsucc : (last + 1).toNat = last.toNat + 1 := by
    rw [UInt64.toNat_add, show (1 : UInt64).toNat = 1 from rfl]
    omega
  have hsub : (seq - last).toNat = seq.toNat - last.toNat :=
    UInt64.toNat_sub_of_le _ _ (UInt64.le_iff_toNat_le.mpr (by omega))
  refine ⟨by rw [UInt64.lt_iff_toNat_lt, hsucc], ?_⟩
  rw [UInt64.toNat_sub_of_le _ _ (UInt64.le_iff_toNat_le.mpr ?_), hsub]
  · rfl
  · rw [hsub, show (1 : UInt64).toNat = 1 from rfl]
    omega

/-- The writer thread has been given `rs`. As long as their sequence numbers increase, `wire_gaps` is
the number of those missing. -/
structure Tracked (rs : List (F × Int64)) (o : BlobWriter) : Prop where
  haveSeq : o.haveSeq = !rs.isEmpty
  lastSeq : ∀ n ∈ (seqs rs).getLast?, o.lastSeq.toNat = n
  wireGaps : (seqs rs).Pairwise (· < ·) → o.wireGaps.toNat = (missing (seqs rs)).card

theorem Tracked.opened (sink : BlobSink) : Tracked ([] : List (F × Int64)) { sink := sink } :=
  ⟨rfl, nofun, fun _ => rfl⟩

theorem Tracked.write {o : BlobWriter} {rs : List (F × Int64)} (H : Tracked rs o) (r : F × Int64) :
    Tracked (rs ++ [r]) ((writer row).write o r) := by
  refine ⟨by simp [writer, BlobRecorder.write], ?_, fun hinc => ?_⟩
  · rw [seqs_concat, List.getLast?_concat]
    rintro n hn
    cases hn
    rfl
  · rcases List.eq_nil_or_concat rs with rfl | ⟨rs, r', rfl⟩
    · have hgaps := H.wireGaps .nil
      simpa [writer, BlobRecorder.write, H.haveSeq, seqs, missing_singleton, missing_nil] using hgaps
    · have hbound := card_missing_lt (m := 2 ^ 64) (by decide) (seqs_lt (rs.concat r' ++ [r]))
      rw [seqs_concat] at hinc hbound ⊢
      have hlast : (Frame.sequence r'.1).toNat ∈ (seqs (rs.concat r')).getLast? := by
        simp [seqs]
      have hmem := List.mem_of_getLast? hlast
      have hlt := (List.pairwise_append.mp hinc).2.2 _ hmem _ (List.mem_singleton_self _)
      have hgaps := H.wireGaps (List.pairwise_append.mp hinc).1
      have hseq := H.lastSeq _ hlast
      rw [card_missing_concat hinc hlast] at hbound ⊢
      obtain ⟨htest, hskip⟩ := skipped (hseq ▸ hlt)
      have hwrite : ((writer row).write o r).wireGaps =
          if o.lastSeq.toNat + 1 < (Frame.sequence r.1).toNat then
            o.wireGaps + (Frame.sequence r.1 - o.lastSeq - 1) else o.wireGaps := by
        simp [writer, BlobRecorder.write, H.haveSeq, htest]
      rw [hwrite]
      split
      · rw [UInt64.toNat_add, hskip, hgaps, hseq]
        omega
      · omega

/-- After `close`, `wire_gaps` is the number of sequence numbers that the accepted frames step over. -/
theorem wireGaps_eq (hopen : new.open data index header cap = (true, s₀))
    (h : (machine row).run s₀ ls = some (s, es)) (hc : s.closer = .closed)
    (hinc : (seqs (Recorder.accepted es)).Pairwise (· < ·)) :
    s.out.wireGaps.toNat = (steppedOver (seqs (Recorder.accepted es))).card := by
  rw [steppedOver_eq hinc]
  obtain ⟨d, i, rfl, rfl⟩ := exists_of_open hopen
  cases (open_eq (s := new) ⟨rfl, rfl⟩ d i header cap).symm.trans hopen
  have htracked := Recorder.out_induction (T := Tracked) (Tracked.opened _)
    (fun r H => H.write r) (fun H => ⟨H.haveSeq, H.lastSeq, H.wireGaps⟩) h
  obtain ⟨o, ho, heq⟩ := htracked.2 hc
  rw [(Recorder.closed_accepted h hc).1] at hinc ⊢
  rw [heq]
  exact ho.wireGaps hinc

/-- `wire_gaps` is the number of those sequence numbers between the first and the last received one that
were never received. What was received and refused is counted in `dropped`, and is none of the numbers that
the writer thread finds stepped over (`wireGaps_eq`). -/
structure CountsLosses (row : RowFn F) (es : List (Recorder.Event (F × Int64))) (s : BlobRecorder F) :
    Prop where
  wireGaps : (s.stats (writer row)).wireGaps.toNat = (missing (seqs (Recorder.pushed es))).card
  dropped : s.producer = .idle → (s.stats (writer row)).dropped = (Recorder.refused es).length
  apart : ∀ n ∈ seqs (Recorder.refused es), n ∉ steppedOver (seqs (Recorder.accepted es))

/-- Between the first and the last accepted frame, what was received and not accepted was refused. -/
theorem mem_refused_iff (hopen : new.open data index header cap = (true, s₀))
    (h : (machine row).run s₀ ls = some (s, es)) (hinc : (seqs (Recorder.pushed es)).Pairwise (· < ·))
    (hn : n ∈ between (seqs (Recorder.accepted es))) : n ∈ seqs (Recorder.refused es) ↔
      n ∈ seqs (Recorder.pushed es) ∧ n ∉ seqs (Recorder.accepted es) := by
  obtain ⟨d, i, rfl, rfl⟩ := exists_of_open hopen
  cases (open_eq (s := new) ⟨rfl, rfl⟩ d i header cap).symm.trans hopen
  have hsub := ((Recorder.Counts.of_run (W := writer row) (by rfl) h).sublist).map
    fun r : F × Int64 => (Frame.sequence r.1).toNat
  have hperm := (Recorder.pushed_perm (W := writer row) (by rfl) h).map
    fun r : F × Int64 => (Frame.sequence r.1).toNat
  rw [List.map_append] at hsub
  rw [List.map_append, List.map_append] at hperm
  have hnodup := hperm.nodup_iff.mpr (hinc.imp Nat.ne_of_lt)
  constructor
  · intro hr
    refine ⟨hperm.subset (List.mem_append_left _ (List.mem_append_right _ hr)), fun ha => ?_⟩
    exact (List.disjoint_of_nodup_append (List.nodup_append.mp hnodup).1) ha hr
  · rintro ⟨hp, ha⟩
    rcases List.mem_append.mp (hperm.symm.subset hp) with hp | hoffered
    · exact (List.mem_append.mp hp).resolve_left ha
    · -- what is on its way to the queue comes behind all that was accepted
      obtain ⟨-, b, hb, hlt⟩ := mem_between.mp hn
      have hbn := (List.pairwise_append.mp (hinc.sublist hsub)).2.2 b (List.mem_of_getLast? hb) n hoffered
      omega

/-- **When `wire_gaps` counts wire losses only.** A fresh recorder of any capacity, any pushes with
increasing sequence numbers under any schedule, until `close` has returned: exactly if no frame was refused
between the first and the last accepted one, and no number was lost before the first or after the last
accepted one. -/
theorem wire_gaps_iff (data index : Option Device) (header : List Char) (cap : Nat)
    (hopen : new.open data index header cap = (true, s₀)) (ls : List (Recorder.Label (F × Int64)))
    (es : List (Recorder.Event (F × Int64))) (h : (machine row).run s₀ ls = some (s, es))
    (hc : s.closer = .closed) (hinc : (seqs (Recorder.pushed es)).Pairwise (· < ·)) :
    CountsLosses row es s ↔
      (∀ n ∈ seqs (Recorder.refused es), n ∉ between (seqs (Recorder.accepted es))) ∧
      ∀ n ∈ missing (seqs (Recorder.pushed es)), n ∈ between (seqs (Recorder.accepted es)) := by
  have hcounts : Recorder.Counts (writer row) new es s := by
    obtain ⟨d, i, rfl, rfl⟩ := exists_of_open hopen
    cases (open_eq (s := new) ⟨rfl, rfl⟩ d i header cap).symm.trans hopen
    exact Recorder.Counts.of_run rfl h
  have hsub : (seqs (Recorder.accepted es)).Sublist (seqs (Recorder.pushed es)) :=
    ((List.sublist_append_left ..).trans hcounts.sublist).map _
  have hgaps := wireGaps_eq hopen h hc (hinc.sublist hsub)
  rw [steppedOver_eq (hinc.sublist hsub)] at hgaps
  -- what is refused between the ends against what is lost outside
  have heq := card_missing_eq_iff hinc hsub
  have hrefused : ((between (seqs (Recorder.accepted es))).filter fun n =>
      n ∈ seqs (Recorder.pushed es) ∧ n ∉ seqs (Recorder.accepted es)) = ∅ ↔
      ∀ n ∈ seqs (Recorder.refused es), n ∉ between (seqs (Recorder.accepted es)) := by
    rw [Finset.filter_eq_empty_iff]
    constructor
    · intro hall n hr hb
      exact hall hb ((mem_refused_iff hopen h hinc hb).mp hr)
    · intro hall n hb hno
      exact hall n ((mem_refused_iff hopen h hinc hb).mpr hno) hb
  have hlost : ((between (seqs (Recorder.pushed es)) \ between (seqs (Recorder.accepted es))).filter fun n =>
      n ∉ seqs (Recorder.pushed es)) = ∅ ↔
      ∀ n ∈ missing (seqs (Recorder.pushed es)), n ∈ between (seqs (Recorder.accepted es)) := by
    rw [Finset.filter_eq_empty_iff]
    simp only [Finset.mem_sdiff, mem_missing, not_not, and_imp]
    exact ⟨fun hall n hb hno => not_not.mp fun hn => hno (hall hb hn),
      fun hall n hb hn => not_not.mp fun hno => hn (hall n hb hno)⟩
  rw [← hrefused, ← hlost]
  constructor
  · intro H
    have hnone := hrefused.mpr fun n hr hb => H.apart n hr (by
      rw [steppedOver_eq (hinc.sublist hsub)]
      exact mem_missing.mpr ⟨hb, ((mem_refused_iff hopen h hinc hb).mp hr).2⟩)
    have hcard := heq.mp (hgaps.symm.trans H.wireGaps)
    rw [hnone, Finset.card_empty] at hcard
    exact ⟨hnone, Finset.card_eq_zero.mp hcard.symm⟩
  · rintro ⟨hnone, hall⟩
    refine ⟨hgaps.trans (heq.mpr (by rw [hnone, hall])), fun hidle => ?_, fun n hr hstep => ?_⟩
    · have hdropped := hcounts.dropped
      rw [hidle] at hdropped
      simpa [new, Recorder.init, Recorder.stats] using hdropped
    · rw [steppedOver_eq (hinc.sublist hsub)] at hstep
      exact hrefused.mp hnone n hr (mem_missing.mp hstep).1

/-- Two frames with a number lost between them, both accepted. -/
theorem wire_gaps_two : ∃ s es,
    (machine fun f _ => Text.decimal f.1.toNat).run
      ((new (F := UInt64 × List UInt8)).open (some ⟨1000, 64, by decide⟩) (some ⟨1000, 64, by decide⟩)
        ['s'] 1).2 ([.push ((7, [1]), 0), .enqueue, .popAll, .write, .count, .addBytes, .flush] ++
          Recorder.oneRecord ((9, [2]), 0)) = some (s, es) ∧
    CountsLosses (fun f _ => Text.decimal f.1.toNat) es s := by
  refine Machine.exists_run (P := fun p => p.1.closer = .closed ∧
    seqs (Recorder.pushed p.2) = [7, 9] ∧ seqs (Recorder.accepted p.2) = [7, 9] ∧
    seqs (Recorder.refused p.2) = []) (by decide +kernel) ?_
  rintro s es h ⟨hc, hpushed, haccepted, hrefused⟩
  refine (wire_gaps_iff _ _ _ _ (open_eq ⟨rfl, rfl⟩ _ _ _ _) _ es h hc ?_).mpr ?_
  · rw [hpushed]
    decide
  · rw [hpushed, haccepted, hrefused]
    decide

/-- Frame 8 is refused, frame 10 is written next: `wire_gaps` is 2, and one number was lost. -/
theorem wire_gaps_refused : ∃ s es,
    (machine fun f _ => Text.decimal f.1.toNat).run
      ((new (F := UInt64 × List UInt8)).open (some ⟨1000, 64, by decide⟩) (some ⟨1000, 64, by decide⟩)
        ['s'] 1).2 ([.push ((7, [1]), 0), .enqueue, .push ((8, [2]), 0), .enqueue, .drop, .popAll, .write,
          .count, .addBytes, .flush] ++ Recorder.oneRecord ((10, [3]), 0)) = some (s, es) ∧
    s.closer = .closed ∧ seqs (Recorder.pushed es) = [7, 8, 10] ∧
    (s.stats (writer fun f _ => Text.decimal f.1.toNat)).wireGaps = 2 ∧
    ¬ CountsLosses (fun f _ => Text.decimal f.1.toNat) es s := by
  refine Machine.exists_run (P := fun p => p.1.closer = .closed ∧
    seqs (Recorder.pushed p.2) = [7, 8, 10] ∧
    (p.1.stats (writer fun f _ => Text.decimal f.1.toNat)).wireGaps = 2) (by decide +kernel) ?_
  rintro s es h ⟨hc, hpushed, hgaps⟩
  refine ⟨hc, hpushed, hgaps, fun hcounts => ?_⟩
  have hmissing := hcounts.wireGaps
  rw [hpushed, hgaps] at hmissing
  exact absurd hmissing (by decide)

end BlobRecorder
end Kist
