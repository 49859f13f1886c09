import KistCollector.Common.RecorderRuns
import Mathlib.Data.Nat.Count

/-!
# Counted records and the room their files have

A sink writes through buffers, so its `good` speaks of failures that have happened, not of the
bytes still buffered. This module settles, for any sink whose failures stick, when the records a
recorder has counted in `written` are on its files: exactly when every step on which the files fail
spares the records counted before it (`lossless_iff`). What it takes for a record to be on the files
is a parameter, the room the files have for a list of records.
-/

theorem Nat.le_count_iff_of_antitone {p : Nat → Prop} [DecidablePred p]
    (hp : ∀ i j, i ≤ j → j < n → p j → p i) (hk : k ≤ n) : k ≤ Nat.count p n ↔ ∀ i < k, p i := by
  constructor
  · intro h i hi
    by_contra hpi
    have hrest : Nat.count (fun j => p (i + j)) (n - i) = 0 :=
      Nat.count_iff_forall_not.mpr fun j _ hj => hpi (hp _ (i + j) (by omega) (by omega) hj)
    have hsplit := Nat.count_add p i (n - i)
    rw [hrest, Nat.add_sub_cancel' (by omega)] at hsplit
    have := Nat.count_le (p := p) (n := i)
    omega
  · intro h
    calc k = Nat.count p k := (Nat.count_of_forall h).symm
      _ ≤ Nat.count p n := Nat.count_monotone p hk

namespace Kist

/-- Once a sink has failed, it stays failed. -/
structure Sink.Sticky (W : Sink R σ) : Prop where
  write : W.good o = false → W.good (W.write o r) = false
  flush : W.good o = false → W.good (W.flush o) = false
  close : W.good o = false → W.good (W.close o) = false

namespace Recorder

variable {R σ : Type} {W : Sink R σ} {s₀ s : Recorder R σ}

/-- A recorder as it is constructed. -/
def init (out : σ) : Recorder R σ := { out := out }

/-- No step makes failed files good again. -/
theorem Step.good_of_good (hW : W.Sticky) (h : Step W s l s' e) (hg : W.good s'.out = true) :
    W.good s.out = true := by
  by_contra hb
  have hb := Bool.eq_false_iff.mpr hb
  cases h with
  | write => exact absurd ((hW.write hb).symm.trans hg) nofun
  | flush => exact absurd ((hW.flush hb).symm.trans hg) nofun
  | closeSink => exact absurd ((hW.close hb).symm.trans hg) nofun
  | _ => exact absurd (hb.symm.trans hg) nofun

/-- The records counted in `written` are the first of those counted at all, and all of them until
the sink fails. -/
theorem counted_initial {out : σ} (hW : W.Sticky)
    (h : (machine W).run (s₀.start out cap) ls = some (s, es)) :
    counted es <+: tallied es ∧ (W.good s.out = true → counted es = tallied es) := by
  refine Machine.run_induction (P := fun _ es (s : Recorder R σ) =>
    counted es <+: tallied es ∧ (W.good s.out = true → counted es = tallied es)) ?nil ?snoc h
  case nil => exact ⟨List.prefix_refl _, fun _ => rfl⟩
  rintro ls es s l s' e hrun ⟨hp, hg⟩ hs
  have hok := (Inv.of_run hrun).ok_eq
  have hs := Step.of_step hs
  have hg' := fun hgood => hg (hs.good_of_good hW hgood)
  cases hs with
  | countWritten hw =>
    have heq := hg (hok _ _ _ hw).symm
    simp [heq]
  | countError hw =>
    refine ⟨by simpa using hp.trans (List.prefix_append ..), fun hgood => ?_⟩
    exact absurd ((hok _ _ _ hw).trans hgood) nofun
  | _ => exact ⟨by simpa using hp, by simpa using hg'⟩

/-- Once `close` has returned on files that never failed, `written` and `bytes` count exactly what was
accepted. -/
theorem closed_counts {out₀ out : σ} (hW : W.Sticky)
    (h : (machine W).run ((init out₀).start out cap) ls = some (s, es)) (hc : s.closer = .closed)
    (hgood : W.good s.out = true) :
    s.written = (accepted es).length ∧ s.bytes = ((accepted es).map W.size).sum := by
  obtain ⟨hacc, htal⟩ := closed_accepted h hc
  have hcounts := Counts.of_run rfl h
  have hcounted : counted es = accepted es := by
    rw [hacc, htal]
    exact (counted_initial hW h).2 hgood
  have hbytes := hcounts.bytes
  rw [(closed_drained h hc).2.2, hcounted] at hbytes
  constructor
  · rw [hcounts.written, hcounted]
    exact Nat.zero_add _
  · simpa [init] using hbytes

/-- The losslessness invariant of a closed recorder. With no refusals and no write errors every
record pushed is on the files, and `written` is at most the number of records on the files. -/
def Lossless (on : σ → List R → Nat → Prop) [∀ o rs, DecidablePred (on o rs)]
    (es : List (Event R)) (s : Recorder R σ) : Prop :=
  (s.producer = .idle → s.dropped = 0 → s.writeErrors = 0 →
    ∀ i < (pushed es).length, on s.out (pushed es) i) ∧
  s.written ≤ Nat.count (on s.out (accepted es)) (accepted es).length

/-- If this step makes the files fail, they still have room for every record counted in `written`
so far: what they do not take belongs to later records. -/
def SparesCounted (W : Sink R σ) (room : List R → Prop) (es : List (Event R)) (s : Recorder R σ)
    (l : Label R) : Prop :=
  ∀ s' e, (machine W).step s l = some (s', e) → W.good s.out = true → W.good s'.out = false →
    counted es ≠ [] → room (counted es)

variable {room : List R → Prop}

/-- Where every failing step spares the records counted before it, the files have failed only after
they had room for all that is counted, and no later record is counted as written. -/
theorem good_or_room_of_along {out : σ}
    (H : (machine W).Along (SparesCounted W room) (s₀.start out cap) ls)
    (h : (machine W).run (s₀.start out cap) ls = some (s, es)) :
    W.good s.out = true ∨
      (counted es ≠ [] → room (counted es)) ∧ ∀ r rest, s.writer ≠ .wrote r true rest := by
  refine Machine.run_induction (P := fun ls es (s : Recorder R σ) =>
    (machine W).Along (SparesCounted W room) (s₀.start out cap) ls → W.good s.out = true ∨
      (counted es ≠ [] → room (counted es)) ∧ ∀ r rest, s.writer ≠ .wrote r true rest)
    ?nil ?snoc h H
  case nil => exact fun _ => .inr ⟨fun h => absurd rfl h, nofun⟩
  intro ls es s l s' e hrun ih hs H
  by_cases hg' : W.good s'.out = true
  · exact .inl hg'
  refine .inr ?_
  have ih := ih H.of_append
  have hfail : W.good s.out = true → counted es ≠ [] → room (counted es) := fun hg =>
    H.last hrun s' e hs hg (Bool.eq_false_iff.mpr hg')
  have hroom : counted es ≠ [] → room (counted es) := ih.elim hfail (·.1)
  have hinv := Inv.of_run hrun
  cases Step.of_step hs with
  | write hw => exact ⟨by simpa using hroom, fun _ _ h => hg' (Writer.wrote.inj h).2.1⟩
  | countWritten hw => exact absurd (hinv.ok_eq _ _ _ hw).symm hg'
  | closeSink hc => exact ⟨by simpa using hroom, by simp [hinv.joined (.inl hc)]⟩
  | flush | stop | batch | countError | addBytes => exact ⟨by simpa using hroom, nofun⟩
  | _ => exact ⟨by simpa using hroom, (ih.resolve_left hg').2⟩

/-- On a closed recorder the condition along the run comes down to the records counted in the end. -/
theorem along_iff_room {out : σ} (hW : W.Sticky)
    (hroom : ∀ {rs rs'}, rs <+: rs' → room rs' → room rs)
    (h : (machine W).run (s₀.start out cap) ls = some (s, es)) (hc : s.closer = .closed)
    (hgood : W.good s.out = true → room (wrote es)) :
    (machine W).Along (SparesCounted W room) (s₀.start out cap) ls ↔
      (counted es ≠ [] → room (counted es)) := by
  constructor
  · intro H
    rcases good_or_room_of_along H h with hg | hg
    · intro _
      refine hroom ?_ (hgood hg)
      rw [(closed_accepted h hc).2]
      exact (counted_initial hW h).1
    · exact hg.1
  · rintro hr pre l post rfl s₁ e₁ hpre s₂ e₂ - - - hne
    obtain ⟨_, e₃, e₄, h1, -, rfl⟩ := Machine.run_append.mp h
    cases hpre.symm.trans h1
    rw [counted_append] at hr
    exact hroom (List.prefix_append ..) (hr (by simp [hne]))

section

variable {rs cs : List R} {on : Nat → Prop} (hroom : ∀ {rs rs'}, rs <+: rs' → room rs' → room rs)
  (hon : ∀ i < rs.length, on i ↔ room (rs.take (i + 1)))
include hroom hon

/-- Where there is room for all records, all of them are on the files. -/
theorem forall_on (hr : rs ≠ [] → room rs) : ∀ i < rs.length, on i := by
  intro i hi
  refine (hon i hi).mpr (hroom (List.take_prefix ..) (hr ?_))
  exact List.length_pos_iff.mp (by omega)

/-- At least as many records are on the files as there are in an initial part, exactly when there was
room for that part. -/
theorem le_count_on_iff [DecidablePred on] (hpre : cs <+: rs) :
    cs.length ≤ Nat.count on rs.length ↔ (cs ≠ [] → room cs) := by
  have htake : cs = rs.take cs.length := List.prefix_iff_eq_take.mp hpre
  have hle : cs.length ≤ rs.length := hpre.length_le
  -- the records on the files are the first ones, up to the first without room
  have hmono : ∀ i j, i ≤ j → j < rs.length → on j → on i := by
    intro i j hij hj h
    refine (hon i (by omega)).mpr (hroom ?_ ((hon j hj).mp h))
    exact List.take_prefix_take_left (by omega)
  rw [Nat.le_count_iff_of_antitone hmono hle]
  constructor
  · intro hall hne
    have hpos := List.length_pos_iff.mpr hne
    have hlast := hall (cs.length - 1) (by omega)
    rw [hon _ (by omega), Nat.sub_add_cancel hpos, ← htake] at hlast
    exact hlast
  · intro hr i hi
    refine (hon i (by omega)).mpr (hroom ?_ (hr ?_))
    · rw [htake]; exact List.take_prefix_take_left (by omega)
    · exact List.length_pos_iff.mp (by omega)

end

/-- A closed recorder is lossless exactly when its files had room for all it counted. -/
theorem lossless_iff_room {on : σ → List R → Nat → Prop} [∀ o rs, DecidablePred (on o rs)]
    {out₀ out : σ} (hW : W.Sticky) (hroom : ∀ {rs rs'}, rs <+: rs' → room rs' → room rs)
    (h : (machine W).run ((init out₀).start out cap) ls = some (s, es)) (hc : s.closer = .closed)
    (hon : ∀ i < (wrote es).length, on s.out (wrote es) i ↔ room ((wrote es).take (i + 1))) :
    Lossless on es s ↔ (counted es ≠ [] → room (counted es)) := by
  obtain ⟨hacc, htal⟩ := closed_accepted h hc
  have hcounts := Counts.of_run rfl h
  have hwritten : s.written = (counted es).length := hcounts.written.trans (Nat.zero_add _)
  have hpre : counted es <+: wrote es := htal ▸ (counted_initial hW h).1
  have hcount := le_count_on_iff hroom hon hpre
  rw [← hwritten, ← hacc] at hcount
  constructor
  · exact fun H => hcount.mp H.2
  · refine fun hr => ⟨fun hidle hd he => ?_, hcount.mpr hr⟩
    have hrefused : refused es = [] := by
      have := hcounts.dropped
      simp only [hd, hidle, init, Producer.refusals] at this
      exact List.length_eq_zero_iff.mp (by omega)
    have hpushed : pushed es = wrote es := by
      have := hcounts.pushed_eq hrefused
      simpa [hidle, hacc] using this
    have hall : counted es = wrote es := by
      have := hcounts.tallied
      simp only [he, hwritten, init] at this
      exact hpre.eq_of_length (by rw [htal]; omega)
    rw [hpushed]
    exact forall_on hroom hon (hall ▸ hr)

/-- **When the losslessness invariant holds.** A closed recorder is lossless exactly when on every
step of its run that made the files fail they had room for all records counted before it. -/
theorem lossless_iff {on : σ → List R → Nat → Prop} [∀ o rs, DecidablePred (on o rs)] {out₀ out : σ}
    (hW : W.Sticky) (hroom : ∀ {rs rs'}, rs <+: rs' → room rs' → room rs)
    (h : (machine W).run ((init out₀).start out cap) ls = some (s, es)) (hc : s.closer = .closed)
    (hgood : W.good s.out = true → room (wrote es))
    (hon : ∀ i < (wrote es).length, on s.out (wrote es) i ↔ room ((wrote es).take (i + 1))) :
    Lossless on es s ↔ (machine W).Along (SparesCounted W room) ((init out₀).start out cap) ls :=
  (lossless_iff_room hW hroom h hc hon).trans (along_iff_room hW hroom h hc hgood).symm

end Recorder
end Kist
