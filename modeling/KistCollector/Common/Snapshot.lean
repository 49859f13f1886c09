import KistCollector.Common.Counters
import KistCollector.Common.InFlight

/-!
# Reading the counters while they count

`stats` loads one counter after the other, while the producer and the writer thread go on counting. What it
returns need not have been the counters at any one moment. Still, every counter but `wire_gaps` that it
returns is at least what an earlier call returned and at most what the recorder has counted since, and
because `received` is loaded first, the records it leaves unaccounted for are no more than can be in flight
(`Recorder.snapshots_bounded`).
-/

namespace Kist

/-- The counters of a recorder, in the order in which `stats` loads them. -/
inductive Counter where
  | received
  | dropped
  | written
  | writeErrors
  | wireGaps
  | bytes
  deriving DecidableEq, Repr

def Counter.all : List Counter := [.received, .dropped, .written, .writeErrors, .wireGaps, .bytes]

/-- One load of `stats`. -/
def Counter.load (now got : StreamStats) : Counter → StreamStats
  | .received => { got with received := now.received }
  | .dropped => { got with dropped := now.dropped }
  | .written => { got with written := now.written }
  | .writeErrors => { got with writeErrors := now.writeErrors }
  | .wireGaps => { got with wireGaps := now.wireGaps }
  | .bytes => { got with bytes := now.bytes }

namespace StreamStats

/-- `b` has counted at least what `a` has. The gaps are left out, since they go back where they wrap: the
sequence numbers `0`, `2 ^ 64 - 1`, `0`, `2 ^ 64 - 1` take them from `2 ^ 64 - 2` to `2 ^ 64 - 4`. -/
structure Le (a b : StreamStats) : Prop where
  received : a.received ≤ b.received
  dropped : a.dropped ≤ b.dropped
  written : a.written ≤ b.written
  writeErrors : a.writeErrors ≤ b.writeErrors
  bytes : a.bytes ≤ b.bytes

theorem Le.refl (a : StreamStats) : Le a a :=
  ⟨Nat.le_refl _, Nat.le_refl _, Nat.le_refl _, Nat.le_refl _, Nat.le_refl _⟩

theorem Le.trans {a b c : StreamStats} (h : Le a b) (h' : Le b c) : Le a c where
  received := h.received.trans h'.received
  dropped := h.dropped.trans h'.dropped
  written := h.written.trans h'.written
  writeErrors := h.writeErrors.trans h'.writeErrors
  bytes := h.bytes.trans h'.bytes

theorem le_add (a d : StreamStats) : Le a (a.add d) :=
  ⟨Nat.le_add_right .., Nat.le_add_right .., Nat.le_add_right .., Nat.le_add_right ..,
    Nat.le_add_right ..⟩

theorem add_zero (a : StreamStats) : a.add {} = a := by
  simp only [add, Nat.add_zero]
  rw [show a.wireGaps + 0 = a.wireGaps from UInt64.add_zero _]

/-- What `b` has counted since `a`. -/
def since (a b : StreamStats) : StreamStats where
  received := b.received - a.received
  written := b.written - a.written
  dropped := b.dropped - a.dropped
  writeErrors := b.writeErrors - a.writeErrors
  wireGaps := b.wireGaps - a.wireGaps
  bytes := b.bytes - a.bytes

theorem Le.add_since {a b : StreamStats} (h : Le a b) : a.add (a.since b) = b := by
  obtain ⟨h1, h2, h3, h4, h5⟩ := h
  have hgaps : a.wireGaps + (b.wireGaps - a.wireGaps) = b.wireGaps := by
    rw [UInt64.add_comm, UInt64.sub_add_cancel]
  simp only [add, since, hgaps, Nat.add_sub_cancel' h1, Nat.add_sub_cancel' h2, Nat.add_sub_cancel' h3,
    Nat.add_sub_cancel' h4, Nat.add_sub_cancel' h5]

/-- The records received that the other counters do not account for are at most `n`. -/
def Leaves (n : Nat) (st : StreamStats) : Prop :=
  st.received ≤ st.written + st.dropped + st.writeErrors + n

end StreamStats

open StreamStats (Le Leaves)
open Text

theorem Counter.load_mono (c : Counter) (hnow : Le now now') (hgot : Le got got') :
    Le (c.load now got) (c.load now' got') := by
  obtain ⟨h1, h2, h3, h4, h5⟩ := hnow
  obtain ⟨k1, k2, k3, k4, k5⟩ := hgot
  cases c with
  | received => exact ⟨h1, k2, k3, k4, k5⟩
  | dropped => exact ⟨k1, h2, k3, k4, k5⟩
  | written => exact ⟨k1, k2, h3, k4, k5⟩
  | writeErrors => exact ⟨k1, k2, k3, h4, k5⟩
  | wireGaps => exact ⟨k1, k2, k3, k4, k5⟩
  | bytes => exact ⟨k1, k2, k3, k4, h5⟩

theorem Counter.load_le (c : Counter) (hgot : Le got now) : Le (c.load now got) now := by
  obtain ⟨k1, k2, k3, k4, k5⟩ := hgot
  cases c with
  | received => exact ⟨Nat.le_refl _, k2, k3, k4, k5⟩
  | dropped => exact ⟨k1, Nat.le_refl _, k3, k4, k5⟩
  | written => exact ⟨k1, k2, Nat.le_refl _, k4, k5⟩
  | writeErrors => exact ⟨k1, k2, k3, Nat.le_refl _, k5⟩
  | wireGaps => exact ⟨k1, k2, k3, k4, k5⟩
  | bytes => exact ⟨k1, k2, k3, k4, Nat.le_refl _⟩

/-- A call of `stats` on its way: what it has loaded, and what is left to load. Outside of a call nothing
is left. -/
structure Loading where
  got : StreamStats := {}
  todo : List Counter := []
  deriving DecidableEq, Repr

namespace Loading

/-- What the call returns if nothing more is counted. -/
def rest (x : Loading) (now : StreamStats) : StreamStats :=
  x.todo.foldl (fun got c => c.load now got) x.got

/-- A call that has loaded nothing returns what there is. -/
theorem rest_all (got now : StreamStats) : rest ⟨got, Counter.all⟩ now = now := rfl

theorem rest_mono (x : Loading) (h : Le now now') : Le (x.rest now) (x.rest now') := by
  obtain ⟨got, todo⟩ := x
  have hall : ∀ {got got' : StreamStats}, Le got got' →
      Le (rest ⟨got, todo⟩ now) (rest ⟨got', todo⟩ now') := by
    induction todo with
    | nil => exact fun hgot => hgot
    | cons c todo ih => exact fun hgot => ih (c.load_mono h hgot)
  exact hall (.refl got)

/-- `received` is loaded first. -/
theorem rest_received {x : Loading} {c : Counter} (hx : c :: x.todo <:+ Counter.all) (now now' : StreamStats) :
    (x.rest now).received = (x.rest now').received := by
  have hmem : .received ∉ x.todo := by
    have htail : x.todo <:+ Counter.all.tail := by
      obtain ⟨pre, hpre⟩ := hx
      cases pre with
      | nil => exact ⟨[], (List.cons.inj hpre).2⟩
      | cons d pre => exact ⟨pre ++ [c], by rw [List.append_assoc]; exact (List.cons.inj hpre).2⟩
    exact fun h => absurd (htail.mem h) (by decide)
  have hkeep : ∀ (todo : List Counter) (got now : StreamStats), .received ∉ todo →
      (rest ⟨got, todo⟩ now).received = got.received := by
    intro todo
    induction todo with
    | nil => exact fun _ _ _ => rfl
    | cons d todo ih =>
      intro got now h
      refine (ih (d.load now got) now fun hmem => h (List.mem_cons_of_mem d hmem)).trans ?_
      cases d with
      | received => exact absurd List.mem_cons_self h
      | dropped | written | writeErrors | wireGaps | bytes => rfl
  rw [hkeep x.todo x.got now hmem, hkeep x.todo x.got now' hmem]

end Loading

namespace Recorder

variable {R σ : Type}

/-- A step of the recorder, the start of a call of `stats`, or one of its loads. -/
inductive StatsLabel (R : Type) where
  | own (l : Label R)
  | call
  | load

inductive StatsEvent (R : Type) where
  | own (e : Event R)
  | returned (st : StreamStats)

@[simp] def StatsEvent.own? : StatsEvent R → Option (Event R)
  | .own e => some e
  | .returned _ => none

@[simp] def StatsEvent.returned? : StatsEvent R → Option StreamStats
  | .own _ => none
  | .returned st => some st

/-- A recorder whose counters another thread reads. -/
def observed (W : Sink R σ) : Machine (Recorder R σ × Loading) (StatsLabel R) (StatsEvent R) where
  step := fun (s, x) l =>
    match l, x.todo with
    | .own l, _ => ((machine W).step s l).map fun (s, es) => ((s, x), es.map .own)
    | .call, [] => some ((s, { todo := Counter.all }), [])
    | .call, _ :: _ => none
    | .load, [] => none
    | .load, c :: todo =>
      let got := c.load (s.stats W) x.got
      some ((s, ⟨got, todo⟩), if todo.isEmpty then [.returned got] else [])

/-- What one step of a recorder and its reader can do. -/
inductive StatsStep (W : Sink R σ) : Recorder R σ × Loading → Recorder R σ × Loading →
    List (StatsEvent R) → Prop
  | own : (machine W).step s l = some (s', es) → StatsStep W (s, x) (s', x) (es.map .own)
  | call : StatsStep W (s, ⟨got, []⟩) (s, { todo := Counter.all }) []
  | load : todo ≠ [] →
    StatsStep W (s, ⟨got, c :: todo⟩) (s, ⟨c.load (s.stats W) got, todo⟩) []
  | returns : StatsStep W (s, ⟨got, [c]⟩) (s, ⟨c.load (s.stats W) got, []⟩)
    [.returned (c.load (s.stats W) got)]

theorem StatsStep.of_step {W : Sink R σ} {p p' : Recorder R σ × Loading}
    (h : (observed W).step p l = some (p', es)) : StatsStep W p p' es := by
  obtain ⟨s, got, todo⟩ := p
  cases l with
  | own l =>
    obtain ⟨⟨s', e⟩, hstep, heq⟩ := Option.map_eq_some_iff.mp h
    cases heq
    exact .own hstep
  | call =>
    cases todo <;> cases h
    exact .call
  | load =>
    cases todo with
    | nil => cases h
    | cons c todo =>
      cases todo with
      | nil =>
        cases h
        exact .returns
      | cons d todo =>
        cases h
        exact .load nofun

variable {W : Sink R σ} {s₀ : Recorder R σ} {out : σ}

/-- Reading the counters does not change what the recorder does. -/
theorem own_run {p₀ p : Recorder R σ × Loading} (h : (observed W).run p₀ ls = some (p, es)) :
    ∃ ks, (machine W).run p₀.1 ks = some (p.1, es.filterMap StatsEvent.own?) := by
  refine Machine.project Prod.fst StatsEvent.own? ?_ h
  intro p l p' e hs
  cases StatsStep.of_step hs with
  | @own s l s' es x hstep =>
    refine ⟨[l], ?_⟩
    rw [Machine.run_singleton, List.filterMap_map]
    exact hstep.trans (congrArg (fun es => some (s', es)) List.filterMap_some.symm)
  | call => exact ⟨[], rfl⟩
  | load => exact ⟨[], rfl⟩
  | returns => exact ⟨[], rfl⟩

/-- In a reachable state the counters leave no more than can be in flight. -/
theorem leaves_of_run {out₀ : σ} (h : (machine W).run ((init out₀).start out cap) ls = some (s, es)) :
    Leaves (2 * cap + 1) (s.stats W) := by
  have hbal : s.received = s.dropped + s.written + s.writeErrors + s.queue.queue.length +
      (s.writer.uncounted.length + s.writer.rest.length) + s.producer.inFlight := (accounted h).1
  have hqueue := (queue_inv h).2
  have hhand := inHand_le h
  have hin : s.producer.inFlight ≤ 1 := by cases s.producer <;> simp
  simp only [Leaves, stats]
  simp only [Writer.inHand] at hhand
  omega

/-- What calls of `stats` have returned, and what the one on its way will return. -/
structure Snapshots (W : Sink R σ) (n : Nat) (es : List (StatsEvent R)) (p : Recorder R σ × Loading) :
    Prop where
  suffix : p.2.todo <:+ Counter.all
  got : Le p.2.got (p.1.stats W)
  returned : ∀ st ∈ seen StatsEvent.returned? es, Leaves n st ∧ Le st (p.1.stats W)
  sorted : (seen StatsEvent.returned? es).Pairwise Le
  current : p.2.todo ≠ [] → Leaves n (p.2.rest (p.1.stats W)) ∧
    ∀ st ∈ seen StatsEvent.returned? es, Le st (p.2.rest (p.1.stats W))

theorem seen_returned_own (es : List (Event R)) :
    seen StatsEvent.returned? (es.map .own) = [] := by
  rw [seen, List.filterMap_map]
  exact List.filterMap_eq_nil_iff.mpr fun _ _ => rfl

/-- A step of the recorder only counts more, and `received` has been loaded before. -/
theorem Snapshots.own (H : Snapshots W n es (s, x)) (hle : Le (s.stats W) (s'.stats W))
    (hleaves : Leaves n (s'.stats W)) (e : List (Event R)) :
    Snapshots W n (es ++ e.map .own) (s', x) := by
  have hseen : seen StatsEvent.returned? (es ++ e.map .own) = seen StatsEvent.returned? es := by
    rw [seen_append, seen_returned_own, List.append_nil]
  have hmono := x.rest_mono hle
  refine ⟨H.suffix, H.got.trans hle, ?_, by rw [hseen]; exact H.sorted, ?_⟩
  · rw [hseen]
    intro st hst
    exact ⟨(H.returned st hst).1, (H.returned st hst).2.trans hle⟩
  · rw [hseen]
    intro hne
    obtain ⟨hcur, hbefore⟩ := H.current hne
    refine ⟨?_, fun st hst => (hbefore st hst).trans hmono⟩
    obtain ⟨pre, hpre⟩ := H.suffix
    rcases List.eq_nil_or_concat pre with rfl | ⟨pre, c, rfl⟩
    · obtain ⟨got, todo⟩ := x
      cases hpre
      exact hleaves
    · have hreceived := Loading.rest_received (x := x) (c := c) ⟨pre, by simpa using hpre⟩
        (s.stats W) (s'.stats W)
      have h1 := hmono.written
      have h2 := hmono.dropped
      have h3 := hmono.writeErrors
      simp only [Leaves] at hcur ⊢
      omega

theorem Snapshots.next (H : Snapshots W n es p) (h : StatsStep W p p' e)
    (hnow : Leaves n (p.1.stats W)) (hnow' : Leaves n (p'.1.stats W)) :
    Snapshots W n (es ++ e) p' := by
  cases h with
  | @own s l s' es x hstep =>
    obtain ⟨d, hd⟩ := stats_grow (Machine.run_singleton.trans hstep)
    have hle : Le (s.stats W) (s'.stats W) := hd ▸ StreamStats.le_add _ d
    exact H.own hle hnow' es
  | call =>
    rw [List.append_nil]
    refine ⟨List.suffix_refl _, ?_, H.returned, H.sorted, fun _ => ⟨hnow, ?_⟩⟩
    · exact ⟨Nat.zero_le _, Nat.zero_le _, Nat.zero_le _, Nat.zero_le _, Nat.zero_le _⟩
    · exact fun st hst => (H.returned st hst).2
  | @load todo s got c hne =>
    rw [List.append_nil]
    refine ⟨(List.suffix_cons ..).trans H.suffix, c.load_le H.got, H.returned, H.sorted, fun _ => ?_⟩
    exact H.current nofun
  | @returns s got c =>
    obtain ⟨hcur, hbefore⟩ := H.current nofun
    have hseen : seen StatsEvent.returned? (es ++ [.returned (c.load (s.stats W) got)]) =
        seen StatsEvent.returned? es ++ [c.load (s.stats W) got] := by
      rw [seen_append]
      rfl
    refine ⟨List.nil_suffix, c.load_le H.got, ?_, ?_, fun hne => absurd rfl hne⟩
    · rw [hseen]
      intro st hst
      rcases List.mem_append.mp hst with hst | hst
      · exact H.returned st hst
      · cases List.mem_singleton.mp hst
        exact ⟨hcur, c.load_le H.got⟩
    · rw [hseen, List.pairwise_append]
      refine ⟨H.sorted, List.pairwise_singleton .., fun st hst st' hst' => ?_⟩
      cases List.mem_singleton.mp hst'
      exact hbefore st hst

/-- **What `stats` returns while the recorder runs.** Whatever the order of its loads and of the steps of the
producer, the writer thread and `close`: the records that the counters returned leave unaccounted for
are at most those that can be in flight, twice the capacity and the one inside `push`; no counter but
`wire_gaps` is behind that of an earlier call or ahead of the recorder. -/
theorem snapshots_bounded {F : Type} [Frame F] :
    (∀ (row : RowFn F) (data index : Option Device) (header : List Char) (cap : Nat)
      (s₀ : BlobRecorder F), BlobRecorder.new.open data index header cap = (true, s₀) →
      ∀ ls s x es, (observed (BlobRecorder.writer row)).run (s₀, {}) ls = some ((s, x), es) →
        (∀ st ∈ seen StatsEvent.returned? es,
          Leaves (2 * cap + 1) st ∧ Le st (s.stats (BlobRecorder.writer row))) ∧
        (seen StatsEvent.returned? es).Pairwise Le) ∧
    (∀ (row : RowFn R) (csv : Option Device) (header : List Char) (cap : Nat)
      (s₀ : RowRecorder R), RowRecorder.new.open csv header cap = (true, s₀) →
      ∀ ls s x es, (observed (RowRecorder.writer row)).run (s₀, {}) ls = some ((s, x), es) →
        (∀ st ∈ seen StatsEvent.returned? es,
          Leaves (2 * cap + 1) st ∧ Le st (s.stats (RowRecorder.writer row))) ∧
        (seen StatsEvent.returned? es).Pairwise Le) := by
  have hall : ∀ {R σ : Type} {W : Sink R σ} {out₀ out : σ} {cap ls p es},
      (observed W).run ((init out₀).start out cap, {}) ls = some (p, es) →
      Snapshots W (2 * cap + 1) es p := by
    intro R σ W out₀ out cap ls p es h
    refine Machine.run_induction (P := fun _ es p => Snapshots W (2 * cap + 1) es p) ?nil ?snoc h
    case nil =>
      refine ⟨List.nil_suffix, ?_, nofun, .nil, fun hne => absurd rfl hne⟩
      exact ⟨Nat.zero_le _, Nat.zero_le _, Nat.zero_le _, Nat.zero_le _, Nat.zero_le _⟩
    case snoc =>
      intro ls es p l p' e hrun ih hstep
      obtain ⟨ks, hown⟩ := own_run hrun
      obtain ⟨ks', hown'⟩ := own_run (Machine.run_snoc.mpr ⟨p, es, e, hrun, hstep, rfl⟩)
      exact ih.next (.of_step hstep) (leaves_of_run hown) (leaves_of_run hown')
  constructor
  · intro row data index header cap s₀ hopen ls s x es h
    obtain ⟨d, i, rfl, rfl⟩ := BlobRecorder.exists_of_open hopen
    cases (BlobRecorder.open_eq ⟨rfl, rfl⟩ d i header cap).symm.trans hopen
    exact ⟨(hall h).returned, (hall h).sorted⟩
  · intro row csv header cap s₀ hopen ls s x es h
    obtain ⟨d, rfl, rfl⟩ := RowRecorder.exists_of_open hopen
    exact ⟨(hall h).returned, (hall h).sorted⟩

/-- A record arrives after `received` has been loaded, and is written before `written` is. -/
def lateRecord (r : R) : List (StatsLabel R) :=
  [.call, .load, .own (.push r), .own .enqueue, .own .popAll, .own .write, .own .count, .load, .load,
    .load, .load, .load]

theorem snapshots_bounded_late : ∃ p es,
    (observed (RowRecorder.writer fun (n : Nat) _ => decimal n)).run
      ((RowRecorder.new.open (some ⟨100, 8, by decide⟩) ['n'] 4).2, {}) (lateRecord (7, 5)) =
        some (p, es) ∧
    seen StatsEvent.returned? es = [{ written := 1 }] ∧ Leaves 9 { written := 1 } := by
  refine Machine.exists_run (P := fun q => seen StatsEvent.returned? q.2 = [{ written := 1 }])
    (by decide) ?_
  rintro ⟨s, x⟩ es h hseen
  have hall := (snapshots_bounded (F := UInt64 × List UInt8)).2 _ _ _ _ _ (RowRecorder.open_eq rfl _ _ _)
    _ _ _ _ h
  refine ⟨hseen, (hall.1 _ ?_).1⟩
  rw [hseen]
  exact List.mem_singleton_self _

end Recorder
end Kist
