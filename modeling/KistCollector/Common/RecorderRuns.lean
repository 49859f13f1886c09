import KistCollector.Common.Recorder

/-!
# Runs of a recorder

What holds along every run of `Recorder.machine`, whatever the sink. The queue inside a recorder
runs as `RecordQueue.machine` (`Recorder.queue_run`), so the hand-off contract carries over. The
writer writes what it was handed, in order (`Inv.delivered_eq`), the counters count the history
(`Counts`), and the sum of the places a record can be in is the number received (`Balanced`). A fact
about the sink that `write` and `flush` keep holds of it whenever the writer runs
(`Recorder.out_induction`).
-/

namespace Kist

/-- The records of the current batch that are not yet written. -/
@[simp] def Writer.rest : Writer R → List R
  | .writing rest | .wrote _ _ rest | .counted _ rest => rest
  | .none | .waiting | .exited => []

/-- The record that is written but not yet counted. -/
@[simp] def Writer.uncounted : Writer R → List R
  | .wrote r _ _ => [r]
  | _ => []

/-- The record whose written bytes are not yet in `bytes`. -/
@[simp] def Writer.unsized : Writer R → List R
  | .counted r _ => [r]
  | _ => []

/-- The record counted in `received` but not yet offered to the queue. -/
@[simp] def Producer.offered : Producer R → List R
  | .counted r => [r]
  | _ => []

/-- The number of refused records not yet counted in `dropped`. -/
@[simp] def Producer.refusals : Producer R → Nat
  | .refused => 1
  | _ => 0

/-- 1 while the producer is inside `push` between counting the record and its enqueue or drop
count. -/
@[simp] def Producer.inFlight : Producer R → Nat
  | .idle => 0
  | .counted _ | .refused => 1

namespace Recorder

variable {R σ : Type}

/-! ## Histories -/

@[simp] def Event.pushed? : Event R → Option R
  | .pushed r => some r
  | _ => none

@[simp] def Event.accepted? : Event R → Option R
  | .accepted r => some r
  | _ => none

@[simp] def Event.refused? : Event R → Option R
  | .refused r => some r
  | _ => none

@[simp] def Event.popped? : Event R → Option (List R)
  | .popped batch => some batch
  | _ => none

@[simp] def Event.wrote? : Event R → Option R
  | .wrote r => some r
  | _ => none

@[simp] def Event.tallied? : Event R → Option R
  | .counted r _ => some r
  | _ => none

@[simp] def Event.counted? : Event R → Option R
  | .counted r true => some r
  | _ => none

/-- The records push was called with. -/
def pushed (es : List (Event R)) : List R := seen Event.pushed? es

/-- The records the queue took, in push order. -/
def accepted (es : List (Event R)) : List R := seen Event.accepted? es

/-- The records the queue refused. -/
def refused (es : List (Event R)) : List R := seen Event.refused? es

/-- The records `popAll` handed to the writer. -/
def delivered (es : List (Event R)) : List R := (seen Event.popped? es).flatten

/-- The records given to the sink. -/
def wrote (es : List (Event R)) : List R := seen Event.wrote? es

/-- The records counted in `written`. -/
def counted (es : List (Event R)) : List R := seen Event.counted? es

/-- The records counted in either `written` or `writeErrors`. -/
def tallied (es : List (Event R)) : List R := seen Event.tallied? es

@[simp] theorem pushed_append (es es' : List (Event R)) :
    pushed (es ++ es') = pushed es ++ pushed es' := seen_append ..

@[simp] theorem pushed_singleton (e : Event R) : pushed [e] = e.pushed?.toList := seen_singleton ..

@[simp] theorem pushed_nil : pushed ([] : List (Event R)) = [] := rfl

@[simp] theorem accepted_append (es es' : List (Event R)) :
    accepted (es ++ es') = accepted es ++ accepted es' := seen_append ..

@[simp] theorem accepted_singleton (e : Event R) : accepted [e] = e.accepted?.toList :=
  seen_singleton ..

@[simp] theorem accepted_nil : accepted ([] : List (Event R)) = [] := rfl

@[simp] theorem refused_append (es es' : List (Event R)) :
    refused (es ++ es') = refused es ++ refused es' := seen_append ..

@[simp] theorem refused_singleton (e : Event R) : refused [e] = e.refused?.toList := seen_singleton ..

@[simp] theorem refused_nil : refused ([] : List (Event R)) = [] := rfl

@[simp] theorem wrote_append (es es' : List (Event R)) :
    wrote (es ++ es') = wrote es ++ wrote es' := seen_append ..

@[simp] theorem wrote_singleton (e : Event R) : wrote [e] = e.wrote?.toList := seen_singleton ..

@[simp] theorem counted_append (es es' : List (Event R)) :
    counted (es ++ es') = counted es ++ counted es' := seen_append ..

@[simp] theorem counted_singleton (e : Event R) : counted [e] = e.counted?.toList := seen_singleton ..

@[simp] theorem tallied_append (es es' : List (Event R)) :
    tallied (es ++ es') = tallied es ++ tallied es' := seen_append ..

@[simp] theorem tallied_singleton (e : Event R) : tallied [e] = e.tallied?.toList := seen_singleton ..

@[simp] theorem delivered_append (es es' : List (Event R)) :
    delivered (es ++ es') = delivered es ++ delivered es' := by simp [delivered]

@[simp] theorem delivered_singleton (e : Event R) : delivered [e] = (e.popped?).getD [] := by
  cases e <;> simp [delivered]

/-! ## The queue inside a recorder -/

/-- What the queue sees of a recorder's history. -/
@[simp] def queueEvent : Event R → Option (RecordQueue.Event R)
  | .accepted r => some (.pushed r true)
  | .refused r => some (.pushed r false)
  | .popped batch => some (.popped batch)
  | .stopped => some .stopped
  | .closed => some .closed
  | _ => none

variable {W : Sink R σ} {s₀ s s' : Recorder R σ}

/-- A run of a recorder is a run of its queue. -/
theorem queue_run (h : (machine W).run s₀ ls = some (s, es)) :
    ∃ ks, RecordQueue.machine.run s₀.queue ks = some (s.queue, es.filterMap queueEvent) := by
  refine Machine.project (fun s : Recorder R σ => s.queue) queueEvent ?_ h
  intro s l s' e hs
  cases Step.of_step hs with
  | @accept r q hp hq | @refuse r q hp hq =>
    exact ⟨[.push r], by rw [Machine.run_singleton]; simp [RecordQueue.machine, hq]⟩
  | stop hw hq | batch hw hq =>
    exact ⟨[.popAll], by rw [Machine.run_singleton]; simp [RecordQueue.machine, hq]⟩
  | close => exact ⟨[.close], rfl⟩
  | _ => exact ⟨[], rfl⟩

theorem accepted_queueEvent (es : List (Event R)) :
    RecordQueue.accepted (es.filterMap queueEvent) = accepted es := by
  rw [RecordQueue.accepted, seen_filterMap, accepted]
  congr 1; funext e
  cases e <;> rfl

theorem delivered_queueEvent (es : List (Event R)) :
    RecordQueue.delivered (es.filterMap queueEvent) = delivered es := by
  rw [RecordQueue.delivered, RecordQueue.batches, seen_filterMap, delivered]
  congr 2; funext e
  cases e <;> rfl

/-! ## The program counters -/

/-- How the three threads stand to each other and to the history. -/
structure Inv (W : Sink R σ) (es : List (Event R)) (s : Recorder R σ) : Prop where
  started : s.writer.started = true
  closed_iff : s.queue.closed = true ↔ s.closer ≠ .idle
  exited : s.writer = .exited → s.queue.queue = [] ∧ s.queue.closed = true
  joined : s.closer = .joined ∨ s.closer = .closed → s.writer = .exited
  delivered_eq : delivered es = wrote es ++ s.writer.rest
  wrote_eq : wrote es = tallied es ++ s.writer.uncounted
  ok_eq : ∀ r ok rest, s.writer = .wrote r ok rest → ok = W.good s.out

theorem Inv.start (W : Sink R σ) (s : Recorder R σ) (out : σ) (cap : Nat) :
    Inv W [] (s.start out cap) where
  started := rfl
  closed_iff := by simp [Recorder.start, RecordQueue.open]
  exited := nofun
  joined := nofun
  delivered_eq := rfl
  wrote_eq := rfl
  ok_eq := nofun

theorem push_eq_true {q q' : RecordQueue R} (h : q.push r = (true, q')) :
    q.closed = false ∧ q'.closed = false := by
  unfold RecordQueue.push at h
  split at h <;> cases h
  simp_all

theorem push_eq_false {q q' : RecordQueue R} (h : q.push r = (false, q')) : q' = q := by
  unfold RecordQueue.push at h
  split at h <;> cases h
  rfl

theorem popAll_eq_batch {q q' : RecordQueue R} (h : q.popAll = (.batch rs, q')) :
    rs = q.queue ∧ q' = { q with queue := [] } := by
  unfold RecordQueue.popAll at h
  split at h
  · cases h
  · split at h <;> cases h
    exact ⟨rfl, rfl⟩

theorem popAll_eq_stop {q q' : RecordQueue R} (h : q.popAll = (.stop, q')) :
    q' = q ∧ q.queue = [] ∧ q.closed = true := by
  refine ⟨?_, RecordQueue.popAll_eq_stop (by rw [h])⟩
  unfold RecordQueue.popAll at h
  split at h
  · cases h
  · split at h <;> cases h
    rfl

theorem Inv.next (H : Inv W es s) (h : Step W s l s' e) : Inv W (es ++ e) s' := by
  obtain ⟨h1, h2, h3, h4, h5, h6, h7⟩ := H
  cases h with
  | push hp => exact ⟨h1, h2, h3, h4, by simpa using h5, by simpa using h6, h7⟩
  | accept hp hq =>
    obtain ⟨hc, hc'⟩ := push_eq_true hq
    refine ⟨h1, by simp [hc', ← h2, hc], fun hw => ?_, h4, by simpa using h5, by simpa using h6, h7⟩
    simp [(h3 hw).2] at hc
  | refuse hp hq =>
    cases push_eq_false hq
    exact ⟨h1, h2, h3, h4, by simpa using h5, by simpa using h6, h7⟩
  | drop hp => exact ⟨h1, h2, h3, h4, by simpa using h5, by simpa using h6, h7⟩
  | stop hw hq =>
    obtain ⟨rfl, hempty⟩ := popAll_eq_stop hq
    exact ⟨rfl, h2, fun _ => hempty, fun _ => rfl, by simpa [hw] using h5, by simpa [hw] using h6,
      nofun⟩
  | batch hw hq =>
    obtain ⟨rfl, rfl⟩ := popAll_eq_batch hq
    refine ⟨rfl, h2, nofun, fun hc => ?_, by simp [hw] at h5 ⊢; simp [h5], by simpa [hw] using h6,
      nofun⟩
    simp [h4 hc] at hw
  | write hw =>
    refine ⟨rfl, h2, nofun, fun hc => ?_, by simp [hw] at h5 ⊢; simp [h5],
      by simp [hw] at h6 ⊢; simp [h6], fun _ _ _ h => ?_⟩
    · simp [h4 hc] at hw
    · cases h; rfl
  | countWritten hw | countError hw =>
    refine ⟨rfl, h2, nofun, fun hc => ?_, by simpa [hw] using h5,
      by simpa [hw] using h6, nofun⟩
    simp [h4 hc] at hw
  | addBytes hw | flush hw =>
    refine ⟨rfl, h2, nofun, fun hc => ?_, by simpa [hw] using h5, by simpa [hw] using h6, nofun⟩
    simp [h4 hc] at hw
  | close hc hw =>
    refine ⟨h1, by simp [RecordQueue.close], fun hw => ?_, nofun, by simpa using h5,
      by simpa using h6, h7⟩
    exact ⟨(h3 hw).1, rfl⟩
  | join hc hw =>
    exact ⟨h1, by simp [h2, hc], h3, fun _ => hw, by simpa using h5, by simpa using h6, h7⟩
  | closeSink hc =>
    have hw := h4 (.inl hc)
    exact ⟨h1, by simp [h2, hc], h3, fun _ => hw, by simpa using h5, by simpa using h6,
      by simp [hw]⟩

theorem Inv.of_run {out : σ} (h : (machine W).run (s₀.start out cap) ls = some (s, es)) :
    Inv W es s :=
  Machine.invariant (P := Inv W) (.start ..) (fun H hs => H.next (.of_step hs)) h

/-- Everything accepted is written, in the batch or in the queue, in that order. -/
theorem accepted_eq {out : σ} (h : (machine W).run (s₀.start out cap) ls = some (s, es)) :
    accepted es = wrote es ++ s.writer.rest ++ s.queue.queue := by
  obtain ⟨ks, hq⟩ := queue_run h
  have := RecordQueue.accepted_eq (show RecordQueue.machine.run (s₀.queue.open cap) _ = _ from hq)
  rwa [accepted_queueEvent, delivered_queueEvent, (Inv.of_run h).delivered_eq] at this

/-! ## The counters -/

/-- The counters count the history since the recorder was started from `s₀`. -/
structure Counts (W : Sink R σ) (s₀ : Recorder R σ) (es : List (Event R)) (s : Recorder R σ) :
    Prop where
  received : s.received = s₀.received + (pushed es).length
  dropped : s.dropped + s.producer.refusals = s₀.dropped + (refused es).length
  written : s.written = s₀.written + (counted es).length
  tallied : s.written + s.writeErrors = s₀.written + s₀.writeErrors + (tallied es).length
  bytes : s.bytes + (s.writer.unsized.map W.size).sum =
    s₀.bytes + ((counted es).map W.size).sum
  pushed_length : (pushed es).length =
    (accepted es).length + (refused es).length + s.producer.offered.length
  sublist : (accepted es ++ s.producer.offered).Sublist (pushed es)
  pushed_eq : refused es = [] → pushed es = accepted es ++ s.producer.offered

/-- Every record pushed was accepted or refused, or is on its way to the queue. -/
theorem pushed_perm {o : σ} (hp : s₀.producer = .idle)
    (h : (machine W).run (s₀.start o cap) ls = some (s, es)) :
    (accepted es ++ refused es ++ s.producer.offered).Perm (pushed es) := by
  refine Machine.invariant (P := fun es s =>
    (accepted es ++ refused es ++ s.producer.offered).Perm (pushed es)) ?_ ?_ h
  · simp [Recorder.start, hp, Producer.offered]
  · intro es s l s' e H hs
    cases Step.of_step hs with
    | @push r hidle =>
      simp only [hidle, Producer.offered, List.append_nil] at H
      simpa [Producer.offered] using H.append_right [r]
    | @accept r q hc hq =>
      simp only [hc, Producer.offered] at H
      have hmove : (accepted es ++ [r] ++ refused es).Perm (accepted es ++ refused es ++ [r]) := by
        rw [List.append_assoc, List.append_assoc]
        exact List.perm_append_comm.append_left _
      simpa [Producer.offered] using hmove.trans H
    | refuse hc hq =>
      simp only [hc, Producer.offered] at H
      simpa [Producer.offered] using H
    | drop hc =>
      simp only [hc, Producer.offered] at H
      simpa [Producer.offered] using H
    | _ => simpa using H

/-- A step that leaves the producer alone keeps what is counted of it. -/
theorem Counts.of_writer (H : Counts W s₀ es s)
    (hs : s'.received = s.received ∧ s'.dropped = s.dropped ∧ s'.producer = s.producer)
    (he : pushed e = [] ∧ accepted e = [] ∧ refused e = [])
    (hwritten : s'.written = s₀.written + (counted (es ++ e)).length)
    (htallied : s'.written + s'.writeErrors =
      s₀.written + s₀.writeErrors + (Recorder.tallied (es ++ e)).length)
    (hbytes : s'.bytes + (s'.writer.unsized.map W.size).sum =
      s₀.bytes + ((counted (es ++ e)).map W.size).sum) : Counts W s₀ (es ++ e) s' := by
  obtain ⟨hr, hd, hp⟩ := hs
  obtain ⟨hpu, hac, hre⟩ := he
  have hpu : pushed (es ++ e) = pushed es := by rw [pushed_append, hpu, List.append_nil]
  have hac : accepted (es ++ e) = accepted es := by rw [accepted_append, hac, List.append_nil]
  have hre : refused (es ++ e) = refused es := by rw [refused_append, hre, List.append_nil]
  constructor
  case received => rw [hr, hpu, H.received]
  case dropped => rw [hd, hp, hre, H.dropped]
  case written => exact hwritten
  case tallied => exact htallied
  case bytes => exact hbytes
  case pushed_length => rw [hpu, hac, hre, hp, H.pushed_length]
  case sublist => rw [hpu, hac, hp]; exact H.sublist
  case pushed_eq => rw [hpu, hac, hre, hp]; exact H.pushed_eq

/-- A step that leaves the writer alone keeps what is counted of it. -/
theorem Counts.of_producer (H : Counts W s₀ es s)
    (hs : s'.written = s.written ∧ s'.writeErrors = s.writeErrors ∧ s'.bytes = s.bytes ∧
      s'.writer = s.writer)
    (he : counted e = [] ∧ Recorder.tallied e = [])
    (hreceived : s'.received = s₀.received + (pushed (es ++ e)).length)
    (hdropped : s'.dropped + s'.producer.refusals = s₀.dropped + (refused (es ++ e)).length)
    (hlen : (pushed (es ++ e)).length = (accepted (es ++ e)).length + (refused (es ++ e)).length +
      s'.producer.offered.length)
    (hsub : (accepted (es ++ e) ++ s'.producer.offered).Sublist (pushed (es ++ e)))
    (heq : refused (es ++ e) = [] → pushed (es ++ e) = accepted (es ++ e) ++ s'.producer.offered) :
    Counts W s₀ (es ++ e) s' := by
  obtain ⟨hw, hwe, hb, hwr⟩ := hs
  obtain ⟨hco, hta⟩ := he
  have hco : counted (es ++ e) = counted es := by rw [counted_append, hco, List.append_nil]
  have hta : Recorder.tallied (es ++ e) = Recorder.tallied es := by
    rw [tallied_append, hta, List.append_nil]
  constructor
  case received => exact hreceived
  case dropped => exact hdropped
  case written => rw [hw, hco, H.written]
  case tallied => rw [hw, hwe, hta, H.tallied]
  case bytes => rw [hb, hwr, hco, H.bytes]
  case pushed_length => exact hlen
  case sublist => exact hsub
  case pushed_eq => exact heq

theorem Counts.next (H : Counts W s₀ es s) (h : Step W s l s' e) : Counts W s₀ (es ++ e) s' := by
  obtain ⟨h1, h2, h3, h4, h5, h6, h7, h8⟩ := H
  have H : Counts W s₀ es s := ⟨h1, h2, h3, h4, h5, h6, h7, h8⟩
  cases h with
  | push hp =>
    simp only [hp, Producer.offered, Producer.refusals, List.append_nil] at h2 h6 h7 h8
    refine H.of_producer ⟨rfl, rfl, rfl, rfl⟩ ⟨rfl, rfl⟩ (by simp [h1]; omega) (by simpa using h2)
      (by simp; omega) (by simpa using h7) (fun hr => ?_)
    simpa using h8 (by simpa using hr)
  | accept hp hq =>
    simp only [hp, Producer.offered, Producer.refusals] at h2 h6 h7 h8
    refine H.of_producer ⟨rfl, rfl, rfl, rfl⟩ ⟨rfl, rfl⟩ (by simpa using h1) (by simpa using h2)
      (by simp at h6 ⊢; omega) (by simpa using h7) (fun hr => ?_)
    simpa using h8 (by simpa using hr)
  | refuse hp hq =>
    simp only [hp, Producer.offered, Producer.refusals] at h2 h6 h7 h8
    refine H.of_producer ⟨rfl, rfl, rfl, rfl⟩ ⟨rfl, rfl⟩ (by simpa using h1) (by simp; omega)
      (by simp at h6 ⊢; omega) ?_ (fun hr => by simp at hr)
    simpa using (List.sublist_append_left _ _).trans h7
  | drop hp =>
    simp only [hp, Producer.offered, Producer.refusals] at h2 h6 h7 h8
    exact H.of_producer ⟨rfl, rfl, rfl, rfl⟩ ⟨rfl, rfl⟩ (by simpa using h1) (by simp; omega)
      (by simpa using h6) (by simpa using h7) (by simpa using h8)
  | countWritten hw =>
    simp only [hw, Writer.unsized] at h5
    refine H.of_writer ⟨rfl, rfl, rfl⟩ ⟨rfl, rfl, rfl⟩ (by simp; omega) (by simp; omega) ?_
    simp at h5 ⊢; omega
  | countError hw =>
    simp only [hw, Writer.unsized] at h5
    exact H.of_writer ⟨rfl, rfl, rfl⟩ ⟨rfl, rfl, rfl⟩ (by simpa using h3) (by simp; omega)
      (by simpa using h5)
  | addBytes hw =>
    simp only [hw, Writer.unsized] at h5
    exact H.of_writer ⟨rfl, rfl, rfl⟩ ⟨rfl, rfl, rfl⟩ (by simpa using h3) (by simpa using h4)
      (by simp at h5 ⊢; omega)
  | stop hw | batch hw | write hw | flush hw =>
    simp only [hw, Writer.unsized] at h5
    exact H.of_writer ⟨rfl, rfl, rfl⟩ ⟨rfl, rfl, rfl⟩ (by simpa using h3) (by simpa using h4)
      (by simpa using h5)
  | close | join | closeSink =>
    exact H.of_writer ⟨rfl, rfl, rfl⟩ ⟨rfl, rfl, rfl⟩ (by simpa using h3) (by simpa using h4)
      (by simpa using h5)

theorem Counts.start (W : Sink R σ) (hp : s₀.producer = .idle) (out : σ) (cap : Nat) :
    Counts W s₀ [] (s₀.start out cap) := by
  refine ⟨rfl, ?_, rfl, rfl, rfl, ?_, ?_, ?_⟩ <;> simp [Recorder.start, hp]

theorem Counts.of_run {out : σ} (hp : s₀.producer = .idle)
    (h : (machine W).run (s₀.start out cap) ls = some (s, es)) : Counts W s₀ es s :=
  Machine.invariant (P := Counts W s₀) (.start W hp out cap) (fun H hs => H.next (.of_step hs)) h

/-- Every record received is in exactly one place: dropped, written, refused by the file, queued,
in the current batch, or inside `push`. -/
def Balanced (s : Recorder R σ) : Prop :=
  s.received = s.dropped + s.written + s.writeErrors + s.queue.queue.length +
    (s.writer.uncounted.length + s.writer.rest.length) + s.producer.inFlight

theorem Balanced.of_run {out : σ} (hp : s₀.producer = .idle)
    (h₀ : s₀.received = s₀.dropped + s₀.written + s₀.writeErrors)
    (h : (machine W).run (s₀.start out cap) ls = some (s, es)) : Balanced s := by
  have H := Counts.of_run hp h
  have hacc := congrArg List.length (accepted_eq h)
  have hwrote := congrArg List.length (Inv.of_run h).wrote_eq
  simp only [List.length_append] at hacc hwrote
  have hpl := H.pushed_length
  have hd := H.dropped
  have hin : s.producer.inFlight = s.producer.offered.length + s.producer.refusals := by
    cases s.producer <;> rfl
  rw [Balanced, hin]
  have h1 := H.received
  have h2 := H.tallied
  omega

/-- Once `close` has returned, nothing is left in the queue or in the writer's hands. -/
theorem closed_drained {out : σ} (h : (machine W).run (s₀.start out cap) ls = some (s, es))
    (hc : s.closer = .closed) :
    s.queue.queue = [] ∧ s.queue.closed = true ∧ s.writer = .exited := by
  have H := Inv.of_run h
  have hw := H.joined (.inr hc)
  exact ⟨(H.exited hw).1, (H.exited hw).2, hw⟩

/-- Once `close` has returned, everything accepted was given to the sink and counted. -/
theorem closed_accepted {out : σ} (h : (machine W).run (s₀.start out cap) ls = some (s, es))
    (hc : s.closer = .closed) : accepted es = wrote es ∧ wrote es = tallied es := by
  obtain ⟨hq, -, hw⟩ := closed_drained h hc
  have h1 := accepted_eq h
  have h2 := (Inv.of_run h).wrote_eq
  rw [hq, hw] at h1
  rw [hw] at h2
  simpa using And.intro h1 h2

/-! ## The sink inside a recorder -/

/-- A relation between the records given to a sink and its state that `write` and `flush` keep holds
along every run until the sink is closed, and at its closing. -/
theorem out_induction {T : List R → σ → Prop} {out : σ} (nil : T [] out)
    (write : ∀ {rs o} r, T rs o → T (rs ++ [r]) (W.write o r))
    (flush : ∀ {rs o}, T rs o → T rs (W.flush o))
    (h : (machine W).run (s₀.start out cap) ls = some (s, es)) :
    (s.closer ≠ .closed → T (wrote es) s.out) ∧
    (s.closer = .closed → ∃ o, T (wrote es) o ∧ s.out = W.close o) := by
  refine Machine.run_induction (P := fun _ es (s : Recorder R σ) =>
    (s.closer ≠ .closed → T (wrote es) s.out) ∧
    (s.closer = .closed → ∃ o, T (wrote es) o ∧ s.out = W.close o)) ?nil ?snoc h
  case nil => exact ⟨fun _ => nil, fun h => nomatch h⟩
  rintro ls es s l s' e hrun ⟨ih, ihc⟩ hs
  have hw := (Inv.of_run hrun).joined
  cases Step.of_step hs with
  | write hwr =>
    have hne : s.closer ≠ .closed := fun hc => by simp [hw (.inr hc)] at hwr
    exact ⟨fun _ => by simpa using write _ (ih hne), fun hc => absurd hc hne⟩
  | flush hwr =>
    have hne : s.closer ≠ .closed := fun hc => by simp [hw (.inr hc)] at hwr
    exact ⟨fun _ => by simpa using flush (ih hne), fun hc => absurd hc hne⟩
  | close hc => exact ⟨fun _ => by simpa using ih (by simp [hc]), nofun⟩
  | join hc => exact ⟨fun _ => by simpa using ih (by simp [hc]), nofun⟩
  | closeSink hc =>
    exact ⟨fun h => absurd rfl h, fun _ => ⟨s.out, by simpa using ih (by simp [hc]), rfl⟩⟩
  | _ => exact ⟨by simpa using ih, by simpa using ihc⟩

end Recorder
end Kist
