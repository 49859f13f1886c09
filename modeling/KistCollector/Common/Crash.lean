import KistCollector.Common.InFlight

/-!
# What a killed recorder leaves behind

A process that is killed leaves what its streams have handed to the files. The writer thread flushes after
every batch, so what is missing is at most the batch in its hands and what is in the queue, and the files
end somewhere in the middle of what the recorder would have written (`Recorder.crash_keeps`).
-/

namespace OStream

variable {α : Type} {s : OStream α}

/-- What a stream has handed over is an initial part of what it was given. -/
theorem Carries.file_eq_take (H : s.Carries c) : s.file = c.take s.file.length := by
  cases hb : s.bad with
  | false =>
    obtain ⟨rfl, -⟩ := H.of_good hb
    exact (List.take_left ..).symm
  | true =>
    obtain ⟨-, hf, -⟩ := H.of_bad hb
    conv_lhs => rw [hf]
    rw [hf, List.length_take]
    exact (List.take_eq_take_min ..)

theorem Left.file_eq_take (H : s.Left c) : s.file = c.take s.file.length := by
  conv_lhs => rw [H.file]
  rw [H.file, List.length_take]
  exact List.take_eq_take_min ..

theorem bad_of_write_bad (h : (s.write cs).bad = false) : s.bad = false := by
  cases hb : s.bad with
  | false => rfl
  | true => exact (write_bad hb).symm.trans h

/-- A good stream takes nothing back. -/
theorem Carries.length_file_put (H : s.Carries c) (x : α) (hgood : (s.put x).bad = false) :
    s.file.length ≤ (s.put x).file.length := by
  cases hb : s.bad with
  | true => exact absurd (put_bad hb (c := x)) (by simp [hgood])
  | false =>
    obtain ⟨-, hq⟩ := H.of_good hb
    rw [put_of_good H.isOpen hb]
    split
    · simp only [OStream.handOver, List.length_take, List.length_append]
      omega
    · exact Nat.le_refl _

theorem Carries.length_file_write (H : s.Carries c) (cs : List α) (hgood : (s.write cs).bad = false) :
    s.file.length ≤ (s.write cs).file.length := by
  induction cs generalizing s c with
  | nil => exact Nat.le_refl _
  | cons x cs ih =>
    have hput : (s.put x).bad = false := bad_of_write_bad hgood
    exact (H.length_file_put x hput).trans (ih (H.put x) hgood)

/-- After a flush that did not fail everything is handed over. -/
theorem Carries.length_file_flush (H : s.Carries c) (hgood : s.flush.bad = false) :
    s.flush.file.length = c.length := by
  obtain ⟨H', hbuf⟩ := H.flush
  obtain ⟨hf, -⟩ := H'.of_good hgood
  rw [← hf, hbuf, List.append_nil]

theorem Carries.length_file_lt (H : s.Carries c) : s.file.length < 2 ^ 63 := by
  refine Nat.lt_of_le_of_lt ?_ s.dev.quota_lt
  cases hb : s.bad with
  | false => exact (H.of_good hb).2
  | true =>
    rw [(H.of_bad hb).2.1]
    exact List.length_take_le ..

theorem Left.length_file_lt (H : s.Left c) : s.file.length < 2 ^ 63 := by
  refine Nat.lt_of_le_of_lt ?_ s.dev.quota_lt
  rw [H.file]
  exact List.length_take_le ..

/-- A file that ends early looks like one that takes no more. -/
theorem exists_left {file c : List α} (hf : file = c.take file.length) (hlt : file.length < 2 ^ 63) :
    ∃ s : OStream α, s.file = file ∧ s.dev.quota = file.length ∧ s.Left c :=
  ⟨⟨⟨file.length, 0, hlt⟩, file, [], decide (file.length < c.length), false⟩, rfl, rfl, rfl, hf,
    decide_eq_true_iff⟩

end OStream

namespace Kist

open Text

namespace Recorder

variable {R σ : Type} {W : Sink R σ} {s₀ s : Recorder R σ}

/-- The first `k` of the records written are handed over; the others came out of the queue with what is
left of the batch. -/
def Flushed (K : List R → σ → Prop) (cap : Nat) (es : List (Event R)) (s : Recorder R σ) : Prop :=
  ∃ k ≤ (wrote es).length, (wrote es).length + s.writer.rest.length ≤ k + cap ∧
    (s.writer = .waiting → k = (wrote es).length) ∧ K ((wrote es).take k) s.out

/-- Where `flush` and `close` hand over all that was written, and `write` takes nothing back, at most one
batch is not handed over. -/
theorem flushed_of_run {T K : List R → σ → Prop} {out : σ} (nil : T [] out ∧ K [] out)
    (write : ∀ {rs o} r, T rs o → T (rs ++ [r]) (W.write o r))
    (flush : ∀ {rs o}, T rs o → T rs (W.flush o))
    (keep : ∀ {rs rs' o} r, T rs' o → K rs o → K rs (W.write o r))
    (flushed : ∀ {rs o}, T rs o → K rs (W.flush o))
    (closed : ∀ {rs o}, T rs o → K rs (W.close o))
    (h : (machine W).run (s₀.start out cap) ls = some (s, es)) : Flushed K cap es s := by
  refine Machine.run_induction (P := fun _ es s => Flushed K cap es s) ?nil ?snoc h
  case nil => exact ⟨0, Nat.le_refl _, Nat.zero_le _, fun _ => rfl, nil.2⟩
  case snoc =>
    rintro ls es s l s' e hrun ⟨k, hk, hle, hwait, hK⟩ hs
    have hsink := (out_induction nil.1 write flush hrun).1
    have hjoined := (Inv.of_run hrun).joined
    -- a step that writes nothing and leaves the sink alone
    have hsame : wrote e = [] → s'.out = s.out → s'.writer.rest.length ≤ s.writer.rest.length →
        (s'.writer = .waiting → s.writer = .waiting) → Flushed K cap (es ++ e) s' := by
      intro he hout hrest hw
      rw [Flushed, wrote_append, he, List.append_nil, hout]
      exact ⟨k, hk, by omega, fun hw' => hwait (hw hw'), hK⟩
    cases Step.of_step hs with
    | @batch rs q hw hq =>
      obtain ⟨rfl, rfl⟩ := popAll_eq_batch hq
      have hqueue := (queue_inv hrun).2
      have hall := hwait hw
      refine ⟨k, by simpa using hk, ?_, (fun hw => by cases hw), by simpa using hK⟩
      simp only [wrote_append, wrote_singleton, Event.wrote?, Option.toList_none, List.append_nil,
        Writer.rest]
      omega
    | @write r rest hw =>
      have hne : s.closer ≠ .closed := fun hc => by simp [hjoined (.inr hc)] at hw
      rw [hw] at hle
      refine ⟨k, ?_, ?_, (fun hw => by cases hw), ?_⟩
      · simp only [wrote_append, List.length_append]
        omega
      · simp only [Writer.rest, List.length_cons, wrote_append, wrote_singleton, Event.wrote?,
          Option.toList_some, List.length_append, List.length_nil] at hle ⊢
        omega
      · rw [wrote_append, List.take_append_of_le_length hk]
        exact keep r (hsink hne) hK
    | flush hw =>
      have hne : s.closer ≠ .closed := fun hc => by simp [hjoined (.inr hc)] at hw
      refine ⟨(wrote es).length, by simp, by simp, fun _ => by simp, ?_⟩
      simpa using flushed (hsink hne)
    | closeSink hc =>
      have hw := hjoined (.inl hc)
      refine ⟨(wrote es).length, by simp, by simp [hw], fun _ => by simp, ?_⟩
      simpa using closed (hsink (by simp [hc]))
    | stop hw => exact hsame rfl rfl (by simp) fun hw => by cases hw
    | countWritten hw | countError hw | addBytes hw => exact hsame rfl rfl (by simp [hw]) fun hw => by cases hw
    | _ => exact hsame rfl rfl (Nat.le_refl _) id

/-- The records accepted that are not handed over are in the batch or in the queue. -/
theorem Flushed.length_le {out : σ} (H : Flushed K cap es s)
    (h : (machine W).run (s₀.start out cap) ls = some (s, es)) :
    ∃ k ≤ (wrote es).length, (accepted es).length ≤ k + 2 * cap ∧ K ((wrote es).take k) s.out := by
  obtain ⟨k, hk, hle, -, hK⟩ := H
  have hacc := congrArg List.length (accepted_eq h)
  have hqueue := (queue_inv h).2
  simp only [List.length_append] at hacc
  exact ⟨k, hk, by omega, hK⟩

end Recorder

/-! ## The two recorders -/

namespace BlobRecorder

variable {F : Type} [Frame F] {row : RowFn F}

/-- Unless a file has failed, the payloads and rows of `rs` are handed over. The header is with the first
row. -/
def HandedOver (row : RowFn F) (header : List Char) (rs : List (F × Int64)) (o : BlobWriter) : Prop :=
  rs ≠ [] →
  (o.sink.data.bad = false → (BlobSink.blobOf (rs.map (entry row))).length ≤ o.sink.data.file.length) ∧
  (o.sink.index.bad = false →
    (BlobSink.indexOf header 0 (rs.map (entry row))).length ≤ o.sink.index.file.length)

theorem HandedOver.write {rs rs' : List (F × Int64)} {o : BlobWriter}
    (H : Carries row d i header off rs' o) (h : HandedOver row header rs o) (r : F × Int64) :
    HandedOver row header rs ((writer row).write o r) := by
  intro hne
  constructor
  · intro hgood
    have hwrite : (o.sink.data.write (Frame.data r.1)).bad = false := hgood
    exact ((h hne).1 (OStream.bad_of_write_bad hwrite)).trans (H.data.length_file_write _ hwrite)
  · intro hgood
    simp only [writer, BlobRecorder.write, BlobSink.append, OStream.write_write] at hgood ⊢
    exact ((h hne).2 (OStream.bad_of_write_bad hgood)).trans (H.index.length_file_write _ hgood)

theorem HandedOver.flushed {rs : List (F × Int64)} {o : BlobWriter}
    (H : Carries row d i header 0 rs o) : HandedOver row header rs ((writer row).flush o) :=
  fun _ => ⟨fun hgood => (H.data.length_file_flush hgood).ge,
    fun hgood => (H.index.length_file_flush hgood).ge⟩

theorem HandedOver.closed {rs : List (F × Int64)} {o : BlobWriter}
    (H : Carries row d i header 0 rs o) : HandedOver row header rs ((writer row).close o) := by
  intro _
  have hleft := BlobSink.Carries.close H
  exact ⟨fun hgood => (congrArg List.length (hleft.data.file_eq hgood)).ge,
    fun hgood => (congrArg List.length (hleft.index.file_eq hgood)).ge⟩

/-- In every state of a run the files are those of a closed sink whose devices took only so much of what
was written. -/
theorem files_of_run (hopen : new.open (some d) (some i) header cap = (true, s₀))
    (h : (machine row).run s₀ ls = some (s, es)) : ∃ (d' i' : Device) (sink : BlobSink),
    sink.Left d' i' header 0 ((Recorder.wrote es).map (entry row)) ∧
    sink.data.file = s.out.sink.data.file ∧ sink.index.file = s.out.sink.index.file ∧
    d'.quota = s.out.sink.data.file.length ∧ i'.quota = s.out.sink.index.file.length := by
  have hstreams : (∃ data : OStream UInt8, data.file = s.out.sink.data.file ∧
      data.dev.quota = s.out.sink.data.file.length ∧
      data.Left (BlobSink.blobOf ((Recorder.wrote es).map (entry row)))) ∧
      ∃ index : OStream Char, index.file = s.out.sink.index.file ∧
      index.dev.quota = s.out.sink.index.file.length ∧
      index.Left (BlobSink.indexOf header 0 ((Recorder.wrote es).map (entry row))) := by
    obtain ⟨hcarries, hleft⟩ := sink_of_run (s := new) ⟨rfl, rfl⟩ hopen h
    by_cases hc : s.closer = .closed
    · have H := hleft hc
      exact ⟨OStream.exists_left H.data.file_eq_take H.data.length_file_lt,
        OStream.exists_left H.index.file_eq_take H.index.length_file_lt⟩
    · have H := hcarries hc
      exact ⟨OStream.exists_left H.data.file_eq_take H.data.length_file_lt,
        OStream.exists_left H.index.file_eq_take H.index.length_file_lt⟩
  obtain ⟨⟨data, hdata, hquota, hleft⟩, index, hindex, hquota', hleft'⟩ := hstreams
  exact ⟨data.dev, index.dev, ⟨data, index, _⟩, ⟨rfl, rfl, hleft, hleft', rfl⟩, hdata, hindex, hquota,
    hquota'⟩

theorem handedOver_of_run (hopen : new.open (some d) (some i) header cap = (true, s₀))
    (h : (machine row).run s₀ ls = some (s, es)) :
    Recorder.Flushed (HandedOver row header) cap es s := by
  cases (open_eq (s := new) ⟨rfl, rfl⟩ d i header cap).symm.trans hopen
  have hnil : Carries row d i header 0 []
      { (new (F := F)).out with sink := ((new (F := F)).out.sink.open (some d) (some i) header).2 } :=
    BlobSink.Carries.opened (s := {}) ⟨rfl, rfl⟩ d i header
  exact Recorder.flushed_of_run ⟨hnil, fun hne => absurd rfl hne⟩ (fun r H => H.write r)
    (fun H => H.flush) (fun r H hK => hK.write H r) .flushed .closed h

theorem wrote_of_run (hopen : new.open (some d) (some i) header cap = (true, s₀))
    (h : (machine row).run s₀ ls = some (s, es)) : Recorder.wrote es <+: Recorder.accepted es := by
  cases (open_eq (s := new) ⟨rfl, rfl⟩ d i header cap).symm.trans hopen
  rw [Recorder.accepted_eq h, List.append_assoc]
  exact List.prefix_append ..

/-- Where a record stands is decided by the records before it. -/
theorem OnDevice.of_initial {o o' : BlobWriter} (hd : o'.sink.data.file = o.sink.data.file)
    (hi : o'.sink.index.file = o.sink.index.file) (hp : rs <+: rs') (h : OnDevice row header o' rs j) :
    OnDevice row header o rs' j := by
  obtain ⟨ts, rfl⟩ := hp
  obtain ⟨r, hr, hpayload, hrow⟩ := h
  have hj := (List.getElem?_eq_some_iff.mp hr).1
  refine ⟨r, (List.getElem?_append_left hj).trans hr, ?_⟩
  rw [List.take_append_of_le_length (Nat.le_of_lt hj), ← hd, ← hi]
  exact ⟨hpayload, hrow⟩

/-- The records handed over are on the files. -/
theorem kept_of_run (hopen : new.open (some d) (some i) header cap = (true, s₀))
    (h : (machine row).run s₀ ls = some (s, es)) (hdata : s.out.sink.data.bad = false)
    (hindex : s.out.sink.index.bad = false) : ∃ k, (Recorder.accepted es).length ≤ k + 2 * cap ∧
      ∀ j < k, OnDevice row header s.out (Recorder.accepted es) j := by
  obtain ⟨d', i', sink, hleft, hd, hi, hquota, hquota'⟩ := files_of_run hopen h
  have hflushed := handedOver_of_run hopen h
  have hwrote := wrote_of_run hopen h
  cases (open_eq (s := new) ⟨rfl, rfl⟩ d i header cap).symm.trans hopen
  obtain ⟨k, hk, hle, hK⟩ := hflushed.length_le h
  refine ⟨k, hle, fun j hj => ?_⟩
  have hne : (Recorder.wrote es).take k ≠ [] := by
    intro hnil
    have hlen := congrArg List.length hnil
    rw [List.length_take_of_le hk] at hlen
    exact absurd hj (by simp [hlen])
  obtain ⟨hpayloads, hrows⟩ := hK hne
  have hroom : Room row d' i' header ((Recorder.wrote es).take k) :=
    ⟨hquota ▸ hpayloads hdata, hquota' ▸ hrows hindex⟩
  have hon : OnDevice row header { s.out with sink := sink } (Recorder.wrote es) j :=
    (onDevice_iff_room hleft (Nat.lt_of_lt_of_le hj hk)).mpr
      (hroom.mono (List.take_prefix_take_left (by omega)))
  exact hon.of_initial hd hi hwrote

theorem crash_keeps_blob (hopen : new.open data index header cap = (true, s₀))
    (h : (machine row).run s₀ ls = some (s, es)) :
    s.out.sink.data.file <+: BlobSink.blobOf ((Recorder.accepted es).map (entry row)) ∧
    s.out.sink.index.file <+: BlobSink.indexOf header 0 ((Recorder.accepted es).map (entry row)) ∧
    (s.out.sink.data.bad = false → s.out.sink.index.bad = false →
      ∃ k, (Recorder.accepted es).length ≤ k + 2 * cap ∧
        ∀ j < k, OnDevice row header s.out (Recorder.accepted es) j) := by
  obtain ⟨d, i, rfl, rfl⟩ := exists_of_open hopen
  obtain ⟨d', i', sink, hleft, hdata, hindex, -, -⟩ := files_of_run hopen h
  obtain ⟨rest, hrest⟩ := wrote_of_run hopen h
  refine ⟨?_, ?_, kept_of_run hopen h⟩
  · rw [← hdata, hleft.data.file, ← hrest, List.map_append, BlobSink.blobOf_append]
    exact (List.take_prefix ..).trans (List.prefix_append ..)
  · rw [← hindex, hleft.index.file, ← hrest, List.map_append, BlobSink.indexOf_append]
    exact (List.take_prefix ..).trans (List.prefix_append ..)

end BlobRecorder

namespace RowRecorder

variable {R : Type} {row : RowFn R}

/-- Unless the file has failed, the rows of `rs` are handed over. -/
def HandedOver (row : RowFn R) (header : List Char) (rs : List (R × Int64)) (file : OStream Char) : Prop :=
  rs ≠ [] → file.bad = false → (csvOf row header rs).length ≤ file.file.length

theorem HandedOver.write {rs rs' : List (R × Int64)} {file : OStream Char}
    (H : Carries row d header rs' file) (h : HandedOver row header rs file) (r : R × Int64) :
    HandedOver row header rs ((writer row).write file r) := by
  intro hne hgood
  simp only [writer, OStream.write_write] at hgood ⊢
  exact (h hne (OStream.bad_of_write_bad hgood)).trans (H.2.length_file_write _ hgood)

theorem HandedOver.flushed {rs : List (R × Int64)} {file : OStream Char}
    (H : Carries row d header rs file) : HandedOver row header rs ((writer row).flush file) :=
  fun _ hgood => (H.2.length_file_flush hgood).ge

theorem HandedOver.closed {rs : List (R × Int64)} {file : OStream Char}
    (H : Carries row d header rs file) : HandedOver row header rs ((writer row).close file) :=
  fun _ hgood => (congrArg List.length (H.2.close.file_eq hgood)).ge

/-- In every state of a run the file is that of a closed stream whose device took only so much of what was
written. -/
theorem files_of_run (hopen : new.open (some d) header cap = (true, s₀))
    (h : (machine row).run s₀ ls = some (s, es)) : ∃ file : OStream Char,
    file.file = s.out.file ∧ file.dev.quota = s.out.file.length ∧
    file.Left (csvOf row header (Recorder.wrote es)) := by
  obtain ⟨hcarries, hleft⟩ := file_of_run (s := new) rfl hopen h
  by_cases hc : s.closer = .closed
  · have H := (hleft hc).2
    exact OStream.exists_left H.file_eq_take H.length_file_lt
  · have H := (hcarries hc).2
    exact OStream.exists_left H.file_eq_take H.length_file_lt

theorem OnDevice.of_initial {file file' : OStream Char} (hf : file'.file = file.file) (hp : rs <+: rs')
    (h : OnDevice row header file' rs j) : OnDevice row header file rs' j := by
  obtain ⟨ts, rfl⟩ := hp
  obtain ⟨r, hr, hrow⟩ := h
  have hj := (List.getElem?_eq_some_iff.mp hr).1
  refine ⟨r, (List.getElem?_append_left hj).trans hr, ?_⟩
  rw [List.take_append_of_le_length (Nat.le_of_lt hj), ← hf]
  exact hrow

theorem crash_keeps_rows (hopen : new.open csv header cap = (true, s₀))
    (h : (machine row).run s₀ ls = some (s, es)) :
    s.out.file <+: csvOf row header (Recorder.accepted es) ∧
    (s.out.bad = false → ∃ k, (Recorder.accepted es).length ≤ k + 2 * cap ∧
      ∀ j < k, OnDevice row header s.out (Recorder.accepted es) j) := by
  obtain ⟨d, rfl, rfl⟩ := exists_of_open hopen
  obtain ⟨file, hfile, hquota, hleft⟩ := files_of_run hopen h
  have hwrote : Recorder.wrote es <+: Recorder.accepted es := by
    rw [Recorder.accepted_eq h, List.append_assoc]
    exact List.prefix_append ..
  have hflushed : Recorder.Flushed (HandedOver row header) cap es s :=
    Recorder.flushed_of_run ⟨Carries.opened rfl d header, fun hne => absurd rfl hne⟩
      (fun r H => H.write r) (fun H => H.flush) (fun r H hK => hK.write H r) .flushed .closed h
  constructor
  · obtain ⟨rest, hrest⟩ := hwrote
    rw [← hfile, hleft.file, ← hrest, csvOf_append]
    exact (List.take_prefix ..).trans (List.prefix_append ..)
  · intro hgood
    obtain ⟨k, hk, hle, hK⟩ := hflushed.length_le h
    refine ⟨k, hle, fun j hj => ?_⟩
    have hne : (Recorder.wrote es).take k ≠ [] := by
      intro hnil
      have hlen := congrArg List.length hnil
      rw [List.length_take_of_le hk] at hlen
      exact absurd hj (by simp [hlen])
    have hroom : Room row file.dev header ((Recorder.wrote es).take k) := by
      rw [Room, hquota]
      exact hK hne hgood
    have hon : OnDevice row header file (Recorder.wrote es) j :=
      (onDevice_iff_room rfl hleft (Nat.lt_of_lt_of_le hj hk)).mpr
        (hroom.mono (List.take_prefix_take_left (by omega)))
    exact hon.of_initial hfile hwrote

end RowRecorder

namespace Recorder

/-- **A recorder that is killed.** In every state of a run of either recorder, also between the records of a
batch and while `close` waits (one record is written in one step): what the files hold is an initial part
of what they would hold if everything accepted so far were written; and as long as no file has failed, all
of the records accepted are completely on the files, except for at most twice the capacity of the latest. -/
theorem crash_keeps {F R : Type} [Frame F] :
    (∀ (row : RowFn F) (data index : Option Device) (header : List Char) (cap : Nat)
      (s₀ : BlobRecorder F), BlobRecorder.new.open data index header cap = (true, s₀) →
      ∀ ls s es, (BlobRecorder.machine row).run s₀ ls = some (s, es) →
        s.out.sink.data.file <+: BlobSink.blobOf ((accepted es).map (BlobRecorder.entry row)) ∧
        s.out.sink.index.file <+:
          BlobSink.indexOf header 0 ((accepted es).map (BlobRecorder.entry row)) ∧
        (s.out.sink.data.bad = false → s.out.sink.index.bad = false →
          ∃ k, (accepted es).length ≤ k + 2 * cap ∧
            ∀ j < k, BlobRecorder.OnDevice row header s.out (accepted es) j)) ∧
    (∀ (row : RowFn R) (csv : Option Device) (header : List Char) (cap : Nat)
      (s₀ : RowRecorder R), RowRecorder.new.open csv header cap = (true, s₀) →
      ∀ ls s es, (RowRecorder.machine row).run s₀ ls = some (s, es) →
        s.out.file <+: RowRecorder.csvOf row header (accepted es) ∧
        (s.out.bad = false → ∃ k, (accepted es).length ≤ k + 2 * cap ∧
          ∀ j < k, RowRecorder.OnDevice row header s.out (accepted es) j)) :=
  ⟨fun _ _ _ _ _ _ hopen _ _ _ h => BlobRecorder.crash_keeps_blob hopen h,
    fun _ _ _ _ _ hopen _ _ _ h => RowRecorder.crash_keeps_rows hopen h⟩

/-- A queue of one record: three records are accepted, the process is killed while it writes the second. -/
def threeRecords (r : R) : List (Label R) :=
  [.push r, .enqueue, .popAll, .write, .count, .addBytes, .flush, .push r, .enqueue, .popAll, .push r,
    .enqueue, .write]

theorem crash_keeps_three : ∃ s es,
    (RowRecorder.machine fun (n : Nat) _ => decimal n).run
      (RowRecorder.new.open (some ⟨100, 4096, by decide⟩) ['n'] 1).2 (threeRecords (7, 5)) =
        some (s, es) ∧
    s.out.file = ['n', '\n', '7', '\n'] ∧
    ∃ k, 3 ≤ k + 2 * 1 ∧ ∀ j < k, RowRecorder.OnDevice (fun n _ => decimal n) ['n'] s.out
      (accepted es) j := by
  refine Machine.exists_run (P := fun p => p.1.out.file = ['n', '\n', '7', '\n'] ∧
    p.1.out.bad = false ∧ (accepted p.2).length = 3) (by decide) ?_
  rintro s es h ⟨hfile, hgood, hlen⟩
  obtain ⟨k, hle, hon⟩ := ((crash_keeps (F := UInt64 × List UInt8)).2 _ _ _ _ _
    (RowRecorder.open_eq rfl _ _ _) _ _ _ h).2 hgood
  exact ⟨hfile, k, hlen ▸ hle, hon⟩

end Recorder
end Kist
