import KistCollector.Common.RecordQueue

/-!
# The recorder: a queue, a writer thread and its counters

`BlobRecorder` and `RowRecorder` are one program over two sinks. `Recorder.machine` is that program,
at the granularity of its atomic operations: `push` counts the record, tries the queue and counts a
refusal; the writer pops a batch, writes a record, counts it, and flushes after the batch; `close`
closes the queue, joins the writer and closes the sink. What differs between the two recorders is
the `Sink`.
-/

namespace Kist

/-- Counters shared by every recorded stream. Those that count records or bytes one at a time stay
below `2 ^ 64`; `wireGaps` adds arbitrary differences of sequence numbers and can wrap. -/
structure StreamStats where
  received : Nat := 0
  written : Nat := 0
  dropped : Nat := 0
  writeErrors : Nat := 0
  wireGaps : UInt64 := 0
  bytes : Nat := 0
  deriving DecidableEq, Repr

/-- The writer thread's side of a recorder: what it does with one record, the test it takes
afterwards, and the bytes a written record counts. -/
structure Sink (R σ : Type) where
  write : σ → R → σ
  good : σ → Bool
  flush : σ → σ
  close : σ → σ
  size : R → Nat
  wireGaps : σ → UInt64

/-- Where the producer stands inside `push`: outside, with the record counted in `received` but not
yet offered to the queue, or refused and not yet counted in `dropped`. -/
inductive Producer (R : Type) where
  | idle
  | counted (r : R)
  | refused
  deriving DecidableEq, Repr

/-- Where the writer thread stands inside `run`. In `writing rest` it is at the head of the loop
over the batch, in `wrote r ok rest` between the write of `r` and its count, in `counted r rest`
between `written` and `bytes`. -/
inductive Writer (R : Type) where
  | none
  | waiting
  | writing (rest : List R)
  | wrote (r : R) (ok : Bool) (rest : List R)
  | counted (r : R) (rest : List R)
  | exited
  deriving DecidableEq, Repr

/-- Where the owner stands inside `close`. -/
inductive Closer where
  | idle
  | joining
  | joined
  | closed
  deriving DecidableEq, Repr

structure Recorder (R σ : Type) where
  queue : RecordQueue R := {}
  out : σ
  producer : Producer R := .idle
  writer : Writer R := .none
  closer : Closer := .idle
  received : Nat := 0
  dropped : Nat := 0
  written : Nat := 0
  writeErrors : Nat := 0
  bytes : Nat := 0

/-- The writer thread exists: `thread_` is joinable until `close` has joined it. -/
def Writer.started : Writer R → Bool
  | .none => false
  | _ => true

namespace Recorder

variable {R σ : Type}

/-- The end of `open`, once the sink is open: arm the queue and start the writer thread. -/
def start (s : Recorder R σ) (out : σ) (capacity : Nat) : Recorder R σ :=
  { s with out := out, queue := s.queue.open capacity, writer := .waiting, closer := .idle }

/-- `openSink` opens the files and says whether that worked; the recorder runs only then. -/
def openWith (openSink : σ → Bool × σ) (s : Recorder R σ) (capacity : Nat) : Bool × Recorder R σ :=
  match openSink s.out with
  | (false, out) => (false, { s with out := out })
  | (true, out) => (true, s.start out capacity)

theorem openWith_eq_true {s s₀ : Recorder R σ} (h : openWith openSink s cap = (true, s₀)) :
    ∃ out, s₀ = s.start out cap := by
  rcases ho : openSink s.out with ⟨ok, out⟩
  cases ok <;> simp only [openWith, ho] at h <;> cases h
  exact ⟨out, rfl⟩

def stats (W : Sink R σ) (s : Recorder R σ) : StreamStats where
  received := s.received
  dropped := s.dropped
  written := s.written
  writeErrors := s.writeErrors
  wireGaps := W.wireGaps s.out
  bytes := s.bytes

/-- The atomic steps: three of the producer, six of the writer thread, three of the owner. -/
inductive Label (R : Type) where
  | push (r : R)
  | enqueue
  | drop
  | popAll
  | write
  | count
  | addBytes
  | flush
  | close
  | join
  | closeSink
  deriving DecidableEq, Repr

inductive Event (R : Type) where
  | pushed (r : R)
  | accepted (r : R)
  | refused (r : R)
  | popped (batch : List R)
  | stopped
  | wrote (r : R)
  | counted (r : R) (ok : Bool)
  | closed
  | returned
  deriving DecidableEq, Repr

/-- The recorder under any schedule of the producer, the writer thread and the owner. -/
def machine (W : Sink R σ) : Machine (Recorder R σ) (Label R) (Event R) where
  step s
    | .push r =>
      match s.producer with
      | .idle =>
        some ({ s with producer := .counted r, received := s.received + 1 }, [.pushed r])
      | _ => none
    | .enqueue =>
      match s.producer with
      | .counted r =>
        match s.queue.push r with
        | (true, q) => some ({ s with queue := q, producer := .idle }, [.accepted r])
        | (false, q) => some ({ s with queue := q, producer := .refused }, [.refused r])
      | _ => none
    | .drop =>
      match s.producer with
      | .refused => some ({ s with producer := .idle, dropped := s.dropped + 1 }, [])
      | _ => none
    | .popAll =>
      match s.writer with
      | .waiting =>
        match s.queue.popAll with
        | (.wait, _) => none
        | (.stop, q) => some ({ s with queue := q, writer := .exited }, [.stopped])
        | (.batch out, q) => some ({ s with queue := q, writer := .writing out }, [.popped out])
      | _ => none
    | .write =>
      match s.writer with
      | .writing (r :: rest) =>
        let out := W.write s.out r
        some ({ s with out := out, writer := .wrote r (W.good out) rest }, [.wrote r])
      | _ => none
    | .count =>
      match s.writer with
      | .wrote r true rest =>
        some ({ s with written := s.written + 1, writer := .counted r rest }, [.counted r true])
      | .wrote r false rest =>
        some ({ s with writeErrors := s.writeErrors + 1, writer := .writing rest },
          [.counted r false])
      | _ => none
    | .addBytes =>
      match s.writer with
      | .counted r rest =>
        some ({ s with bytes := s.bytes + W.size r, writer := .writing rest }, [])
      | _ => none
    | .flush =>
      match s.writer with
      | .writing [] => some ({ s with out := W.flush s.out, writer := .waiting }, [])
      | _ => none
    | .close =>
      match s.closer with
      | .idle =>
        if s.writer.started then
          some ({ s with queue := s.queue.close, closer := .joining }, [.closed])
        else none
      | _ => none
    | .join =>
      match s.closer with
      | .joining =>
        match s.writer with
        | .exited => some ({ s with closer := .joined }, [])
        | _ => none
      | _ => none
    | .closeSink =>
      match s.closer with
      | .joined => some ({ s with out := W.close s.out, closer := .closed }, [.returned])
      | _ => none

/-- The schedule of a run with one record, written before `close` is called. -/
def oneRecord (r : R) : List (Label R) :=
  [.push r, .enqueue, .popAll, .write, .count, .addBytes, .flush, .close, .popAll, .join, .closeSink]

/-- The schedule of a run whose queue `rs` fill, so that the others are refused, and that writes `rs` in one
batch. -/
def oneBatch (rs refused : List R) : List (Label R) :=
  rs.flatMap (fun r => [.push r, .enqueue]) ++ refused.flatMap (fun r => [.push r, .enqueue, .drop]) ++
    .popAll :: rs.flatMap (fun _ => [.write, .count, .addBytes]) ++
    [.flush, .close, .popAll, .join, .closeSink]

/-- What one step of a recorder can do. -/
inductive Step (W : Sink R σ) (s : Recorder R σ) :
    Label R → Recorder R σ → List (Event R) → Prop
  | push : s.producer = .idle → Step W s (.push r)
      { s with producer := .counted r, received := s.received + 1 } [.pushed r]
  | accept : s.producer = .counted r → s.queue.push r = (true, q) →
    Step W s .enqueue { s with queue := q, producer := .idle } [.accepted r]
  | refuse : s.producer = .counted r → s.queue.push r = (false, q) →
    Step W s .enqueue { s with queue := q, producer := .refused } [.refused r]
  | drop : s.producer = .refused →
    Step W s .drop { s with producer := .idle, dropped := s.dropped + 1 } []
  | stop : s.writer = .waiting → s.queue.popAll = (.stop, q) →
    Step W s .popAll { s with queue := q, writer := .exited } [.stopped]
  | batch : s.writer = .waiting → s.queue.popAll = (.batch rs, q) →
    Step W s .popAll { s with queue := q, writer := .writing rs } [.popped rs]
  | write : s.writer = .writing (r :: rest) → Step W s .write
      { s with out := W.write s.out r, writer := .wrote r (W.good (W.write s.out r)) rest }
      [.wrote r]
  | countWritten : s.writer = .wrote r true rest → Step W s .count
      { s with written := s.written + 1, writer := .counted r rest } [.counted r true]
  | countError : s.writer = .wrote r false rest → Step W s .count
      { s with writeErrors := s.writeErrors + 1, writer := .writing rest } [.counted r false]
  | addBytes : s.writer = .counted r rest → Step W s .addBytes
      { s with bytes := s.bytes + W.size r, writer := .writing rest } []
  | flush : s.writer = .writing [] →
    Step W s .flush { s with out := W.flush s.out, writer := .waiting } []
  | close : s.closer = .idle → s.writer.started = true →
    Step W s .close { s with queue := s.queue.close, closer := .joining } [.closed]
  | join : s.closer = .joining → s.writer = .exited →
    Step W s .join { s with closer := .joined } []
  | closeSink : s.closer = .joined →
    Step W s .closeSink { s with out := W.close s.out, closer := .closed } [.returned]

theorem Step.of_step {W : Sink R σ} {s : Recorder R σ}
    (h : (machine W).step s l = some (s', es)) : Step W s l s' es := by
  cases l with
  | push r =>
    cases hp : s.producer <;> simp only [machine, hp] at h <;> cases h
    exact .push hp
  | enqueue =>
    cases hp : s.producer with
    | counted r =>
      rcases hq : s.queue.push r with ⟨ok, q⟩
      cases ok <;> simp only [machine, hp, hq] at h <;> cases h
      · exact .refuse hp hq
      · exact .accept hp hq
    | _ => simp only [machine, hp] at h; cases h
  | drop =>
    cases hp : s.producer <;> simp only [machine, hp] at h <;> cases h
    exact .drop hp
  | popAll =>
    cases hw : s.writer with
    | waiting =>
      rcases hq : s.queue.popAll with ⟨res, q⟩
      cases res <;> simp only [machine, hw, hq] at h <;> cases h
      · exact .stop hw hq
      · exact .batch hw hq
    | _ => simp only [machine, hw] at h; cases h
  | write =>
    cases hw : s.writer with
    | writing rest =>
      cases rest <;> simp only [machine, hw] at h <;> cases h
      exact .write hw
    | _ => simp only [machine, hw] at h; cases h
  | count =>
    cases hw : s.writer with
    | wrote r ok rest =>
      cases ok <;> simp only [machine, hw] at h <;> cases h
      · exact .countError hw
      · exact .countWritten hw
    | _ => simp only [machine, hw] at h; cases h
  | addBytes =>
    cases hw : s.writer <;> simp only [machine, hw] at h <;> cases h
    exact .addBytes hw
  | flush =>
    cases hw : s.writer with
    | writing rest =>
      cases rest <;> simp only [machine, hw] at h <;> cases h
      exact .flush hw
    | _ => simp only [machine, hw] at h; cases h
  | close =>
    cases hc : s.closer <;> simp only [machine, hc] at h <;> try cases h
    split at h <;> cases h
    exact .close hc ‹_›
  | join =>
    cases hc : s.closer <;> simp only [machine, hc] at h <;> try cases h
    cases hw : s.writer <;> simp only [hw] at h <;> cases h
    exact hw ▸ .join hc hw
  | closeSink =>
    cases hc : s.closer <;> simp only [machine, hc] at h <;> cases h
    exact .closeSink hc

end Recorder
end Kist
