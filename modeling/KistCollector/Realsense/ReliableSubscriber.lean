import KistCollector.Common.Counters

/-!
# A subscriber and the recorder it feeds

`ReliableSubscriber` runs a take-thread: test the flag, wait on the reader, take what is there and
push each valid sample into a recorder. `stop` clears the flag, joins that thread, takes what is left
and closes the reader. Both threads push through the same code (`Drain`), never at the same time.

A reliable reader keeps every sample until it is taken, and takes in no more while it holds 4096. Any
other reader keeps the last 30: a sample that enters a full one displaces the oldest (`keep`).

`Pipe.machine` runs a subscriber together with the recorder it feeds, under any schedule of sample
arrivals, of the take-thread, of the writer thread and of the owner. `Pipe.Inv` says where the
samples are: those taken are pushed, or wait in the hands of the thread that took them.
-/

namespace Kist

/-- What a reader returns: a sample may carry no valid data. -/
structure Sample (M : Type) where
  valid : Bool
  data : M

/-- Where a thread stands inside `drain`: before the next of these samples, or inside the push of the
one before them. -/
inductive Drain (M : Type) where
  | delivering (rest : List (Sample M))
  | pushing (rest : List (Sample M))

/-- Where the take-thread stands inside `run`. -/
inductive Taker (M : Type) where
  | top
  | waiting
  | taking
  | draining (d : Drain M)
  | exited

/-- Where the owner stands inside `stop`. -/
inductive Stop (M : Type) where
  | running
  | flagged
  | joined
  | draining (d : Drain M)
  | swept
  | closed

/-- A started subscriber. `reader` holds the samples that arrived and were neither taken nor
displaced. -/
structure ReliableSubscriber (M : Type) where
  reliable : Bool
  reader : List (Sample M) := []
  readerOpen : Bool := true
  running : Bool := true
  taker : Taker M := .top
  stop : Stop M := .running

/-- The two threads that can run `drain`. -/
inductive Thread where
  | taker
  | owner

namespace ReliableSubscriber

variable {M : Type}

/-- The resource limit of a reliable reader. -/
def maxSamples : Nat := 4096

/-- The history of a reader that is not reliable. -/
def historyDepth : Nat := 30

/-- What a reader holds of `samples`: `KeepAll`, or `KeepLast`. -/
def keep (reliable : Bool) (samples : List (Sample M)) : List (Sample M) :=
  if reliable then samples else samples.drop (samples.length - historyDepth)

/-- The reader can take in a sample. A reliable writer holds back what its reader has no room for. -/
def admits (s : ReliableSubscriber M) : Bool :=
  s.readerOpen && (!s.reliable || decide (s.reader.length < maxSamples))

/-- The subscriber as `start` leaves it. -/
def started (reliable : Bool) : ReliableSubscriber M := { reliable := reliable }

def arrive (s : ReliableSubscriber M) (x : Sample M) : ReliableSubscriber M :=
  { s with reader := keep s.reliable (s.reader ++ [x]) }

def drain (s : ReliableSubscriber M) : Thread → Option (Drain M)
  | .taker => match s.taker with | .draining d => some d | _ => none
  | .owner => match s.stop with | .draining d => some d | _ => none

def setDrain (s : ReliableSubscriber M) (d : Drain M) : Thread → ReliableSubscriber M
  | .taker => { s with taker := .draining d }
  | .owner => { s with stop := .draining d }

/-- The end of `drain`: the take-thread goes back to its loop, the owner on to closing the reader. -/
def drained (s : ReliableSubscriber M) : Thread → ReliableSubscriber M
  | .taker => { s with taker := .top }
  | .owner => { s with stop := .swept }

end ReliableSubscriber

/-- A subscriber and the recorder it feeds. -/
structure Pipe (M F σ : Type) where
  sub : ReliableSubscriber M
  recorder : Recorder (F × Int64) σ

namespace Pipe

variable {M F σ : Type}

/-- The steps of a pipe. `recorder` covers the recorder's own steps, except that a push is begun by
`deliver`. -/
inductive Label (M F : Type) where
  | arrive (x : Sample M)
  | test
  | wake
  | timeout
  | take
  | deliver (th : Thread) (recvNs : Int64)
  | resume (th : Thread)
  | finish (th : Thread)
  | setFlag
  | joinThread
  | sweep
  | closeReader
  | recorder (l : Recorder.Label (F × Int64))

inductive Event (M F : Type) where
  | arrived (x : Sample M)
  | took (batch : List (Sample M))
  | swept (batch : List (Sample M))
  | recorder (e : Recorder.Event (F × Int64))

/-- A step of the recorder inside the pipe. -/
def recorderStep (W : Sink (F × Int64) σ) (s : Pipe M F σ) (sub : ReliableSubscriber M)
    (l : Recorder.Label (F × Int64)) : Option (Pipe M F σ × List (Event M F)) :=
  ((Recorder.machine W).step s.recorder l).map fun p => (⟨sub, p.1⟩, p.2.map .recorder)

/-- The pipe under any schedule. The owner closes the recorder only after `stop` has returned. -/
def machine (map : M → F) (W : Sink (F × Int64) σ) :
    Machine (Pipe M F σ) (Label M F) (Event M F) where
  step s
    | .arrive x =>
      if s.sub.admits then some ({ s with sub := s.sub.arrive x }, [.arrived x]) else none
    | .test =>
      match s.sub.taker with
      | .top => some ({ s with sub :=
          { s.sub with taker := if s.sub.running then .waiting else .exited } }, [])
      | _ => none
    | .wake =>
      match s.sub.taker with
      | .waiting => some ({ s with sub := { s.sub with taker := .taking } }, [])
      | _ => none
    | .timeout =>
      match s.sub.taker with
      | .waiting => some ({ s with sub := { s.sub with taker := .top } }, [])
      | _ => none
    | .take =>
      match s.sub.taker with
      | .taking => some ({ s with sub := { s.sub with
          reader := [], taker := .draining (.delivering s.sub.reader) } }, [.took s.sub.reader])
      | _ => none
    | .deliver th recvNs =>
      match s.sub.drain th with
      | some (.delivering (x :: rest)) =>
        if x.valid then
          recorderStep W s (s.sub.setDrain (.pushing rest) th) (.push (map x.data, recvNs))
        else some ({ s with sub := s.sub.setDrain (.delivering rest) th }, [])
      | _ => none
    | .resume th =>
      match s.sub.drain th, s.recorder.producer with
      | some (.pushing rest), .idle =>
        some ({ s with sub := s.sub.setDrain (.delivering rest) th }, [])
      | _, _ => none
    | .finish th =>
      match s.sub.drain th with
      | some (.delivering []) => some ({ s with sub := s.sub.drained th }, [])
      | _ => none
    | .setFlag =>
      match s.sub.stop with
      | .running => some ({ s with sub := { s.sub with running := false, stop := .flagged } }, [])
      | _ => none
    | .joinThread =>
      match s.sub.stop, s.sub.taker with
      | .flagged, .exited => some ({ s with sub := { s.sub with stop := .joined } }, [])
      | _, _ => none
    | .sweep =>
      match s.sub.stop with
      | .joined => some ({ s with sub := { s.sub with
          reader := [], stop := .draining (.delivering s.sub.reader) } }, [.swept s.sub.reader])
      | _ => none
    | .closeReader =>
      match s.sub.stop with
      | .swept => some ({ s with sub := { s.sub with readerOpen := false, stop := .closed } }, [])
      | _ => none
    | .recorder l =>
      match l with
      | .push _ => none
      | .close =>
        match s.sub.stop with
        | .closed => recorderStep W s s.sub l
        | _ => none
      | l => recorderStep W s s.sub l

/-- What one step of a pipe can do. -/
inductive Step (map : M → F) (W : Sink (F × Int64) σ) (s : Pipe M F σ) :
    Label M F → Pipe M F σ → List (Event M F) → Prop
  | arrive : s.sub.admits = true →
    Step map W s (.arrive x) { s with sub := s.sub.arrive x } [.arrived x]
  | test : s.sub.taker = .top → Step map W s .test { s with sub :=
      { s.sub with taker := if s.sub.running then .waiting else .exited } } []
  | wake : s.sub.taker = .waiting →
    Step map W s .wake { s with sub := { s.sub with taker := .taking } } []
  | timeout : s.sub.taker = .waiting →
    Step map W s .timeout { s with sub := { s.sub with taker := .top } } []
  | take : s.sub.taker = .taking → Step map W s .take { s with sub := { s.sub with
      reader := [], taker := .draining (.delivering s.sub.reader) } } [.took s.sub.reader]
  | push : s.sub.drain th = some (.delivering (x :: rest)) → x.valid = true →
    (Recorder.machine W).step s.recorder (.push (map x.data, t)) = some (r, es) →
    Step map W s (.deliver th t) ⟨s.sub.setDrain (.pushing rest) th, r⟩ (es.map .recorder)
  | skip : s.sub.drain th = some (.delivering (x :: rest)) → x.valid = false →
    Step map W s (.deliver th t) { s with sub := s.sub.setDrain (.delivering rest) th } []
  | resume : s.sub.drain th = some (.pushing rest) → s.recorder.producer = .idle →
    Step map W s (.resume th) { s with sub := s.sub.setDrain (.delivering rest) th } []
  | finish : s.sub.drain th = some (.delivering []) →
    Step map W s (.finish th) { s with sub := s.sub.drained th } []
  | setFlag : s.sub.stop = .running → Step map W s .setFlag
      { s with sub := { s.sub with running := false, stop := .flagged } } []
  | joinThread : s.sub.stop = .flagged → s.sub.taker = .exited →
    Step map W s .joinThread { s with sub := { s.sub with stop := .joined } } []
  | sweep : s.sub.stop = .joined → Step map W s .sweep { s with sub := { s.sub with
      reader := [], stop := .draining (.delivering s.sub.reader) } } [.swept s.sub.reader]
  | closeReader : s.sub.stop = .swept → Step map W s .closeReader
      { s with sub := { s.sub with readerOpen := false, stop := .closed } } []
  | recorder : (∀ r, l ≠ .push r) → (l = .close → s.sub.stop = .closed) →
    (Recorder.machine W).step s.recorder l = some (r, es) →
    Step map W s (.recorder l) ⟨s.sub, r⟩ (es.map .recorder)

theorem recorderStep_eq_some {sub : ReliableSubscriber M} {W : Sink (F × Int64) σ} {s s' : Pipe M F σ}
    (h : recorderStep W s sub l = some (s', es)) :
    ∃ r e, (Recorder.machine W).step s.recorder l = some (r, e) ∧
      s' = ⟨sub, r⟩ ∧ es = e.map .recorder := by
  obtain ⟨⟨r, e⟩, hstep, heq⟩ := Option.map_eq_some_iff.mp h
  cases heq
  exact ⟨r, e, hstep, rfl, rfl⟩

theorem Step.of_step {map : M → F} {W : Sink (F × Int64) σ} {s : Pipe M F σ}
    (h : (machine map W).step s l = some (s', es)) : Step map W s l s' es := by
  cases l with
  | arrive x =>
    simp only [machine] at h
    split at h <;> cases h
    exact .arrive ‹_›
  | test =>
    cases hp : s.sub.taker <;> simp only [machine, hp] at h <;> cases h
    exact .test hp
  | wake =>
    cases hp : s.sub.taker <;> simp only [machine, hp] at h <;> cases h
    exact .wake hp
  | timeout =>
    cases hp : s.sub.taker <;> simp only [machine, hp] at h <;> cases h
    exact .timeout hp
  | take =>
    cases hp : s.sub.taker <;> simp only [machine, hp] at h <;> cases h
    exact .take hp
  | deliver th t =>
    simp only [machine] at h
    split at h
    · rename_i x rest hd
      split at h
      · rename_i hv
        obtain ⟨r, e, hstep, rfl, rfl⟩ := recorderStep_eq_some h
        exact .push hd hv hstep
      · rename_i hv
        cases h
        exact .skip hd (Bool.eq_false_iff.mpr hv)
    · cases h
  | resume th =>
    simp only [machine] at h
    split at h <;> cases h
    exact .resume ‹_› ‹_›
  | finish th =>
    simp only [machine] at h
    split at h <;> cases h
    exact .finish ‹_›
  | setFlag =>
    cases hp : s.sub.stop <;> simp only [machine, hp] at h <;> cases h
    exact .setFlag hp
  | joinThread =>
    simp only [machine] at h
    split at h <;> cases h
    exact .joinThread ‹_› ‹_›
  | sweep =>
    cases hp : s.sub.stop <;> simp only [machine, hp] at h <;> cases h
    exact .sweep hp
  | closeReader =>
    cases hp : s.sub.stop <;> simp only [machine, hp] at h <;> cases h
    exact .closeReader hp
  | recorder l =>
    simp only [machine] at h
    split at h
    · cases h
    · split at h
      · rename_i hp
        obtain ⟨r, e, hstep, rfl, rfl⟩ := recorderStep_eq_some h
        exact .recorder nofun (fun _ => hp) hstep
      · cases h
    · rename_i hpush hclose
      obtain ⟨r, e, hstep, rfl, rfl⟩ := recorderStep_eq_some h
      exact .recorder hpush (fun hl => absurd hl hclose) hstep

end Pipe
end Kist
