import KistCollector.Lib.Log

/-!
# The hand-off queue

`RecordQueue` is the bounded queue between one producer and one writer thread. Its three
operations are critical sections under one mutex, so an interleaving of the calls is a schedule of
`RecordQueue.machine`. The queue refines `Log`: what `popAll` has handed out is a prefix of what
`push` has accepted (`RecordQueue.refines_log`).
-/

namespace Kist

/-- The queue behind the mutex. `capacity` is the bound given to `open`. -/
structure RecordQueue (T : Type) where
  queue : List T := []
  capacity : Nat := 0
  closed : Bool := false
  deriving DecidableEq, Repr

/-- What a call of `popAll` comes to: it sleeps on, returns false, or hands out a batch. -/
inductive PopAll (T : Type) where
  | wait
  | stop
  | batch (out : List T)
  deriving DecidableEq, Repr

namespace RecordQueue

variable {T : Type}

/-- (Re)arm for a recording run. -/
def «open» (_ : RecordQueue T) (capacity : Nat) : RecordQueue T :=
  { queue := [], capacity := capacity, closed := false }

/-- False: the record was not taken, because the queue is closed or full. -/
def push (q : RecordQueue T) (item : T) : Bool × RecordQueue T :=
  if q.closed || q.capacity ≤ q.queue.length then (false, q)
  else (true, { q with queue := q.queue ++ [item] })

/-- The wait ends once the queue is nonempty or closed; then the whole queue is moved out. -/
def popAll (q : RecordQueue T) : PopAll T × RecordQueue T :=
  if q.queue.isEmpty && !q.closed then (.wait, q)
  else if q.queue.isEmpty then (.stop, q)
  else (.batch q.queue, { q with queue := [] })

def close (q : RecordQueue T) : RecordQueue T := { q with closed := true }

inductive Label (T : Type) where
  | push (item : T)
  | popAll
  | close

inductive Event (T : Type) where
  | pushed (item : T) (ok : Bool)
  | popped (batch : List T)
  | stopped
  | closed

/-- The queue under any schedule of its callers. A sleeping `popAll` is not a step. -/
def machine : Machine (RecordQueue T) (Label T) (Event T) where
  step q
    | .push x => some ((q.push x).2, [.pushed x (q.push x).1])
    | .popAll =>
      match q.popAll with
      | (.wait, _) => none
      | (.stop, q') => some (q', [.stopped])
      | (.batch out, q') => some (q', [.popped out])
    | .close => some (q.close, [.closed])

/-- What one step of the queue can do. -/
inductive Step (q : RecordQueue T) : Label T → RecordQueue T → List (Event T) → Prop
  | accept : q.closed = false → q.queue.length < q.capacity →
    Step q (.push x) { q with queue := q.queue ++ [x] } [.pushed x true]
  | refuse : q.closed = true ∨ q.capacity ≤ q.queue.length → Step q (.push x) q [.pushed x false]
  | batch : q.queue ≠ [] → Step q .popAll { q with queue := [] } [.popped q.queue]
  | stop : q.queue = [] → q.closed = true → Step q .popAll q [.stopped]
  | close : Step q .close { q with closed := true } [.closed]

theorem push_eq_false_iff {q : RecordQueue T} :
    (q.push x).1 = false ↔ q.closed = true ∨ q.capacity ≤ q.queue.length := by
  unfold push
  split <;> simp_all

theorem popAll_eq_stop {q : RecordQueue T} (h : q.popAll.1 = .stop) :
    q.queue = [] ∧ q.closed = true := by
  cases hq : q.queue <;> cases hc : q.closed <;> simp [popAll, hq, hc] at h ⊢

theorem Step.of_step {q : RecordQueue T} (h : machine.step q l = some (q', es)) :
    Step q l q' es := by
  cases l with
  | push x =>
    simp only [machine, push] at h
    split at h <;> cases h
    · exact .refuse (by simp_all)
    · exact .accept (by simp_all) (by simp_all)
  | popAll =>
    cases hq : q.queue <;> cases hc : q.closed <;> simp [machine, popAll, hq, hc] at h <;>
      obtain ⟨rfl, rfl⟩ := h
    · exact .stop hq hc
    all_goals rw [← hc, ← hq]; exact .batch (by simp [hq])
  | close => cases h; exact .close

/-! ## Histories -/

@[simp] def Event.accepted? : Event T → Option T
  | .pushed x true => some x
  | _ => none

@[simp] def Event.popped? : Event T → Option (List T)
  | .popped batch => some batch
  | _ => none

/-- The records whose push returned true, in push order. -/
abbrev accepted (es : List (Event T)) : List T := seen Event.accepted? es

theorem accepted_append (es es' : List (Event T)) :
    accepted (es ++ es') = accepted es ++ accepted es' := seen_append ..

/-- The batches `popAll` handed out. -/
abbrev batches (es : List (Event T)) : List (List T) := seen Event.popped? es

/-- The records `popAll` handed out. -/
abbrev delivered (es : List (Event T)) : List T := (batches es).flatten

/-- The part of a history after its last successful `popAll`. -/
def sincePopAll (es : List (Event T)) : List (Event T) :=
  (es.reverse.takeWhile fun e => e.popped?.isNone).reverse

theorem sincePopAll_snoc (es : List (Event T)) (e : Event T) :
    sincePopAll (es ++ [e]) = if e.popped?.isNone then sincePopAll es ++ [e] else [] := by
  simp only [sincePopAll, List.reverse_append, List.reverse_singleton, List.singleton_append,
    List.takeWhile_cons]
  split <;> simp

/-! ## Refinement of the log -/

/-- What the log sees of the queue's history. -/
def logEvent : Event T → Option (Log.Event T)
  | .pushed x true => some (.appended x)
  | .popped batch => some (.taken batch)
  | _ => none

theorem seen_appended_logEvent (es : List (Event T)) :
    seen Log.Event.appended? (es.filterMap logEvent) = accepted es := by
  rw [seen_filterMap]
  congr 1; funext e
  match e with
  | .pushed _ true | .pushed _ false | .popped _ | .stopped | .closed => rfl

theorem seen_taken_logEvent (es : List (Event T)) :
    seen Log.Event.taken? (es.filterMap logEvent) = batches es := by
  rw [seen_filterMap]
  congr 1; funext e
  match e with
  | .pushed _ true | .pushed _ false | .popped _ | .stopped | .closed => rfl

/-- Every run of the queue is a run of a log whose unread part is the queue. -/
theorem refines_log {q₀ q : RecordQueue T} (h : machine.run (q₀.open cap) ls = some (q, es)) :
    ∃ ks L, Log.machine.run .empty ks = some (L, es.filterMap logEvent) ∧ q.queue = L.unread := by
  refine Machine.simulate (fun (q : RecordQueue T) (L : Log T) => q.queue = L.unread) logEvent
    ?_ rfl h
  intro q L l q' e hR hs
  cases Step.of_step hs with
  | @accept x => exact ⟨[.append x], L.append x, rfl, by simp [hR]⟩
  | refuse | stop | close => exact ⟨[], L, rfl, hR⟩
  | batch =>
    refine ⟨[.readAll], L.readAll, ?_, by simp⟩
    simp only [logEvent, List.filterMap_cons, List.filterMap_nil, hR]
    rfl

/-- **First in, first out, exactly once.** -/
theorem accepted_eq {q₀ q : RecordQueue T} (h : machine.run (q₀.open cap) ls = some (q, es)) :
    accepted es = delivered es ++ q.queue := by
  obtain ⟨_, _, hrun, hq⟩ := refines_log h
  rw [hq, ← seen_appended_logEvent, delivered, ← seen_taken_logEvent]
  exact Log.appended_eq_taken_append_unread hrun

/-! ## Bound, refusals and shutdown -/

/-- The bound of the queue, and what its flags and contents say about the history. -/
structure Inv (cap : Nat) (es : List (Event T)) (q : RecordQueue T) : Prop where
  capacity_eq : q.capacity = cap
  length_le : q.queue.length ≤ cap
  closed_iff : q.closed = true ↔ Event.closed ∈ es
  queue_eq : q.queue = accepted (sincePopAll es)

theorem Inv.next {q : RecordQueue T} (H : Inv cap es q) (h : Step q l q' e) :
    Inv cap (es ++ e) q' := by
  obtain ⟨h1, h2, h3, h4⟩ := H
  cases h with
  | accept hc hlt =>
    exact ⟨h1, by simp; omega, by simpa using h3, by simp [sincePopAll_snoc, ← h4]⟩
  | refuse | stop => exact ⟨h1, h2, by simpa using h3, by simp [sincePopAll_snoc, ← h4]⟩
  | batch => exact ⟨h1, by simp, by simpa using h3, by simp [sincePopAll_snoc]⟩
  | close => exact ⟨h1, h2, by simp, by simp [sincePopAll_snoc, ← h4]⟩

theorem Inv.of_run {q₀ q : RecordQueue T} (h : machine.run (q₀.open cap) ls = some (q, es)) :
    Inv cap es q :=
  Machine.invariant (P := Inv cap) ⟨rfl, Nat.zero_le _, by simp [«open»], rfl⟩
    (fun H hs => H.next (.of_step hs)) h

/-- Once closed, a queue accepts nothing and hands out what it holds in one last batch. -/
theorem run_of_closed {q : RecordQueue T} (hc : q.closed = true)
    (h : machine.run q ls = some (q', es)) : accepted es = [] ∧
      (batches es = [] ∨ (batches es).length = 1 ∧ q'.queue = []) ∧ q'.closed = true := by
  refine Machine.invariant (P := fun es (q' : RecordQueue T) => accepted es = [] ∧
    (batches es = [] ∨ (batches es).length = 1 ∧ q'.queue = []) ∧ q'.closed = true)
    ⟨rfl, .inl rfl, hc⟩ ?_ h
  rintro es q l q' e ⟨h1, h2, h3⟩ hs
  cases Step.of_step hs with
  | accept hopen => simp [h3] at hopen
  | refuse | stop | close => exact ⟨by simp [h1], by simpa using h2, by simp [h3]⟩
  | batch hne =>
    refine ⟨by simp [h1], .inr ⟨?_, rfl⟩, h3⟩
    rcases h2 with h2 | ⟨-, h2⟩
    · simp [h2]
    · exact absurd h2 hne

/-- **The hand-off contract.** In every reachable state the records accepted so far are, in order,
those delivered followed by those queued; the queue is within its bound; a push is refused exactly
when the queue is closed or full since the last batch; after `close` nothing is accepted and at most
one batch is handed out; and when `popAll` returns false, everything ever accepted was delivered. -/
theorem exactly_once {q₀ q : RecordQueue T} (h : machine.run (q₀.open cap) ls = some (q, es)) :
    accepted es = delivered es ++ q.queue ∧
    q.queue.length ≤ cap ∧
    (∀ x, (q.push x).1 = false ↔
      Event.closed ∈ es ∨ (accepted (sincePopAll es)).length = cap) ∧
    (Event.closed ∈ es → ∀ ls' q' es', machine.run q ls' = some (q', es') →
      accepted es' = [] ∧ (batches es').length ≤ 1) ∧
    (q.popAll.1 = .stop → ∀ ls' q' es', machine.run q ls' = some (q', es') →
      accepted (es ++ es') = delivered es) := by
  have H := Inv.of_run h
  have hle := H.length_le
  refine ⟨accepted_eq h, hle, fun x => ?_, fun hc ls' q' es' h' => ?_, fun hs ls' q' es' h' => ?_⟩
  · rw [push_eq_false_iff, H.closed_iff, ← H.queue_eq, H.capacity_eq]
    exact or_congr_right ⟨fun h => Nat.le_antisymm hle h, fun h => h ▸ Nat.le_refl _⟩
  · obtain ⟨h1, h2, -⟩ := run_of_closed (H.closed_iff.mpr hc) h'
    refine ⟨h1, ?_⟩
    rcases h2 with h2 | ⟨h2, -⟩ <;> simp [h2]
  · obtain ⟨hq, hc⟩ := popAll_eq_stop hs
    rw [accepted_append, (run_of_closed hc h').1, List.append_nil, accepted_eq h, hq, List.append_nil]

/-- A bound of one: the second push is refused, the first record is handed out. -/
theorem exactly_once_one :
    accepted [.pushed 5 true, .pushed 6 false, .closed, .popped [5]] =
      delivered [.pushed 5 true, .pushed 6 false, .closed, .popped [5]] ++ ([] : List Nat) :=
  (exactly_once (show machine.run (({} : RecordQueue Nat).open 1)
    [.push 5, .push 6, .close, .popAll] = some (⟨[], 1, true⟩, _) from rfl)).1

end RecordQueue
end Kist
