import KistCollector.Lib.Machine
import Mathlib.Logic.Function.Basic

/-!
# Monitors

A monitor is a state behind a mutex, with a condition variable on which one waiter sleeps. A caller locks
the mutex, updates the state, unlocks it and then, unless the update was silent, notifies. The waiter locks
the mutex and tests whether the state is ready: if not it releases the mutex and sleeps, else it takes.
`Monitor.machine` interleaves these steps, of any number of callers, with spurious wake-ups.

No wake-up is lost if no silent update makes the state ready (`Monitor.no_lost_wakeup`). If a call leaves
the state ready for good, the waiter is awake once it returned (`Monitor.awake_of_returned`) and can come
to its end (`Monitor.exists_done`).
-/

/-- The critical sections of a monitor. -/
structure Monitor (σ ι ε : Type) where
  /-- A caller's: whether it will notify, the new state, and what it shows. -/
  update : σ → ι → Bool × σ × List ε
  /-- What the waiter waits for. -/
  ready : σ → Bool
  /-- The waiter's: whether it comes back, the new state, and what it shows. -/
  take : σ → Bool × σ × List ε

namespace Monitor

variable {σ τ ι ε : Type}

inductive Holder (τ : Type) where
  | free
  | waiter
  | caller (t : τ)
  deriving DecidableEq

/-- Where a caller is, and in which call. -/
inductive Caller (ι : Type) where
  | idle
  | locked (i : ι)
  | updated (i : ι) (notifies : Bool)
  | unlocked (i : ι)
  | returned (i : ι)
  deriving DecidableEq

inductive Waiter where
  | outside
  | locked
  | unready
  | asleep
  | woken
  | ready
  | done
  deriving DecidableEq

/-- The caller holds the mutex. -/
def Caller.Holds : Caller ι → Prop
  | .locked _ | .updated _ _ => True
  | .idle | .unlocked _ | .returned _ => False

/-- The caller has updated the state and has yet to notify. -/
def Caller.Signals : Caller ι → Prop
  | .updated _ true | .unlocked _ => True
  | .idle | .locked _ | .updated _ false | .returned _ => False

/-- The waiter holds the mutex. -/
def Waiter.Holds : Waiter → Prop
  | .locked | .unready | .ready => True
  | .outside | .asleep | .woken | .done => False

structure State (σ τ ι : Type) where
  inner : σ
  mutex : Holder τ
  callers : τ → Caller ι
  waiter : Waiter

def init (x : σ) : State σ τ ι := ⟨x, .free, fun _ => .idle, .outside⟩

inductive Label (τ ι : Type) where
  | lock (t : τ) (i : ι)
  | update (t : τ)
  | unlock (t : τ)
  | notify (t : τ)
  | enter
  | test
  | sleep
  | wake
  | take

variable [DecidableEq τ]

def State.move (s : State σ τ ι) (t : τ) (c : Caller ι) : State σ τ ι :=
  { s with callers := Function.update s.callers t c }

@[simp] theorem State.move_inner (s : State σ τ ι) : (s.move t c).inner = s.inner := rfl

@[simp] theorem State.move_mutex (s : State σ τ ι) : (s.move t c).mutex = s.mutex := rfl

@[simp] theorem State.move_waiter (s : State σ τ ι) : (s.move t c).waiter = s.waiter := rfl

theorem State.move_callers (s : State σ τ ι) (t u : τ) (c : Caller ι) :
    (s.move t c).callers u = if u = t then c else s.callers u := Function.update_apply ..

/-- `notify_one`. -/
def State.notify (s : State σ τ ι) : State σ τ ι :=
  { s with waiter := if s.waiter = .asleep then .woken else s.waiter }

omit [DecidableEq τ] in
@[simp] theorem State.notify_inner (s : State σ τ ι) : s.notify.inner = s.inner := rfl

omit [DecidableEq τ] in
@[simp] theorem State.notify_mutex (s : State σ τ ι) : s.notify.mutex = s.mutex := rfl

omit [DecidableEq τ] in
@[simp] theorem State.notify_callers (s : State σ τ ι) : s.notify.callers = s.callers := rfl

omit [DecidableEq τ] in
theorem State.notify_waiter (s : State σ τ ι) :
    s.notify.waiter = if s.waiter = .asleep then .woken else s.waiter := rfl

omit [DecidableEq τ] in
theorem State.notify_awake (s : State σ τ ι) : s.notify.waiter ≠ .asleep := by
  rw [notify_waiter]
  split
  case isTrue => exact nofun
  case isFalse hw => exact hw

def machine (M : Monitor σ ι ε) : Machine (State σ τ ι) (Label τ ι) ε where
  step s
    | .lock t i =>
      match s.mutex, s.callers t with
      | .free, .idle | .free, .returned _ => some ({ s with mutex := .caller t }.move t (.locked i), [])
      | _, _ => none
    | .update t =>
      match s.callers t with
      | .locked i =>
        let (notifies, x, es) := M.update s.inner i
        some ({ s with inner := x }.move t (.updated i notifies), es)
      | _ => none
    | .unlock t =>
      match s.callers t with
      | .updated i notifies =>
        some ({ s with mutex := .free }.move t (if notifies then .unlocked i else .returned i), [])
      | _ => none
    | .notify t =>
      match s.callers t with
      | .unlocked i => some (s.notify.move t (.returned i), [])
      | _ => none
    | .enter =>
      match s.mutex, s.waiter with
      | .free, .outside | .free, .woken => some ({ s with mutex := .waiter, waiter := .locked }, [])
      | _, _ => none
    | .test =>
      match s.waiter with
      | .locked => some ({ s with waiter := if M.ready s.inner then .ready else .unready }, [])
      | _ => none
    -- releases the mutex and sleeps, in one step
    | .sleep =>
      match s.waiter with
      | .unready => some ({ s with mutex := .free, waiter := .asleep }, [])
      | _ => none
    -- a spurious wake-up
    | .wake =>
      match s.waiter with
      | .asleep => some ({ s with waiter := .woken }, [])
      | _ => none
    | .take =>
      match s.waiter with
      | .ready =>
        let (back, x, es) := M.take s.inner
        some ({ s with inner := x, mutex := .free, waiter := if back then .outside else .done }, es)
      | _ => none

/-- What one step can do. -/
inductive Step (M : Monitor σ ι ε) (s : State σ τ ι) : Label τ ι → State σ τ ι → List ε → Prop
  | lock : s.mutex = .free → s.callers t = .idle ∨ s.callers t = .returned j →
    Step M s (.lock t i) ({ s with mutex := .caller t }.move t (.locked i)) []
  | update : s.callers t = .locked i →
    Step M s (.update t)
      ({ s with inner := (M.update s.inner i).2.1 }.move t (.updated i (M.update s.inner i).1))
      (M.update s.inner i).2.2
  | unlock : s.callers t = .updated i true →
    Step M s (.unlock t) ({ s with mutex := .free }.move t (.unlocked i)) []
  | leave : s.callers t = .updated i false →
    Step M s (.unlock t) ({ s with mutex := .free }.move t (.returned i)) []
  | notify : s.callers t = .unlocked i → Step M s (.notify t) (s.notify.move t (.returned i)) []
  | enter : s.mutex = .free → s.waiter = .outside ∨ s.waiter = .woken →
    Step M s .enter { s with mutex := .waiter, waiter := .locked } []
  | pass : s.waiter = .locked → M.ready s.inner = true → Step M s .test { s with waiter := .ready } []
  | fail : s.waiter = .locked → M.ready s.inner = false → Step M s .test { s with waiter := .unready } []
  | sleep : s.waiter = .unready → Step M s .sleep { s with mutex := .free, waiter := .asleep } []
  | wake : s.waiter = .asleep → Step M s .wake { s with waiter := .woken } []
  | back : s.waiter = .ready → (M.take s.inner).1 = true →
    Step M s .take { s with inner := (M.take s.inner).2.1, mutex := .free, waiter := .outside }
      (M.take s.inner).2.2
  | done : s.waiter = .ready → (M.take s.inner).1 = false →
    Step M s .take { s with inner := (M.take s.inner).2.1, mutex := .free, waiter := .done }
      (M.take s.inner).2.2

variable {M : Monitor σ ι ε} {s s' : State σ τ ι}

theorem Step.of_step (h : M.machine.step s l = some (s', es)) : Step M s l s' es := by
  cases l with
  | lock t i =>
    simp only [machine] at h
    split at h
    case h_1 hm hc => cases h; exact .lock (j := i) hm (.inl hc)
    case h_2 j hm hc => cases h; exact .lock hm (.inr hc)
    case h_3 => cases h
  | update t =>
    simp only [machine] at h
    split at h
    case h_1 i hc => cases h; exact .update hc
    case h_2 => cases h
  | unlock t =>
    simp only [machine] at h
    split at h
    case h_1 i notifies hc =>
      cases notifies with
      | true => cases h; exact .unlock hc
      | false => cases h; exact .leave hc
    case h_2 => cases h
  | notify t =>
    simp only [machine] at h
    split at h
    case h_1 i hc => cases h; exact .notify hc
    case h_2 => cases h
  | enter =>
    simp only [machine] at h
    split at h
    case h_1 hm hw => cases h; exact .enter hm (.inl hw)
    case h_2 hm hw => cases h; exact .enter hm (.inr hw)
    case h_3 => cases h
  | test =>
    simp only [machine] at h
    split at h
    case h_1 hw =>
      cases hr : M.ready s.inner with
      | true => rw [hr] at h; cases h; exact .pass hw hr
      | false => rw [hr] at h; cases h; exact .fail hw hr
    case h_2 => cases h
  | sleep =>
    simp only [machine] at h
    split at h
    case h_1 hw => cases h; exact .sleep hw
    case h_2 => cases h
  | wake =>
    simp only [machine] at h
    split at h
    case h_1 hw => cases h; exact .wake hw
    case h_2 => cases h
  | take =>
    simp only [machine] at h
    split at h
    case h_1 hw =>
      cases hb : (M.take s.inner).1 with
      | true => rw [hb] at h; cases h; exact .back hw hb
      | false => rw [hb] at h; cases h; exact .done hw hb
    case h_2 => cases h

theorem Step.step_eq (h : Step M s l s' es) : M.machine.step s l = some (s', es) := by
  cases h with
  | lock hfree hout =>
    simp only [machine]
    rcases hout with hc | hc <;> rw [hfree, hc]
  | update hc | notify hc =>
    simp only [machine]
    rw [hc]
  | unlock hc | leave hc =>
    simp only [machine]
    rw [hc]
    rfl
  | enter hfree hw =>
    simp only [machine]
    rcases hw with hw | hw <;> rw [hfree, hw]
  | pass hw hr | fail hw hr =>
    simp only [machine]
    rw [hw, hr]
    rfl
  | sleep hw | wake hw =>
    simp only [machine]
    rw [hw]
  | back hw hb | done hw hb =>
    simp only [machine]
    rw [hw, hb]
    rfl

/-! ## Who holds the mutex -/

/-- The mutex is held by the thread that is inside its critical section. -/
structure Exclusive (s : State σ τ ι) : Prop where
  caller : ∀ u, s.mutex = .caller u ↔ (s.callers u).Holds
  waiter : s.mutex = .waiter ↔ s.waiter.Holds

omit [DecidableEq τ] in
theorem Exclusive.init (x : σ) : Exclusive (Monitor.init x : State σ τ ι) :=
  ⟨fun _ => ⟨nofun, nofun⟩, ⟨nofun, nofun⟩⟩

/-- A step of the caller `t` that leaves the other callers as they are. -/
theorem Exclusive.move (H : Exclusive s) {m : Holder τ} (ht : m = .caller t ↔ c.Holds)
    (hne : ∀ u, u ≠ t → (m = .caller u ↔ s.mutex = .caller u)) :
    ∀ u, m = .caller u ↔ ((s.move t c).callers u).Holds := by
  intro u
  rw [State.move_callers]
  by_cases hu : u = t
  · rw [if_pos hu, hu]
    exact ht
  · rw [if_neg hu]
    exact (hne u hu).trans (H.caller u)

omit [DecidableEq τ] in
theorem Exclusive.notify (H : Exclusive s) : Exclusive s.notify := by
  refine ⟨H.caller, ?_⟩
  rw [State.notify_waiter]
  split
  case isTrue hw =>
    have hwaiter := H.waiter
    rw [hw] at hwaiter
    exact hwaiter
  case isFalse => exact H.waiter

theorem Exclusive.next (H : Exclusive s) (h : Step M s l s' es) : Exclusive s' := by
  have hcaller := H.caller
  have hwaiter := H.waiter
  cases h with
  | @lock t j i hfree hout =>
    rw [hfree] at hcaller hwaiter
    refine ⟨H.move (by simp [Caller.Holds]) fun u hu => ?_, ?_⟩
    · simp [hfree, Ne.symm hu]
    · exact ⟨nofun, fun hw => absurd (hwaiter.mpr hw) nofun⟩
  | update hc =>
    have hheld := (hcaller _).mpr (by rw [hc]; trivial)
    exact ⟨H.move (by simp [hheld, Caller.Holds]) fun _ _ => Iff.rfl, hwaiter⟩
  | unlock hc | leave hc =>
    have hheld := (hcaller _).mpr (by rw [hc]; trivial)
    rw [hheld] at hwaiter
    refine ⟨H.move (by simp [Caller.Holds]) fun u hu => ?_, ?_⟩
    · simp [hheld, Ne.symm hu]
    · exact ⟨nofun, fun hw => absurd (hwaiter.mpr hw) nofun⟩
  | @notify t i hc =>
    have hnot : s.mutex ≠ .caller t := fun hm => by simpa [hc, Caller.Holds] using (hcaller t).mp hm
    exact ⟨H.notify.move (by simp [hnot, Caller.Holds]) fun _ _ => Iff.rfl, H.notify.waiter⟩
  | enter hfree hw =>
    rw [hfree] at hcaller
    exact ⟨fun u => ⟨nofun, fun hu => absurd ((hcaller u).mpr hu) nofun⟩, by simp [Waiter.Holds]⟩
  | pass hw | fail hw =>
    rw [hw] at hwaiter
    exact ⟨hcaller, hwaiter⟩
  | sleep hw | back hw | done hw =>
    have hheld := hwaiter.mpr (by rw [hw]; trivial)
    rw [hheld] at hcaller
    exact ⟨fun u => ⟨nofun, fun hu => absurd ((hcaller u).mpr hu) nofun⟩, by simp [Waiter.Holds]⟩
  | wake hw =>
    rw [hw] at hwaiter
    exact ⟨hcaller, hwaiter⟩

omit [DecidableEq τ] in
/-- While the waiter holds the mutex no caller does. -/
theorem Exclusive.not_holds (H : Exclusive s) (hw : s.waiter.Holds) (t : τ) : ¬(s.callers t).Holds := by
  intro hc
  cases (H.waiter.mpr hw).symm.trans ((H.caller t).mpr hc)

/-! ## No lost wake-up -/

/-- No silent update makes the state ready. -/
def Announces (M : Monitor σ ι ε) : Prop :=
  ∀ x i, (M.update x i).1 = false → M.ready (M.update x i).2.1 = true → M.ready x = true

/-- What the waiter found when it tested still holds until it acts on it, and while it sleeps although
the state is ready, a caller has yet to notify. -/
structure Inv (M : Monitor σ ι ε) (s : State σ τ ι) : Prop extends Exclusive s where
  unready : s.waiter = .unready → M.ready s.inner = false
  ready : s.waiter = .ready → M.ready s.inner = true
  asleep : s.waiter = .asleep → M.ready s.inner = true → ∃ t, (s.callers t).Signals

omit [DecidableEq τ] in
theorem Inv.init (x : σ) : Inv M (Monitor.init x : State σ τ ι) :=
  ⟨.init x, nofun, nofun, nofun⟩

omit [DecidableEq τ] in
theorem Inv.notify (H : Inv M s) : Inv M s.notify := by
  refine ⟨H.toExclusive.notify, ?_, ?_, fun hw => absurd hw s.notify_awake⟩
  all_goals
    intro hw
    rw [State.notify_waiter] at hw
    split at hw
    case isTrue => cases hw
  · exact H.unready hw
  · exact H.ready hw

/-- A caller that had nothing to notify moves on: who had, still has. -/
theorem exists_signals_move (ht : ¬(s.callers t).Signals) (h : ∃ u, (s.callers u).Signals)
    (c : Caller ι) : ∃ u, ((s.move t c).callers u).Signals := by
  obtain ⟨u, hu⟩ := h
  have hne : u ≠ t := fun heq => ht (heq ▸ hu)
  exact ⟨u, by rwa [State.move_callers, if_neg hne]⟩

theorem signals_move {c : Caller ι} (h : c.Signals) (s : State σ τ ι) (t : τ) :
    ∃ u, ((s.move t c).callers u).Signals := ⟨t, by rwa [State.move_callers, if_pos rfl]⟩

theorem Inv.next (hM : M.Announces) (H : Inv M s) (h : Step M s l s' es) : Inv M s' := by
  have hexclusive := H.toExclusive.next h
  cases h with
  | lock hfree hout =>
    refine ⟨hexclusive, H.unready, H.ready, fun hw hr => ?_⟩
    exact exists_signals_move (by rcases hout with h | h <;> simp [h, Caller.Signals]) (H.asleep hw hr) _
  | @update t i hc =>
    -- the caller holds the mutex, so the waiter is not about to act on a test
    have hnot : ¬s.waiter.Holds := fun hw => H.not_holds hw t (by rw [hc]; trivial)
    refine ⟨hexclusive, fun hw => ?_, fun hw => ?_, fun hw hr => ?_⟩
    · exact absurd (show s.waiter.Holds by rw [show s.waiter = .unready from hw]; trivial) hnot
    · exact absurd (show s.waiter.Holds by rw [show s.waiter = .ready from hw]; trivial) hnot
    · cases hn : (M.update s.inner i).1 with
      | true => exact signals_move (c := .updated i true) trivial _ t
      | false =>
        exact exists_signals_move (by simp [hc, Caller.Signals]) (H.asleep hw (hM _ _ hn hr)) _
  | @unlock t i hc =>
    exact ⟨hexclusive, H.unready, H.ready, fun _ _ => signals_move (c := .unlocked i) trivial _ t⟩
  | leave hc =>
    refine ⟨hexclusive, H.unready, H.ready, fun hw hr => ?_⟩
    exact exists_signals_move (by simp [hc, Caller.Signals]) (H.asleep hw hr) _
  | notify hc =>
    exact ⟨hexclusive, H.notify.unready, H.notify.ready, fun hw => absurd hw s.notify_awake⟩
  | enter | wake | back | done => exact ⟨hexclusive, nofun, nofun, nofun⟩
  | pass hw hr => exact ⟨hexclusive, nofun, fun _ => hr, nofun⟩
  | fail hw hr => exact ⟨hexclusive, fun _ => hr, nofun, nofun⟩
  | sleep hw =>
    refine ⟨hexclusive, nofun, nofun, fun _ hr => ?_⟩
    rw [H.unready hw] at hr
    cases hr

theorem Inv.of_run (hM : M.Announces) (h : M.machine.run (Monitor.init x) ls = some (s, es)) : Inv M s :=
  Machine.invariant (P := fun _ s => Inv M s) (.init x) (fun H hs => H.next hM (.of_step hs)) h

/-- **No lost wake-up.** If the waiter sleeps although the state is ready, a caller that has updated the
state has yet to notify. -/
theorem no_lost_wakeup (hM : M.Announces) (h : M.machine.run (init x) ls = some (s, es))
    (hw : s.waiter = .asleep) (hr : M.ready s.inner = true) : ∃ t, (s.callers t).Signals :=
  (Inv.of_run hM h).asleep hw hr

/-- If no caller holds the mutex, that caller has unlocked it. -/
theorem no_lost_wakeup_free (hM : M.Announces) (h : M.machine.run (init x) ls = some (s, es))
    (hw : s.waiter = .asleep) (hr : M.ready s.inner = true) (hfree : ∀ t, s.mutex ≠ .caller t) :
    ∃ t i, s.callers t = .unlocked i := by
  have H := Inv.of_run hM h
  obtain ⟨t, ht⟩ := H.asleep hw hr
  have hnot : ¬(s.callers t).Holds := fun hc => hfree t ((H.caller t).mpr hc)
  refine ⟨t, ?_⟩
  cases hc : s.callers t with
  | unlocked i => exact ⟨i, rfl⟩
  | updated => exact absurd (by rw [hc]; trivial) hnot
  | idle | locked | returned => simp [hc, Caller.Signals] at ht

/-! ## Calls that end the waiting -/

/-- Once `K` holds it stays, and the state is ready. -/
structure Latch (M : Monitor σ ι ε) (K : σ → Prop) : Prop where
  ready : ∀ {x}, K x → M.ready x = true
  update : ∀ {x} i, K x → K (M.update x i).2.1
  take : ∀ {x}, K x → K (M.take x).2.1

/-- The call `i` makes `K` hold, and notifies. -/
def Closes (M : Monitor σ ι ε) (K : σ → Prop) (i : ι) : Prop :=
  ∀ x, (M.update x i).1 = true ∧ K (M.update x i).2.1

def Awake (K : σ → Prop) (s : State σ τ ι) : Prop := K s.inner ∧ s.waiter ≠ .asleep

variable {K : σ → Prop}

theorem Latch.next (L : Latch M K) (hK : K s.inner) (h : Step M s l s' es) : K s'.inner := by
  cases h with
  | update => exact L.update _ hK
  | back | done => exact L.take hK
  | lock | unlock | leave | notify | enter | pass | fail | sleep | wake => exact hK

theorem Awake.next (L : Latch M K) (H : Inv M s) (hA : Awake K s) (h : Step M s l s' es) :
    Awake K s' := by
  refine ⟨L.next hA.1 h, ?_⟩
  cases h with
  | lock | update | unlock | leave => exact hA.2
  | notify => exact s.notify_awake
  | enter | pass | fail | wake | back | done => exact nofun
  | sleep hw => exact fun _ => by simpa [H.unready hw] using L.ready hA.1

/-- How far a call of `i` is: it has made `K` hold, and once it returned the waiter is awake. -/
def Caller.Told (K : Prop) (A : Prop) (i : ι) : Caller ι → Prop
  | .idle | .locked _ => True
  | .updated j notifies => j = i → notifies = true ∧ K
  | .unlocked j => j = i → K
  | .returned j => j = i → A

omit [DecidableEq τ] in
theorem Caller.Told.mono {K K' A A' : Prop} (hK : K → K') (hA : A → A') {c : Caller ι}
    (h : c.Told K A i) : c.Told K' A' i := by
  cases c with
  | idle | locked => trivial
  | updated => exact fun hj => ⟨(h hj).1, hK (h hj).2⟩
  | unlocked => exact fun hj => hK (h hj)
  | returned => exact fun hj => hA (h hj)

theorem told_next (L : Latch M K) (hi : M.Closes K i) (H : Inv M s)
    (hT : ∀ t, (s.callers t).Told (K s.inner) (Awake K s) i) (h : Step M s l s' es) :
    ∀ t, (s'.callers t).Told (K s'.inner) (Awake K s') i := by
  have hothers : ∀ u, (s.callers u).Told (K s'.inner) (Awake K s') i := fun u =>
    (hT u).mono (fun hK => L.next hK h) fun hA => hA.next L H h
  have hmoved : ∀ {s₁ : State σ τ ι} {t : τ} {c : Caller ι}, s₁.callers = s.callers →
      c.Told (K s'.inner) (Awake K s') i → ∀ u, ((s₁.move t c).callers u).Told (K s'.inner) (Awake K s') i := by
    intro s₁ t c hs₁ hc u
    rw [State.move_callers, hs₁]
    split
    case isTrue => exact hc
    case isFalse => exact hothers u
  cases h with
  | lock => exact hmoved rfl trivial
  | update =>
    refine hmoved rfl fun hj => ?_
    subst hj
    exact hi s.inner
  | @unlock t j hc =>
    have ht := hT t
    rw [hc] at ht
    exact hmoved rfl fun hj => (ht hj).2
  | @leave t j hc =>
    have ht := hT t
    rw [hc] at ht
    exact hmoved rfl fun hj => Bool.noConfusion (ht hj).1
  | @notify t j hc =>
    have ht := hT t
    rw [hc] at ht
    exact hmoved rfl fun hj => ⟨ht hj, s.notify_awake⟩
  | enter | pass | fail | sleep | wake | back | done => exact hothers

/-- Once a closing call returned, the waiter is awake. -/
theorem awake_of_returned (hM : M.Announces) (L : Latch M K) (hi : M.Closes K i)
    (h : M.machine.run (init x) ls = some (s, es)) (ht : s.callers t = .returned i) : Awake K s := by
  have H : Inv M s ∧ ∀ u, (s.callers u).Told (K s.inner) (Awake K s) i := by
    refine Machine.invariant (P := fun _ s => Inv M s ∧ ∀ u, (s.callers u).Told (K s.inner) (Awake K s) i)
      ⟨.init x, fun _ => trivial⟩ ?_ h
    rintro es s l s' e ⟨H, hT⟩ hs
    exact ⟨H.next hM (.of_step hs), told_next L hi H hT (.of_step hs)⟩
  have hT := H.2 t
  rw [ht] at hT
  exact hT rfl

/-! ## Coming to an end -/

/-- Under `K`, coming back lowers the rank, and nothing raises it. -/
structure Drains (M : Monitor σ ι ε) (K : σ → Prop) (rank : σ → Nat) : Prop where
  update : ∀ {x} i, K x → rank (M.update x i).2.1 ≤ rank x
  take : ∀ {x}, K x → rank (M.take x).2.1 ≤ rank x
  back : ∀ {x}, K x → (M.take x).1 = true → rank (M.take x).2.1 < rank x

def Waiter.steps : Waiter → Nat
  | .done => 0
  | .ready => 1
  | .locked => 2
  | .outside | .woken => 3
  | .unready | .asleep => 4

def Caller.steps : Caller ι → Nat
  | .locked _ => 2
  | .updated _ _ => 1
  | .idle | .unlocked _ | .returned _ => 0

/-- Bounds the steps to the waiter's end, if the mutex is released as soon as possible. -/
def State.steps (rank : σ → Nat) (s : State σ τ ι) : Nat :=
  4 * rank s.inner + s.waiter.steps +
    match s.mutex with
    | .caller t => (s.callers t).steps
    | .free | .waiter => 0

theorem exists_step {rank : σ → Nat} (L : Latch M K) (D : Drains M K rank) (H : Inv M s)
    (hA : Awake K s) (hdone : s.waiter ≠ .done) :
    ∃ l s' es, Step M s l s' es ∧ s'.steps rank < s.steps rank := by
  cases hm : s.mutex with
  | caller t =>
    have hc := (H.caller t).mp hm
    cases ht : s.callers t with
    | locked i =>
      refine ⟨_, _, _, .update ht, ?_⟩
      have hle := D.update i hA.1
      simp [State.steps, hm, ht, State.move_callers, Caller.steps]
      omega
    | updated i b =>
      cases b with
      | true =>
        refine ⟨_, _, _, .unlock ht, ?_⟩
        simp [State.steps, hm, ht, Caller.steps]
      | false =>
        refine ⟨_, _, _, .leave ht, ?_⟩
        simp [State.steps, hm, ht, Caller.steps]
    | idle | unlocked | returned => simp [ht, Caller.Holds] at hc
  | waiter =>
    have hw := H.waiter.mp hm
    cases ht : s.waiter with
    | locked =>
      refine ⟨_, _, _, .pass ht (L.ready hA.1), ?_⟩
      simp [State.steps, hm, ht, Waiter.steps]
    | ready =>
      cases hb : (M.take s.inner).1 with
      | true =>
        refine ⟨_, _, _, .back ht hb, ?_⟩
        have hlt := D.back hA.1 hb
        simp [State.steps, hm, ht, Waiter.steps]
        omega
      | false =>
        refine ⟨_, _, _, .done ht hb, ?_⟩
        have hle := D.take hA.1
        simp [State.steps, hm, ht, Waiter.steps]
        omega
    | unready =>
      have hr := H.unready ht
      rw [L.ready hA.1] at hr
      cases hr
    | outside | asleep | woken | done => simp [ht, Waiter.Holds] at hw
  | free =>
    have hw : ¬s.waiter.Holds := fun hw => by simpa [hm] using H.waiter.mpr hw
    cases ht : s.waiter with
    | outside =>
      refine ⟨_, _, _, .enter hm (.inl ht), ?_⟩
      simp [State.steps, hm, ht, Waiter.steps]
    | woken =>
      refine ⟨_, _, _, .enter hm (.inr ht), ?_⟩
      simp [State.steps, hm, ht, Waiter.steps]
    | asleep => exact absurd ht hA.2
    | done => exact absurd ht hdone
    | locked | unready | ready => simp [ht, Waiter.Holds] at hw

/-- From an awake state the waiter can come to its end. -/
theorem exists_done {rank : σ → Nat} (hM : M.Announces) (L : Latch M K) (D : Drains M K rank)
    (H : Inv M s) (hA : Awake K s) :
    ∃ ls s' es, M.machine.run s ls = some (s', es) ∧ s'.waiter = .done := by
  induction hn : s.steps rank using Nat.strong_induction_on generalizing s with
  | _ n ih =>
    by_cases hdone : s.waiter = .done
    · exact ⟨[], s, [], rfl, hdone⟩
    · obtain ⟨l, s₁, e₁, hs, hlt⟩ := exists_step L D H hA hdone
      obtain ⟨ls, s', es, hrun, hw⟩ := ih _ (hn ▸ hlt) (H.next hM hs) (hA.next L H hs) rfl
      exact ⟨l :: ls, s', e₁ ++ es, Machine.run_cons.mpr ⟨s₁, e₁, es, hs.step_eq, hrun, rfl⟩, hw⟩

end Monitor
