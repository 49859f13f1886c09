import Mathlib.Algebra.Order.Ring.Nat
import Mathlib.Data.List.Induction

/-!
# Labelled machines and their runs

A machine takes one step per label and shows a list of events with each step. Concurrent
programs are machines whose labels say which thread moves and what the environment answers, so
that a schedule is a list of labels and "every interleaving" is every list of labels.

The rules below are the only ones used to reason about runs: `Machine.run_induction` (and
`Machine.invariant`) for what one step preserves, `Machine.simulate` and `Machine.project` for
one machine following another, and `Machine.Along` for a condition on every step of a run. A
condition that decides at each step whether a property is kept decides it for the run
(`Machine.throughout_iff_along`). Histories are read with `seen`.
-/

/-- What an observer that reads events through `f` sees of a history. -/
def seen (f : ε → Option α) (es : List ε) : List α := es.filterMap f

@[simp] theorem seen_nil (f : ε → Option α) : seen f [] = [] := rfl

@[simp] theorem seen_append (f : ε → Option α) (es es' : List ε) :
    seen f (es ++ es') = seen f es ++ seen f es' := List.filterMap_append

@[simp] theorem seen_singleton (f : ε → Option α) (e : ε) : seen f [e] = (f e).toList := by
  cases h : f e <;> simp [seen, h]

theorem seen_filterMap (f : δ → Option α) (g : ε → Option δ) (es : List ε) :
    seen f (es.filterMap g) = seen (fun e => (g e).bind f) es := List.filterMap_filterMap

/-- `step s l` is the state reached from `s` by `l` together with the events the step shows, and
`none` where `s` does not allow `l`. -/
structure Machine (σ ℓ ε : Type) where
  step : σ → ℓ → Option (σ × List ε)

namespace Machine

variable {σ ℓ ε τ κ δ : Type}

/-- The state a schedule leads to, with the events shown on the way. -/
def run (M : Machine σ ℓ ε) : σ → List ℓ → Option (σ × List ε)
  | s, [] => some (s, [])
  | s, l :: ls => (M.step s l).bind fun p => (run M p.1 ls).map fun q => (q.1, p.2 ++ q.2)

variable {M : Machine σ ℓ ε} {N : Machine τ κ δ}

@[simp] theorem run_nil : M.run s [] = some (s, []) := rfl

theorem run_cons : M.run s (l :: ls) = some (s', es) ↔
    ∃ s₁ e₁ e₂, M.step s l = some (s₁, e₁) ∧ M.run s₁ ls = some (s', e₂) ∧ es = e₁ ++ e₂ := by
  simp only [run, Option.bind_eq_some_iff, Option.map_eq_some_iff, Prod.exists, Prod.mk.injEq]
  constructor
  · rintro ⟨s₁, e₁, hstep, s₂, e₂, hrun, rfl, rfl⟩
    exact ⟨s₁, e₁, e₂, hstep, hrun, rfl⟩
  · rintro ⟨s₁, e₁, e₂, hstep, hrun, rfl⟩
    exact ⟨s₁, e₁, hstep, s', e₂, hrun, rfl, rfl⟩

theorem run_append : M.run s (ls ++ ls') = some (s', es) ↔
    ∃ s₁ e₁ e₂, M.run s ls = some (s₁, e₁) ∧ M.run s₁ ls' = some (s', e₂) ∧ es = e₁ ++ e₂ := by
  induction ls generalizing s es with
  | nil => simp
  | cons l ls ih =>
    simp only [List.cons_append, run_cons, ih]
    constructor
    · rintro ⟨s₁, e₁, _, hstep, ⟨s₂, e₂, e₃, h2, h3, rfl⟩, rfl⟩
      exact ⟨s₂, e₁ ++ e₂, e₃, ⟨s₁, e₁, e₂, hstep, h2, rfl⟩, h3, by simp⟩
    · rintro ⟨s₂, _, e₃, ⟨s₁, e₁, e₂, hstep, h2, rfl⟩, h3, rfl⟩
      exact ⟨s₁, e₁, e₂ ++ e₃, hstep, ⟨s₂, e₂, e₃, h2, h3, rfl⟩, by simp⟩

theorem run_singleton : M.run s [l] = M.step s l := by
  cases h : M.step s l <;> simp [run, h]

theorem run_snoc : M.run s (ls ++ [l]) = some (s', es) ↔
    ∃ s₁ e₁ e₂, M.run s ls = some (s₁, e₁) ∧ M.step s₁ l = some (s', e₂) ∧ es = e₁ ++ e₂ := by
  simp only [run_append, run_singleton]

/-- A run on fixed inputs can be evaluated: where it ends in a state that passes a test, what follows
from the run and the test holds of it. -/
theorem exists_run {P : σ × List ε → Prop} [DecidablePred P] {Q : σ → List ε → Prop}
    (h : (M.run s ls).any (fun p => decide (P p)) = true)
    (hq : ∀ s' es, M.run s ls = some (s', es) → P (s', es) → Q s' es) :
    ∃ s' es, M.run s ls = some (s', es) ∧ Q s' es := by
  cases hrun : M.run s ls with
  | none => simp [hrun] at h
  | some p => exact ⟨p.1, p.2, rfl, hq p.1 p.2 hrun (by simpa [hrun] using h)⟩

/-- The same where the start state is computed too. -/
theorem exists_run_from {P : σ × List ε → Prop} [DecidablePred P] {Q : σ → List ε → Prop}
    {o : Option σ}
    (h : o.any (fun s => (M.run s ls).any fun p => decide (P p)) = true)
    (hq : ∀ s s' es, o = some s → M.run s ls = some (s', es) → P (s', es) → Q s' es) :
    ∃ s s' es, o = some s ∧ M.run s ls = some (s', es) ∧ Q s' es := by
  cases o with
  | none => cases h
  | some s =>
    obtain ⟨s', es, hrun, hqs⟩ := exists_run (Q := Q) h fun s' es => hq s s' es rfl
    exact ⟨s, s', es, rfl, hrun, hqs⟩

/-- Induction over a run, one step at a time from its start. -/
theorem run_induction {P : List ℓ → List ε → σ → Prop} (nil : P [] [] s₀)
    (snoc : ∀ {ls es s l s' e}, M.run s₀ ls = some (s, es) → P ls es s →
      M.step s l = some (s', e) → P (ls ++ [l]) (es ++ e) s')
    (h : M.run s₀ ls = some (s, es)) : P ls es s := by
  induction ls using List.reverseRecOn generalizing s es with
  | nil => cases h; exact nil
  | append_singleton ls l ih =>
    obtain ⟨s₁, e₁, e₂, h1, h2, rfl⟩ := run_snoc.mp h
    exact snoc h1 (ih h1) h2

/-- Every step shows at most one event. -/
def OneEvent (M : Machine σ ℓ ε) : Prop :=
  ∀ {s l s' es}, M.step s l = some (s', es) → es.length ≤ 1

/-- An event of a run is shown by one of its steps. -/
theorem run_at_event (hM : M.OneEvent) (h : M.run s₀ ls = some (s, pre ++ e :: post)) :
    ∃ ls₁ l ls₂ s₁ s₂, ls = ls₁ ++ l :: ls₂ ∧ M.run s₀ ls₁ = some (s₁, pre) ∧
      M.step s₁ l = some (s₂, [e]) ∧ M.run s₂ ls₂ = some (s, post) := by
  induction ls generalizing s₀ pre with
  | nil => simp at h
  | cons l ls ih =>
    obtain ⟨s₁, e₁, e₂, hstep, hrun, heq⟩ := run_cons.mp h
    match e₁, hM hstep with
    | [], _ =>
      cases heq
      obtain ⟨ls₁, k, ls₂, t₁, t₂, rfl, h₁, hk, h₂⟩ := ih hrun
      exact ⟨l :: ls₁, k, ls₂, t₁, t₂, rfl, run_cons.mpr ⟨s₁, [], pre, hstep, h₁, rfl⟩, hk, h₂⟩
    | [x], _ =>
      cases pre with
      | nil =>
        cases heq
        exact ⟨[], l, ls, s₀, s₁, rfl, rfl, hstep, hrun⟩
      | cons y pre =>
        cases heq
        obtain ⟨ls₁, k, ls₂, t₁, t₂, rfl, h₁, hk, h₂⟩ := ih hrun
        exact ⟨l :: ls₁, k, ls₂, t₁, t₂, rfl, run_cons.mpr ⟨s₁, [x], pre, hstep, h₁, rfl⟩, hk, h₂⟩

/-- A relation between the events shown and the state, kept by every step, holds after every
run. -/
theorem invariant {P : List ε → σ → Prop} (nil : P [] s₀)
    (next : ∀ {es s l s' e}, P es s → M.step s l = some (s', e) → P (es ++ e) s')
    (h : M.run s₀ ls = some (s, es)) : P es s :=
  run_induction (P := fun _ es s => P es s) nil (fun _ hp hs => next hp hs) h

/-- `N` follows `M`: where each step of `M` is answered by steps of `N` that show `M`'s events
read through `g`, a run of `M` is answered by a run of `N`. -/
theorem simulate (R : σ → τ → Prop) (g : ε → Option δ)
    (next : ∀ {s t l s' e}, R s t → M.step s l = some (s', e) →
      ∃ ks t', N.run t ks = some (t', e.filterMap g) ∧ R s' t')
    (hR : R s₀ t₀) (h : M.run s₀ ls = some (s, es)) :
    ∃ ks t, N.run t₀ ks = some (t, es.filterMap g) ∧ R s t := by
  refine invariant (P := fun es s => ∃ ks t, N.run t₀ ks = some (t, es.filterMap g) ∧ R s t)
    ⟨[], t₀, rfl, hR⟩ ?_ h
  rintro es s l s' e ⟨ks, t, hrun, hst⟩ hs
  obtain ⟨ks', t', hrun', hst'⟩ := next hst hs
  exact ⟨ks ++ ks', t', run_append.mpr ⟨t, _, _, hrun, hrun', List.filterMap_append⟩, hst'⟩

/-- The special case of `simulate` where `N`'s state is a part of `M`'s. -/
theorem project (π : σ → τ) (g : ε → Option δ)
    (next : ∀ {s l s' e}, M.step s l = some (s', e) →
      ∃ ks, N.run (π s) ks = some (π s', e.filterMap g))
    (h : M.run s₀ ls = some (s, es)) : ∃ ks, N.run (π s₀) ks = some (π s, es.filterMap g) := by
  obtain ⟨ks, _, hrun, rfl⟩ := simulate (N := N) (fun s t => t = π s) g
    (fun {s t l s' e} hR hs => by
      subst hR
      obtain ⟨ks, hrun⟩ := next hs
      exact ⟨ks, _, hrun, rfl⟩) rfl h
  exact ⟨ks, hrun⟩

/-- Every step of the schedule meets `φ`, a condition on the events before the step, the state
before it and its label. -/
def Along (M : Machine σ ℓ ε) (φ : List ε → σ → ℓ → Prop) (s₀ : σ) (ls : List ℓ) : Prop :=
  ∀ pre l post, ls = pre ++ l :: post → ∀ s es, M.run s₀ pre = some (s, es) → φ es s l

theorem Along.of_append (H : M.Along φ s₀ (ls ++ ls')) : M.Along φ s₀ ls := by
  rintro pre l post rfl
  exact H pre l (post ++ ls') (by simp)

theorem Along.last (H : M.Along φ s₀ (ls ++ [l])) (h : M.run s₀ ls = some (s, es)) : φ es s l :=
  H ls l [] rfl s es h

/-- The condition on a schedule, step by step. -/
theorem along_snoc (h : M.run s₀ ls = some (s, es)) :
    M.Along φ s₀ (ls ++ [l]) ↔ M.Along φ s₀ ls ∧ φ es s l := by
  refine ⟨fun H => ⟨H.of_append, H.last h⟩, fun ⟨H, hlast⟩ pre k post heq t es' hrun => ?_⟩
  rcases List.eq_nil_or_concat post with rfl | ⟨post, k', rfl⟩
  · obtain ⟨rfl, hk⟩ := List.append_inj' heq rfl
    cases hk
    rw [h] at hrun
    cases hrun
    exact hlast
  · have hcut : ls ++ [l] = (pre ++ k :: post) ++ [k'] := by simpa using heq
    obtain ⟨rfl, -⟩ := List.append_inj' hcut rfl
    exact H pre k post rfl t es' hrun

/-- A condition evaluated at every step. -/
def check (M : Machine σ ℓ ε) (φ : List ε → σ → ℓ → Bool) : List ε → σ → List ℓ → Bool
  | _, _, [] => true
  | es, s, l :: ls => φ es s l && (M.step s l).all fun p => check M φ (es ++ p.2) p.1 ls

/-- On fixed inputs a condition on every step can be evaluated. -/
theorem along_of_check {φ : List ε → σ → ℓ → Prop} [∀ es s, DecidablePred (φ es s)]
    (h : M.check (fun es s l => decide (φ es s l)) [] s₀ ls = true) : M.Along φ s₀ ls := by
  suffices ∀ pre es₀, M.check (fun es s l => decide (φ es s l)) es₀ s₀ ls = true →
      ∀ l post, ls = pre ++ l :: post → ∀ s es, M.run s₀ pre = some (s, es) → φ (es₀ ++ es) s l from
    fun pre l post heq s es hrun => this pre [] h l post heq s es hrun
  clear h
  intro pre
  induction pre generalizing s₀ ls with
  | nil =>
    rintro es₀ h l post rfl s es ⟨⟩
    rw [List.append_nil]
    exact of_decide_eq_true (Bool.and_eq_true_iff.mp h).1
  | cons k pre ih =>
    rintro es₀ h l post rfl s es hrun
    obtain ⟨s₁, e₁, e₂, hstep, hrest, rfl⟩ := run_cons.mp hrun
    have htail := (Bool.and_eq_true_iff.mp h).2
    rw [hstep] at htail
    rw [← List.append_assoc]
    exact ih (es₀ ++ e₁) htail l post rfl s e₂ hrest

/-- Two conditions that agree at every step of a run before which the second held agree on the
run. -/
theorem along_iff_along {φ ψ : List ε → σ → ℓ → Prop}
    (step : ∀ {pre s es l s' e}, M.run s₀ pre = some (s, es) → M.Along φ s₀ pre →
      M.step s l = some (s', e) → (ψ es s l ↔ φ es s l))
    (h : M.run s₀ ls = some (s, es)) : M.Along ψ s₀ ls ↔ M.Along φ s₀ ls := by
  refine run_induction (P := fun ls _ _ => M.Along ψ s₀ ls ↔ M.Along φ s₀ ls) ?nil ?snoc h
  case nil =>
    have hnil : ∀ χ, M.Along χ s₀ [] := fun χ pre l post heq => by simp at heq
    exact iff_of_true (hnil ψ) (hnil φ)
  case snoc =>
    intro ls es s l s' e hrun ih hstep
    rw [along_snoc hrun, along_snoc hrun, ih]
    apply and_congr_right
    intro H
    exact step hrun H hstep

/-- `P` holds in every state the schedule leads through. -/
def Throughout (M : Machine σ ℓ ε) (P : List ε → σ → Prop) (s₀ : σ) (ls : List ℓ) : Prop :=
  ∀ pre post, ls = pre ++ post → ∀ s es, M.run s₀ pre = some (s, es) → P es s

theorem Throughout.last (H : M.Throughout P s₀ ls) (h : M.run s₀ ls = some (s, es)) : P es s :=
  H ls [] (List.append_nil ls).symm s es h

theorem throughout_snoc (h : M.run s₀ (ls ++ [l]) = some (s, es)) :
    M.Throughout P s₀ (ls ++ [l]) ↔ M.Throughout P s₀ ls ∧ P es s := by
  constructor
  · intro H
    refine ⟨?_, H.last h⟩
    rintro pre post rfl
    exact H pre (post ++ [l]) (by simp)
  · rintro ⟨H, hlast⟩ pre post heq t es' hrun
    rcases List.eq_nil_or_concat post with rfl | ⟨post, l', rfl⟩
    · rw [List.append_nil] at heq
      rw [← heq, h] at hrun
      cases hrun
      exact hlast
    · have hcut : ls ++ [l] = (pre ++ post) ++ [l'] := by simpa using heq
      obtain ⟨rfl, -⟩ := List.append_inj' hcut rfl
      exact H pre post rfl t es' hrun

/-- A condition that is exact at every step of a run is exact on the run. -/
theorem throughout_iff_along {P : List ε → σ → Prop} {φ : List ε → σ → ℓ → Prop} (nil : P [] s₀)
    (step : ∀ {pre s es l s' e}, M.run s₀ pre = some (s, es) → P es s →
      M.step s l = some (s', e) → (P (es ++ e) s' ↔ φ es s l))
    (h : M.run s₀ ls = some (s, es)) : M.Throughout P s₀ ls ↔ M.Along φ s₀ ls := by
  refine run_induction (P := fun ls _ _ => M.Throughout P s₀ ls ↔ M.Along φ s₀ ls) ?nil ?snoc h
  case nil =>
    refine iff_of_true ?_ ?_
    · intro pre post heq s es hrun
      obtain ⟨rfl, rfl⟩ := List.append_eq_nil_iff.mp heq.symm
      cases hrun
      exact nil
    · intro pre l post heq
      simp at heq
  case snoc =>
    intro ls es s l s' e hrun ih hstep
    rw [throughout_snoc (run_snoc.mpr ⟨s, es, e, hrun, hstep, rfl⟩), along_snoc hrun, ← ih]
    apply and_congr_right
    intro H
    exact step hrun (H.last hrun) hstep

end Machine

/-! ## Histories -/

/-- Every event of a history is allowed by the events before it. -/
def Admitted (φ : List ε → ε → Prop) (es : List ε) : Prop :=
  ∀ pre e post, es = pre ++ e :: post → φ pre e

variable {φ : List ε → ε → Prop}

theorem admitted_nil : Admitted φ [] := fun pre e post heq => by simp at heq

theorem Admitted.snoc (h : Admitted φ es) (he : φ es e) : Admitted φ (es ++ [e]) := by
  intro pre d post heq
  rcases List.eq_nil_or_concat post with rfl | ⟨post, c, rfl⟩
  · obtain ⟨rfl, hlast⟩ := List.append_inj' heq rfl
    cases hlast
    exact he
  · have hcut : es ++ [e] = (pre ++ d :: post) ++ [c] := by simpa using heq
    exact h pre d post (List.append_inj' hcut rfl).1

/-- Events that are allowed at any time. -/
theorem Admitted.append (h : Admitted φ es) (hall : ∀ e ∈ es', ∀ pre, φ pre e) : Admitted φ (es ++ es') := by
  induction es' using List.reverseRecOn with
  | nil => rwa [List.append_nil]
  | append_singleton es' e ih =>
    rw [← List.append_assoc]
    exact (ih fun d hd => hall d (by simp [hd])).snoc (hall e (by simp) _)
