/-!
# Loops with an early exit

A loop asks before each turn whether there is more to do, and a turn may leave it. `Loop.Turns` are the
turns taken so far, `Loop.Final` is where the loop is left. What the turns keep and the two exits end in
is proved by `Loop.Final.rule`, for a loop over a list by `Loop.Final.overList_rule`.
-/

/-- `while (more) turn`. The flag of a turn is false where it leaves the loop. -/
structure Loop (σ : Type) where
  more : σ → Bool
  turn : σ → σ × Bool

namespace Loop

variable {σ : Type}

/-- `n` turns that stay in the loop lead from `s` to `s'`. -/
inductive Turns (L : Loop σ) (s : σ) : Nat → σ → Prop where
  | zero : Turns L s 0 s
  | succ : Turns L s n s₁ → L.more s₁ = true → L.turn s₁ = (s', true) → Turns L s (n + 1) s'

/-- The loop that starts in `s` is left in `s'`, in its turn `n` or because there is no more to do. -/
inductive Final (L : Loop σ) (s : σ) : Nat → σ → Prop where
  | exhausted : L.Turns s n s' → L.more s' = false → Final L s n s'
  | leaves : L.Turns s n s₁ → L.more s₁ = true → L.turn s₁ = (s', false) → Final L s (n + 1) s'

variable {L : Loop σ} {s s' : σ} {P Q : Nat → σ → Prop}

theorem Turns.rule (zero : P 0 s)
    (succ : ∀ {n s₁ s'}, P n s₁ → L.more s₁ = true → L.turn s₁ = (s', true) → P (n + 1) s')
    (h : L.Turns s n s') : P n s' := by
  induction h with
  | zero => exact zero
  | succ _ hmore hturn ih => exact succ ih hmore hturn

/-- The rule for a loop: `P` is kept by the turns that stay, and each way out ends in `Q`. -/
theorem Final.rule (zero : P 0 s)
    (succ : ∀ {n s₁ s'}, P n s₁ → L.more s₁ = true → L.turn s₁ = (s', true) → P (n + 1) s')
    (exhausted : ∀ {n s'}, P n s' → L.more s' = false → Q n s')
    (leaves : ∀ {n s₁ s'}, P n s₁ → L.more s₁ = true → L.turn s₁ = (s', false) → Q (n + 1) s')
    (h : L.Final s n s') : Q n s' := by
  cases h with
  | exhausted ht hmore => exact exhausted (ht.rule zero succ) hmore
  | leaves ht hmore hturn => exact leaves (ht.rule zero succ) hmore hturn

/-! ## Loops over a list -/

/-- Where a loop over a list stands: what it reads, the elements it has not yet taken, and what it has
made of the others. -/
structure Over (γ ρ τ : Type) where
  ctx : γ
  rest : List ρ
  acc : τ

variable {γ ρ τ : Type} {turn : γ → τ → ρ → τ × Bool}

/-- `for (r : rest) turn` -/
def overList (turn : γ → τ → ρ → τ × Bool) : Loop (Over γ ρ τ) where
  more x := !x.rest.isEmpty
  turn x :=
    match x.rest with
    | [] => (x, false)
    | r :: rest => ({ x with rest := rest, acc := (turn x.ctx x.acc r).1 }, (turn x.ctx x.acc r).2)

theorem overList_turn {x x' : Over γ ρ τ} (hmore : (overList turn).more x = true)
    (h : (overList turn).turn x = (x', go)) : ∃ r, x.rest = r :: x'.rest ∧ x'.ctx = x.ctx ∧
      turn x.ctx x.acc r = (x'.acc, go) := by
  cases hrest : x.rest with
  | nil => simp [overList, hrest] at hmore
  | cons r rest =>
    simp only [overList, hrest] at h
    cases h
    exact ⟨r, rfl, rfl, rfl⟩

/-- What the turns of a loop over a list keep: `P` is said of the elements done and what was made of them. -/
theorem Turns.overList_rule {P : List ρ → τ → Prop} {x₀ x : Over γ ρ τ} (zero : P [] x₀.acc)
    (succ : ∀ {done acc r acc'}, P done acc → turn x₀.ctx acc r = (acc', true) →
      P (done ++ [r]) acc')
    (h : (overList turn).Turns x₀ n x) : x.ctx = x₀.ctx ∧
    ∃ done, x₀.rest = done ++ x.rest ∧ done.length = n ∧ P done x.acc := by
  refine h.rule (P := fun n x => x.ctx = x₀.ctx ∧ ∃ done, x₀.rest = done ++ x.rest ∧
    done.length = n ∧ P done x.acc) ⟨rfl, [], rfl, rfl, zero⟩ ?_
  rintro n x x' ⟨hctx, done, hrest, rfl, hP⟩ hmore hturn
  obtain ⟨r, hr, hctx', hacc⟩ := overList_turn hmore hturn
  rw [hctx] at hacc
  refine ⟨hctx'.trans hctx, done ++ [r], ?_, List.length_append, succ hP hacc⟩
  rw [hrest, hr, List.append_assoc, List.singleton_append]

/-- The rule for a loop over a list: it has done all, or it was left in the turn of one element. -/
theorem Final.overList_rule {P : List ρ → τ → Prop} {x₀ x : Over γ ρ τ} (zero : P [] x₀.acc)
    (succ : ∀ {done acc r acc'}, P done acc → turn x₀.ctx acc r = (acc', true) →
      P (done ++ [r]) acc')
    (h : (overList turn).Final x₀ n x) : x.ctx = x₀.ctx ∧
    ((n = x₀.rest.length ∧ P x₀.rest x.acc) ∨
      ∃ done r rest acc, x₀.rest = done ++ r :: rest ∧ P done acc ∧
        turn x₀.ctx acc r = (x.acc, false)) := by
  cases h with
  | exhausted hturns hmore =>
    obtain ⟨hctx, done, hrest, rfl, hP⟩ := hturns.overList_rule zero succ
    have hnil : x.rest = [] := by simpa [overList] using hmore
    rw [hnil, List.append_nil] at hrest
    subst hrest
    exact ⟨hctx, .inl ⟨rfl, hP⟩⟩
  | leaves hturns hmore hturn =>
    obtain ⟨hctx, done, hrest, rfl, hP⟩ := hturns.overList_rule zero succ
    obtain ⟨r, hr, hctx', hacc⟩ := overList_turn hmore hturn
    rw [hctx] at hacc
    exact ⟨hctx'.trans hctx, .inr ⟨done, r, x.rest, _, by rw [hrest, hr], hP, hacc⟩⟩

end Loop
