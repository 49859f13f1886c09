import KistCollector.Lib.Loop
import KistCollector.Lib.Machine

/-!
# Runs that come to an end

A rank that every step lowers bounds the length of every run, and a machine that has such a rank can be
run on from any state until it is stuck. Some steps may be paid for: a step of cost `c` may raise the rank
by less than `c`. Where only some steps lower it, it bounds the number of these (`Machine.counted`). For
loops a rank that every turn lowers gives the final state.
-/

namespace Machine

variable {σ ℓ ε : Type} {M : Machine σ ℓ ε} {I : σ → Prop} {rank : σ → Nat} {cost : ℓ → Nat}

/-- No label is allowed. -/
def Stuck (M : Machine σ ℓ ε) (s : σ) : Prop := ∀ l, M.step s l = none

/-- Every step from a state in `I` stays in `I` and lowers the rank, but for its cost. -/
def Lowers (M : Machine σ ℓ ε) (I : σ → Prop) (rank : σ → Nat) (cost : ℓ → Nat) : Prop :=
  ∀ {s l s' e}, I s → M.step s l = some (s', e) → I s' ∧ rank s' < rank s + cost l

/-- A run is no longer than the rank it starts from and the costs it pays. -/
theorem length_le_of_lowers (H : M.Lowers I rank cost) (hI : I s₀)
    (h : M.run s₀ ls = some (s, es)) :
    I s ∧ ls.length + rank s ≤ rank s₀ + (ls.map cost).sum := by
  refine run_induction (P := fun ls _ s => I s ∧
    ls.length + rank s ≤ rank s₀ + (ls.map cost).sum) ⟨hI, by simp⟩ ?_ h
  rintro ls es s l s' e - ⟨hI, hle⟩ hstep
  obtain ⟨hI', hlt⟩ := H hI hstep
  refine ⟨hI', ?_⟩
  simp only [List.length_append, List.length_singleton, List.map_append, List.map_singleton,
    List.sum_append, List.sum_singleton]
  omega

/-- The steps that cost nothing lead from every state to a stuck one. -/
theorem exists_stuck (H : M.Lowers I rank fun _ => 0) (hI : I s) :
    ∃ ls s' es, M.run s ls = some (s', es) ∧ M.Stuck s' ∧ I s' := by
  induction hn : rank s using Nat.strongRecOn generalizing s with
  | ind n ih =>
    by_cases hstuck : M.Stuck s
    · exact ⟨[], s, [], rfl, hstuck, hI⟩
    · simp only [Stuck, not_forall] at hstuck
      obtain ⟨l, hl⟩ := hstuck
      obtain ⟨⟨s₁, e⟩, hstep⟩ := Option.ne_none_iff_exists'.mp hl
      obtain ⟨hI₁, hlt⟩ := H hI hstep
      rw [Nat.add_zero, hn] at hlt
      obtain ⟨ls, s', es, hrun, hstuck', hI'⟩ := ih (rank s₁) hlt hI₁ rfl
      exact ⟨l :: ls, s', e ++ es, run_cons.mpr ⟨s₁, e, es, hstep, hrun, rfl⟩, hstuck', hI'⟩

/-- The machine with a count of the steps that `φ` picks out. -/
def counted (M : Machine σ ℓ ε) (φ : σ → ℓ → Bool) : Machine (σ × Nat) ℓ ε where
  step := fun (s, n) l => (M.step s l).map fun (s', e) => ((s', if φ s l then n + 1 else n), e)

/-- Until an event that `done` names is shown, a rank that no step raises, and that the steps picked out
lower, bounds their number. -/
theorem counted_le (I : σ → Prop) (rank : σ → Nat) (φ : σ → ℓ → Bool) (done : ε → Prop)
    (H : ∀ {s l s' e}, I s → M.step s l = some (s', e) →
      (∃ x ∈ e, done x) ∨ I s' ∧ rank s' + (if φ s l then 1 else 0) ≤ rank s)
    (hI : I s₀) (h : M.run s₀ ls = some (s, es)) : (∃ x ∈ es, done x) ∨
      ∃ n, (M.counted φ).run (s₀, 0) ls = some ((s, n), es) ∧ I s ∧ n + rank s ≤ rank s₀ := by
  refine run_induction (P := fun ls es s => (∃ x ∈ es, done x) ∨
    ∃ n, (M.counted φ).run (s₀, 0) ls = some ((s, n), es) ∧ I s ∧ n + rank s ≤ rank s₀)
    (.inr ⟨0, rfl, hI, by omega⟩) ?_ h
  rintro ls es s l s' e - (⟨x, hx, hdone⟩ | ⟨n, hrun, hI, hle⟩) hstep
  · exact .inl ⟨x, List.mem_append_left _ hx, hdone⟩
  · obtain ⟨x, hx, hdone⟩ | ⟨hI', hlt⟩ := H hI hstep
    · exact .inl ⟨x, List.mem_append_right _ hx, hdone⟩
    · refine .inr ⟨if φ s l then n + 1 else n,
        run_snoc.mpr ⟨(s, n), es, e, hrun, ?_, rfl⟩, hI', ?_⟩
      · simp only [counted, hstep, Option.map_some]
      · cases hφ : φ s l <;> simp only [hφ, if_true, Bool.false_eq_true, if_false] at hlt ⊢ <;> omega

end Machine

namespace Loop

variable {σ : Type} {L : Loop σ} {rank : σ → Nat}

/-- Every turn that stays in the loop lowers the rank. -/
def Ranked (L : Loop σ) (rank : σ → Nat) : Prop :=
  ∀ {s s'}, L.turn s = (s', true) → rank s' < rank s

/-- A ranked loop is left. -/
theorem Ranked.exists_final (H : L.Ranked rank) (s : σ) : ∃ n s', L.Final s n s' := by
  suffices ∀ r n s₁, rank s₁ = r → L.Turns s n s₁ → ∃ n s', L.Final s n s' from
    this _ 0 s rfl .zero
  intro r
  induction r using Nat.strongRecOn with
  | ind r ih =>
    rintro n s₁ rfl hturns
    by_cases hmore : L.more s₁ = true
    · rcases hturn : L.turn s₁ with ⟨s', go⟩
      cases go with
      | true => exact ih _ (H hturn) _ _ rfl (.succ hturns hmore hturn)
      | false => exact ⟨n + 1, s', .leaves hturns hmore hturn⟩
    · exact ⟨n, s₁, .exhausted hturns (Bool.eq_false_iff.mpr hmore)⟩

/-- How far a loop has come says where it is. -/
theorem Turns.unique (h : L.Turns s n s₁) (h' : L.Turns s n s₂) : s₁ = s₂ := by
  induction h generalizing s₂ with
  | zero => cases h'; rfl
  | succ _ _ hturn ih =>
    cases h' with
    | succ h' _ hturn' =>
      cases ih h'
      exact congrArg Prod.fst (hturn.symm.trans hturn')

/-- A loop that has taken more turns stayed in it on the way. -/
theorem Turns.stays (h : L.Turns s n s₁) (hm : m < n) : ∃ s₂ s₃, L.Turns s m s₂ ∧
    L.more s₂ = true ∧ L.turn s₂ = (s₃, true) := by
  induction h with
  | zero => exact absurd hm (Nat.not_lt_zero _)
  | succ h hmore hturn ih =>
    rcases Nat.lt_succ_iff_lt_or_eq.mp hm with hlt | rfl
    · exact ih hlt
    · exact ⟨_, _, h, hmore, hturn⟩

/-- The turn at which a loop is left, and the state it is left in. -/
theorem Final.unique (h : L.Final s n s₁) (h' : L.Final s n' s₂) : n = n' ∧ s₁ = s₂ := by
  have hexit : ∀ {n s₁}, L.Final s n s₁ → ∃ m s₂, L.Turns s m s₂ ∧
      (¬ ∃ s₃, L.more s₂ = true ∧ L.turn s₂ = (s₃, true)) ∧
      (n, s₁) = if L.more s₂ then (m + 1, (L.turn s₂).1) else (m, s₂) := by
    intro n s₁ h
    cases h with
    | exhausted hturns hmore =>
      refine ⟨_, _, hturns, ?_, by rw [hmore]; rfl⟩
      rintro ⟨s₃, hmore', -⟩
      exact absurd (hmore.symm.trans hmore') nofun
    | leaves hturns hmore hturn =>
      refine ⟨_, _, hturns, ?_, by rw [hmore, hturn]; rfl⟩
      rintro ⟨s₃, -, hturn'⟩
      exact absurd (congrArg Prod.snd (hturn.symm.trans hturn')) nofun
  obtain ⟨m, t, hturns, hstop, heq⟩ := hexit h
  obtain ⟨m', t', hturns', hstop', heq'⟩ := hexit h'
  have hm : m = m' := by
    rcases Nat.lt_trichotomy m m' with hlt | rfl | hlt
    · obtain ⟨s₂, s₃, hs₂, hmore, hturn⟩ := hturns'.stays hlt
      cases hturns.unique hs₂
      exact absurd ⟨s₃, hmore, hturn⟩ hstop
    · rfl
    · obtain ⟨s₂, s₃, hs₂, hmore, hturn⟩ := hturns.stays hlt
      cases hturns'.unique hs₂
      exact absurd ⟨s₃, hmore, hturn⟩ hstop'
  subst hm
  cases hturns.unique hturns'
  exact Prod.mk.inj (heq.trans heq'.symm)

/-- A loop over a list is ranked by what is left of the list. -/
theorem ranked_overList {γ ρ τ : Type} (turn : γ → τ → ρ → τ × Bool) :
    (overList turn).Ranked fun x => x.rest.length := by
  intro x x' hturn
  cases hrest : x.rest with
  | nil =>
    simp only [overList, hrest] at hturn
    exact absurd (congrArg Prod.snd hturn) Bool.false_ne_true
  | cons r rest =>
    simp only [overList, hrest] at hturn
    obtain ⟨rfl, -⟩ := Prod.mk.inj hturn
    simp [hrest]

end Loop
