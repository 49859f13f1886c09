import Mathlib.Data.List.Nodup
import Mathlib.Data.List.Induction

/-!
# Clients that take resources in turn

Clients come one after another. Each takes some resources, and then keeps them or gives them all back
before the next one comes. `Exclusive` says that at no time a resource is in two hands.
-/

/-- What one client took, and whether it kept it. -/
structure Take (ρ : Type) where
  resources : List ρ
  keeps : Bool

namespace Take

variable {ρ : Type}

/-- What is still held after the clients `ts`. -/
def held (ts : List (Take ρ)) : List ρ := (ts.filter (·.keeps)).flatMap (·.resources)

/-- Whenever a client has taken its resources, nothing is held twice. -/
def Exclusive (ts : List (Take ρ)) : Prop :=
  ∀ pre t post, ts = pre ++ t :: post → (held pre ++ t.resources).Nodup

theorem mem_held {ts : List (Take ρ)} : r ∈ held ts ↔ ∃ t ∈ ts, t.keeps = true ∧ r ∈ t.resources := by
  simp [held, and_assoc]

/-- Exclusive use comes down to pairs: a client that keeps its resources shares none of them with a
later one. -/
theorem exclusive_iff {ts : List (Take ρ)} : Exclusive ts ↔ (∀ t ∈ ts, t.resources.Nodup) ∧
    ts.Pairwise fun a b => a.keeps = true → a.resources.Disjoint b.resources := by
  constructor
  · intro H
    refine ⟨fun t ht => ?_, ?_⟩
    · obtain ⟨pre, post, rfl⟩ := List.append_of_mem ht
      exact (List.nodup_append'.mp (H pre t post rfl)).2.1
    · induction ts using List.reverseRecOn with
      | nil => exact .nil
      | append_singleton ts t ih =>
        refine List.pairwise_append.mpr ⟨ih fun pre u post h => ?_, List.pairwise_singleton .., ?_⟩
        · exact H pre u (post ++ [t]) (by simp [h])
        · intro a ha b hb hkeeps r hr
          obtain rfl := List.mem_singleton.mp hb
          have hdis := (List.nodup_append'.mp (H ts b [] rfl)).2.2
          exact hdis (mem_held.mpr ⟨a, ha, hkeeps, hr⟩)
  · rintro ⟨hnodup, hpair⟩ pre t post rfl
    obtain ⟨hpre, -, hcross⟩ := List.pairwise_append.mp hpair
    refine List.nodup_append'.mpr ⟨?_, hnodup t (by simp), ?_⟩
    · refine List.nodup_flatMap.mpr ⟨fun u hu => hnodup u ?_, ?_⟩
      · simp [(List.mem_filter.mp hu).1]
      · refine (hpre.filter _).imp_of_mem fun {a b} ha _ h => ?_
        exact h (by simpa using (List.mem_filter.mp ha).2)
    · intro r hr hr'
      obtain ⟨u, hu, hkeeps, hru⟩ := mem_held.mp hr
      exact hcross u hu t (by simp) hkeeps hru hr'

end Take
