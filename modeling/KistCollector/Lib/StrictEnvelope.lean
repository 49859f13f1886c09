import Mathlib.Order.Bounds.Basic
import Mathlib.Algebra.Order.Ring.Int

/-!
# The least strictly increasing list above a list

`pushUp` runs along a list of integers and replaces each that is not above its predecessor's
replacement by the next integer. What comes out is the pointwise least strictly increasing list above
the given one (`pushUp_isLeastIncreasing`), the running maximum of the values moved up by their
distance (`pushUp_isGreatest`).
-/

namespace StrictEnvelope

/-- Each value, or one more than the last if it is not above that. -/
def pushUp (last : Int) : List Int → List Int
  | [] => []
  | x :: xs =>
    let y := if x ≤ last then last + 1 else x
    y :: pushUp y xs

/-- `ys` is pointwise least among the strictly increasing lists that are pointwise above `xs`. -/
structure IsLeastIncreasing (xs ys : List Int) : Prop where
  above : List.Forall₂ (· ≤ ·) xs ys
  increasing : ys.Pairwise (· < ·)
  least : ∀ zs, List.Forall₂ (· ≤ ·) xs zs → zs.Pairwise (· < ·) → List.Forall₂ (· ≤ ·) ys zs

theorem pushUp_above (last : Int) (xs : List Int) :
    List.Forall₂ (· ≤ ·) xs (pushUp last xs) := by
  induction xs generalizing last with
  | nil => exact .nil
  | cons x xs ih =>
    refine .cons ?_ (ih _)
    split
    · omega
    · exact Int.le_refl x

/-- Everything is above the last value, and increasing. -/
theorem pushUp_increasing (last : Int) (xs : List Int) :
    (last :: pushUp last xs).Pairwise (· < ·) := by
  induction xs generalizing last with
  | nil => exact List.pairwise_singleton ..
  | cons x xs ih =>
    rw [pushUp]
    have hy : last < if x ≤ last then last + 1 else x := by split <;> omega
    have hrest := ih (if x ≤ last then last + 1 else x)
    refine List.pairwise_cons.mpr ⟨fun z hz => ?_, hrest⟩
    rcases List.mem_cons.mp hz with rfl | hz
    · exact hy
    · exact Int.lt_trans hy ((List.pairwise_cons.mp hrest).1 z hz)

theorem pushUp_least {last : Int} {xs zs : List Int} (habove : List.Forall₂ (· ≤ ·) xs zs)
    (hinc : (last :: zs).Pairwise (· < ·)) : List.Forall₂ (· ≤ ·) (pushUp last xs) zs := by
  induction habove generalizing last with
  | nil => exact .nil
  | @cons x z xs zs hxz _ ih =>
    have hlast : last < z := (List.pairwise_cons.mp hinc).1 z List.mem_cons_self
    have hy : (if x ≤ last then last + 1 else x) ≤ z := by split <;> omega
    refine .cons hy (ih ?_)
    have hzs := List.pairwise_cons.mp (List.pairwise_cons.mp hinc).2
    exact List.pairwise_cons.mpr ⟨fun w hw => Int.lt_of_le_of_lt hy (hzs.1 w hw), hzs.2⟩

/-- Started below the first value, the result is the least strictly increasing list above. -/
theorem pushUp_isLeastIncreasing {last : Int} {xs : List Int} (h : ∀ x ∈ xs.head?, last < x) :
    IsLeastIncreasing xs (pushUp last xs) := by
  refine ⟨pushUp_above last xs, (List.pairwise_cons.mp (pushUp_increasing last xs)).2,
    fun zs habove hinc => pushUp_least habove ?_⟩
  refine List.pairwise_cons.mpr ⟨fun z hz => ?_, hinc⟩
  cases habove with
  | nil => cases hz
  | @cons x w xs zs hxw _ =>
    have hw : last < w := Int.lt_of_lt_of_le (h x rfl) hxw
    rcases List.mem_cons.mp hz with rfl | hz
    · exact hw
    · exact Int.lt_trans hw ((List.pairwise_cons.mp hinc).1 z hz)

/-- The candidates for position `i`: what comes after `last`, and each value so far moved up by its
distance. -/
def Candidate (last : Int) (xs : List Int) (i : Nat) (v : Int) : Prop :=
  v = last + 1 + i ∨ ∃ j ≤ i, ∃ x ∈ xs[j]?, v = x + (i - j : Int)

theorem candidate_zero : Candidate last (x :: xs) 0 v ↔ v = last + 1 ∨ v = x := by
  simp [Candidate]

theorem candidate_succ : Candidate last (x :: xs) (i + 1) v ↔
    v = last + 1 + (i + 1) ∨ v = x + (i + 1) ∨ ∃ j ≤ i, ∃ x ∈ xs[j]?, v = x + (i - j : Int) := by
  refine or_congr Iff.rfl ⟨?_, ?_⟩
  · rintro ⟨j, hj, x', hx', rfl⟩
    cases j with
    | zero =>
      cases hx'
      exact .inl (by simp)
    | succ j => exact .inr ⟨j, by omega, x', hx', by omega⟩
  · rintro (rfl | ⟨j, hj, x', hx', rfl⟩)
    · exact ⟨0, by omega, x, rfl, by simp⟩
    · exact ⟨j + 1, by omega, x', hx', by omega⟩

/-- Position `i` is the greatest candidate. -/
theorem isGreatest_candidate {last : Int} {xs : List Int} (h : y ∈ (pushUp last xs)[i]?) :
    IsGreatest {v | Candidate last xs i v} y := by
  induction xs generalizing last i with
  | nil => cases h
  | cons x xs ih =>
    rw [pushUp] at h
    cases i with
    | zero =>
      cases h
      constructor
      · refine candidate_zero.mpr ?_
        split
        · exact .inl rfl
        · exact .inr rfl
      · intro v hv
        rcases candidate_zero.mp hv with rfl | rfl <;> split <;> omega
    | succ i =>
      obtain ⟨hmem, hub⟩ := ih h
      constructor
      · refine candidate_succ.mpr ?_
        rcases hmem with rfl | hmem
        · split
          · exact .inl (by omega)
          · exact .inr (.inl (by omega))
        · exact .inr (.inr hmem)
      · intro v hv
        have hfirst := hub (.inl rfl)
        rcases candidate_succ.mp hv with rfl | rfl | hv
        · split at hfirst <;> omega
        · split at hfirst <;> omega
        · exact hub (.inr hv)

/-- Started below the first value, position `i` is the greatest of the values so far, each moved up by
its distance. -/
theorem pushUp_isGreatest {last : Int} {xs : List Int} {i : Nat} (hlast : ∀ x ∈ xs.head?, last < x)
    (h : y ∈ (pushUp last xs)[i]?) :
    IsGreatest {v : Int | ∃ j ≤ i, ∃ x ∈ xs[j]?, v = x + (i - j : Int)} y := by
  obtain ⟨hmem, hub⟩ := isGreatest_candidate h
  refine ⟨?_, fun v hv => hub (.inr hv)⟩
  rcases hmem with heq | hmem
  · -- what comes after `last` is at most the first value moved up
    cases xs with
    | nil => cases h
    | cons x xs =>
      have hx := hlast x rfl
      have hfirst : x + (i - (0 : Nat) : Int) ≤ y := hub (.inr ⟨0, Nat.zero_le i, x, rfl, rfl⟩)
      exact ⟨0, Nat.zero_le i, x, rfl, by omega⟩
  · exact hmem

/-- Nothing comes out below the first value. -/
theorem head_le_of_mem_pushUp {last : Int} {xs : List Int} (h : y ∈ pushUp last xs) :
    ∀ x ∈ xs.head?, x ≤ y := by
  cases xs with
  | nil => cases h
  | cons x xs =>
    intro x' hx'
    cases hx'
    have hx : x ≤ if x ≤ last then last + 1 else x := by split <;> omega
    rcases List.mem_cons.mp h with rfl | h
    · exact hx
    · exact Int.le_trans hx (Int.le_of_lt ((List.pairwise_cons.mp (pushUp_increasing _ xs)).1 y h))

/-- A list that increases stays as it is. -/
theorem pushUp_eq_self {last : Int} {xs : List Int} (hlast : ∀ x ∈ xs.head?, last < x)
    (h : xs.Pairwise (· < ·)) : pushUp last xs = xs := by
  induction xs generalizing last with
  | nil => rfl
  | cons x xs ih =>
    have hx : last < x := hlast x rfl
    obtain ⟨hhead, hrest⟩ := List.pairwise_cons.mp h
    rw [pushUp, if_neg (by omega), ih (fun x' hx' => hhead x' (List.mem_of_head? hx')) hrest]

end StrictEnvelope
