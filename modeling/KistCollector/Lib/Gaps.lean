import Mathlib.Order.Interval.Finset.Nat

/-!
# Missing numbers of an increasing list

`Gaps.missing xs` are the numbers strictly between the first and the last of `xs` that `xs` skips, which
are those between one element and the next (`Gaps.steppedOver_eq`). They can be counted along the list
(`Gaps.card_missing_concat`). Of a part of a list the count is the same as of the list exactly if what the
part leaves out between its ends makes up for what it does not reach (`Gaps.card_missing_eq_iff`).
-/

namespace Gaps

/-- The numbers strictly between the first and the last. -/
def between (xs : List Nat) : Finset Nat :=
  match xs.head?, xs.getLast? with
  | some a, some b => Finset.Ioo a b
  | _, _ => ∅

def missing (xs : List Nat) : Finset Nat := (between xs).filter (· ∉ xs)

/-- The numbers between one element and the next. -/
def steppedOver : List Nat → Finset Nat
  | a :: b :: xs => Finset.Ioo a b ∪ steppedOver (b :: xs)
  | _ => ∅

theorem mem_between {xs : List Nat} :
    n ∈ between xs ↔ (∃ a ∈ xs.head?, a < n) ∧ ∃ b ∈ xs.getLast?, n < b := by
  unfold between
  split
  · rename_i ha hb
    simp [ha, hb]
  · rename_i hne
    refine iff_of_false (Finset.notMem_empty n) ?_
    rintro ⟨⟨a, ha, -⟩, ⟨b, hb, -⟩⟩
    exact hne a b ha hb

theorem mem_missing {xs : List Nat} : n ∈ missing xs ↔ n ∈ between xs ∧ n ∉ xs := Finset.mem_filter

theorem missing_nil : missing [] = ∅ := rfl

theorem missing_singleton (x : Nat) : missing [x] = ∅ := by simp [missing, between]

theorem le_getLast {xs : List Nat} (h : xs.Pairwise (· < ·)) (hb : b ∈ xs.getLast?) :
    ∀ x ∈ xs, x ≤ b := by
  obtain ⟨ys, rfl⟩ := List.getLast?_eq_some_iff.mp hb
  intro x hx
  rcases List.mem_append.mp hx with hx | hx
  · exact Nat.le_of_lt ((List.pairwise_append.mp h).2.2 x hx b (by simp))
  · exact Nat.le_of_eq (List.mem_singleton.mp hx)

theorem head_le {xs : List Nat} (h : xs.Pairwise (· < ·)) (ha : a ∈ xs.head?) : ∀ x ∈ xs, a ≤ x := by
  obtain ⟨ys, rfl⟩ := List.head?_eq_some_iff.mp ha
  intro x hx
  rcases List.mem_cons.mp hx with rfl | hx
  · exact Nat.le_refl x
  · exact Nat.le_of_lt (List.rel_of_pairwise_cons h hx)

/-- The numbers that an increasing list misses are those that it steps over. -/
theorem steppedOver_eq {xs : List Nat} (h : xs.Pairwise (· < ·)) : steppedOver xs = missing xs := by
  induction xs with
  | nil => rfl
  | cons a xs ih =>
    cases xs with
    | nil => rw [missing_singleton]; rfl
    | cons b xs =>
      have hxs := (List.pairwise_cons.mp h).2
      have hab : a < b := List.rel_of_pairwise_cons h List.mem_cons_self
      have hb : ∀ x ∈ b :: xs, b ≤ x := head_le hxs rfl
      have hlast : (a :: b :: xs).getLast? = (b :: xs).getLast? := List.getLast?_cons_cons
      obtain ⟨c, hc⟩ : ∃ c, c ∈ (b :: xs).getLast? := ⟨_, List.getLast?_eq_some_getLast (by simp)⟩
      have hbc : b ≤ c := hb c (List.mem_of_getLast? hc)
      rw [steppedOver, ih hxs]
      ext n
      simp only [Finset.mem_union, mem_missing, mem_between, hlast, Option.mem_def.mp hc, Finset.mem_Ioo,
        List.head?_cons, Option.mem_def, Option.some.injEq, exists_eq_left', List.mem_cons, not_or]
      constructor
      · rintro (⟨han, hnb⟩ | ⟨⟨hbn, hnc⟩, hn⟩)
        · refine ⟨⟨han, by omega⟩, by omega, by omega, fun hn => ?_⟩
          exact absurd (hb n (List.mem_cons_of_mem b hn)) (by omega)
        · exact ⟨⟨by omega, hnc⟩, by omega, hn⟩
      · rintro ⟨⟨han, hnc⟩, -, hn⟩
        rcases Nat.lt_or_gt_of_ne hn.1 with hnb | hbn
        · exact .inl ⟨han, hnb⟩
        · exact .inr ⟨⟨hbn, hnc⟩, hn⟩

/-- One more number adds the numbers it skips. -/
theorem card_missing_concat {xs : List Nat} (h : (xs ++ [x]).Pairwise (· < ·))
    (hy : y ∈ xs.getLast?) : (missing (xs ++ [x])).card = (missing xs).card + (x - y - 1) := by
  have hxs := (List.pairwise_append.mp h).1
  have hle := le_getLast hxs hy
  have hmem : y ∈ xs := List.mem_of_getLast? hy
  have hyx : y < x := (List.pairwise_append.mp h).2.2 y hmem x (by simp)
  obtain ⟨a, ha⟩ : ∃ a, a ∈ xs.head? := by
    obtain ⟨c, cs, rfl⟩ := List.exists_cons_of_ne_nil (List.ne_nil_of_mem hmem)
    exact ⟨c, rfl⟩
  have hay : a ≤ y := head_le hxs ha y hmem
  have hunion : missing (xs ++ [x]) = missing xs ∪ Finset.Ioo y x := by
    ext n
    have hhead : (xs ++ [x]).head? = some a := by simp [Option.mem_def.mp ha]
    simp only [mem_missing, mem_between, hhead, Option.mem_def.mp ha, Option.mem_def.mp hy,
      List.getLast?_concat, Finset.mem_union, Finset.mem_Ioo, Option.mem_def, Option.some.injEq,
      exists_eq_left', List.mem_append, List.mem_singleton, not_or]
    constructor
    · rintro ⟨⟨han, hnx⟩, hn, -⟩
      rcases Nat.lt_trichotomy n y with hlt | rfl | hgt
      · exact .inl ⟨⟨han, hlt⟩, hn⟩
      · exact absurd hmem hn
      · exact .inr ⟨hgt, hnx⟩
    · rintro (⟨⟨han, hny⟩, hn⟩ | ⟨hyn, hnx⟩)
      · exact ⟨⟨han, by omega⟩, hn, by omega⟩
      · exact ⟨⟨by omega, hnx⟩, fun hn => absurd (hle n hn) (by omega), by omega⟩
  have hdisjoint : Disjoint (missing xs) (Finset.Ioo y x) := by
    refine Finset.disjoint_left.mpr fun n hn hn' => ?_
    obtain ⟨-, ⟨b, hb, hlt⟩⟩ := mem_between.mp (mem_missing.mp hn).1
    cases hb.symm.trans hy
    exact absurd (Finset.mem_Ioo.mp hn').1 (by omega)
  rw [hunion, Finset.card_union_of_disjoint hdisjoint, Nat.card_Ioo]

/-- Below a bound of the list there are fewer missing numbers than the bound. -/
theorem card_missing_lt {xs : List Nat} (hpos : 0 < m) (h : ∀ x ∈ xs, x < m) :
    (missing xs).card < m := by
  have hsub : missing xs ⊆ Finset.Ioo 0 m := by
    intro n hn
    obtain ⟨⟨a, -, han⟩, ⟨b, hb, hnb⟩⟩ := mem_between.mp (mem_missing.mp hn).1
    have hbm := h b (List.mem_of_getLast? hb)
    exact Finset.mem_Ioo.mpr ⟨by omega, by omega⟩
  calc (missing xs).card ≤ (Finset.Ioo 0 m).card := Finset.card_le_card hsub
    _ < m := by rw [Nat.card_Ioo]; omega

/-- A part of an increasing list spans less. -/
theorem between_subset {xs ys : List Nat} (h : ys.Pairwise (· < ·)) (hsub : xs.Sublist ys) :
    between xs ⊆ between ys := by
  intro n hn
  obtain ⟨⟨a, ha, han⟩, ⟨b, hb, hnb⟩⟩ := mem_between.mp hn
  have hamem : a ∈ ys := hsub.subset (List.mem_of_head? ha)
  have hbmem : b ∈ ys := hsub.subset (List.mem_of_getLast? hb)
  refine mem_between.mpr ⟨?_, ?_⟩
  · obtain ⟨c, cs, rfl⟩ := List.exists_cons_of_ne_nil (List.ne_nil_of_mem hamem)
    exact ⟨c, rfl, Nat.lt_of_le_of_lt (head_le h rfl a hamem) han⟩
  · obtain ⟨cs, c, rfl⟩ := (List.eq_nil_or_concat ys).resolve_left (List.ne_nil_of_mem hbmem)
    have hc : c ∈ (cs.concat c).getLast? := by simp
    exact ⟨c, hc, Nat.lt_of_lt_of_le hnb (le_getLast h hc b hbmem)⟩

/-- The missing numbers of a list and of a part of it share those between the ends of the part that the
list skips. The rest of them decides. -/
theorem card_missing_eq_iff {xs ys : List Nat} (h : ys.Pairwise (· < ·)) (hsub : xs.Sublist ys) :
    (missing xs).card = (missing ys).card ↔
      ((between xs).filter fun n => n ∈ ys ∧ n ∉ xs).card =
        ((between ys \ between xs).filter fun n => n ∉ ys).card := by
  have hspan := between_subset h hsub
  have hxs : missing xs = ((between xs).filter fun n => n ∉ ys) ∪
      (between xs).filter fun n => n ∈ ys ∧ n ∉ xs := by
    ext n
    simp only [missing, Finset.mem_filter, Finset.mem_union]
    constructor
    · rintro ⟨hn, hnot⟩
      by_cases hys : n ∈ ys
      · exact .inr ⟨hn, hys, hnot⟩
      · exact .inl ⟨hn, hys⟩
    · rintro (⟨hn, hnot⟩ | ⟨hn, -, hnot⟩)
      · exact ⟨hn, fun hmem => hnot (hsub.subset hmem)⟩
      · exact ⟨hn, hnot⟩
  have hys : missing ys = ((between xs).filter fun n => n ∉ ys) ∪
      (between ys \ between xs).filter fun n => n ∉ ys := by
    rw [missing, ← Finset.filter_union, Finset.union_sdiff_of_subset hspan]
  have hdisjoint : Disjoint ((between xs).filter fun n => n ∉ ys)
      ((between xs).filter fun n => n ∈ ys ∧ n ∉ xs) := by
    refine Finset.disjoint_left.mpr fun n hn hn' => ?_
    exact (Finset.mem_filter.mp hn).2 (Finset.mem_filter.mp hn').2.1
  have hdisjoint' : Disjoint ((between xs).filter fun n => n ∉ ys)
      ((between ys \ between xs).filter fun n => n ∉ ys) := by
    refine Finset.disjoint_left.mpr fun n hn hn' => ?_
    exact (Finset.mem_sdiff.mp (Finset.mem_filter.mp hn').1).2 (Finset.mem_filter.mp hn).1
  rw [hxs, hys, Finset.card_union_of_disjoint hdisjoint, Finset.card_union_of_disjoint hdisjoint',
    Nat.add_left_cancel_iff]

end Gaps
