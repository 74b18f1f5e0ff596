import Mathlib.Data.Finset.Card
import Mathlib.Data.Int.Notation

/-!
# Counters

A program that keeps a count beside its data changes one entry and the count together. `Tally P n`: there
are exactly `n` indexes with the property `P`, where `n` is the integer that the program keeps.

* `Tally.add`, `Tally.remove`, `Tally.update`: what the count is after a change at one index.
* `Tally.exists_of_pos`, `Tally.pos`, `Tally.le`: what a count says about the indexes.
-/

universe u

variable {ι : Type u} {P Q : ι → Prop} {m n : ℤ} {i : ι}

/-- There are exactly `n` indexes with the property `P`. -/
def Tally (P : ι → Prop) (n : ℤ) : Prop := ∃ s : Finset ι, (∀ i, i ∈ s ↔ P i) ∧ (s.card : ℤ) = n

namespace Tally

theorem congr (h : Tally P n) (hPQ : ∀ i, Q i ↔ P i) : Tally Q n := by
  obtain ⟨s, hs, hn⟩ := h
  exact ⟨s, fun i => (hs i).trans (hPQ i).symm, hn⟩

theorem zero (h : ∀ i, ¬ P i) : Tally P 0 := ⟨∅, fun i => iff_of_false (Finset.notMem_empty i) (h i), rfl⟩

/-- One more index has the property. -/
theorem add [DecidableEq ι] (h : Tally P n) (hi : ¬ P i) (hQ : ∀ j, Q j ↔ j = i ∨ P j) : Tally Q (n + 1) := by
  obtain ⟨s, hs, rfl⟩ := h
  refine ⟨insert i s, fun j => ?_, ?_⟩
  · rw [Finset.mem_insert, hQ, hs]
  · rw [Finset.card_insert_of_notMem fun his => hi ((hs i).1 his)]
    rfl

/-- One index does not have the property any more. -/
theorem remove [DecidableEq ι] (h : Tally P n) (hi : P i) (hQ : ∀ j, Q j ↔ j ≠ i ∧ P j) : Tally Q (n - 1) := by
  obtain ⟨s, hs, rfl⟩ := h
  have his : i ∈ s := (hs i).2 hi
  refine ⟨s.erase i, fun j => ?_, ?_⟩
  · rw [Finset.mem_erase, hQ, hs]
  · rw [← Finset.card_erase_add_one his]
    exact (Int.add_sub_cancel _ 1).symm

/-- One index may have the property or not, before and after. -/
theorem update [DecidableEq ι] [Decidable (P i)] [Decidable (Q i)] (h : Tally P n)
    (hPQ : ∀ j, j ≠ i → (Q j ↔ P j)) : Tally Q (n - (if P i then 1 else 0) + (if Q i then 1 else 0)) := by
  by_cases hP : P i
  · by_cases hQ : Q i
    · rw [if_pos hP, if_pos hQ, Int.sub_add_cancel]
      refine h.congr fun j => ?_
      by_cases hj : j = i
      · rw [hj]
        exact iff_of_true hQ hP
      · exact hPQ j hj
    · rw [if_pos hP, if_neg hQ, Int.add_zero]
      refine h.remove hP fun j => ?_
      by_cases hj : j = i
      · rw [hj]
        exact iff_of_false hQ fun hne => hne.1 rfl
      · rw [hPQ j hj, and_iff_right hj]
  · by_cases hQ : Q i
    · rw [if_neg hP, if_pos hQ, Int.sub_zero]
      refine h.add hP fun j => ?_
      by_cases hj : j = i
      · rw [hj]
        exact iff_of_true hQ (.inl rfl)
      · rw [hPQ j hj, or_iff_right hj]
    · rw [if_neg hP, if_neg hQ, Int.sub_zero, Int.add_zero]
      refine h.congr fun j => ?_
      by_cases hj : j = i
      · rw [hj]
        exact iff_of_false hQ hP
      · exact hPQ j hj

theorem nonneg (h : Tally P n) : 0 ≤ n := by
  obtain ⟨s, -, rfl⟩ := h
  exact Int.natCast_nonneg _

theorem pos (h : Tally P n) (hi : P i) : 0 < n := by
  obtain ⟨s, hs, rfl⟩ := h
  exact Int.natCast_pos.2 (Finset.card_pos.2 ⟨i, (hs i).2 hi⟩)

theorem exists_of_pos (h : Tally P n) (hn : 0 < n) : ∃ i, P i := by
  obtain ⟨s, hs, rfl⟩ := h
  obtain ⟨i, hi⟩ := Finset.card_pos.1 (Int.natCast_pos.1 hn)
  exact ⟨i, (hs i).1 hi⟩

/-- No index has the property exactly if the count is zero. -/
theorem eq_zero_iff (h : Tally P n) : n = 0 ↔ ∀ i, ¬ P i := by
  constructor
  · rintro rfl i hi
    exact absurd (h.pos hi) (Int.lt_irrefl 0)
  · intro hnone
    obtain ⟨s, hs, rfl⟩ := h
    have hempty : s = ∅ := Finset.eq_empty_of_forall_notMem fun i hi => hnone i ((hs i).1 hi)
    rw [hempty]
    rfl

theorem le (hP : Tally P m) (hQ : Tally Q n) (h : ∀ i, P i → Q i) : m ≤ n := by
  obtain ⟨s, hs, rfl⟩ := hP
  obtain ⟨s', hs', rfl⟩ := hQ
  exact Int.ofNat_le.2 (Finset.card_le_card fun i hi => (hs' i).2 (h i ((hs i).1 hi)))

/-- A larger count has an index that the smaller one does not have. -/
theorem exists_of_lt (hP : Tally P m) (hQ : Tally Q n) (h : m < n) : ∃ i, Q i ∧ ¬ P i := by
  by_contra hnone
  have hQP : ∀ i, Q i → P i := fun i hi => by
    by_contra hPi
    exact hnone ⟨i, hi, hPi⟩
  exact absurd (hQ.le hP hQP) (Int.not_le.2 h)

end Tally
