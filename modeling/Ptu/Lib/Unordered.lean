import Mathlib.Data.List.Perm.Basic
import Mathlib.Data.List.Basic

/-!
# Arrays without an order

An array whose entries stand in no particular order loses one of them by moving the last entry
into its place.

* `swapRemove_perm`: what is left is everything else.
* `take_swapRemove`, `drop_swapRemove`: the entries in front and behind stay where they are.
-/

namespace Unordered

variable {α : Type*} {l : List α} {a b : α} {i : ℕ}

/-- `l[i] = l[n - 1]; n--;` -/
def swapRemove (l : List α) (i : ℕ) : List α :=
  match l.getLast? with
  | some last => (l.set i last).dropLast
  | none => l

theorem swapRemove_concat (hi : i < l.length) : swapRemove (l ++ [b]) i = l.set i b := by
  unfold swapRemove
  rw [List.getLast?_concat]
  simp only
  rw [List.set_append_left _ _ hi, List.dropLast_concat]

theorem swapRemove_concat_length : swapRemove (l ++ [b]) l.length = l := by
  unfold swapRemove
  rw [List.getLast?_concat]
  simp

/-- **The entry is gone, and nothing else.** -/
theorem swapRemove_perm (h : l[i]? = some a) : l.Perm (a :: swapRemove l i) := by
  have hi := (List.getElem?_eq_some_iff.1 h).1
  obtain ⟨l', b, rfl⟩ := (List.eq_nil_or_concat' l).resolve_left (by rintro rfl; simp at hi)
  have hlen : (l' ++ [b]).length = l'.length + 1 := by simp
  rcases Nat.lt_or_ge i l'.length with hlt | hge
  · rw [List.getElem?_append_left hlt] at h
    rw [swapRemove_concat hlt]
    obtain ⟨-, rfl⟩ := List.getElem?_eq_some_iff.1 h
    -- both sides are the entries in front, those behind, and the two that change
    have hl : l' = l'.take i ++ l'[i] :: l'.drop (i + 1) := by
      rw [← List.drop_eq_getElem_cons hlt, List.take_append_drop]
    have hset : l'.set i b = l'.take i ++ b :: l'.drop (i + 1) := by
      rw [List.set_eq_take_append_cons_drop, if_pos hlt]
    have hleft : (l' ++ [b]).Perm (b :: l'[i] :: (l'.take i ++ l'.drop (i + 1))) := by
      refine (List.perm_append_singleton b l').trans (List.Perm.cons b ?_)
      conv_lhs => rw [hl]
      exact List.perm_middle
    have hright : (l'[i] :: l'.set i b).Perm (l'[i] :: b :: (l'.take i ++ l'.drop (i + 1))) := by
      rw [hset]
      exact List.Perm.cons _ List.perm_middle
    exact hleft.trans ((List.Perm.swap _ _ _).trans hright.symm)
  · obtain rfl : i = l'.length := by omega
    rw [swapRemove_concat_length]
    obtain rfl : b = a := by simpa using h
    exact List.perm_append_singleton b l'

/-- The entries in front stay where they are. -/
theorem take_swapRemove (hi : i < l.length) : (swapRemove l i).take i = l.take i := by
  obtain ⟨l', b, rfl⟩ := (List.eq_nil_or_concat' l).resolve_left (by rintro rfl; simp at hi)
  have hlen : (l' ++ [b]).length = l'.length + 1 := by simp
  rcases Nat.lt_or_ge i l'.length with hlt | hge
  · rw [swapRemove_concat hlt, List.take_set_of_le (Nat.le_refl i), List.take_append_of_le_length (Nat.le_of_lt hlt)]
  · obtain rfl : i = l'.length := by omega
    rw [swapRemove_concat_length]
    simp

/-- So do those behind, but for the last one. -/
theorem drop_swapRemove (hi : i < l.length) : (swapRemove l i).drop (i + 1) = (l.drop (i + 1)).dropLast := by
  obtain ⟨l', b, rfl⟩ := (List.eq_nil_or_concat' l).resolve_left (by rintro rfl; simp at hi)
  have hlen : (l' ++ [b]).length = l'.length + 1 := by simp
  rcases Nat.lt_or_ge i l'.length with hlt | hge
  · rw [swapRemove_concat hlt, List.drop_set_of_lt (by omega), List.drop_append_of_le_length (by omega),
      List.dropLast_concat]
  · obtain rfl : i = l'.length := by omega
    rw [swapRemove_concat_length, List.drop_of_length_le (by omega), List.drop_of_length_le (by omega)]
    rfl

/-- Its place is taken by the last entry. -/
theorem swapRemove_getElem? (hi : i + 1 < l.length) (hlast : l.getLast? = some b) :
    (swapRemove l i)[i]? = some b := by
  obtain ⟨l', c, rfl⟩ := (List.eq_nil_or_concat' l).resolve_left (by rintro rfl; simp at hi)
  have hlen : (l' ++ [c]).length = l'.length + 1 := by simp
  obtain rfl : c = b := by simpa using hlast
  rw [swapRemove_concat (by omega), List.getElem?_set_self (by omega)]

end Unordered
