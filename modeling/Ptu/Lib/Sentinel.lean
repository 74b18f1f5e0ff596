import Mathlib.Data.List.Basic

/-!
# Arrays that end with a sentinel

A block of memory holds a sequence up to its first free cell, in which a sentinel `z` stands; what is behind it does
not matter.

* `Stores.getElem?`, `Stores.getElem?_length`: what is read.
* `Stores.set`, `Stores.push`, `Stores.pop`, `Stores.realloc`: another element, a further one, one less, and another
  block.
-/

namespace Sentinel

variable {α : Type*} {z x : α} {xs block : List α} {i : ℕ}

/-- `block` holds `xs` and behind it the sentinel. -/
def Stores (z : α) (xs block : List α) : Prop := xs ++ [z] <+: block

theorem Stores.length_lt (h : Stores z xs block) : xs.length < block.length := by
  have hlen := List.IsPrefix.length_le h
  rw [List.length_append, List.length_singleton] at hlen
  omega

theorem Stores.getElem? (h : Stores z xs block) (hi : i < xs.length) : block[i]? = xs[i]? := by
  obtain ⟨rest, rfl⟩ := h
  rw [List.append_assoc, List.getElem?_append_left hi]

theorem Stores.getElem?_length (h : Stores z xs block) : block[xs.length]? = some z := by
  obtain ⟨rest, rfl⟩ := h
  simp

/-- The sentinel, written once more. -/
theorem Stores.set_length (h : Stores z xs block) : Stores z xs (block.set xs.length z) := by
  obtain ⟨rest, rfl⟩ := h
  exact ⟨rest, by simp⟩

/-- Another element in the place of one of them. -/
theorem Stores.set {ys : List α} (h : Stores z (xs ++ x :: ys) block) (y : α) :
    Stores z (xs ++ y :: ys) (block.set xs.length y) := by
  obtain ⟨rest, rfl⟩ := h
  exact ⟨rest, by simp⟩

/-- A further element takes the place of the sentinel, which moves one cell on. -/
theorem Stores.push (h : Stores z xs block) (hroom : xs.length + 1 < block.length) (x : α) :
    Stores z (xs ++ [x]) ((block.set xs.length x).set (xs.length + 1) z) := by
  obtain ⟨rest, rfl⟩ := h
  cases rest with
  | nil => simp at hroom
  | cons y rest => exact ⟨rest, by simp⟩

theorem Stores.pop (h : Stores z (xs ++ [x]) block) : Stores z xs (block.set xs.length z) := by
  obtain ⟨rest, rfl⟩ := h
  exact ⟨z :: rest, by simp⟩

/-- A block of another size that begins with the same cells. -/
theorem Stores.realloc (h : Stores z xs block) (more : List α) {n : ℕ} (hn : xs.length < n) :
    Stores z xs ((block ++ more).take n) := by
  refine List.prefix_take_iff.2 ⟨h.trans (List.prefix_append block more), ?_⟩
  rw [List.length_append, List.length_singleton]
  omega

end Sentinel
