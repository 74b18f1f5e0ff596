import Mathlib.Data.Nat.Notation
import Mathlib.Logic.Relation

/-!
# Who waits for whom

A relation says which index waits for which. If everything that waits waits for something of a higher rank, and ranks
are bounded, then whatever waits depends in the end on something that does not wait.

* `exists_running`
-/

namespace WaitFor

open Relation

variable {ι : Type*}

/-- **No deadlock**: a chain of waiting ends. -/
theorem exists_running (Waits : ι → Prop) (For : ι → ι → Prop) (rank : ι → ℕ) (bound : ℕ)
    (hfor : ∀ i, Waits i → ∃ j, For i j ∧ rank i < rank j) (hbound : ∀ i, Waits i → rank i ≤ bound) (i : ι) :
    ∃ j, ReflTransGen For i j ∧ ¬ Waits j := by
  -- induction on how far the rank is from the bound
  obtain ⟨n, hn⟩ : ∃ n, bound - rank i = n := ⟨_, rfl⟩
  induction n using Nat.strongRecOn generalizing i with
  | ind n ih =>
    by_cases hi : Waits i
    · obtain ⟨j, hij, hrank⟩ := hfor i hi
      by_cases hj : Waits j
      · have hbi := hbound i hi
        have hbj := hbound j hj
        obtain ⟨m, hjm, hm⟩ := ih (bound - rank j) (by omega) j rfl
        exact ⟨m, .head hij hjm, hm⟩
      · exact ⟨j, .single hij, hj⟩
    · exact ⟨i, .refl, hi⟩

end WaitFor
