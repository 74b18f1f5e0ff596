import Mathlib.Data.List.Basic

/-!
# Computations that may fail

`Sat E Q x`: the result of `x` is as `Q` says, and if `x` fails, then as `E` says. One statement about a
function tells both what it keeps and how it can fail.

* `Sat.bind`, `Sat.foldlM`, `Sat.foldlM_range`: the rules for a sequence and for loops.
-/

namespace Outcome

universe u v

variable {ε : Type u} {α β σ : Type v} {ι : Type*} {E E' : ε → Prop} {Q Q' : α → Prop}

/-- The result of a computation satisfies `Q`, and its failure `E`. -/
def Sat (E : ε → Prop) (Q : α → Prop) : Except ε α → Prop
  | .ok a => Q a
  | .error e => E e

@[simp] theorem sat_ok {a : α} : Sat E Q (.ok a) ↔ Q a := Iff.rfl

@[simp] theorem sat_error {e : ε} : Sat E Q (.error e : Except ε α) ↔ E e := Iff.rfl

@[simp] theorem sat_pure {a : α} : Sat E Q (pure a : Except ε α) ↔ Q a := Iff.rfl

theorem Sat.intro {x : Except ε α} (hok : ∀ a, x = .ok a → Q a) (herror : ∀ e, x = .error e → E e) : Sat E Q x := by
  cases x with
  | ok a => exact hok a rfl
  | error e => exact herror e rfl

theorem Sat.of_eq_ok {x : Except ε α} {a : α} (h : Sat E Q x) (hx : x = .ok a) : Q a := by
  rw [hx] at h
  exact h

theorem Sat.of_eq_error {x : Except ε α} {e : ε} (h : Sat E Q x) (hx : x = .error e) : E e := by
  rw [hx] at h
  exact h

theorem Sat.imp {x : Except ε α} (h : Sat E Q x) (hE : ∀ e, E e → E' e) (hQ : ∀ a, Q a → Q' a) : Sat E' Q' x := by
  cases x with
  | ok a => exact hQ a h
  | error e => exact hE e h

theorem Sat.mono {x : Except ε α} (h : Sat E Q x) (hQ : ∀ a, Q a → Q' a) : Sat E Q' x :=
  h.imp (fun _ he => he) hQ

theorem Sat.bind {x : Except ε α} {f : α → Except ε β} {R : β → Prop} (hx : Sat E Q x)
    (hf : ∀ a, Q a → Sat E R (f a)) : Sat E R (x >>= f) := by
  cases x with
  | ok a => exact hf a hx
  | error e => exact hx

theorem Sat.map {x : Except ε α} {f : α → β} {R : β → Prop} (hx : Sat E Q x) (hf : ∀ a, Q a → R (f a)) :
    Sat E R (x.map f) := by
  cases x with
  | ok a => exact hf a hx
  | error e => exact hx

/-- A loop: what every round keeps holds at the end. -/
theorem Sat.foldlM {I : σ → Prop} {f : σ → ι → Except ε σ} {l : List ι} {s : σ} (hs : I s)
    (hround : ∀ s a, a ∈ l → I s → Sat E I (f s a)) : Sat E I (l.foldlM f s) := by
  induction l generalizing s with
  | nil => exact hs
  | cons a l ih =>
    rw [List.foldlM_cons]
    exact (hround s a (by simp) hs).bind fun s' hs' =>
      ih hs' fun s b hb => hround s b (List.mem_cons_of_mem _ hb)

/-- A loop over the numbers below `n`, with what holds after the first `m` rounds. -/
theorem Sat.foldlM_range {I : ℕ → σ → Prop} {f : σ → ℕ → Except ε σ} {n : ℕ} {s : σ} (hs : I 0 s)
    (hround : ∀ s m, m < n → I m s → Sat E (I (m + 1)) (f s m)) : Sat E (I n) ((List.range n).foldlM f s) := by
  induction n with
  | zero => exact hs
  | succ n ih =>
    rw [List.range_succ, List.foldlM_append]
    refine (ih fun s m hm => hround s m (Nat.lt_succ_of_lt hm)).bind fun s' hs' => ?_
    rw [List.foldlM_cons]
    exact (hround s' n n.lt_succ_self hs').bind fun s'' hs'' => hs''

end Outcome
