import Mathlib.Logic.Basic

/-!
# Writers with a capacity

A writer into a buffer of fixed size fails with the error `full` exactly if what it writes does
not fit. The condition under which a sequence of writers succeeds is that of its last one, as long
as it implies the conditions before it.

* `OkIff.bind`: the rule for a sequence.
* `OkIff.ne_error_iff`, `OkIff.of_ok`, `OkIff.ok`: what such a writer says.
-/

namespace Capacity

universe u

variable {ε : Type*} {α β : Type u} {full : ε} {fits fits' : Prop} {Q Q' : α → Prop} {R : β → Prop}
variable {r : Except ε α} {a : α}

/-- `r` has a result, with `Q` of it, if `fits`; otherwise it fails with `full`. -/
def OkIff (full : ε) (fits : Prop) (Q : α → Prop) (r : Except ε α) : Prop :=
  (fits ∧ ∃ a, r = .ok a ∧ Q a) ∨ (¬ fits ∧ r = .error full)

theorem okIff_ok (hfits : fits) (ha : Q a) : OkIff full fits Q (.ok a) := .inl ⟨hfits, a, rfl, ha⟩

theorem okIff_error (hfits : ¬ fits) : OkIff full fits Q (.error full) := .inr ⟨hfits, rfl⟩

theorem OkIff.bind {k : α → Except ε β} (h : OkIff full fits Q r)
    (hk : ∀ a, fits → Q a → OkIff full fits' R (k a)) (himp : fits' → fits) :
    OkIff full fits' R (r >>= k) := by
  rcases h with ⟨hfits, a, rfl, ha⟩ | ⟨hfits, rfl⟩
  · exact hk a hfits ha
  · exact okIff_error (mt himp hfits)

theorem OkIff.map {f : α → β} (h : OkIff full fits Q r) (hR : ∀ a, Q a → R (f a)) :
    OkIff full fits R (r.map f) := by
  rcases h with ⟨hfits, a, rfl, ha⟩ | ⟨hfits, rfl⟩
  · exact okIff_ok hfits (hR a ha)
  · exact okIff_error hfits

theorem OkIff.mono (h : OkIff full fits Q r) (hQ : ∀ a, Q a → Q' a) : OkIff full fits Q' r := by
  rcases h with ⟨hfits, a, rfl, ha⟩ | ⟨hfits, rfl⟩
  · exact okIff_ok hfits (hQ a ha)
  · exact okIff_error hfits

theorem OkIff.congr (h : OkIff full fits Q r) (hfits : fits ↔ fits') : OkIff full fits' Q r := by
  rwa [← propext hfits]

theorem OkIff.ok (h : OkIff full fits Q r) (hfits : fits) : ∃ a, r = .ok a ∧ Q a := by
  rcases h with ⟨-, h⟩ | ⟨hnot, -⟩
  · exact h
  · exact absurd hfits hnot

theorem OkIff.of_ok (h : OkIff full fits Q r) (hr : r = .ok a) : fits ∧ Q a := by
  rcases h with ⟨hfits, b, hb, hQ⟩ | ⟨-, hb⟩
  · obtain rfl := Except.ok.inj (hb.symm.trans hr)
    exact ⟨hfits, hQ⟩
  · rw [hb] at hr
    cases hr

theorem OkIff.ne_error_iff (h : OkIff full fits Q r) : r ≠ .error full ↔ fits := by
  rcases h with ⟨hfits, a, rfl, -⟩ | ⟨hfits, rfl⟩
  · exact iff_of_true (fun h => by cases h) hfits
  · exact iff_of_false (fun h => h rfl) hfits

end Capacity
