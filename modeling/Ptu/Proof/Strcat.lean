import Mathlib.Data.List.Basic
import Ptu.Spec.Okapi

/-!
# Texts in a buffer

`strcat` to a text in a buffer of `MAXPATHLEN` bytes, once and in a loop that appends the same text over
and over.
-/

namespace Ptu

variable {buf x : CString}

theorem strcat_eq_ok {s : CString} : strcat buf s = .ok x ↔ x = buf ++ s ∧ x.length < maxPathLen := by
  unfold strcat
  split_ifs with hlen
  · constructor
    · intro h
      obtain rfl := Except.ok.inj h
      exact ⟨rfl, hlen⟩
    · rintro ⟨rfl, -⟩
      rfl
  · constructor
    · intro h
      cases h
    · rintro ⟨rfl, hfits⟩
      exact absurd hfits hlen

/-- The loop that appends `piece` again and again. -/
theorem strcat_repeat (piece : CString) (hbuf : buf.length < maxPathLen) (n : ℕ) :
    (List.range n).foldlM (fun buf _ => strcat buf piece) buf = .ok x ↔
      x = buf ++ (List.replicate n piece).flatten ∧ x.length < maxPathLen := by
  induction n generalizing x with
  | zero =>
    rw [List.replicate_zero, List.flatten_nil, List.append_nil]
    constructor
    · intro h
      obtain rfl := Except.ok.inj h
      exact ⟨rfl, hbuf⟩
    · rintro ⟨rfl, -⟩
      rfl
  | succ n ih =>
    have hsnoc : (List.replicate (n + 1) piece).flatten = (List.replicate n piece).flatten ++ piece := by
      rw [List.replicate_succ', List.flatten_append, List.flatten_singleton]
    rw [List.range_succ, List.foldlM_append, bind_eq_ok, hsnoc, ← List.append_assoc]
    constructor
    · rintro ⟨y, hy, hx⟩
      obtain ⟨rfl, -⟩ := ih.1 hy
      rw [List.foldlM_cons, bind_eq_ok] at hx
      obtain ⟨z, hz, hx⟩ := hx
      obtain rfl : z = x := Except.ok.inj hx
      exact strcat_eq_ok.1 hz
    · rintro ⟨rfl, hlen⟩
      refine ⟨buf ++ (List.replicate n piece).flatten, ih.2 ⟨rfl, ?_⟩, ?_⟩
      · rw [List.length_append] at hlen
        omega
      · rw [List.foldlM_cons, bind_eq_ok]
        exact ⟨_, strcat_eq_ok.2 ⟨rfl, hlen⟩, rfl⟩

end Ptu
