import Mathlib.Data.List.TakeDrop
import Ptu.Spec.CopyFile

/-!
# Copying block by block

* `okapiCopy_eq`: the loop of `okapi_copy_file` puts the source over the start of what was there.
* `copy_exact_iff`: **the copy is exact if the old file was not longer.**
-/

namespace Ptu

theorem writeAt_append (done old buf : List Byte) :
    writeAt (done ++ old) done.length buf = done ++ buf ++ old.drop buf.length := by
  unfold writeAt
  rw [List.take_left, ← List.drop_drop, List.drop_left]

/-- The invariant of the loop: what was read stands at the start, and then what is left of the
old content. -/
theorem copyLoop_eq (sizes : ℕ → ℕ) :
    ∀ (fuel k : ℕ) (rest done old : List Byte), rest.length < fuel →
      copyLoop sizes fuel k rest done.length (done ++ old) = done ++ rest ++ old.drop rest.length := by
  intro fuel
  induction fuel with
  | zero => intro k rest done old hfuel; omega
  | succ fuel ih =>
    intro k rest done old hfuel
    rw [copyLoop]
    obtain ⟨n, hn, hread⟩ : ∃ n, 0 < n ∧ readSome (sizes k) rest = rest.take n :=
      ⟨min copyBufSize (max 1 (sizes k)), by unfold copyBufSize; omega, rfl⟩
    cases hbuf : readSome (sizes k) rest with
    | nil =>
      -- only at the end of the file nothing is read
      have hnil : rest = [] := by
        rw [hread] at hbuf
        rcases List.take_eq_nil_iff.1 hbuf with hzero | hnil
        · omega
        · exact hnil
      subst hnil
      simp
    | cons b buf =>
      have hlen : (b :: buf).length ≤ rest.length := by
        rw [← hbuf, hread, List.length_take]
        omega
      have hsplit : b :: buf ++ rest.drop (b :: buf).length = rest := by
        have htake : rest.take (b :: buf).length = b :: buf := by
          rw [← hbuf, hread, List.length_take, List.take_eq_take_iff]
          omega
        rw [← htake, List.length_take, Nat.min_eq_left hlen]
        exact List.take_append_drop _ _
      have hshort : (rest.drop (b :: buf).length).length < fuel := by
        rw [List.length_cons] at hlen
        rw [List.length_drop, List.length_cons]
        omega
      have hround := ih (k + 1) (rest.drop (b :: buf).length) (done ++ (b :: buf))
        (old.drop (b :: buf).length) hshort
      rw [List.length_append] at hround
      dsimp only
      rw [writeAt_append, hround, List.append_assoc done, hsplit, List.drop_drop, List.length_drop,
        Nat.add_sub_cancel' hlen]

/-- **`okapi_copy_file` puts the source over the start of the old content**, whatever the sizes of
the blocks. -/
theorem okapiCopy_eq (sizes : ℕ → ℕ) (src : List Byte) (dst : Option (List Byte)) :
    okapiCopy sizes (some src) dst = src ++ (dst.getD []).drop src.length := by
  have hloop := copyLoop_eq sizes (src.length + 1) 0 src [] (dst.getD []) (Nat.lt_succ_self _)
  simpa [okapiCopy] using hloop

/-- **The copy is exact if and only if the old file was not longer.** -/
theorem copy_exact_iff (sizes : ℕ → ℕ) (src : List Byte) (dst : Option (List Byte)) :
    okapiCopy sizes (some src) dst = src ↔ (dst.getD []).length ≤ src.length := by
  rw [okapiCopy_eq]
  constructor
  · intro h
    have hdrop : (dst.getD []).drop src.length = [] := List.append_right_eq_self.1 h
    exact List.drop_eq_nil_iff.1 hdrop
  · intro h
    rw [List.drop_eq_nil_of_le h, List.append_nil]

/-- A shorter file leaves the end of the old one. -/
theorem copy_leftover :
    okapiCopy (fun _ => copyBufSize) (some (str "A=1")) (some (str "A=1\nB=2")) = str "A=1\nB=2" ∧
      okapiCopy (fun _ => copyBufSize) (some (str "A=1")) (some (str "A=1\nB=2")) ≠ str "A=1" := by
  rw [okapiCopy_eq]
  decide

end Ptu
