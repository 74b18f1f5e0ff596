import Ptu.Proof.ConvenienceScript
import Ptu.Proof.Munge

/-!
# The room for relative prefixes

okapi and `CDE_create_convenience_scripts` put a text with one `..` for every directory into an array of `MAXPATHLEN`
bytes, by `strcat` in a loop.

* `relative_prefixes_iff`: **both texts fit exactly if their lengths, with the NUL, do not exceed `MAXPATHLEN`**.
-/

namespace Ptu

variable {srcPrefix dir target pwd x : CString}

/-- **The relative prefixes fit** exactly if what they are to hold does: no loop checks the room, and the depth of the
directory and the length of the target count together. -/
theorem relative_prefixes_iff (srcPrefix : CString) (hdir : isAbspath dir = true) (htarget : isAbspath target = true)
    (pwd : CString) :
    ((∃ text, relativeSymlinkTarget srcPrefix (srcPrefix ++ dir) (srcPrefix ++ target) = .ok text) ∧
        ∃ dots, dotDotsBuffer (components pwd).length = .ok dots) ↔
      2 + 3 * (components dir).length + target.length + 1 ≤ maxPathLen ∧
        2 + 3 * (components pwd).length + 1 ≤ maxPathLen := by
  constructor
  · rintro ⟨⟨text, htext⟩, dots, hdots⟩
    exact ⟨((relativeSymlinkTarget_abs hdir htarget).1 htext).2, (dotDotsBuffer_eq_ok.1 hdots).2⟩
  · rintro ⟨htext, hdots⟩
    exact ⟨⟨_, (relativeSymlinkTarget_abs hdir htarget).2 ⟨rfl, htext⟩⟩, _, dotDotsBuffer_eq_ok.2 ⟨rfl, hdots⟩⟩

/-- A link in `/usr/bin`, and a run in bob's directory. -/
theorem relative_prefixes_bob :
    (∃ text, relativeSymlinkTarget [] (str "/usr/bin") (str "/lib/c") = .ok text) ∧
      ∃ dots, dotDotsBuffer (components (str "/home/bob")).length = .ok dots :=
  (relative_prefixes_iff [] rfl rfl _).2 (by decide +kernel)

/-- A directory of 1365 components is short enough for the kernel, and so is a target of 4094 bytes in `/`. -/
theorem relative_prefixes_overflow :
    (render (List.replicate 1365 (str "a"))).length < maxPathLen ∧
    (∀ dots, dotDotsBuffer (components (render (List.replicate 1365 (str "a")))).length ≠ .ok dots) ∧
    (slash :: List.replicate 4093 97).length < maxPathLen ∧
    ∀ text, relativeSymlinkTarget [] (str "/") (slash :: List.replicate 4093 97) ≠ .ok text := by
  have hvalid : ValidPath (List.replicate 1365 (str "a")) := by
    intro n hn
    rw [List.eq_of_mem_replicate hn]
    decide
  have hlength : ∀ n, (joinSlash (List.replicate (n + 1) (str "a"))).length = 2 * n + 1 := by
    intro n
    induction n with
    | zero => rfl
    | succ n ih =>
      rw [List.replicate_succ, joinSlash_cons, if_neg (by simp), List.length_append, render, List.length_cons, ih]
      have hone : (str "a").length = 1 := rfl
      omega
  have htarget : (slash :: List.replicate 4093 97).length = 4094 := by rw [List.length_cons, List.length_replicate]
  refine ⟨?_, fun dots h => ?_, ?_, fun text h => ?_⟩
  · rw [render, List.length_cons, hlength]
    decide
  · have hfits := (dotDotsBuffer_eq_ok.1 h).2
    rw [components_render hvalid, List.length_replicate] at hfits
    exact absurd hfits (by decide)
  · rw [htarget]
    decide
  · have hroot : components (str "/") = [] := by decide
    have hslash : isAbspath (str "/") = true := rfl
    have habs : isAbspath (slash :: List.replicate 4093 97) = true := rfl
    have hbuffer : relativeSymlinkTarget [] ([] ++ str "/") ([] ++ slash :: List.replicate 4093 97) = .ok text := h
    have hfits := ((relativeSymlinkTarget_abs hslash habs).1 hbuffer).2
    rw [hroot, htarget] at hfits
    exact absurd hfits (by decide)

end Ptu
