import Ptu.Proof.Path
import Ptu.Spec.Fs

/-!
# Canonical paths and the kernel

`canonicalize_path` removes `.` and `..` from the text of a path, the kernel takes `..`
from the directory it has reached.

* `lookup_render`: how the kernel looks up a canonical path.
* `canonicalize_resolves`: **the canonical path names the file the kernel uses**, as long
  as no `..` cancels the name of a symbolic link.
-/

namespace Ptu

open Pathname

variable {fs : Fs} {b : ℕ} {follow : Bool} {d r : List CString}

/-- Lookup as a derivation, without side conditions. -/
abbrev Resolves (fs : Fs) : ℕ → List CString → List (Comp CString) → List CString → Prop :=
  Res readTarget fs (fun _ => True) (fun _ _ => True)

theorem resolve_abs {s : CString} (h : isAbspath s = true) :
    resolve fs b d s = some r ↔ ∃ n ≤ b, Resolves fs n [] (pathComps s) r := by
  have hne : s ≠ [] := by rintro rfl; simp [isAbspath] at h
  simp only [resolve, lookup, hne, if_false, h, if_true, walk_iff_res]

theorem resolve_rel {s : CString} (h : isAbspath s = false) :
    resolve fs b d s = some r ↔ s ≠ [] ∧ ∃ n ≤ b, Resolves fs n d (pathComps s) r := by
  by_cases hne : s = []
  · simp [resolve, lookup, hne]
  · simp only [resolve, lookup, hne, if_false, h, Bool.false_eq_true, walk_iff_res, ne_eq,
      not_false_eq_true, true_and]

/-- The slash at the end of a path does not change the object. -/
theorem Resolves.of_pathComps {n : ℕ} {s : CString} (h : Resolves fs n d (pathComps s) r) :
    Resolves fs n d (comps s) r := by
  unfold pathComps at h
  split_ifs at h with hs
  · obtain ⟨n₁, n₂, m, rfl, h₁, h₂⟩ := h.split
    cases h₂ with
    | here _ _ h₂ =>
      cases h₂ with
      | nil _ => exact h₁
  · simpa using h

theorem getLast?_render {p : List CString} (hp : ValidPath p) :
    (render p).getLast? = some slash ↔ p = [] := by
  rcases List.eq_nil_or_concat' p with rfl | ⟨p, a, rfl⟩
  · simp
  · have ha := hp a (by simp)
    have hlast : (render (p ++ [a])).getLast? = a.getLast? := by
      rw [render_concat, List.getLast?_append, List.getLast?_cons]
      cases hl : a.getLast? with
      | none => exact absurd (List.getLast?_eq_none_iff.1 hl) ha.1
      | some c => simp
    rw [hlast]
    constructor
    · intro h
      exact absurd (List.mem_of_getLast? h) ha.2.2.2
    · intro h
      exact absurd h (by simp)

/-- The kernel walks the names of a canonical path. -/
theorem pathComps_render {p : List CString} (hp : ValidPath p) :
    pathComps (render p) = names p ++ if p = [] then [.here] else [] := by
  simp only [pathComps, comps_render hp, getLast?_render hp]

theorem resolve_render (hfs : WellFormed fs) {p : List CString} (hp : ValidPath p) :
    resolve fs b d (render p) = some r ↔ ∃ n ≤ b, Resolves fs n [] (names p) r := by
  rw [resolve_abs (isAbspath_render p), pathComps_render hp]
  split_ifs with hnil
  · subst hnil
    constructor
    · rintro ⟨n, hn, h⟩
      cases h with
      | here _ _ h => exact ⟨n, hn, h⟩
    · rintro ⟨n, hn, h⟩
      exact ⟨n, hn, .here trivial hfs.root h⟩
  · rw [List.append_nil]

/-- **The path the tracer logs names the file the kernel uses.** The working directory is any
absolute path `cwd` that leads to the directory `d`. -/
theorem canonicalize_resolves (hfs : WellFormed fs) {cwd p : CString} {b' : ℕ}
    (hcwd : isAbspath cwd = true) (hd : resolve fs b' [] cwd = some d) (hp : resolve fs b d p = some r)
    (hsafe : lexSafe readTarget fs (b' + b) [] (absComps p cwd) = true) :
    ∃ q, canonicalizePath p cwd = .ok q ∧ resolve fs (b' + b) [] q = some r := by
  refine ⟨_, canonicalizePath_eq (Or.inr hcwd), ?_⟩
  rw [resolve_render hfs (validPath_absComps p cwd)]
  -- the components that are normalised lead to `r` from the root
  obtain ⟨n, hn, hres⟩ : ∃ n ≤ b' + b, Resolves fs n [] (absComps p cwd) r := by
    unfold absComps
    by_cases hpa : isAbspath p = true
    · obtain ⟨n, hn, h⟩ := (resolve_abs hpa).1 hp
      exact ⟨n, by omega, by rw [if_pos hpa]; exact Resolves.of_pathComps h⟩
    · obtain ⟨-, n, hn, h⟩ := (resolve_rel (by simpa using hpa)).1 hp
      obtain ⟨n', hn', h'⟩ := (resolve_abs hcwd).1 hd
      refine ⟨n' + n, by omega, ?_⟩
      rw [if_neg hpa]
      exact (Resolves.of_pathComps h').append (Resolves.of_pathComps h)
  obtain ⟨m, hm, h⟩ := hres.norm (.nil trivial) (by omega) hsafe
  exact ⟨m, by omega, h⟩

/-- Two directories, each with a file `f`, and a link from the first into the second. -/
def linkedDirs : Fs := Fs.ofList
  [([], .dir), ([str "a"], .dir), ([str "b"], .dir), ([str "b", str "c"], .dir),
   ([str "a", str "l"], .link (str "/b/c")), ([str "a", str "f"], .file ⟨str "A", 0⟩),
   ([str "b", str "f"], .file ⟨str "B", 0⟩)]

theorem wellFormed_linkedDirs : WellFormed linkedDirs :=
  Fs.wellFormed_ofList (by decide +kernel) (by decide +kernel)

theorem canonicalize_resolves_relative :
    resolve linkedDirs 40 [str "b", str "c"] (str "./../../a/l/.") = some [str "b", str "c"] ∧
    ∃ q, canonicalizePath (str "./../../a/l/.") (str "/b/c") = .ok q ∧
      resolve linkedDirs (0 + 40) [] q = some [str "b", str "c"] := by
  have hd : resolve linkedDirs 0 [] (str "/b/c") = some [str "b", str "c"] := by decide +kernel
  have hp : resolve linkedDirs 40 [str "b", str "c"] (str "./../../a/l/.") = some [str "b", str "c"] := by
    decide +kernel
  have hsafe : lexSafe readTarget linkedDirs (0 + 40) []
      (absComps (str "./../../a/l/.") (str "/b/c")) = true := by decide +kernel
  exact ⟨hp, canonicalize_resolves wellFormed_linkedDirs rfl hd hp hsafe⟩

/-- A `..` after a link: the kernel uses `/b/f`, the tracer mirrors and logs `/a/f`. -/
theorem canonicalize_wrong_file :
    WellFormed linkedDirs ∧ resolve linkedDirs 40 [] (str "/a/l/../f") = some [str "b", str "f"] ∧
      canonicalizePath (str "/a/l/../f") (str "/") = .ok (str "/a/f") ∧
      resolve linkedDirs 40 [] (str "/a/f") = some [str "a", str "f"] :=
  ⟨wellFormed_linkedDirs, by decide +kernel, by decide +kernel, by decide +kernel⟩

end Ptu
