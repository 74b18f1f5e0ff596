import Ptu.Proof.Okapi

/-!
# Copies in an existing package

* `refresh_iff`: **`create_mirror_file` replaces no copy**: after it the destination has the content
  of the source only if it had before, or did not exist and can be filled, or counted as new enough.
-/

namespace Ptu

open Pathname

/-! ## A file that is there already -/

section Refresh

variable {h : Host} {F : Fs} {f src dst : CString} {file : File}
variable {symlinkAndTarget : MirrorSymlink}

/-- The parent directories of `f` are mirrored: the name of its directory leads to a directory in
the destination, and there is an entry for every directory `create_mirror_dirs` would make. -/
structure ParentsMirrored (h : Host) (F : Fs) (f dst : CString) : Prop where
  parent : stat h F (dst ++ dirname f) = some .dir
  above : ∀ i, i < (mirrorNames f true).length →
    (lstat h F (dst ++ render ((mirrorNames f true).take (i + 1)))).isSome = true

theorem ParentsMirrored.createMirrorDirs (hp : ParentsMirrored h F f dst) (hf : isAbspath f = true)
    (hdst : isAbspath dst = true) : createMirrorDirs h symlinkAndTarget f src dst true F = .ok F := by
  rw [createMirrorDirs_eq hdst hf]
  obtain ⟨F', hloop, rfl⟩ := foldlM_range_total (I := fun _ F' => F' = F) (n := (mirrorNames f true).length)
    (f := fun fs i => createMirrorDir h symlinkAndTarget src dst fs (render ((mirrorNames f true).take (i + 1))))
    (fun i F' hi hF' => by
      refine ⟨F', ?_, hF'⟩
      rw [hF', createMirrorDir, if_pos (hp.above i hi)]) rfl
  exact hloop

/-- The directory of the destination, as lookup finds it. -/
theorem ParentsMirrored.leads (hp : ParentsMirrored h F f dst) (hf : isAbspath f = true)
    (hdst : isAbspath dst = true) {cs : List (Comp CString)} {a : CString}
    (hcs : pathComps f = cs ++ [.name a]) :
    ∃ m d, m ≤ h.maxLinks ∧ Resolves F m [] (comps dst ++ cs) d ∧ F d = some .dir := by
  obtain ⟨habs, hdir⟩ := dirname_spec hf hcs
  have hparent := hp.parent
  unfold stat lookup at hparent
  rw [if_neg (ne_nil_of_isAbspath (isAbspath_append _ hdst)), if_pos (isAbspath_append _ hdst),
    pathComps_append habs] at hparent
  obtain ⟨d, hwalk, hd⟩ := Option.bind_eq_some_iff.1 hparent
  obtain ⟨m, hm, hres⟩ := walk_iff_res.1 hwalk
  have hres' : Resolves F m [] (comps dst ++ pathComps (dirname f)) d :=
    hres.mono (fun _ _ h => h) (fun _ _ => trivial) (fun _ _ h => h)
  rcases hdir with hdir | hdir
  · rw [hdir] at hres'
    exact ⟨m, d, hm, hres', hd⟩
  · rw [hdir, ← List.append_assoc] at hres'
    obtain ⟨n₁, n₂, d', rfl, h₁, h₂⟩ := hres'.split
    have hd' : F d' = some .dir := h₂.dir_of_ne_nil (by simp)
    exact ⟨n₁, d', by omega, h₁, hd'⟩

/-- With the directories in place a regular file is linked or copied, if it is not fresh. -/
theorem ParentsMirrored.createMirrorFile (hp : ParentsMirrored h F f dst) (fuel : ℕ)
    (hf : isAbspath f = true) (hdst : isAbspath dst = true) (hsrc : isAbspath (src ++ f) = true)
    (hfile : lstat h F (src ++ f) = some (.file file)) :
    createMirrorFile h fuel f src dst F =
      if isFresh h F (dst ++ f) (some (.file file)) then .ok F else linkOrCopy h F (src ++ f) (dst ++ f) := by
  unfold Ptu.createMirrorFile
  simp only [hf, hdst, hsrc, hfile, hp.createMirrorDirs hf hdst, Bool.not_true, Bool.or_self,
    Bool.false_eq_true, if_false]
  rfl

/-- The content of `file` is found at `path`. -/
def HasContent (h : Host) (F : Fs) (path : CString) (file : File) : Prop :=
  ∃ copy, stat h F path = some (.file copy) ∧ copy.content = file.content

/-- A new copy of the file has its content: `link` succeeds, or the file can be opened, or there is nothing in
it. -/
def CopiesAll (h : Host) (F : Fs) (src dst : CString) (file : File) : Prop :=
  h.hardLink src dst = true ∨ openRead h F src ≠ none ∨ file.content = []

theorem copiedContent_eq_iff {X Y : CString} {m : ℕ} {r : List CString} (hX : isAbspath X = true)
    (hr : Resolves F m [] (pathComps X) r) (hm : m ≤ h.maxLinks) (hfile : F r = some (.file file)) :
    copiedContent h r X Y file = file.content ↔ CopiesAll h F X Y file := by
  unfold copiedContent CopiesAll
  rw [openRead_of_res hX hr hm hfile]
  cases h.hardLink X Y with
  | true => simp
  | false =>
    cases h.mayRead r with
    | true => simp
    | false => simp [eq_comm]

/-- A path ends in the same name with a prefix and without. -/
theorem pathComps_last {cs₀ : List (Comp CString)} {a : CString} (hf : isAbspath f = true)
    (h : pathComps (src ++ f) = cs₀ ++ [.name a]) : ∃ cs, pathComps f = cs ++ [.name a] := by
  rw [pathComps_append hf] at h
  rcases List.eq_nil_or_concat' (pathComps f) with hnil | ⟨cs, c, hc⟩
  · exact absurd hnil (pathComps_ne_nil (ne_nil_of_isAbspath hf))
  · rw [hc, ← List.append_assoc] at h
    obtain ⟨-, hlast⟩ := List.append_inj' h rfl
    rw [hc, hlast]
    exact ⟨cs, rfl⟩

/-- A new file is found under its path. -/
theorem stat_set_file {Y : CString} {cs : List (Comp CString)} {a : CString} {m : ℕ} {d : List CString} {copy : File}
    (hY : isAbspath Y = true) (hcs : pathComps Y = cs ++ [.name a]) (hr : Resolves F m [] cs d)
    (hd : F d = some .dir) (hm : m ≤ h.maxLinks) (hnone : F (d ++ [a]) = none) :
    stat h (F.set (d ++ [a]) (.file copy)) Y = some (.file copy) := by
  have hset : ∀ q nd, F q = some nd → F.set (d ++ [a]) (.file copy) q = some nd := Fs.set_mono hnone
  have hself : F.set (d ++ [a]) (.file copy) (d ++ [a]) = some (.file copy) := by simp [Fs.set]
  have hres : Resolves (F.set (d ++ [a]) (.file copy)) m [] (pathComps Y) (d ++ [a]) := by
    rw [hcs]
    exact (hr.mono hset (fun _ h => h) (fun _ _ h => h)).append
      (.name trivial (hset _ _ hd) hself (by simp) (.nil trivial))
  rw [stat_of_res hY hres hm, hself]

/-- **An old copy is not replaced.** After `create_mirror_file` of a regular file the destination has
its content, or was new enough before, if and only if it was new enough, did not exist and the file can be
linked or read, or had the content before. -/
theorem refresh_iff (fuel : ℕ) (hF : WellFormed F) (hf : isAbspath f = true) (hdst : isAbspath dst = true)
    (hsrc : isAbspath (src ++ f) = true) (hfile : lstat h F (src ++ f) = some (.file file))
    (hparents : ParentsMirrored h F f dst) :
    (∃ F', createMirrorFile h fuel f src dst F = .ok F' ∧
      (isFresh h F (dst ++ f) (some (.file file)) = true ∨ HasContent h F' (dst ++ f) file)) ↔
    (isFresh h F (dst ++ f) (some (.file file)) = true ∨
      (lstat h F (dst ++ f) = none ∧ CopiesAll h F (src ++ f) (dst ++ f) file) ∨
      HasContent h F (dst ++ f) file) := by
  have hY := isAbspath_append f hdst
  rw [hparents.createMirrorFile fuel hf hdst hsrc hfile]
  by_cases hfresh : isFresh h F (dst ++ f) (some (.file file)) = true
  · -- the shortcut
    rw [if_pos hfresh]
    constructor
    · intro _
      exact Or.inl hfresh
    · intro _
      exact ⟨F, rfl, Or.inl hfresh⟩
  · rw [if_neg hfresh]
    simp only [hfresh, Bool.false_eq_true, false_or]
    obtain ⟨cs₀, a, m, d, hcs₀, hr, hd, hm, ha⟩ := lstat_inv hF hsrc hfile (by simp)
    obtain ⟨cs, hcs⟩ := pathComps_last hf hcs₀
    obtain ⟨m', d', hm', hr', hd'⟩ := hparents.leads hf hdst hcs
    have hcs' : pathComps (dst ++ f) = (comps dst ++ cs) ++ [.name a] := by
      rw [pathComps_append hf, hcs, List.append_assoc]
    have hlstat := lstat_last hY hcs' hr' hd' hm'
    rw [hlstat]
    obtain ⟨hsome, hok⟩ | ⟨hnone, copy, hcontent, hok⟩ :=
      linkOrCopy_file hsrc hcs₀ hr hd hm ha hY hcs' hr' hd' hm'
    · -- `EEXIST`: nothing changes
      have hne : F (d' ++ [a]) ≠ none := Option.isSome_iff_ne_none.1 hsome
      simp only [hok, Except.ok.injEq, exists_eq_left', hne, false_and, false_or]
    · have hnew : stat h (F.set (d' ++ [a]) (.file copy)) (dst ++ f) = some (.file copy) :=
        stat_set_file hY hcs' hr' hd' hm' hnone
      -- the destination did not exist, so it did not have the content
      have hold : ¬ HasContent h F (dst ++ f) file := by
        rintro ⟨old, hstat, -⟩
        rw [stat, show lookup F h.maxLinks true [] (dst ++ f) = none from
          realpath_none hY hcs' hr' hd' hm' hnone] at hstat
        cases hstat
      have hres : Resolves F m [] (pathComps (src ++ f)) (d ++ [a]) := by
        rw [hcs₀]
        exact hr.append (.name trivial hd ha (by simp) (.nil trivial))
      simp only [hok, Except.ok.injEq, exists_eq_left', hnone, hold, true_and, or_false]
      rw [← copiedContent_eq_iff hsrc hres hm ha, ← hcontent]
      constructor
      · rintro ⟨copy', hstat, hsame⟩
        rw [hnew] at hstat
        obtain rfl := Node.file.inj (Option.some.inj hstat)
        exact hsame
      · intro hsame
        exact ⟨copy, hnew, hsame⟩

end Refresh

/-- A captured file `/f` with its copy below `/r`, the file written again later, and a file `/g`
that is not captured yet. -/
def staleFs : Fs := Fs.ofList
  [([], .dir), ([str "f"], .file ⟨str "new", 2⟩), ([str "g"], .file ⟨str "g", 3⟩), ([str "r"], .dir),
    ([str "r", str "f"], .file ⟨str "old", 1⟩)]

theorem staleFs_wellFormed : WellFormed staleFs :=
  Fs.wellFormed_ofList rfl (by decide)

theorem staleFs_parents {f : CString} (hd : dirname f = str "/") (hn : mirrorNames f true = []) :
    ParentsMirrored {} staleFs f (str "/r") where
  parent := by rw [hd]; decide
  above := by simp [hn]

/-- A file that is not there yet is copied. -/
theorem refresh_new :
    lstat {} staleFs (str "/r/g") = none ∧
      ∃ F', createMirrorFile {} 0 (str "/g") [] (str "/r") staleFs = .ok F' ∧
        (isFresh {} staleFs (str "/r/g") (some (.file ⟨str "g", 3⟩)) = true ∨
          HasContent {} F' (str "/r/g") ⟨str "g", 3⟩) := by
  have hnone : lstat {} staleFs (str "/r/g") = none := by decide
  exact ⟨hnone, (refresh_iff 0 staleFs_wellFormed rfl rfl rfl (by decide)
    (staleFs_parents (by decide) (by decide))).2 (Or.inr (Or.inl ⟨hnone, Or.inl rfl⟩))⟩

/-- The old content stays, although the source is newer. -/
theorem refresh_stale :
    WellFormed staleFs ∧ ParentsMirrored {} staleFs (str "/f") (str "/r") ∧
      lstat {} staleFs (str "/f") = some (.file ⟨str "new", 2⟩) ∧
      isFresh {} staleFs (str "/r/f") (some (.file ⟨str "new", 2⟩)) = false ∧
      (createMirrorFile {} 5 (str "/f") [] (str "/r") staleFs).toOption.map (stat {} · (str "/r/f")) =
        some (some (.file ⟨str "old", 1⟩)) := by
  refine ⟨staleFs_wellFormed, staleFs_parents (by decide) (by decide), ?_, ?_, ?_⟩
  · decide
  · decide
  · decide

end Ptu
