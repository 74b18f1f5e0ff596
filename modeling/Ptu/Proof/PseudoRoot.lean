import Ptu.Proof.Okapi
import Ptu.Spec.PseudoRoot

/-!
# The package directory is above cde-root

* `findRepoName_none`, `findRepoName_one`: what the loop finds.
* `dirname_eq_self`: only `/` is its own directory, so the second `dirname` of a buffer gives another one.
* `package_dir_iff`: **`Cde_app_dir` is the directory above `cde_cderoot_dir` exactly if cde-root is not at the
  top level, and cde-exec is if there is no cde-root**.
-/

namespace Ptu

variable {pwd exe rootName X : CString} {cs : List CString}

/-! ## The loop -/

theorem findRepoName_none {i : ℕ} {found : Option (ℕ × CString)} (h : ∀ c ∈ cs, isARepoName c = false) :
    findRepoName pwd i cs found = .ok found := by
  induction cs generalizing i with
  | nil => rfl
  | cons c cs ih =>
    obtain ⟨hc, hcs⟩ := List.forall_mem_cons.1 h
    unfold findRepoName
    rw [hc, if_neg Bool.false_ne_true, ih hcs]

theorem findRepoName_one {i : ℕ} {before after : List CString} {c : CString}
    (hbefore : ∀ d ∈ before, isARepoName d = false) (hc : isARepoName c = true)
    (hafter : ∀ d ∈ after, isARepoName d = false) :
    findRepoName pwd i (before ++ c :: after) none = .ok (some (i + before.length, c)) := by
  induction before generalizing i with
  | nil =>
    rw [List.nil_append, findRepoName, hc, if_pos rfl]
    exact findRepoName_none hafter
  | cons d before ih =>
    obtain ⟨hd, hrest⟩ := List.forall_mem_cons.1 hbefore
    rw [List.cons_append, findRepoName, hd, if_neg Bool.false_ne_true, ih hrest, List.length_cons]
    congr 3
    omega

/-- At most one component is accepted: none, or one between others that are not. -/
theorem repoName_cases (h : cs.countP isARepoName ≤ 1) :
    (∀ c ∈ cs, isARepoName c = false) ∨ ∃ before c after, cs = before ++ c :: after ∧
      (∀ d ∈ before, isARepoName d = false) ∧ isARepoName c = true ∧ ∀ d ∈ after, isARepoName d = false := by
  have hnone : ∀ {l : List CString}, l.countP isARepoName = 0 ↔ ∀ c ∈ l, isARepoName c = false := by
    intro l
    simp [List.countP_eq_zero]
  by_cases hall : ∀ c ∈ cs, isARepoName c = false
  · exact .inl hall
  · right
    simp only [not_forall, Bool.not_eq_false] at hall
    obtain ⟨c, hmem, hc⟩ := hall
    obtain ⟨before, after, rfl⟩ := List.append_of_mem hmem
    rw [List.countP_append, List.countP_cons, if_pos hc] at h
    exact ⟨before, c, after, rfl, hnone.1 (by omega), hc, hnone.1 (by omega)⟩

/-! ## The directory of a path -/

theorem isAbspath_of_initial {Y : CString} (hX : isAbspath X = true) (hY : Y <+: X) (hne : Y ≠ []) :
    isAbspath Y = true := by
  obtain ⟨rest, rfl⟩ := hY
  obtain ⟨c, Y, rfl⟩ := List.exists_cons_of_ne_nil hne
  simpa [isAbspath] using hX

/-- What `dirname` returns for an absolute path: a shorter one, or `/`. -/
theorem dirname_cases (hX : isAbspath X = true) :
    dirname X = [slash] ∨ isAbspath (dirname X) = true ∧ (dirname X).length < X.length := by
  have hne : X ≠ [] := ne_nil_of_isAbspath hX
  by_cases hall : X.rdropWhile (· == slash) = []
  · left
    unfold dirname
    simp only [hne, hall, if_false, if_true]
    rfl
  · have hcut : X.rdropWhile (· == slash) <+: X := List.rdropWhile_prefix _ _
    obtain ⟨Z, seg, hZ, -, hdrop⟩ := exists_last_slash (isAbspath_of_initial hX hcut hall)
    -- what stands in front of the last component
    have hdir : dirname X = if Z.rdropWhile (· == slash) = [] then [slash] else Z.rdropWhile (· == slash) := by
      have hslash : (Z ++ [slash]).rdropWhile (· == slash) = Z.rdropWhile (· == slash) :=
        List.rdropWhile_concat_pos _ _ _ (by simp)
      unfold dirname
      simp only [hne, hall, hdrop, hslash, if_false, List.append_eq_nil_iff, List.cons_ne_nil, and_false]
      rfl
    rw [hdir]
    split_ifs with hroot
    · exact .inl rfl
    · right
      have hfront : Z.rdropWhile (· == slash) <+: Z := List.rdropWhile_prefix _ _
      have hZX : Z <+: X := ((List.prefix_append Z (slash :: seg)).trans (hZ ▸ List.prefix_refl _)).trans hcut
      refine ⟨isAbspath_of_initial hX (hfront.trans hZX) hroot, ?_⟩
      have hle := hfront.length_le
      have hle' := hcut.length_le
      rw [hZ, List.length_append, List.length_cons] at hle'
      omega

theorem dirname_eq_self (hX : isAbspath X = true) : dirname X = X ↔ X = [slash] := by
  constructor
  · intro h
    rcases dirname_cases hX with hroot | ⟨-, hlt⟩
    · rw [← h, hroot]
    · rw [h] at hlt
      omega
  · rintro rfl
    decide

theorem isAbspath_dirname (hX : isAbspath X = true) : isAbspath (dirname X) = true := by
  rcases dirname_cases hX with hroot | ⟨habs, -⟩
  · rw [hroot]
    rfl
  · exact habs

/-! ## The two directories -/

/-- The name of the root: the component that was found, or the default one beside the executable. -/
def PseudoRoot.component (r : PseudoRoot) : CString := if r.fromOutside then cdeRootNameDefault else r.rootName

/-- **The package directory is above cde-root**: `cde_cderoot_dir` has one component more than `Cde_app_dir`, the
name of the root, and outside of a package `Cde_app_dir` is the directory of the executable. -/
structure PseudoRoot.PackageAbove (exe : CString) (r : PseudoRoot) : Prop where
  extended : components r.cderootDir = components r.appDir ++ [r.component]
  beside : r.fromOutside = true → r.appDir = dirname exe

theorem newPathFromAbspath_depth (hpwd : isAbspath pwd = true) (hdepth : components pwd ≠ []) :
    newPathFromAbspath pwd = .ok (newPathInternal pwd true) ∧ (newPathInternal pwd true).depth ≠ 0 := by
  refine ⟨if_pos hpwd, fun hzero => hdepth ?_⟩
  exact List.length_eq_zero_iff.1 hzero

/-- Outside of a package. -/
theorem initPseudoRootDir_outside (hpwd : isAbspath pwd = true) (hdepth : components pwd ≠ [])
    (hexe : isAbspath exe = true) (hnone : ∀ c ∈ components pwd, isARepoName c = false) :
    initPseudoRootDir true pwd exe rootName =
      .ok ⟨dirname exe ++ str "/" ++ cdeRootNameDefault, dirname (dirname exe), rootName, true⟩ := by
  obtain ⟨hpath, hnonzero⟩ := newPathFromAbspath_depth hpwd hdepth
  have hfound : findRepoName pwd 1 (newPathInternal pwd true).stack none = .ok none := findRepoName_none hnone
  have hslash : slash ∈ exe := by
    obtain ⟨rest, rfl⟩ := isAbspath_iff.1 hexe
    exact List.mem_cons_self
  have hbuf : (dirnameInPlace exe).2 = dirname exe := if_pos hslash
  have hsecond : (dirnameInPlace (dirnameInPlace exe).2).1 = dirname (dirname exe) := by rw [hbuf]; rfl
  unfold initPseudoRootDir
  rw [hpath]
  simp only [Bool.not_true, Bool.false_eq_true, if_false, bind, Except.bind, hnonzero, hfound, pure, Except.pure]
  rw [hsecond]
  rfl

/-- In a package, with cde-root behind the components `before`. -/
theorem initPseudoRootDir_inside {before after : List CString} {c : CString} (hpwd : isAbspath pwd = true)
    (hcs : components pwd = before ++ c :: after) (hbefore : ∀ d ∈ before, isARepoName d = false)
    (hc : isARepoName c = true) (hafter : ∀ d ∈ after, isARepoName d = false) :
    initPseudoRootDir true pwd exe rootName =
      .ok ⟨render (before ++ [c]), if before = [] then render (components pwd) else render before, c, false⟩ := by
  have hdepth : components pwd ≠ [] := by
    rw [hcs]
    simp
  obtain ⟨hpath, hnonzero⟩ := newPathFromAbspath_depth hpwd hdepth
  have hstack : (newPathInternal pwd true).stack = before ++ c :: after := hcs
  have hfound : findRepoName pwd 1 (newPathInternal pwd true).stack none = .ok (some (1 + before.length, c)) := by
    rw [hstack]
    exact findRepoName_one hbefore hc hafter
  have habs : (newPathInternal pwd true).isAbspath = true := newPathInternal_isAbspath pwd
  have hroot : path2str (newPathInternal pwd true) (1 + before.length) = render (before ++ [c]) := by
    rw [Nat.add_comm, path2str_succ _ habs, hstack, List.take_append, List.take_of_length_le (by omega)]
    simp
  have happ : path2str (newPathInternal pwd true) (1 + before.length - 1) =
      if before = [] then render (components pwd) else render before := by
    rw [Nat.add_sub_cancel_left]
    cases before with
    | nil => exact path2str_zero _ habs
    | cons d before =>
      rw [List.length_cons, path2str_succ _ habs, hstack, if_neg (List.cons_ne_nil d before),
        List.take_append_of_le_length (by simp)]
      simp
  unfold initPseudoRootDir
  rw [hpath]
  simp only [Bool.not_true, Bool.false_eq_true, if_false, bind, Except.bind, hnonzero, hfound, pure,
    Except.pure, hroot, happ]

/-- **`Cde_app_dir` is the directory above `cde_cderoot_dir` exactly if the first component of the starting directory
is not cde-root, and, if none of its components is, the executable is in `/`.** At the top level
`path2str` takes the depth 0 for the whole path, and the second `dirname` of the same buffer goes one directory
further up. -/
theorem package_dir_iff (hpwd : isAbspath pwd = true) (hdepth : components pwd ≠ [])
    (hone : (components pwd).countP isARepoName ≤ 1) (hexe : isAbspath exe = true) (rootName : CString) :
    (∃ r, initPseudoRootDir true pwd exe rootName = .ok r ∧ r.PackageAbove exe) ↔
      (∀ c ∈ (components pwd).head?, isARepoName c = false) ∧
        ((∀ c ∈ components pwd, isARepoName c = false) → dirname exe = str "/") := by
  have hvalid : ValidPath (components pwd) := validPath_components hpwd
  rcases repoName_cases hone with hnone | ⟨before, c, after, hcs, hbefore, hc, hafter⟩
  · rw [initPseudoRootDir_outside hpwd hdepth hexe hnone]
    have hhead : ∀ c ∈ (components pwd).head?, isARepoName c = false := fun c h => hnone c (List.mem_of_mem_head? h)
    have hself : dirname (dirname exe) = dirname exe ↔ dirname exe = str "/" := dirname_eq_self (isAbspath_dirname hexe)
    rw [and_iff_right hhead, forall_prop_of_true hnone, ← hself]
    constructor
    · rintro ⟨r, hr, habove⟩
      obtain rfl := Except.ok.inj hr
      exact habove.beside rfl
    · intro h
      refine ⟨_, rfl, ?_, fun _ => h⟩
      have hroot := hself.1 h
      simp only [PseudoRoot.component, if_true, hroot]
      decide +kernel
  · rw [initPseudoRootDir_inside hpwd hcs hbefore hc hafter]
    have hsome : ¬ ∀ c ∈ components pwd, isARepoName c = false := by
      intro h
      have := h c (by rw [hcs]; simp)
      rw [hc] at this
      cases this
    rw [and_iff_left fun h => absurd h hsome]
    rw [hcs] at hvalid
    have hfront : ValidPath (before ++ [c]) := by
      intro n hn
      refine hvalid n ?_
      rcases List.mem_append.1 hn with hn | hn
      · exact List.mem_append_left _ hn
      · rw [List.mem_singleton.1 hn]
        exact List.mem_append_right _ List.mem_cons_self
    have hbeforeValid : ValidPath before := fun n hn => hvalid n (List.mem_append_left _ hn)
    cases before with
    | nil =>
      -- the depth 0 stands for the whole path
      refine iff_of_false ?_ fun h => ?_
      · rintro ⟨r, hr, habove⟩
        obtain rfl := Except.ok.inj hr
        have hext := habove.extended
        simp only [if_true, hcs] at hext
        rw [components_render hfront, components_render hvalid] at hext
        have hlen := congrArg List.length hext
        simp at hlen
      · have hno := h c (by rw [hcs]; rfl)
        rw [hc] at hno
        cases hno
    | cons d before =>
      refine iff_of_true ⟨_, rfl, ?_, fun h => by cases h⟩ fun e he => ?_
      · simp only [List.cons_ne_nil, if_false, PseudoRoot.component, Bool.false_eq_true]
        rw [components_render hfront, components_render hbeforeValid]
      · rw [hcs] at he
        obtain rfl := Option.some.inj he
        exact hbefore d List.mem_cons_self

/-- The starting directory is inside of a package. -/
theorem package_dir_inside :
    ∃ r, initPseudoRootDir true (str "/home/bob/cde-package/cde-root/home") (str "/usr/bin/cde-exec")
        cdeRootNameDefault = .ok r ∧
      r.PackageAbove (str "/usr/bin/cde-exec") := by
  have hpwd : isAbspath (str "/home/bob/cde-package/cde-root/home") = true := by decide
  have hexe : isAbspath (str "/usr/bin/cde-exec") = true := by decide
  exact (package_dir_iff hpwd (by decide +kernel) (by decide +kernel) hexe cdeRootNameDefault).2 (by decide +kernel)

/-- cde-root at the top level, and cde-exec run from outside of a package. -/
theorem package_dir_wrong :
    initPseudoRootDir true (str "/cde-root/home") (str "/opt/pkg/cde-exec") cdeRootNameDefault =
      .ok ⟨str "/cde-root", str "/cde-root/home", str "cde-root", false⟩ ∧
    initPseudoRootDir true (str "/home/bob") (str "/opt/pkg/cde-exec") cdeRootNameDefault =
      .ok ⟨str "/opt/pkg/cde-root", str "/opt", str "cde-root", true⟩ ∧
    ∀ pwd ∈ [str "/cde-root/home", str "/home/bob"],
      ¬ ∃ r, initPseudoRootDir true pwd (str "/opt/pkg/cde-exec") cdeRootNameDefault = .ok r ∧
        r.PackageAbove (str "/opt/pkg/cde-exec") := by
  have htop : initPseudoRootDir true (str "/cde-root/home") (str "/opt/pkg/cde-exec") cdeRootNameDefault =
      .ok ⟨str "/cde-root", str "/cde-root/home", str "cde-root", false⟩ := by decide +kernel
  have houtside : initPseudoRootDir true (str "/home/bob") (str "/opt/pkg/cde-exec") cdeRootNameDefault =
      .ok ⟨str "/opt/pkg/cde-root", str "/opt", str "cde-root", true⟩ := by decide +kernel
  refine ⟨htop, houtside, ?_⟩
  rintro pwd hpwd ⟨r, hr, habove⟩
  rcases List.mem_cons.1 hpwd with rfl | hpwd
  · obtain rfl := Except.ok.inj (htop.symm.trans hr)
    exact absurd habove.extended (by decide +kernel)
  · obtain rfl := List.mem_singleton.1 hpwd
    obtain rfl := Except.ok.inj (houtside.symm.trans hr)
    exact absurd (habove.beside rfl) (by decide +kernel)

end Ptu
