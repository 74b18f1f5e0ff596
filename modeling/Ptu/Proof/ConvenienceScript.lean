import Ptu.Proof.CommandLine

/-!
# The convenience script finds cde-exec

The script beside the program starts cde-exec by a path that goes up as many directories as the starting
directory has components, and one more for cde-root.

* `comps_dotDots`: the components of that path.
* `canonical_initPackageDir`: the package directory is canonical.
* `script_finds_exec`: **from the directory of the script it leads to cde-exec in the package**.
-/

namespace Ptu

open Pathname

variable {g : Cde} {packageDir rootName pwd : CString}

theorem comps_dotDots (n : ℕ) (t : CString) :
    comps (dotDots n ++ slash :: t) = List.replicate (n + 1) .up ++ comps t := by
  have hdots : comps (dotDots n) = List.replicate (n + 1) .up := by
    induction n with
    | zero => decide
    | succ n ih =>
      have hsnoc : dotDots (n + 1) = dotDots n ++ slash :: str ".." := by
        rw [dotDots, List.replicate_succ', List.flatten_append, List.flatten_singleton, ← List.append_assoc]
        rfl
      have hup : comps (str "..") = [.up] := by decide
      rw [hsnoc, comps_append_slash, ih, hup, List.replicate_succ' (n := n + 1)]
  rw [comps_append_slash, hdots]

theorem isAbspath_dotDots (n : ℕ) (t : CString) : isAbspath (dotDots n ++ t) = false := rfl

/-- **The package directory is canonical**, whatever the option `-o` says. -/
theorem canonical_initPackageDir {option : Option CString} (h : initPackageDir option pwd = .ok packageDir) :
    Canonical packageDir := canonical_iff.2 (canonicalizePath_render h)

/-- The names of a directory in cde-root. -/
theorem norm_comps_root (hpkg : Canonical packageDir) (hroot : ValidName rootName) (hpwd : isAbspath pwd = true)
    (hup : .up ∉ comps pwd) :
    norm [] (comps (packageRootDir packageDir rootName ++ pwd)) =
      components packageDir ++ [rootName] ++ components pwd := by
  obtain ⟨p, hp, rfl⟩ := canonical_iff.1 hpkg
  obtain ⟨t, rfl⟩ := isAbspath_iff.1 hpwd
  rw [comps_slash] at hup
  have hname : comps rootName = [.name rootName] := by
    rw [comps_noslash hroot.2.2.2, segComp_name hroot]
    rfl
  have hdir : comps (packageRootDir (render p) rootName ++ slash :: t) = names p ++ [.name rootName] ++ comps t := by
    have hsplit : packageRootDir (render p) rootName = render p ++ slash :: rootName := by
      rw [packageRootDir, List.append_assoc]
      rfl
    rw [comps_append_slash, hsplit, comps_append_slash, comps_render hp, hname]
  rw [hdir, norm_append, norm_append, norm_of_no_up hup, norm_names, components_render hp, components_eq hpwd,
    comps_slash]
  rfl

/-- **From a directory of the package the path of the script leads to cde-exec.** -/
theorem canonicalizePath_dotDots (hpkg : Canonical packageDir) (hroot : ValidName rootName)
    (hpwd : isAbspath pwd = true) (hup : .up ∉ comps pwd) :
    canonicalizePath (dotDots (components pwd).length ++ str "/cde-exec") (packageRootDir packageDir rootName ++ pwd) =
      .ok (if packageDir = str "/" then str "/cde-exec" else packageDir ++ str "/cde-exec") := by
  have habs : isAbspath (packageRootDir packageDir rootName ++ pwd) = true := by
    obtain ⟨p, -, rfl⟩ := canonical_iff.1 hpkg
    rw [packageRootDir, List.append_assoc, List.append_assoc]
    exact isAbspath_append _ (isAbspath_render p)
  have hexec : comps (str "cde-exec") = names [str "cde-exec"] := by decide +kernel
  have hslash : str "/cde-exec" = slash :: str "cde-exec" := rfl
  rw [canonicalizePath_rel (isAbspath_dotDots _ _) habs, norm_append, norm_comps_root hpkg hroot hpwd hup, hslash,
    comps_dotDots, norm_append, norm_up, hexec, norm_names]
  -- the names of the starting directory and cde-root are taken back
  have htake : (components packageDir ++ [rootName] ++ components pwd).take
      ((components packageDir ++ [rootName] ++ components pwd).length - ((components pwd).length + 1)) =
        components packageDir := by
    have hlen : (components packageDir ++ [rootName] ++ components pwd).length - ((components pwd).length + 1) =
        (components packageDir).length := by
      simp only [List.length_append, List.length_singleton]
      omega
    rw [hlen, List.append_assoc, List.take_left]
  rw [htake]
  obtain ⟨p, hp, rfl⟩ := canonical_iff.1 hpkg
  rw [components_render hp, render_concat]
  congr 1
  cases p with
  | nil => rfl
  | cons a p =>
    have hne : render (a :: p) ≠ str "/" := by
      intro h
      have hnames := congrArg components h
      rw [components_render hp] at hnames
      exact absurd hnames (List.cons_ne_nil a p)
    rw [if_neg (List.cons_ne_nil a p), if_neg hne]

/-- **The convenience script finds cde-exec**: in every starting directory whose depth fits into `dot_dots`, the script
beside the program starts the cde-exec of the package, for its path leads there from the directory of the script. -/
theorem script_finds_exec (c : CommandLine) (filename : CString) (hpkg : Canonical packageDir)
    (hroot : ValidName rootName)
    (hpwd : isAbspath g.startingPwd = true) (hup : .up ∉ comps g.startingPwd) (hdepth : ScriptDepth g.startingPwd) :
    ∃ script, scriptInRoot g c (some filename) = .ok [script] ∧
      script.cdeExec = dotDots (components g.startingPwd).length ++ str "/cde-exec" ∧
      canonicalizePath script.cdeExec (packageRootDir packageDir rootName ++ g.startingPwd) =
        .ok (if packageDir = str "/" then str "/cde-exec" else packageDir ++ str "/cde-exec") := by
  refine ⟨_, scriptInRoot_some hpwd hdepth filename, rfl, ?_⟩
  exact canonicalizePath_dotDots hpkg hroot hpwd hup

/-- The package in bob's directory. -/
theorem script_finds_exec_bob :
    ∃ script, scriptInRoot bobAudit ⟨[], str "ls", []⟩ (some (str "/home/bob/pkg/cde-root/home/bob/ls.cde")) =
      .ok [script] ∧
      script.cdeExec = str "../../../cde-exec" ∧
      canonicalizePath script.cdeExec (str "/home/bob/pkg/cde-root/home/bob") = .ok (str "/home/bob/pkg/cde-exec") := by
  have hpkg : initPackageDir (some (str "pkg")) (str "/home/bob") = .ok (str "/home/bob/pkg") := by decide +kernel
  exact @script_finds_exec bobAudit (str "/home/bob/pkg") (str "cde-root") _ _ (canonical_initPackageDir hpkg)
    (by decide) rfl (by decide +kernel) (by decide)

/-- For a package in `/` the path of cde-exec is not the name of the package with `/cde-exec` behind it, and in
a directory of 1365 components `dot_dots` is too long for its buffer. -/
theorem script_root_package :
    canonicalizePath (dotDots (components (str "/home")).length ++ str "/cde-exec")
      (packageRootDir (str "/") (str "cde-root") ++ str "/home") = .ok (str "/cde-exec") ∧
    canonicalizePath (dotDots (components (str "/home")).length ++ str "/cde-exec")
      (packageRootDir (str "/") (str "cde-root") ++ str "/home") ≠ .ok (str "/" ++ str "/cde-exec") ∧
    ∀ dots, dotDotsBuffer 1365 ≠ .ok dots := by
  refine ⟨by decide +kernel, by decide +kernel, fun dots h => ?_⟩
  exact absurd (dotDotsBuffer_eq_ok.1 h).2 (by decide)

end Ptu
