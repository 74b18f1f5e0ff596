import Ptu.Spec.Path

/-!
# The package that is run

`CDE_init_pseudo_root_dir`, which looks for the cde-root directory of the package in the starting
directory of cde-exec, or else beside the executable.
-/

namespace Ptu

/-- `CDE_ROOT_NAME_DEFAULT` -/
def cdeRootNameDefault : CString := str "cde-root"

/-- `is_a_repo_name` -/
def isARepoName (path : CString) : Bool := startsWith path cdeRootNameDefault

/-- `dirname` of a text in a buffer: what it returns, and what is left in the buffer, which is cut off
behind the directory. -/
def dirnameInPlace (buf : CString) : CString × CString :=
  (dirname buf, if slash ∈ buf then dirname buf else buf)

/-- What `CDE_init_pseudo_root_dir` sets. -/
structure PseudoRoot where
  /-- `cde_cderoot_dir` -/
  cderootDir : CString
  /-- `Cde_app_dir` -/
  appDir : CString
  /-- `CDE_ROOT_NAME` -/
  rootName : CString
  /-- `cde_exec_from_outside_cderoot` -/
  fromOutside : Bool
  deriving DecidableEq, Repr

/-- The loop over the components from index `i` on, with `found_index` and the name that was found. -/
def findRepoName (pwd : CString) : ℕ → List CString → Option (ℕ × CString) → Except Fatal (Option (ℕ × CString))
  | _, [], found => .ok found
  | i, component :: rest, found =>
    if isARepoName component then
      match found with
      | some _ =>
        .error (.exit (str "Error: More than one cde-root/ directory found in pwd:\n  '" ++ pwd ++ str "'\n"))
      | none => findRepoName pwd (i + 1) rest (some (i, component))
    else findRepoName pwd (i + 1) rest found

/-- `CDE_init_pseudo_root_dir`, where `selfExe` is `CDE_proc_self_exe`. -/
def initPseudoRootDir (execMode : Bool) (startingPwd selfExe rootName : CString) : Except Fatal PseudoRoot := do
  if !execMode then throw .assertion
  let p ← newPathFromAbspath startingPwd
  if p.depth = 0 then throw .assertion
  match ← findRepoName startingPwd 1 p.stack none with
  | none =>
    let (dir, selfExe) := dirnameInPlace selfExe
    let (appDir, _) := dirnameInPlace selfExe
    return ⟨dir ++ str "/" ++ cdeRootNameDefault, appDir, rootName, true⟩
  | some (foundIndex, name) => return ⟨path2str p foundIndex, path2str p (foundIndex - 1), name, false⟩

end Ptu
