import Ptu.Proof.Canonical
import Ptu.Proof.Execve
import Ptu.Spec.Environ

/-!
# Repositories

The repositories of a package are directories below `Cde_app_dir`, which `get_repo_path_id` compares
with a path as strings.

* `repo_lookup_iff`: **the lookup is one by directory** if and only if the first entry that is a prefix
  of the path or contains it is both.
* `repo_environment_iff`: **the environment of the repository that is entered** is loaded only if the
  entry with the number of `ignore_process` entries, an absolute path, is the name of the repository.
* `repo_environment_lost`: so a relative name is never found, `(null)` apart.
-/

namespace Ptu

/-! ## Lookup -/

section FindIdx

variable {α : Type} {f g : α → Bool}

/-- Two searches find the same entry if and only if they agree on the first one that either of them
finds. -/
theorem findIdx?_eq_findIdx?_iff (l : List α) :
    l.findIdx? f = l.findIdx? g ↔
      ∀ (i : ℕ) (a : α), l[i]? = some a →
        (∀ j < i, ∀ b, l[j]? = some b → f b = false ∧ g b = false) → f a = g a := by
  induction l with
  | nil => simp
  | cons c l ih =>
    rw [List.findIdx?_cons, List.findIdx?_cons]
    by_cases hc : f c = g c
    · cases hg : g c with
      | true =>
        rw [hc, hg]
        refine iff_of_true rfl fun i a ha hbefore => ?_
        cases i with
        | zero =>
          obtain rfl := Option.some.inj ha
          rw [hc]
        | succ i =>
          -- the search has ended before
          have hfirst := hbefore 0 (Nat.succ_pos i) c rfl
          rw [hg] at hfirst
          cases hfirst.2
      | false =>
        rw [hc, hg]
        have hmap : (l.findIdx? f).map (· + 1) = (l.findIdx? g).map (· + 1) ↔ l.findIdx? f = l.findIdx? g :=
          Option.map_inj_right fun _ _ h => Nat.succ.inj h
        simp only [Bool.false_eq_true, if_false]
        rw [hmap, ih]
        constructor
        · intro h i a ha hbefore
          cases i with
          | zero =>
            obtain rfl := Option.some.inj ha
            exact hc
          | succ i => exact h i a ha fun j hj b hb => hbefore (j + 1) (by omega) b hb
        · intro h i a ha hbefore
          refine h (i + 1) a ha fun j hj b hb => ?_
          cases j with
          | zero =>
            obtain rfl := Option.some.inj hb
            exact ⟨hc.trans hg, hg⟩
          | succ j => exact hbefore j (by omega) b hb
    · refine iff_of_false ?_ fun h => hc (h 0 c rfl fun j hj => absurd hj (Nat.not_lt_zero j))
      cases hf : f c with
      | true =>
        cases hg : g c with
        | true => exact absurd (hf.trans hg.symm) hc
        | false =>
          simp only [Bool.false_eq_true, if_true, if_false]
          intro h
          obtain ⟨i, -, hi⟩ := Option.map_eq_some_iff.1 h.symm
          omega
      | false =>
        cases hg : g c with
        | true => simp
        | false => exact absurd (hf.trans hg.symm) hc

end FindIdx

/-- The path equals the directory or lies below it, by components. -/
def containsPath (path repo : CString) : Bool := decide (nameList repo <+: nameList path)

/-- **Lookup by directory**: the first entry that contains the path. -/
structure LookupByDirectory (repos : List CString) (path : CString) (r : Option ℕ) : Prop where
  found : ∀ i, r = some i ↔ (∃ repo, repos[i]? = some repo ∧ nameList repo <+: nameList path) ∧
    ∀ j < i, ∀ repo, repos[j]? = some repo → ¬ nameList repo <+: nameList path
  missing : r = none ↔ ∀ repo ∈ repos, ¬ nameList repo <+: nameList path

theorem findIdx?_containsPath_iff {repos : List CString} {path : CString} (i : ℕ) :
    repos.findIdx? (containsPath path) = some i ↔
      (∃ repo, repos[i]? = some repo ∧ nameList repo <+: nameList path) ∧
        ∀ j < i, ∀ repo, repos[j]? = some repo → ¬ nameList repo <+: nameList path := by
  rw [List.findIdx?_eq_some_iff_getElem]
  constructor
  · rintro ⟨hi, hat, hbefore⟩
    refine ⟨⟨repos[i], List.getElem?_eq_getElem hi, by simpa [containsPath] using hat⟩, ?_⟩
    intro j hj repo hrepo
    obtain ⟨hlen, rfl⟩ := List.getElem?_eq_some_iff.1 hrepo
    simpa [containsPath] using hbefore j hj
  · rintro ⟨⟨repo, hrepo, hat⟩, hbefore⟩
    obtain ⟨hi, rfl⟩ := List.getElem?_eq_some_iff.1 hrepo
    refine ⟨hi, by simpa [containsPath] using hat, fun j hj => ?_⟩
    simpa [containsPath] using hbefore j hj _ (List.getElem?_eq_getElem (by omega))

theorem lookupByDirectory_iff {repos : List CString} {path : CString} {r : Option ℕ} :
    LookupByDirectory repos path r ↔ r = repos.findIdx? (containsPath path) := by
  have hnone : repos.findIdx? (containsPath path) = none ↔ ∀ repo ∈ repos, ¬ nameList repo <+: nameList path := by
    rw [List.findIdx?_eq_none_iff]
    simp [containsPath]
  constructor
  · intro h
    cases hfind : repos.findIdx? (containsPath path) with
    | none => exact h.missing.2 (hnone.1 hfind)
    | some i => exact (h.found i).2 ((findIdx?_containsPath_iff i).1 hfind)
  · rintro rfl
    exact ⟨fun i => findIdx?_containsPath_iff i, hnone⟩

/-- **`get_repo_path_id` looks up by directory** if and only if the first entry that is a prefix of the
path, as a string, or contains it is both. -/
theorem repo_lookup_iff (g : Cde) (path : CString) :
    LookupByDirectory g.opts.multiRepoPaths path (getRepoPathId g path) ↔
      ∀ (i : ℕ) (repo : CString), g.opts.multiRepoPaths[i]? = some repo →
        (∀ j < i, ∀ repo', g.opts.multiRepoPaths[j]? = some repo' →
          ¬ repo' <+: path ∧ ¬ nameList repo' <+: nameList path) →
        (repo <+: path ↔ nameList repo <+: nameList path) := by
  have hbool : ∀ repo : CString, startsWith path repo = containsPath path repo ↔
      (repo <+: path ↔ nameList repo <+: nameList path) := by
    intro repo
    rw [Bool.eq_iff_iff, startsWith_iff, containsPath, decide_eq_true_eq]
  have hfalse : ∀ repo : CString, startsWith path repo = false ∧ containsPath path repo = false ↔
      ¬ repo <+: path ∧ ¬ nameList repo <+: nameList path := by
    intro repo
    rw [Bool.eq_false_iff, Bool.eq_false_iff, ne_eq, ne_eq, startsWith_iff, containsPath, decide_eq_true_eq]
  rw [lookupByDirectory_iff, getRepoPathId, findIdx?_eq_findIdx?_iff]
  simp only [hbool, hfalse]

/-- **A repository whose name continues that of an earlier one** is taken for that one. -/
theorem repo_lookup_longer_name :
    getRepoPathId { optReplay with opts := { multiRepoPaths := [str "/opt/app/pkg", str "/opt/app/pkg2"] } }
        (str "/opt/app/pkg2/bin/ls") = some 0 ∧
      ¬ nameList (str "/opt/app/pkg") <+: nameList (str "/opt/app/pkg2/bin/ls") ∧
      nameList (str "/opt/app/pkg2") <+: nameList (str "/opt/app/pkg2/bin/ls") := by
  decide

/-! ## The environment of a repository -/

variable {env : ExecEnv} {g : Cde} {exeFilename : CString} {st st' : ExecState} {k : ℕ} {x : Executable}

/-- In exec mode the process gets to run a program of the repository `k`, which is not its own one. -/
structure EntersRepo (g : Cde) (exeFilename : CString) (st : ExecState) (k : ℕ) : Prop where
  cde : isCdeBinary exeFilename = false
  program : ∃ pwd e₁ abspath e₂, extractSandboxedPwd g st.tcp.currentDir st.tcp.pIgnores st.e = .ok (pwd, e₁) ∧
    canonicalizePath exeFilename pwd = .ok abspath ∧
    ignorePath g abspath st.tcp.pIgnores e₁ = .ok (false, e₂) ∧
    findProcessIgnore g abspath = none ∧ getRepoPathId g abspath = some k
  other : some k ≠ st.currentRepoInd

/-- **The counter of the loop over `process_ignores`** chooses the entry. -/
theorem findExecutableExec_loads (hk : EntersRepo g exeFilename st k)
    (h : findExecutableExec env g exeFilename st = .ok (x, st')) :
    st'.loadedEnvironments =
      st.loadedEnvironments ++ [g.opts.multiRepoPaths[g.opts.processIgnores.length]?] := by
  obtain ⟨pwd, e₁, abspath, e₂, hpwd, habs, hignore, hprocess, hid⟩ := hk.program
  unfold findExecutableExec at h
  rw [hpwd] at h
  simp only [bind, Except.bind, habs, hk.cde, Bool.false_eq_true, if_false, hignore, hprocess] at h
  cases hredirect : redirectFilenameIntoCderoot g exeFilename st.tcp.currentDir st.tcp.pIgnores e₂ with
  | error err =>
    rw [hredirect] at h
    cases h
  | ok r =>
    simp only [hredirect, hid, ne_eq, hk.other, not_false_eq_true, if_true] at h
    obtain ⟨-, rfl⟩ := Prod.mk.inj (Except.ok.inj h)
    rfl

/-- The file that `CDE_load_environment_vars` opens; `sprintf` prints NULL as `(null)`. -/
def environmentFile (g : Cde) (repoName : Option CString) : CString :=
  fullEnvironmentAbspath g.cderootDir (repoName.getD (str "(null)"))

/-- `multi_repo_paths` for the values `ps` of `multi_repo_path`. -/
def repoPaths (appDir : CString) (ps : List CString) : List CString := ps.map (appDir ++ str "/" ++ ·)

theorem environmentFile_inj {g : Cde} {r : Option CString} {p : CString} :
    environmentFile g r = fullEnvironmentAbspath g.cderootDir p ↔ r.getD (str "(null)") = p := by
  unfold environmentFile fullEnvironmentAbspath
  exact List.append_cancel_left_eq _ _ _ |>.to_iff

/-- The repository that is found has a name. -/
theorem EntersRepo.name {appDir : CString} {ps : List CString} (hk : EntersRepo g exeFilename st k)
    (hrepos : g.opts.multiRepoPaths = repoPaths appDir ps) : ∃ p, ps[k]? = some p := by
  obtain ⟨pwd, e₁, abspath, e₂, -, -, -, -, hid⟩ := hk.program
  obtain ⟨hlt, -⟩ := List.findIdx?_eq_some_iff_getElem.1 hid
  rw [hrepos, repoPaths, List.length_map] at hlt
  exact ⟨ps[k], List.getElem?_eq_getElem hlt⟩

/-- **The environment of the repository that is entered** is loaded if and only if its name is the entry
of `multi_repo_paths` with the number of `ignore_process` entries, or `(null)` and there is no such
entry. -/
theorem repo_environment_iff {appDir : CString} {ps : List CString}
    (hrepos : g.opts.multiRepoPaths = repoPaths appDir ps) (hk : EntersRepo g exeFilename st k)
    (h : findExecutableExec env g exeFilename st = .ok (x, st')) :
    ∃ p, ps[k]? = some p ∧
      (st'.loadedEnvironments.map (environmentFile g) =
          st.loadedEnvironments.map (environmentFile g) ++ [fullEnvironmentAbspath g.cderootDir p] ↔
        ((repoPaths appDir ps)[g.opts.processIgnores.length]?).getD (str "(null)") = p) := by
  obtain ⟨p, hp⟩ := hk.name hrepos
  refine ⟨p, hp, ?_⟩
  rw [findExecutableExec_loads hk h, List.map_append, List.append_cancel_left_eq, hrepos]
  simp only [List.map_cons, List.map_nil, List.cons.injEq, and_true]
  exact environmentFile_inj

/-- **A relative name is never found**: the entries are absolute paths. -/
theorem repo_environment_lost {appDir p : CString} {ps : List CString} (happ : isAbspath appDir = true)
    (hp : isAbspath p = false) (hnull : p ≠ str "(null)") (i : ℕ) :
    ((repoPaths appDir ps)[i]?).getD (str "(null)") ≠ p := by
  obtain ⟨q, rfl⟩ := isAbspath_iff.1 happ
  rintro rfl
  unfold repoPaths at hp hnull
  rw [List.getElem?_map] at hp hnull
  cases hi : ps[i]? with
  | none =>
    rw [hi] at hnull
    exact hnull rfl
  | some p =>
    rw [hi] at hp
    cases hp

/-! ## A program of `pkg2` -/

/-- A package in `/opt/cde-package` with the repositories `ps`. -/
def repoReplay (ps : List CString) (processIgnores : List ProcessIgnore) : Cde where
  execMode := true
  cderootDir := str "/opt/cde-package/cde-root"
  opts := { multiRepoPaths := repoPaths (str "/opt/cde-package") ps, processIgnores }

/-- A process in the root directory of the package. -/
def repoState : ExecState where
  tcp := { uArg := fun _ => 0, currentDir := str "/opt/cde-package/cde-root" }
  child := { regs := fun _ => 0, mem := fun _ => none }

def repoEnv : ExecEnv where
  strcpyFromChild _ _ := none
  printArgProv _ _ := []

theorem enters_pkg2 : EntersRepo (repoReplay [str "pkg2"] []) (str "/opt/cde-package/pkg2/bin/ls") repoState 0 :=
  ⟨by decide, ⟨str "/", {}, str "/opt/cde-package/pkg2/bin/ls", {}, rfl, rfl, rfl, rfl, rfl⟩, by decide⟩

theorem repo_environment_null :
    ∃ x st', findExecutableExec repoEnv (repoReplay [str "(null)"] [⟨str "/bin/true", []⟩])
        (str "/opt/cde-package/(null)/ls") repoState = .ok (x, st') ∧
      st'.loadedEnvironments.map (environmentFile (repoReplay [str "(null)"] [⟨str "/bin/true", []⟩])) =
        [str "/opt/cde-package/cde-root/../cde.full-environment.(null)"] := by
  have hk : EntersRepo (repoReplay [str "(null)"] [⟨str "/bin/true", []⟩]) (str "/opt/cde-package/(null)/ls")
      repoState 0 :=
    ⟨by decide, ⟨str "/", {}, str "/opt/cde-package/(null)/ls", {}, rfl, rfl, rfl, rfl, rfl⟩, by decide⟩
  obtain ⟨⟨x, st'⟩, hok⟩ : ∃ r, findExecutableExec repoEnv (repoReplay [str "(null)"] [⟨str "/bin/true", []⟩])
      (str "/opt/cde-package/(null)/ls") repoState = .ok r := ⟨_, rfl⟩
  obtain ⟨p, hp, hiff⟩ := repo_environment_iff rfl hk hok
  obtain rfl := Option.some.inj hp
  exact ⟨x, st', hok, hiff.2 rfl⟩

/-- **The file of `pkg2` is not the one that is opened.** -/
theorem repo_environment_pkg2 :
    EntersRepo (repoReplay [str "pkg2"] []) (str "/opt/cde-package/pkg2/bin/ls") repoState 0 ∧
      (findExecutableExec repoEnv (repoReplay [str "pkg2"] []) (str "/opt/cde-package/pkg2/bin/ls") repoState).map
          (fun r => r.2.loadedEnvironments.map (environmentFile (repoReplay [str "pkg2"] []))) =
        .ok [str "/opt/cde-package/cde-root/../cde.full-environment./opt/cde-package/pkg2"] ∧
      fullEnvironmentAbspath (repoReplay [str "pkg2"] []).cderootDir (str "pkg2") =
        str "/opt/cde-package/cde-root/../cde.full-environment.pkg2" := by
  refine ⟨enters_pkg2, by rfl, by rfl⟩

end Ptu
