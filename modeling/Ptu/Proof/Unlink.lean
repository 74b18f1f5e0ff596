import Ptu.Proof.Growth
import Ptu.Proof.Redirect
import Ptu.Spec.Unlink

/-!
# Failed deletions

`CDE_begin_file_unlink` removes the mirrored file at the entry of the call, before anybody knows
whether the call will succeed. So a failed deletion leaves the package alone exactly if there is
nothing in the package to remove (`failed_delete_iff`). What is mirrored at the entry of
`unlinkat` with `AT_REMOVEDIR` only adds to the package, since `create_mirror_file` never removes
anything (`createMirrorFile_grows`).
-/

namespace Ptu

open Pathname

variable {h : Host} {fs fs' fs'' : Fs}

/-! ## Mirroring removes nothing -/

/-- Where there was an object there is one. -/
def Grows (fs fs' : Fs) : Prop := ∀ p, fs p ≠ none → fs' p ≠ none

theorem Grows.refl (fs : Fs) : Grows fs fs := fun _ hp => hp

theorem Extends.grows (h : Extends fs fs') : Grows fs fs' := by
  intro p hp
  obtain ⟨nd, hnd⟩ := Option.ne_none_iff_exists'.1 hp
  rw [h p nd hnd]
  exact Option.some_ne_none nd

/-- A way of mirroring links that removes nothing. -/
def KeepsAll (symlinkAndTarget : MirrorSymlink) : Prop :=
  ∀ {path src dst : CString} {fs fs' : Fs}, symlinkAndTarget path src dst fs = .ok fs' → Grows fs fs'

variable {src dst path : CString}

theorem createMirrorSymlinkAndTarget_grows (fuel : ℕ) : KeepsAll (createMirrorSymlinkAndTarget h fuel) :=
  fun hm => (mirrorSymlink_extends hm).grows

/-- **`create_mirror_file` removes nothing.** -/
theorem createMirrorFile_grows {fuel : ℕ} (hm : createMirrorFile h fuel path src dst fs = .ok fs') : Grows fs fs' := by
  rcases createMirrorFile_cases h src dst path fs with ⟨t, -, hrun⟩ | ⟨nd, hl, -, hdst, hrun⟩ | ⟨x, hx, -, hsame⟩
  · rw [hrun] at hm
    exact createMirrorSymlinkAndTarget_grows fuel hm
  · rw [hrun] at hm
    obtain ⟨fs₁, hdirs, hm⟩ := bind_eq_ok.1 hm
    have hext := (createMirrorDirs_grown (mirrorSymlink_grows h src dst fuel) hdirs).mono hdst
    split_ifs at hm
    · rw [← Except.ok.inj hm]
      exact hext.grows
    · exact (hext.trans (linkOrCopy_extends (isAbspath_append path hdst) (lstat_mono hext hl) hm)).grows
  · rw [hx] at hm
    rw [hsame fs' hm]
    exact .refl fs

/-! ## Deletions -/

variable {env : DeleteEnv} {g : Cde} {tcp : Tracee} {e e' : Effects} {filename : CString}

/-- In the audit a redirection does nothing but return a path. -/
theorem redirect_audit (hex : g.execMode = false) {cwd : CString} {pi : Option ProcessIgnore} {r : Option CString}
    (h : redirectFilenameIntoCderoot g filename cwd pi e = .ok (r, e')) : e' = e := by
  unfold redirectFilenameIntoCderoot at h
  simp only [hex, Bool.false_eq_true, if_false] at h
  obtain ⟨⟨base, e₁⟩, hbase, h⟩ := bind_eq_ok.1 h
  obtain ⟨-, rfl⟩ := Prod.mk.inj (Except.ok.inj hbase)
  obtain ⟨q, -, h⟩ := bind_eq_ok.1 h
  split_ifs at h with hrepo hcde
  · exact (Prod.mk.inj (Except.ok.inj h)).2.symm
  · exact (Prod.mk.inj (Except.ok.inj h)).2.symm
  · obtain ⟨⟨ig, e₂⟩, hig, h⟩ := bind_eq_ok.1 h
    obtain rfl := ignorePath_audit hex hig
    cases ig with
    | true => exact (Prod.mk.inj (Except.ok.inj h)).2.symm
    | false =>
      simp only [Bool.false_eq_true, if_false] at h
      obtain ⟨⟨r', e₃⟩, hcreate, hr⟩ := bind_eq_ok.1 h
      obtain rfl := createAbspath_audit hex hcreate
      exact (Prod.mk.inj (Except.ok.inj hr)).2.symm

theorem createMirrorFileInCdePackage_grows {c : MirrorCall} (h : createMirrorFileInCdePackage g c e = .ok e') :
    Grows e.fs e'.fs := by
  unfold createMirrorFileInCdePackage at h
  split_ifs at h
  · obtain rfl := Except.ok.inj h
    exact .refl _
  · obtain ⟨fs, hmirror, h⟩ := bind_eq_ok.1 h
    obtain rfl := Except.ok.inj h
    exact createMirrorFile_grows hmirror

theorem copyFileIntoCdeRoot_grows {cwd : CString} (h : copyFileIntoCdeRoot g filename cwd e = .ok e') :
    Grows e.fs e'.fs := by
  unfold copyFileIntoCdeRoot at h
  obtain ⟨hex, h⟩ := ite_throw_eq_ok.1 h
  obtain ⟨q, -, h⟩ := bind_eq_ok.1 h
  obtain ⟨⟨ig, e₁⟩, hig, h⟩ := bind_eq_ok.1 h
  obtain rfl := ignorePath_audit (by simpa using hex) hig
  cases ig with
  | true =>
    obtain rfl := Except.ok.inj h
    exact .refl _
  | false =>
    simp only [Bool.false_eq_true, if_false] at h
    cases hrepo : (getRepoPathId g q).isSome with
    | true =>
      simp only [hrepo, if_true] at h
      obtain rfl := Except.ok.inj h
      exact .refl _
    | false =>
      simp only [hrepo, Bool.false_eq_true, if_false] at h
      have hgrows := createMirrorFileInCdePackage_grows h
      split_ifs at hgrows
      · exact hgrows
      · exact hgrows

/-- Every object at `root` or below is still there. -/
def PackageKept (root : List CString) (fs fs' : Fs) : Prop := ∀ p, root <+: p → fs p ≠ none → fs' p ≠ none

theorem Grows.packageKept {root : List CString} (h : Grows fs fs') : PackageKept root fs fs' := fun p _ hp => h p hp

/-- The path with which the call is treated as an `unlink`. -/
def DeleteCall.unlinks : DeleteCall → Option CString
  | .unlink filename => some filename
  | .unlinkat dirfd filename flags =>
    if flags ≠ atRemovedir ∧ (isAbspath filename = true ∨ dirfd = atFdcwd) then some filename else none

/-- The call's path is redirected to an object of the package that the tracer can unlink. -/
def RemovesMirror (env : DeleteEnv) (root : List CString) (tcp : Tracee) (call : DeleteCall) (e : Effects) : Prop :=
  ∃ filename path e' p, call.unlinks = some filename ∧
    redirectFilenameIntoCderoot env.cde filename tcp.currentDir tcp.pIgnores e = .ok (some path, e') ∧
    unlinkTarget env e.fs path = some p ∧ root <+: p

theorem unlinkTarget_spec {path : CString} {p : List CString} (ht : unlinkTarget env fs path = some p) :
    fs p ≠ none := by
  obtain ⟨-, hp⟩ := Option.filter_eq_some_iff.1 ht
  intro hnone
  rw [hnone] at hp
  cases hp

/-- `unlink` takes an object out of the package exactly if the one it removes is in there. -/
theorem unlink_kept_iff {root : List CString} {path : CString} :
    PackageKept root fs (unlink env fs path) ↔ ¬ ∃ p, unlinkTarget env fs path = some p ∧ root <+: p := by
  unfold unlink
  constructor
  · rintro hkept ⟨p, ht, hroot⟩
    rw [ht] at hkept
    exact hkept p hroot (unlinkTarget_spec ht) (if_pos rfl)
  · intro hnot p hroot hp
    cases ht : unlinkTarget env fs path with
    | some q =>
      have hne : p ≠ q := by
        rintro rfl
        exact hnot ⟨p, ht, hroot⟩
      simp only [Fs.erase, if_neg hne]
      exact hp
    | none => exact hp

/-- A call that is treated as an `unlink` removes the mirrored object at its entry. -/
theorem DeleteCall.entering_eq {call : DeleteCall} (haudit : env.cde.execMode = false)
    (hunlinks : call.unlinks = some filename) :
    call.entering env tcp e = removeRedirected env (Ptu.unlink env) tcp filename e := by
  cases call with
  | unlink f =>
    obtain rfl := Option.some.inj hunlinks
    simp only [DeleteCall.entering, beginFileUnlink, haudit, Bool.false_eq_true, if_false]
  | unlinkat dirfd f flags =>
    simp only [DeleteCall.unlinks] at hunlinks
    split_ifs at hunlinks with hcond
    obtain rfl := Option.some.inj hunlinks
    have hpunt : ¬ (!isAbspath f && dirfd != atFdcwd) = true := by
      rcases hcond.2 with habs | hcwd
      · simp [habs]
      · simp [hcwd]
    simp only [DeleteCall.entering, beginFileUnlinkat, hcond.1, hpunt, haudit, Bool.false_eq_true, if_false]

/-- Any other call only adds to the package at its entry. -/
theorem DeleteCall.entering_grows {call : DeleteCall} (haudit : env.cde.execMode = false)
    (hunlinks : call.unlinks = none) (hrun : call.entering env tcp e = .ok e') : Grows e.fs e'.fs := by
  cases call with
  | unlink f => cases hunlinks
  | unlinkat dirfd f flags =>
    simp only [DeleteCall.entering, beginUnlinkatRmdir, beginFileUnlinkat, haudit, Bool.false_eq_true, if_false] at hrun
    split_ifs at hrun with hflags hpunt hrepo hpunt
    · obtain rfl := Except.ok.inj hrun
      exact .refl _
    · obtain rfl := Except.ok.inj hrun
      exact .refl _
    · exact copyFileIntoCdeRoot_grows hrun
    · obtain rfl := Except.ok.inj hrun
      exact .refl _
    · -- this one is treated as an `unlink`
      have hpath : isAbspath f = true ∨ dirfd = atFdcwd := by
        by_contra hnot
        rw [not_or] at hnot
        exact hpunt (by simpa using hnot)
      simp only [DeleteCall.unlinks] at hunlinks
      rw [if_pos ⟨hflags, hpath⟩] at hunlinks
      cases hunlinks

/-- A failed call does nothing after its entry. -/
theorem DeleteCall.run_failed {call : DeleteCall} {kernel : Fs → Fs} {uRval : ℤ} (hfail : uRval ≠ 0) :
    call.run env tcp kernel uRval e = call.entering env tcp e := by
  have hexit : ∀ e, call.exiting env tcp uRval e = .ok e := by
    intro e
    cases call with
    | unlink filename => rfl
    | unlinkat dirfd filename flags =>
      simp only [DeleteCall.exiting, endRmdir, hfail, if_false, ite_self]
  unfold DeleteCall.run
  simp only [hfail, if_false, hexit]
  cases call.entering env tcp e <;> rfl

/-- **A failed deletion leaves the package alone exactly if the package has nothing to remove**:
nothing that the tracer can unlink is there under the redirected path. -/
theorem failed_delete_iff (env : DeleteEnv) (haudit : env.cde.execMode = false) (root : List CString) (tcp : Tracee)
    (call : DeleteCall) (kernel : Fs → Fs) (uRval : ℤ) (hfail : uRval ≠ 0) (e : Effects) :
    (∀ e', call.run env tcp kernel uRval e = .ok e' → PackageKept root e.fs e'.fs) ↔
      ¬ RemovesMirror env root tcp call e := by
  simp only [DeleteCall.run_failed hfail]
  constructor
  · rintro hkept ⟨filename, path, e₁, p, hunlinks, hredirect, htarget, hroot⟩
    obtain rfl := redirect_audit haudit hredirect
    have hremove : removeRedirected env (unlink env) tcp filename e₁ =
        .ok { e₁ with fs := unlink env e₁.fs path } := by
      unfold removeRedirected
      rw [hredirect]
      rfl
    exact unlink_kept_iff.1 (hkept _ ((DeleteCall.entering_eq haudit hunlinks).trans hremove)) ⟨p, htarget, hroot⟩
  · intro hnot e' hrun
    cases hunlinks : call.unlinks with
    | none => exact (DeleteCall.entering_grows haudit hunlinks hrun).packageKept
    | some filename =>
      rw [DeleteCall.entering_eq haudit hunlinks, removeRedirected] at hrun
      obtain ⟨⟨redirected, e₁⟩, hredirect, hremove⟩ := bind_eq_ok.1 hrun
      obtain rfl := redirect_audit haudit hredirect
      cases redirected with
      | none =>
        obtain rfl := Except.ok.inj hremove
        exact (Grows.refl _).packageKept
      | some path =>
        obtain rfl := Except.ok.inj hremove
        refine unlink_kept_iff.2 ?_
        rintro ⟨p, htarget, hroot⟩
        exact hnot ⟨filename, path, e₁, p, hunlinks, hredirect, htarget, hroot⟩

/-- A host with two files, one of which has been captured. -/
def capturedHost : Fs := Fs.ofList
  [([], .dir), ([str "etc"], .dir), ([str "etc", str "passwd"], .file ⟨str "root", 1⟩),
    ([str "etc", str "shadow"], .file ⟨str "x", 1⟩), ([str "pkg"], .dir), ([str "pkg", str "cde-root"], .dir),
    ([str "pkg", str "cde-root", str "etc"], .dir),
    ([str "pkg", str "cde-root", str "etc", str "passwd"], .file ⟨str "root", 1⟩)]

def pkgAudit : DeleteEnv where
  cde := { execMode := false, rootDir := str "/pkg/cde-root", startingPwd := str "/pkg" }

def pkgRoot : List CString := [str "pkg", str "cde-root"]

/-- A failed deletion of a file that has not been captured. -/
theorem failed_delete_uncaptured :
    ∃ e', (DeleteCall.unlinkat atFdcwd (str "shadow") 0).run pkgAudit ⟨str "/etc", none⟩ id (-13)
      { fs := capturedHost } = .ok e' ∧ PackageKept pkgRoot capturedHost e'.fs := by
  refine ⟨_, rfl, ?_⟩
  refine (failed_delete_iff pkgAudit rfl pkgRoot ⟨str "/etc", none⟩ (.unlinkat atFdcwd (str "shadow") 0) id (-13)
    (by decide) { fs := capturedHost }).2 ?_ _ rfl
  rintro ⟨filename, path, effects, p, hunlinks, hredirect, htarget, -⟩
  obtain rfl := Option.some.inj hunlinks
  obtain ⟨hpath, -⟩ := Prod.mk.inj (Except.ok.inj hredirect)
  obtain rfl := Option.some.inj hpath
  cases htarget

/-- **A captured file is lost** although the deletion failed (`EACCES`) and the host still has the
file. -/
theorem failed_delete_captured :
    ∃ e', (DeleteCall.unlink (str "/etc/passwd")).run pkgAudit ⟨str "/", none⟩ id (-13) { fs := capturedHost } =
      .ok e' ∧
      capturedHost (pkgRoot ++ [str "etc", str "passwd"]) ≠ none ∧
      e'.fs (pkgRoot ++ [str "etc", str "passwd"]) = none ∧ e'.fs [str "etc", str "passwd"] ≠ none := by
  refine ⟨_, rfl, ?_, ?_, ?_⟩ <;> decide

end Ptu
