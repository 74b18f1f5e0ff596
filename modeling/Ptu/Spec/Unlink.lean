import Ptu.Spec.Redirect

/-!
# Deletions

What the tracer does when a traced program calls `unlink` or `unlinkat` (`sys_unlink` and
`sys_unlinkat` of `file.c`). In audit mode the package mirrors the host, so a deleted file is
deleted there as well: by `CDE_begin_file_unlink` and `CDE_begin_file_unlinkat` at the entry of the
call, and for a directory (`AT_REMOVEDIR`) by `CDE_end_unlinkat_rmdir` at its exit. The package is a
part of the same file system.
-/

namespace Ptu

open Pathname

def Fs.erase (fs : Fs) (p : List CString) : Fs := fun q => if q = p then none else fs q

/-- The globals of the tracer, and what the host says about deletions. -/
structure DeleteEnv where
  cde : Cde
  /-- whether the tracer has the permission to remove the object at a real path -/
  mayRemove : List CString → Bool := fun _ => true
  /-- what `rmdir` makes of the file system when the tracer calls it -/
  rmdir : Fs → CString → Fs := fun fs _ => fs

variable (env : DeleteEnv)

/-- The object that `unlink` removes, if it succeeds: no directory, and a link is not followed. -/
def unlinkTarget (fs : Fs) (path : CString) : Option (List CString) :=
  (lookup fs env.cde.host.maxLinks false [] path).filter fun p =>
    (fs p).any (fun nd => nd != .dir) && env.mayRemove p

/-- `unlink`, whose failures are ignored. -/
def unlink (fs : Fs) (path : CString) : Fs :=
  match unlinkTarget env fs path with
  | some p => fs.erase p
  | none => fs

/-- The fields of the `tcb` that are read. -/
structure Tracee where
  currentDir : CString
  pIgnores : Option ProcessIgnore := none

/-- `AT_FDCWD` -/
def atFdcwd : ℤ := -100

/-- `AT_REMOVEDIR` -/
def atRemovedir : ℕ := 0x200

/-- The part that `CDE_begin_file_unlink`, `CDE_begin_file_unlinkat` and `CDE_end_rmdir` have in
common: remove the mirrored object. -/
def removeRedirected (remove : Fs → CString → Fs) (tcp : Tracee) (filename : CString) (e : Effects) :
    Except Fatal Effects := do
  let (redirectedPath, e) ← redirectFilenameIntoCderoot env.cde filename tcp.currentDir tcp.pIgnores e
  match redirectedPath with
  | some path => return { e with fs := remove e.fs path }
  | none => return e

/-- `CDE_begin_file_unlink`. In exec mode the path is rewritten instead. -/
def beginFileUnlink (tcp : Tracee) (filename : CString) (e : Effects) : Except Fatal Effects :=
  if env.cde.execMode then .ok e else removeRedirected env (unlink env) tcp filename e

/-- `CDE_begin_file_unlinkat` -/
def beginFileUnlinkat (tcp : Tracee) (dirfd : ℤ) (filename : CString) (e : Effects) : Except Fatal Effects :=
  -- a path relative to another directory is left alone, with a warning
  if !isAbspath filename && dirfd != atFdcwd then .ok e
  else if env.cde.execMode then .ok e
  else removeRedirected env (unlink env) tcp filename e

/-- `CDE_begin_unlinkat_rmdir`, which is `CDE_begin_at_fileop`. -/
def beginUnlinkatRmdir (tcp : Tracee) (dirfd : ℤ) (filename : CString) (e : Effects) :
    Except Fatal Effects :=
  if !isAbspath filename && dirfd != atFdcwd then .ok e
  else if env.cde.execMode then .ok e
  else if (getRepoPathId env.cde filename).isSome then .ok e
  else copyFileIntoCdeRoot env.cde filename tcp.currentDir e

/-- `CDE_end_rmdir` -/
def endRmdir (tcp : Tracee) (filename : CString) (uRval : ℤ) (e : Effects) : Except Fatal Effects :=
  if env.cde.execMode then .ok e
  else if uRval = 0 then removeRedirected env env.rmdir tcp filename e
  else .ok e

/-- A deletion and the path it is called with. -/
inductive DeleteCall where
  | unlink (filename : CString)
  | unlinkat (dirfd : ℤ) (filename : CString) (flags : ℕ)
  deriving DecidableEq, Repr

/-- `sys_unlink` and `sys_unlinkat` at the entry of the call. -/
def DeleteCall.entering (tcp : Tracee) : DeleteCall → Effects → Except Fatal Effects
  | .unlink filename, e => beginFileUnlink env tcp filename e
  | .unlinkat dirfd filename flags, e =>
    if flags = atRemovedir then beginUnlinkatRmdir env tcp dirfd filename e
    else beginFileUnlinkat env tcp dirfd filename e

/-- `sys_unlink` and `sys_unlinkat` at the exit of the call. -/
def DeleteCall.exiting (tcp : Tracee) (uRval : ℤ) : DeleteCall → Effects → Except Fatal Effects
  | .unlink _, e => .ok e
  | .unlinkat _ filename flags, e =>
    if flags = atRemovedir then endRmdir env tcp filename uRval e else .ok e

/-- A whole call. The kernel changes the file system only if it returns 0. -/
def DeleteCall.run (tcp : Tracee) (kernel : Fs → Fs) (uRval : ℤ) (call : DeleteCall) (e : Effects) :
    Except Fatal Effects := do
  let e ← call.entering env tcp e
  let e := if uRval = 0 then { e with fs := kernel e.fs } else e
  call.exiting env tcp uRval e

end Ptu
