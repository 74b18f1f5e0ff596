import Ptu.Spec.Redirect

/-!
# The working directory of a traced process

`CDE_begin_chdir`, `CDE_end_chdir` and the spoofed `getcwd`, and runs of `chdir` calls.
The handlers are modelled by the path that the kernel finds in the argument of the call:
`modify_syscall_single_arg` points the argument register to the redirected path.

A successful `chdir` makes `/proc/<pid>/cwd` the canonical form of that path; this is the
behaviour of a kernel when there are no symbolic links below cde-root.
-/

namespace Ptu

/-- The fields of `struct tcb` that these handlers use; `childshm` tells whether the shared
memory segment is attached. -/
structure Tcb where
  currentDir : CString
  pIgnores : Option ProcessIgnore := none
  childshm : Bool := false
  currentRepoInd : Option ℕ := none
  deriving DecidableEq, Repr

/-- A call of `chdir`, with what the file system and the tracer's logs look like at that time. -/
structure ChdirCall where
  path : CString
  effects : Effects := {}

/-- `modify_syscall_single_arg(tcp, 1, filename)`: the path the kernel reads in the end.
Without shared memory the call is first replaced by a `shmat` and then issued again. -/
def modifySyscallPath (g : Cde) (tcp : Tcb) (filename : CString) (e : Effects) :
    Except Fatal (CString × Tcb × Effects) := do
  if !g.execMode then throw .assertion
  let (redirected, e) ← redirectFilenameIntoCderoot g filename tcp.currentDir tcp.pIgnores e
  match redirected with
  | none => return (filename, tcp, e)
  | some redirected =>
    if tcp.childshm then return (redirected, tcp, e)
    let (redirected, e) ← redirectFilenameIntoCderoot g filename tcp.currentDir tcp.pIgnores e
    return (redirected.getD filename, { tcp with childshm := true }, e)

/-- `CDE_begin_standard_fileop` -/
def beginStandardFileop (g : Cde) (tcp : Tcb) (filename : CString) (e : Effects) :
    Except Fatal (CString × Tcb × Effects) := do
  if filename = [] then return (filename, tcp, e)
  if g.execMode then modifySyscallPath g tcp filename e
  else
    let e ← copyFileIntoCdeRoot g filename tcp.currentDir e
    return (filename, tcp, e)

/-- `CDE_begin_chdir` -/
def beginChdir (g : Cde) (tcp : Tcb) (filename : CString) (e : Effects) :
    Except Fatal (CString × Tcb × Effects) := beginStandardFileop g tcp filename e

/-- `CDE_end_fchdir` in exec mode, after success; `cwd` is what `/proc/<pid>/cwd` says. -/
def endFchdir (g : Cde) (tcp : Tcb) (cwd : CString) : Except Fatal Tcb :=
  if cwd = [] then .error .assertion
  else .ok { tcp with currentDir := cwd, currentRepoInd := getRepoPathId g cwd }

/-- `CDE_end_chdir` -/
def endChdir (g : Cde) (tcp : Tcb) (cwd : CString) : Except Fatal Tcb := endFchdir g tcp cwd

/-- A successful `chdir`, from its entry to its exit. -/
def chdir (g : Cde) (tcp : Tcb) (c : ChdirCall) : Except Fatal Tcb := do
  let (path, tcp, _) ← beginChdir g tcp c.path c.effects
  let cwd ← canonicalizePath path tcp.currentDir
  endChdir g tcp cwd

/-- A sequence of successful `chdir` calls. -/
def runChdir (g : Cde) : Tcb → List ChdirCall → Except Fatal Tcb
  | tcp, [] => .ok tcp
  | tcp, c :: cs => do runChdir g (← chdir g tcp c) cs

/-- What `CDE_end_getcwd` writes into the buffer of the traced program. -/
def getcwd (g : Cde) (tcp : Tcb) (e : Effects) : Except Fatal CString := do
  let (sandboxedPwd, _) ← extractSandboxedPwd g tcp.currentDir tcp.pIgnores e
  return sandboxedPwd

end Ptu
