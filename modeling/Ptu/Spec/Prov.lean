import Ptu.Spec.Shm

/-!
# Opened and closed files in the provenance log

`print_open_prov`, `print_write_prov` and `print_close_prov`, which write the records of the
provenance log for the system calls `open`, `openat`, `creat` and `close`, and the table
`opened_file_paths` of a traced process. `sys_open`, `sys_openat` and `sys_creat` write at the
exit stop, `sys_close` at the entry stop. What they do at the other stop, and what the functions
for `pipe`, `dup`, `socket` and so on do, touches neither the table nor the log.
-/

namespace Ptu

open Memory

/-- `READ`, `WRITE`, `READ-WRITE`, `UNKNOWNIO` and `CLOSE` -/
inductive ProvVerb where
  | read
  | write
  | readWrite
  | unknownIo
  | close
  deriving DecidableEq, Repr

/-- A line of the provenance log, without its time. -/
structure ProvRecord where
  pid : ℕ
  verb : ProvVerb
  path : CString
  deriving DecidableEq, Repr

/-- What the tracer reads besides the state of the process. -/
structure ProvEnv where
  /-- `strcpy_from_child_or_null`, `none` for NULL -/
  strcpyFromChildOrNull : StrcpyFromChild
  /-- `Prov_prov_mode` -/
  provMode : Bool := true

/-- A traced process at the stop at which a system call is recorded. -/
structure ProvStop where
  /-- `u_arg` -/
  uArg : ℕ → Word
  /-- `u_rval`, negative after an error -/
  uRval : ℤ := 0
  currentDir : CString := []
  mem : Mem

/-- What is kept for a process: `opened_file_paths`, with `none` for NULL, and the records. -/
structure ProvState where
  pid : ℕ := 0
  openedFilePaths : List (Option CString)
  log : List ProvRecord := []
  deriving DecidableEq, Repr

/-- `alloc_tcb_cde_fields`, where `maxof` is `max_open_files()`. -/
def ProvState.init (maxof : ℕ) (pid : ℕ) : ProvState where
  pid
  openedFilePaths := List.replicate maxof none

/-- `print_io_prov` -/
def printIoProv (env : ProvEnv) (s : ProvStop) (pathIndex : ℕ) (action : ProvVerb) (st : ProvState) :
    Except Fatal ProvState := do
  let filename := env.strcpyFromChildOrNull s.mem (s.uArg pathIndex)
  let filenameAbspath ← canonicalizePathOrNull filename s.currentDir
  return { st with log := st.log ++ [⟨st.pid, action, filenameAbspath⟩] }

/-- The system calls of a run: those that are recorded, and any other one. -/
inductive Syscall where
  | sysOpen
  | sysOpenat
  | sysCreat
  | sysClose
  | other
  deriving DecidableEq, Repr

/-- The `path_index` of `print_open_prov`, which does nothing for other names. -/
def Syscall.pathIndex : Syscall → Option ℕ
  | .sysOpen => some 1
  | .sysOpenat => some 2
  | _ => none

/-- The access mode, from the two lowest bits of the flags. -/
def openAction (flags : Word) : ProvVerb :=
  if flags &&& 3 = 0 then .read
  else if flags &&& 3 = 1 then .write
  else if flags &&& 3 = 2 then .readWrite
  else .unknownIo

/-- The file that a call of `open` or `openat` names. A relative path is taken from `current_dir`,
also where `openat` is given another directory. -/
def openedPath (env : ProvEnv) (s : ProvStop) (pathIndex : ℕ) : Except Fatal CString :=
  canonicalizePathOrNull (env.strcpyFromChildOrNull s.mem (s.uArg (pathIndex - 1))) s.currentDir

/-- `print_open_prov` -/
def printOpenProv (env : ProvEnv) (syscall : Syscall) (s : ProvStop) (st : ProvState) :
    Except Fatal ProvState := do
  let some pathIndex := syscall.pathIndex | return st
  let filenameAbspath ← openedPath env s pathIndex
  if !env.provMode || s.uRval < 0 then return st
  let st ← printIoProv env s (pathIndex - 1) (openAction (s.uArg pathIndex)) st
  -- a descriptor beyond the table is written out of bounds
  if st.openedFilePaths.length ≤ s.uRval.toNat then throw .segv
  return { st with openedFilePaths := st.openedFilePaths.set s.uRval.toNat (some filenameAbspath) }

/-- `print_write_prov` -/
def printWriteProv (env : ProvEnv) (s : ProvStop) (pathIndex : ℕ) (st : ProvState) :
    Except Fatal ProvState :=
  if env.provMode && decide (0 ≤ s.uRval) then printIoProv env s pathIndex .write st else .ok st

/-- The argument of `close`, an `int`. -/
def ProvStop.closefd (s : ProvStop) : ℤ := ((s.uArg 0).setWidth 32).toInt

/-- `print_close_prov` -/
def printCloseProv (env : ProvEnv) (s : ProvStop) (st : ProvState) : Except Fatal ProvState := do
  if !env.provMode then return st
  -- outside the table there is no entry to read
  if s.closefd < 0 then throw .segv
  let some entry := st.openedFilePaths[s.closefd.toNat]? | throw .segv
  match entry with
  | none => return st
  | some openpath => return { st with log := st.log ++ [⟨st.pid, .close, openpath⟩] }

/-- A system call of the process. -/
structure Call where
  syscall : Syscall
  stop : ProvStop
  /-- the descriptors that a call of another kind makes refer to something -/
  created : List ℤ := []

/-- What is recorded for a call. -/
def Call.record (env : ProvEnv) (c : Call) (st : ProvState) : Except Fatal ProvState :=
  match c.syscall with
  | .sysOpen | .sysOpenat => printOpenProv env c.syscall c.stop st
  | .sysCreat => printWriteProv env c.stop 0 st
  | .sysClose => printCloseProv env c.stop st
  | .other => .ok st

/-- The calls of a run, one after the other. -/
def recordAll (env : ProvEnv) (calls : List Call) (st : ProvState) : Except Fatal ProvState :=
  calls.foldlM (fun st c => c.record env st) st

end Ptu
