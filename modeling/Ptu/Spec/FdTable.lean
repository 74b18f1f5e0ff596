import Ptu.Spec.Prov

/-!
# The size of the table of opened files

`max_open_files`, by which `alloc_tcb_cde_fields` sizes `opened_file_paths`, and the index at which
a system call uses the table.
-/

namespace Ptu

/-- What `sysconf(_SC_OPEN_MAX)` returns, and `errno` after it. -/
structure Sysconf where
  value : ℤ
  errno : ℕ := 0
  deriving DecidableEq, Repr

/-- `max_open_fallback` -/
def maxOpenFallback : ℤ := 256

/-- `max_open_files`, with the static variable `max_open`, in which the result is kept. -/
def maxOpenFiles (sysconf : Sysconf) (maxOpen : ℤ) : ℤ :=
  if maxOpen = 0 then
    if sysconf.value < 0 then if sysconf.errno = 0 then maxOpenFallback else -1
    else sysconf.value
  else maxOpen

/-- `alloc_tcb_cde_fields`. For a negative number `malloc` gives no table at all. -/
def allocOpenedFilePaths (sysconf : Sysconf) (maxOpen : ℤ) (pid : ℕ) : ProvState :=
  ProvState.init (maxOpenFiles sysconf maxOpen).toNat pid

/-- The index at which `print_open_prov` uses the table: none if it stops at the path or does not
record the call. -/
def openIndex (env : ProvEnv) (syscall : Syscall) (s : ProvStop) : Option ℤ :=
  match syscall.pathIndex with
  | none => none
  | some pathIndex =>
    match openedPath env s pathIndex with
    | .error _ => none
    | .ok _ => if env.provMode && decide (0 ≤ s.uRval) then some s.uRval else none

/-- The index at which a call uses the table. -/
def Call.tableIndex (env : ProvEnv) (c : Call) : Option ℤ :=
  match c.syscall with
  | .sysOpen | .sysOpenat => openIndex env c.syscall c.stop
  | .sysClose => if env.provMode then some c.stop.closefd else none
  | .sysCreat | .other => none

end Ptu
