import Ptu.Lib.Unordered
import Ptu.Spec.CString

/-!
# The list of executed processes

`pidlist`, the array of the processes that the monitor looks after. A process is appended when its
`execve` has succeeded and taken out when it exits; a sweep over the list writes the memory that
each process uses, and takes out those that `/proc` no longer knows.
-/

namespace Ptu

open Unordered

/-- The records that are written with the list, without their time. -/
inductive PidRecord where
  | execve2 (pid : ℕ) (ppid : ℤ)
  | mem (pid : ℕ) (rss : ℕ)
  | lexit (pid : ℕ)
  | exit (pid : ℕ)
  deriving DecidableEq, Repr

/-- What `/proc/<pid>/stat` says about the memory of a process, `none` if it cannot be opened. -/
abbrev ProcStat := ℕ → Option ℕ

/-- `pidlist.pv[0..pc)` and the records. -/
structure PidState where
  pv : List ℕ := []
  log : List PidRecord := []
  deriving DecidableEq, Repr

/-- The room in `pidlist.pv`. -/
def maxPids : ℕ := 1000

/-- The loop of `print_curr_prov` from index `i` on. Each round moves on to the next index, also
where the last process has been moved to this one; so there are at most as many rounds as there
were processes. -/
def sweepLoop (stat : ProcStat) : ℕ → ℕ → PidState → PidState
  | 0, _, st => st
  | n + 1, i, st =>
    match st.pv[i]? with
    | none => st
    | some pid =>
      match stat pid with
      | none => sweepLoop stat n (i + 1) { pv := swapRemove st.pv i, log := st.log ++ [.lexit pid] }
      | some rss => sweepLoop stat n (i + 1) { st with log := st.log ++ [.mem pid rss] }

/-- `print_curr_prov` -/
def printCurrProv (stat : ProcStat) (st : PidState) : PidState := sweepLoop stat st.pv.length 0 st

/-- `add_pid_prov`. Beyond the end of `pv` stands `pc` itself. -/
def addPidProv (stat : ProcStat) (pid : ℕ) (st : PidState) : Except Fatal PidState :=
  if maxPids ≤ st.pv.length then .error .segv
  else .ok (printCurrProv stat { st with pv := st.pv ++ [pid] })

/-- `rm_pid_prov` -/
def rmPidProv (stat : ProcStat) (pid : ℕ) (st : PidState) : PidState :=
  if st.pv.length = 0 then st
  else
    let st := printCurrProv stat st
    match st.pv.findIdx? (· == pid) with
    | some i => { st with pv := swapRemove st.pv i }
    | none => st

/-- `print_end_execve_prov` -/
def printEndExecveProv (provMode : Bool) (stat : ProcStat) (pid : ℕ) (ppid : ℤ) (st : PidState) :
    Except Fatal PidState :=
  if provMode then addPidProv stat pid { st with log := st.log ++ [.execve2 pid ppid] } else .ok st

/-- `print_exit_prov` -/
def printExitProv (provMode : Bool) (stat : ProcStat) (pid : ℕ) (st : PidState) : PidState :=
  if provMode then
    let st := rmPidProv stat pid st
    { st with log := st.log ++ [.exit pid] }
  else st

/-- A successful `execve` of a process, the exit of a process, or a sweep of the monitor, each
with what `/proc` says at that time. The monitor runs in provenance mode only. -/
inductive PidEvent where
  | execve (pid : ℕ) (ppid : ℤ) (stat : ProcStat)
  | exit (pid : ℕ) (stat : ProcStat)
  | sweep (stat : ProcStat)

def PidEvent.run (provMode : Bool) (event : PidEvent) (st : PidState) : Except Fatal PidState :=
  match event with
  | .execve pid ppid stat => printEndExecveProv provMode stat pid ppid st
  | .exit pid stat => .ok (printExitProv provMode stat pid st)
  | .sweep stat => .ok (if provMode then printCurrProv stat st else st)

def runPids (provMode : Bool) (events : List PidEvent) (st : PidState) : Except Fatal PidState :=
  events.foldlM (fun st event => event.run provMode st) st

end Ptu
