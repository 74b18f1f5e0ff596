import Ptu.Spec.PidList

/-!
# The monitor

The thread `capture_cont_prov` beside the tracer. The two share `pidlist` and the log file. What is
done under the lock `mut_pidlist` is one step here. The tests of `pidlist.pc` are made without the
lock; a test in the middle of a sweep sees 0 only after the sweep has written its last record, so
it is no other than a test behind the sweep.
-/

namespace Ptu

open Unordered

/-- The records of a session, without their contents. -/
inductive LogRecord where
  | spawn (parent child : ℕ)
  /-- a file operation, or the begin of an `execve` -/
  | operation (pid : ℕ)
  | listed (r : PidRecord)
  deriving DecidableEq, Repr

/-- Where `capture_cont_prov` is: in its first loop, at the test of its second loop, in the body
of that loop, behind it, or at its end. -/
inductive MonitorPhase where
  | waiting
  | testing
  | sweeping
  | closing
  | done
  deriving DecidableEq, Repr

/-- The steps of the functions that write records. -/
inductive TracerStep where
  | write (r : LogRecord)
  | append (pid : ℕ)
  | sweep (stat : ProcStat)
  /-- the test at the begin of `rm_pid_prov` -/
  | rmTest (pid : ℕ) (stat : ProcStat)
  | remove (pid : ℕ)

/-- What the tracer is told by `wait`. -/
inductive TracerEvent where
  | operation (pid : ℕ)
  /-- a successful `execve` -/
  | execve (pid : ℕ) (ppid : ℤ) (stat : ProcStat)
  | spawn (parent child : ℕ)
  /-- the entry stop of `exit` -/
  | exit (pid : ℕ) (stat : ProcStat)
  /-- the end of a process, after its `exit` or by a signal -/
  | drop (pid : ℕ)

/-- The functions called for an event, as steps. -/
def TracerEvent.steps : TracerEvent → List TracerStep
  | .operation pid => [.write (.operation pid)]
  | .execve pid ppid stat => [.write (.listed (.execve2 pid ppid)), .append pid, .sweep stat]
  | .spawn parent child => [.write (.spawn parent child)]
  | .exit pid stat => [.rmTest pid stat, .write (.listed (.exit pid))]
  | .drop _ => []

/-- Both threads, the traced processes and the log. -/
structure Session where
  /-- the traced processes that have not called `exit` -/
  running : List ℕ
  /-- the traced processes that have called `exit` -/
  exiting : List ℕ := []
  /-- what the tracer has left to do for the last event -/
  todo : List TracerStep := []
  /-- `pidlist.pv[0..pc)` -/
  pv : List ℕ := []
  phase : MonitorPhase := .waiting
  closed : Bool := false
  log : List LogRecord := []
  /-- the records that were written after the log had been closed -/
  late : List LogRecord := []

/-- Write to the log. -/
def Session.write (s : Session) (records : List LogRecord) : Session :=
  if s.closed then { s with late := s.late ++ records } else { s with log := s.log ++ records }

/-- `print_curr_prov` -/
def Session.sweep (s : Session) (stat : ProcStat) : Session :=
  let st := printCurrProv stat { pv := s.pv }
  { s.write (st.log.map .listed) with pv := st.pv }

/-- The tracer takes up an event, which none but a traced process causes. -/
def Session.take (s : Session) (event : TracerEvent) : Option Session :=
  if !s.todo.isEmpty then none
  else
    let s := { s with todo := event.steps }
    match event with
    | .operation pid => if pid ∈ s.running then some s else none
    | .execve pid _ _ => if pid ∈ s.running then some s else none
    | .spawn parent child =>
      if parent ∈ s.running ∧ child ∉ s.running ∧ child ∉ s.exiting then
        some { s with running := child :: s.running }
      else none
    | .exit pid _ =>
      if pid ∈ s.running then some { s with running := s.running.erase pid, exiting := pid :: s.exiting }
      else none
    | .drop pid =>
      if pid ∈ s.running ∨ pid ∈ s.exiting then
        some { s with running := s.running.erase pid, exiting := s.exiting.erase pid }
      else none

/-- The tracer does what it has to do next. -/
def Session.proceed (s : Session) : Option Session :=
  match s.todo with
  | [] => none
  | step :: todo =>
    let s := { s with todo }
    match step with
    | .write r => some (s.write [r])
    | .append pid =>
      -- beyond the end of the array stands `pc` itself
      if maxPids ≤ s.pv.length then none else some { s with pv := s.pv ++ [pid] }
    | .sweep stat => some (s.sweep stat)
    | .rmTest pid stat =>
      if s.pv.isEmpty then some s else some { s with todo := .sweep stat :: .remove pid :: s.todo }
    | .remove pid =>
      match s.pv.findIdx? (· == pid) with
      | some i => some { s with pv := swapRemove s.pv i }
      | none => some s

/-- A step of `capture_cont_prov`. -/
def Session.monitor (s : Session) (stat : ProcStat) : Option Session :=
  match s.phase with
  | .waiting => if s.pv.isEmpty then some s else some { s with phase := .testing }
  | .testing => if s.pv.isEmpty then some { s with phase := .closing } else some { s with phase := .sweeping }
  | .sweeping => some { s.sweep stat with phase := .testing }
  | .closing => some { s with closed := true, phase := .done }
  | .done => none

/-- A step of a session: of the tracer or of the monitor. -/
inductive SessionStep where
  | take (event : TracerEvent)
  | proceed
  | monitor (stat : ProcStat)

def Session.step (s : Session) : SessionStep → Option Session
  | .take event => s.take event
  | .proceed => s.proceed
  | .monitor stat => s.monitor stat

/-- Any interleaving of the two threads. -/
def Session.run (s : Session) (steps : List SessionStep) : Option Session := steps.foldlM Session.step s

/-- The first process has been started and has executed nothing yet. -/
def Session.init (pid : ℕ) : Session where
  running := [pid]

end Ptu
