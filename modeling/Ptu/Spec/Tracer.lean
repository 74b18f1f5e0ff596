import Ptu.Spec.ProvLog
import Ptu.Spec.Regs

/-!
# Following processes

`trace` of `strace.c`, the loop around `wait4`, with the functions that keep the table of processes:
`alloc_tcb`, `droptcb`, `pid2tcb`, `resume_from_tcp`, `detach`, `handle_group_exit`, `handle_ptrace_event`
and `cleanup`, and `internal_syscall` of `syscall.c` with `internal_exit`, `internal_fork`, `internal_wait` and
`handle_new_child` of `process.c`. Everything that the kernel answers is an input: what `wait4` returns, the
registers at a stop and the results of `ptrace`. What the tracer asks of the kernel goes to a log, together with
what the kernel reports.

A pointer to a `struct tcb` is the index of the entry, since entries are never moved or freed. Of the fields of
`cde.c` there is only whether `current_dir` is set; the others are in `Ptu.Spec.Tcb`. The messages on stderr are
left out but for one, and so are the return values that no caller reads.
-/

namespace Ptu

/-- `sys_func` of a system call, as far as `internal_syscall` tells them apart. -/
inductive SysFunc where
  | exit
  | fork
  | vfork
  | clone
  /-- `sys_wait4` and `sys_waitpid` -/
  | wait4
  | waitid
  | other
  deriving DecidableEq, Repr

/-- The fields of `struct tcb` that are about following processes. The default is what `calloc` returns. -/
structure ProcTcb where
  pid : ℤ := 0
  /-- `TCB_STARTUP`, and so on -/
  startup : Bool := false
  inUse : Bool := false
  inSyscall : Bool := false
  attached : Bool := false
  exiting : Bool := false
  suspended : Bool := false
  bptSet : Bool := false
  sigTrapped : Bool := false
  followFork : Bool := false
  cloneThread : Bool := false
  groupExiting : Bool := false
  /-- `sysent[scno].sys_func` -/
  sysFunc : SysFunc := .other
  /-- `scno == __NR_exit_group` -/
  isExitGroup : Bool := false
  uArg : ℕ → Word := fun _ => 0
  uError : ℕ := 0
  uRval : Word := 0
  parent : Option ℕ := none
  nchildren : ℤ := 0
  waitpid : ℤ := 0
  nzombies : ℤ := 0
  ncloneThreads : ℤ := 0
  ncloneWaiting : ℤ := 0
  /-- `current_dir != NULL` -/
  currentDir : Bool := false

/-- What `wait4` stores in `status`. -/
inductive WaitStatus where
  | signaled (sig : ℕ)
  | exited (code : ℕ)
  /-- `WSTOPSIG(status)` and `status >> 16` -/
  | stopped (sig event : ℕ)
  | other
  deriving DecidableEq, Repr

def WaitStatus.isStop : WaitStatus → Bool
  | .stopped _ _ => true
  | _ => false

inductive PtraceOp where
  | syscall
  | cont
  | detach
  | kill
  | setOptions
  deriving DecidableEq, Repr

/-- The result of a system call of the tracer: success, `ESRCH` or another error. -/
inductive Reply where
  | ok
  | esrch
  | failed
  deriving DecidableEq, Repr

/-- What happens between the kernel and the tracer. -/
inductive TraceEvent where
  | report (pid : ℤ) (status : WaitStatus)
  | request (op : PtraceOp) (pid : ℤ) (sig : ℕ)
  /-- the message `[preattached child %d of %d in weird state!]` -/
  | weird (child parent : ℤ)
  deriving DecidableEq, Repr

/-- What `trace_syscall` finds at a stop. -/
structure Trap where
  /-- whether the registers can be read -/
  available : Bool := true
  /-- whether `rax` is `-ENOSYS`, as at an entry -/
  enosys : Bool := true
  sysFunc : SysFunc := .other
  isExitGroup : Bool := false
  uArg : ℕ → Word := fun _ => 0
  uError : ℕ := 0
  uRval : Word := 0
  /-- whether the function of the call returns -1 at an entry -/
  fails : Bool := false
  /-- whether the function of the call sets `TCB_SIGTRAPPED` -/
  traps : Bool := false

/-- What the kernel answers while one report is handled. -/
structure Answers where
  ptrace : PtraceOp → ℤ → Reply := fun _ _ => .ok
  /-- whether the arguments of a process can be written -/
  poke : ℤ → Bool := fun _ => true
  /-- `PTRACE_GETEVENTMSG` -/
  eventMsg : Except Reply ℤ := .error .failed
  /-- `my_tgkill` with signal 0, and with `SIGSTOP` -/
  tgkillProbe : Reply := .ok
  tgkillStop : Reply := .ok
  /-- what `wait4` of a process returns in `detach`, before `ECHILD` -/
  waits : ℤ → List WaitStatus := fun _ => []
  sigIsHandled : Bool := true
  /-- whether `ptrace_errno` of the process is set -/
  ptraceErrno : Bool := false

/-- A process that `wait4` returns, with the answers of the kernel. -/
structure Report where
  pid : ℤ
  status : WaitStatus
  trap : Trap := {}
  answers : Answers := {}

/-- The result of `wait4`. -/
inductive WaitResult where
  | eintr
  | echild
  | failed
  | report (r : Report)

/-- What does not change during a run. -/
structure TraceConfig where
  followfork : Bool := true
  straceChild : ℤ
  straceVforked : Bool := false

/-- The state of the tracer. The log has the latest event first. -/
structure Tracer where
  tcbtab : ℕ → ProcTcb := fun _ => {}
  tcbtabsize : ℕ
  nprocs : ℤ := 0
  /-- `ptrace_setoptions`, which has all the options for following processes or none -/
  setOptions : Bool := true
  exitCode : ℕ := 0
  log : List TraceEvent := []

/-- `SIGTRAP` -/
def sigtrap : ℕ := 5

/-- `SIGSTOP` -/
def sigstop : ℕ := 19

/-- Whether a flag of `clone` or of `wait4` is set. -/
def Word.hasFlag (w flag : Word) : Bool := w &&& flag != 0

/-- `CLONE_PARENT` -/
def cloneParentFlag : Word := 0x8000

/-- `CLONE_THREAD` -/
def cloneThreadFlag : Word := 0x10000

/-- `CLONE_UNTRACED` -/
def cloneUntracedFlag : Word := 0x800000

/-- `CLONE_PTRACE|SIGCHLD` -/
def clonePtraceSigchld : Word := 0x2011

/-- `WNOHANG` -/
def wnohang : Word := 1

/-- A `long` that is converted to `int`. -/
def Word.toCInt (w : Word) : ℤ := (w.setWidth 32).toInt

namespace Tracer

def modify (t : Tracer) (i : ℕ) (change : ProcTcb → ProcTcb) : Tracer :=
  { t with tcbtab := fun k => if k = i then change (t.tcbtab k) else t.tcbtab k }

def say (t : Tracer) (e : TraceEvent) : Tracer := { t with log := e :: t.log }

def request (t : Tracer) (op : PtraceOp) (pid : ℤ) (sig : ℕ) : Tracer := t.say (.request op pid sig)

/-- `pid2tcb` -/
def pid2tcb (t : Tracer) (pid : ℤ) : Option ℕ :=
  if pid ≤ 0 then none
  else (List.range t.tcbtabsize).find? fun i => (t.tcbtab i).pid == pid && (t.tcbtab i).inUse

/-- `expand_tcbtab`: the new entries come from `calloc`, as those that are not in the table yet. -/
def expandTcbtab (t : Tracer) : Tracer := { t with tcbtabsize := 2 * t.tcbtabsize }

/-- The entry that `alloc_tcb` gives out. What it does not set stays as it is. -/
def initTcb (pid : ℤ) (tcp : ProcTcb) : ProcTcb :=
  { tcp with
    pid
    parent := none
    nchildren := 0
    nzombies := 0
    ncloneThreads := 0
    ncloneWaiting := 0
    inUse := true
    startup := true
    inSyscall := false
    attached := false
    exiting := false
    suspended := false
    bptSet := false
    sigTrapped := false
    followFork := false
    cloneThread := false
    groupExiting := false
    currentDir := false }

/-- `alloc_tcb` -/
def alloctcb (t : Tracer) (pid : ℤ) : Except Fatal (ℕ × Tracer) :=
  let t := if t.nprocs = t.tcbtabsize then t.expandTcbtab else t
  match (List.range t.tcbtabsize).find? fun i => !(t.tcbtab i).inUse with
  | none => .error (.exit (str "bug in alloc_tcb\n"))
  | some i => .ok (i, { t.modify i (initTcb pid) with nprocs := t.nprocs + 1 })

/-- What `droptcb` leaves of an entry. -/
def clearTcb (tcp : ProcTcb) : ProcTcb :=
  { tcp with
    pid := 0
    parent := none
    inUse := false
    startup := false
    inSyscall := false
    attached := false
    exiting := false
    suspended := false
    bptSet := false
    sigTrapped := false
    followFork := false
    cloneThread := false
    groupExiting := false
    currentDir := false }

/-- The counts of a process when a child of it is dropped. -/
def loseChild (isThread : Bool) (tcp : ProcTcb) : ProcTcb :=
  { tcp with
    nchildren := tcp.nchildren - 1
    ncloneThreads := if isThread then tcp.ncloneThreads - 1 else tcp.ncloneThreads
    nzombies := tcp.nzombies + 1 }

/-- `droptcb`, with the number of calls that may be nested. -/
def droptcbNested : ℕ → ℕ → Tracer → Tracer
  | 0, _, t => t
  | fuel + 1, i, t =>
    let tcp := t.tcbtab i
    if tcp.pid = 0 then t
    -- other threads of the process are left: the entry stays as a zombie
    else if 0 < tcp.ncloneThreads then t.modify i fun tcp => { tcp with exiting := true }
    else
      let t := { t.modify i (fun tcp => { tcp with pid := 0 }) with nprocs := t.nprocs - 1 }
      let t := match tcp.parent with
        | none => t
        | some p =>
          let t := t.modify p (loseChild tcp.cloneThread)
          -- the last thread takes a zombie along
          if tcp.cloneThread && (t.tcbtab p).ncloneThreads == 0 && (t.tcbtab p).exiting then droptcbNested fuel p t
          else t
      t.modify i clearTcb

/-- `droptcb`. A call sets the `pid` of its entry to 0 before it nests, so no more calls are nested than
there are entries. -/
def droptcb (t : Tracer) (i : ℕ) : Tracer := droptcbNested (t.tcbtabsize + 1) i t

/-- `resume` -/
def resume (t : Tracer) (i : ℕ) : Except Fatal Tracer :=
  let tcp := t.tcbtab i
  let awake := t.modify i fun tcp => { tcp with suspended := false }
  if !tcp.suspended then .ok t
  else if tcp.cloneThread then
    match tcp.parent with
    | none => .error .segv
    | some p =>
      .ok ((awake.modify p fun q => { q with ncloneWaiting := q.ncloneWaiting - 1 }).request .syscall tcp.pid 0)
  else .ok (awake.request .syscall tcp.pid 0)

/-- Whether the process at `k` is a thread that waits, as the threads of the process at `p` do, and not the
process at `i`. -/
def isWaitingThread (t : Tracer) (i p k : ℕ) : Bool :=
  (t.tcbtab k).parent == some p && k != i && (t.tcbtab k).cloneThread && (t.tcbtab k).suspended

/-- The parent of the process at `i` is suspended until a process like it ends. -/
def parentAwaits (t : Tracer) (i p : ℕ) : Bool :=
  (t.tcbtab p).suspended && (decide ((t.tcbtab p).waitpid ≤ 0) || (t.tcbtab p).waitpid == (t.tcbtab i).pid)

/-- The two loops of `resume_from_tcp`, where `resumed` says whether the parent has been resumed. -/
def resumeThreads (t : Tracer) (i p : ℕ) (resumed : Bool) : Except Fatal Tracer :=
  let forThis := fun k => t.isWaitingThread i p k && (t.tcbtab k).waitpid == (t.tcbtab i).pid
  let forAny := fun k => t.isWaitingThread i p k && decide ((t.tcbtab k).waitpid ≤ 0)
  let waiters := (List.range t.tcbtabsize).filter forThis
  if !resumed && waiters.isEmpty then
    match (List.range t.tcbtabsize).find? forAny with
    | none => .ok t
    | some k => t.resume k
  else waiters.foldlM resume t

/-- `resume_from_tcp` -/
def resumeFromTcp (t : Tracer) (i : ℕ) : Except Fatal Tracer :=
  match (t.tcbtab i).parent with
  | none => .ok t
  | some p => do
    let awaits := t.parentAwaits i p
    let t ← if awaits then t.resume p else .ok t
    if 0 < (t.tcbtab p).ncloneWaiting then t.resumeThreads i p awaits else .ok t

/-- `clearbpt` -/
def clearbpt (t : Tracer) (a : Answers) (i : ℕ) : Tracer :=
  if a.poke (t.tcbtab i).pid then t.modify i fun tcp => { tcp with bptSet := false } else t

/-- The loop of `detach`, which waits for the `SIGSTOP`. -/
def detachWaits (a : Answers) (pid : ℤ) (sig : ℕ) : List WaitStatus → Tracer → Tracer
  | [], t => t
  | status :: rest, t =>
    let t := t.say (.report pid status)
    match status with
    | .stopped s _ =>
      if s = sigstop then t.request .detach pid sig
      else
        let t := t.request .cont pid (if s = sigtrap then 0 else s)
        if a.ptrace .cont pid = .failed then t else detachWaits a pid sig rest t
    | _ => t

/-- The variable `catch_sigstop` of `detach`. -/
def catchSigstop (a : Answers) (tcp : ProcTcb) : Bool :=
  if a.ptrace .detach tcp.pid = .esrch ∧ a.tgkillProbe = .ok ∧ (tcp.startup ∨ a.tgkillStop = .ok) then true
  else tcp.startup

/-- The variable `zombie` of `detach`. -/
def zombieLeader (t : Tracer) (i : ℕ) : Except Fatal (Option ℕ) :=
  if (t.tcbtab i).cloneThread then
    match (t.tcbtab i).parent with
    | none => .error .segv
    | some p => .ok (if (t.tcbtab p).ncloneThreads = 1 ∧ (t.tcbtab p).exiting then some p else none)
  else .ok none

/-- The part of `detach` up to the end of its loop. -/
def release (t : Tracer) (a : Answers) (i : ℕ) (sig : ℕ) : Tracer :=
  let tcp := t.tcbtab i
  let t := if tcp.bptSet then t.clearbpt a i else t
  let t := t.request .detach tcp.pid sig
  if catchSigstop a tcp then detachWaits a tcp.pid sig (a.waits tcp.pid) t else t

/-- `detach` -/
def detach (t : Tracer) (a : Answers) (i : ℕ) (sig : ℕ) : Except Fatal Tracer := do
  let zombie ← t.zombieLeader i
  let t ← (t.release a i sig).resumeFromTcp i
  let t := t.droptcb i
  match zombie with
  | none => return t
  | some z => return t.droptcb z

/-- `cleanup` -/
def cleanup (t : Tracer) (a : Answers) : Except Fatal Tracer :=
  (List.range t.tcbtabsize).foldlM
    (fun t i => if (t.tcbtab i).inUse && (t.tcbtab i).attached then t.detach a i 0 else .ok t) t

/-- `ptrace_restart`, where the loop ends with -1 after a `cleanup` if it fails. -/
def restart (t : Tracer) (a : Answers) (op : PtraceOp) (i : ℕ) (sig : ℕ) : Except Fatal (Option ℤ × Tracer) :=
  let pid := (t.tcbtab i).pid
  let t := t.request op pid sig
  if a.ptrace op pid = .failed then (t.cleanup a).map fun t => (some (-1), t) else .ok (none, t)

/-- The variable `leader` of `handle_group_exit`. -/
def groupLeader (tcp : ProcTcb) : Option ℕ := if tcp.cloneThread then tcp.parent else none

/-- The end of `handle_group_exit` for a process that is not our own child. -/
def markGroupExiting (t : Tracer) (leader : Option ℕ) (i : ℕ) : Tracer :=
  match leader with
  | none => t
  | some p => if p = i then t else t.modify p fun q => { q with groupExiting := true }

/-- `handle_group_exit` with a signal, or with `none` for -1. The number is what the loop returns if this
returns -1. -/
def handleGroupExit (t : Tracer) (a : Answers) (i : ℕ) (sig : Option ℕ) : Except Fatal (Option ℤ × Tracer) :=
  let leader := groupLeader (t.tcbtab i)
  match sig with
  | none => do
    let t ← t.resumeFromTcp i
    return (none, t.droptcb i)
  | some sig =>
    let t := t.modify i fun tcp => { tcp with exiting := true, groupExiting := true }
    if (t.tcbtab i).attached then do
      let t ← t.detach a i sig
      return (none, t.markGroupExiting leader i)
    else do
      let (code, t) ← t.restart a .cont i sig
      match code, leader with
      | none, some p =>
        let t := t.modify p fun q => { q with groupExiting := true }
        return (none, if p = i then t else t.droptcb i)
      | _, _ => return (code, t)

/-- `fork_tcb` -/
def forkTcb (t : Tracer) (i : ℕ) : Tracer :=
  (if t.nprocs = t.tcbtabsize then t.expandTcbtab else t).modify i fun tcp => { tcp with followFork := true }

/-- `CDE_init_tcb_dir_fields` for a process whose parent is at `p`. -/
def initTcbDir (t : Tracer) (c p : ℕ) : Except Fatal Tracer :=
  if (t.tcbtab c).currentDir then .error .assertion
  else if !(t.tcbtab p).currentDir then .error .assertion
  else .ok (t.modify c fun tcp => { tcp with currentDir := true })

/-- The process at `i` is the parent of the new child at `c`. -/
def adoptChild (t : Tracer) (a : Answers) (i c : ℕ) (bpt : Bool) : Except Fatal Tracer := do
  let t := if bpt then t.clearbpt a i else t
  let t := t.modify c fun tcp => { tcp with attached := true, bptSet := bpt || tcp.bptSet, parent := some i }
  let t ← t.initTcbDir c i
  return t.modify i fun tcp => { tcp with nchildren := tcp.nchildren + 1 }

/-- The entry of a new child in `handle_new_child`: one that has reported its first stop already, or a new one. -/
def childTcb (t : Tracer) (i : ℕ) (pid : ℤ) : Except Fatal (ℕ × Tracer) :=
  match t.pid2tcb pid with
  | some c =>
    if (t.tcbtab c).startup && (t.tcbtab c).attached && (t.tcbtab c).suspended then .ok (c, t)
    else .ok (c, t.say (.weird pid (t.tcbtab i).pid))
  | none => (t.forkTcb i).alloctcb pid

/-- The child was born suspended: it goes on now that its parent is known. -/
def resumeNewborn (t : Tracer) (a : Answers) (c : ℕ) (bpt : Bool) : Tracer :=
  let t := if bpt then t.clearbpt a c else t
  (t.modify c fun tcp => { tcp with suspended := false, startup := false }).request .syscall (t.tcbtab c).pid 0

/-- A new child of a thread belongs to the process of the thread, which is the second result. -/
def adoptByLeader (t : Tracer) (i c : ℕ) : ℕ × Tracer :=
  match groupLeader (t.tcbtab i) with
  | none => (i, t)
  | some p =>
    (p, ((t.modify i fun tcp => { tcp with nchildren := tcp.nchildren - 1 }).modify c
      fun tcp => { tcp with parent := some p }).modify p fun tcp => { tcp with nchildren := tcp.nchildren + 1 })

/-- A new child with `CLONE_PARENT` is a sibling. -/
def adoptByParent (t : Tracer) (i c : ℕ) : Tracer :=
  let grandparent := (t.tcbtab i).parent
  let t := (t.modify i fun tcp => { tcp with nchildren := tcp.nchildren - 1 }).modify c
    fun tcp => { tcp with parent := none }
  match grandparent with
  | none => t
  | some g =>
    (t.modify c fun tcp => { tcp with parent := some g }).modify g
      fun tcp => { tcp with nchildren := tcp.nchildren + 1 }

/-- The end of `handle_new_child` for `clone`. -/
def cloneChild (t : Tracer) (i c : ℕ) (callFlags : Word) : Tracer :=
  let (i, t) := t.adoptByLeader i c
  if callFlags.hasFlag cloneThreadFlag then
    (t.modify c fun tcp => { tcp with cloneThread := true }).modify i
      fun tcp => { tcp with ncloneThreads := tcp.ncloneThreads + 1 }
  else if callFlags.hasFlag cloneParentFlag then t.adoptByParent i c
  else t

/-- `handle_new_child` -/
def handleNewChild (t : Tracer) (a : Answers) (i : ℕ) (pid : ℤ) (bpt : Bool) : Except Fatal Tracer := do
  let (c, t) ← t.childTcb i pid
  let t ← t.adoptChild a i c bpt
  let newborn := (t.tcbtab c).suspended
  let t := if newborn then t.resumeNewborn a c bpt else t
  if newborn && a.ptrace .syscall (t.tcbtab c).pid == .failed then return t
  else if (t.tcbtab i).sysFunc = .clone then return t.cloneChild i c ((t.tcbtab i).uArg 0)
  else return t

/-- `setbpt`, which fails without an effect if the arguments cannot be written. -/
def setbpt (t : Tracer) (a : Answers) (i : ℕ) : Tracer :=
  let tcp := t.tcbtab i
  if tcp.bptSet || !a.poke tcp.pid then t
  else if tcp.sysFunc = .fork ∨ tcp.sysFunc = .vfork then
    t.modify i fun tcp =>
      { tcp with
        bptSet := true
        uArg := fun k => if k = 0 then clonePtraceSigchld else if k = 1 then 0 else tcp.uArg k }
  else if tcp.sysFunc = .clone then t.modify i fun tcp => { tcp with bptSet := true }
  else t

/-- `internal_fork` -/
def internalFork (t : Tracer) (cfg : TraceConfig) (a : Answers) (i : ℕ) : Except Fatal Tracer :=
  let tcp := t.tcbtab i
  if t.setOptions then .ok t
  else if !tcp.inSyscall then
    let t := t.modify i fun tcp => { tcp with followFork := false }
    if !cfg.followfork then .ok t
    else if tcp.sysFunc = .clone ∧ (tcp.uArg 0).hasFlag cloneUntracedFlag then .ok t
    else .ok ((t.forkTcb i).setbpt a i)
  else if !tcp.followFork then .ok t
  else if tcp.uError ≠ 0 then .ok (if tcp.bptSet then t.clearbpt a i else t)
  else t.handleNewChild a i tcp.uRval.toCInt tcp.bptSet

/-- `internal_exit` -/
def internalExit (t : Tracer) (i : ℕ) : Tracer :=
  if (t.tcbtab i).inSyscall then t
  else t.modify i fun tcp => { tcp with exiting := true, groupExiting := tcp.isExitGroup || tcp.groupExiting }

/-- The process whose children a process waits for. -/
def waiter (t : Tracer) (i : ℕ) : Except Fatal ℕ :=
  if (t.tcbtab i).cloneThread then
    match (t.tcbtab i).parent with
    | none => .error .segv
    | some p => .ok p
  else .ok i

/-- Whether the process at `i` must block at the entry of a wait for the children of the process at `w`, as far as
the process that it waits for tells. -/
def mustBlock (t : Tracer) (i w : ℕ) : Bool :=
  let target := (t.tcbtab i).uArg 0
  let child := t.pid2tcb target.toCInt
  if 0 < (t.tcbtab i).nzombies ∧ (target = -1 ∨ child = none) then false
  else if 0 < target.toInt then
    match child with
    | none => false
    | some c => (t.tcbtab c).parent == some w && !(t.tcbtab c).exiting
  else true

/-- A process is suspended at the entry of a wait. -/
def suspend (t : Tracer) (i : ℕ) : Tracer :=
  let t := t.modify i fun tcp => { tcp with suspended := true, waitpid := (tcp.uArg 0).toCInt }
  match groupLeader (t.tcbtab i) with
  | none => t
  | some p => t.modify p fun q => { q with ncloneWaiting := q.ncloneWaiting + 1 }

/-- `internal_wait`, where the options of the call are in the argument `flagarg`. The result that it forces on a
call that fails with `ECHILD` changes no field. -/
def internalWait (t : Tracer) (i flagarg : ℕ) : Except Fatal Tracer := do
  let w ← t.waiter i
  let tcp := t.tcbtab i
  let gotKids := decide ((t.tcbtab w).ncloneThreads < (t.tcbtab w).nchildren)
  if !tcp.inSyscall then
    if gotKids && !(tcp.uArg flagarg).hasFlag wnohang && t.mustBlock i w then return t.suspend i else return t
  -- a child that is not in the table any more has been reaped
  else if tcp.uError = 0 ∧ 0 < tcp.uRval.toInt ∧ 0 < tcp.nzombies ∧ t.pid2tcb tcp.uRval.toCInt = none then
    return t.modify i fun tcp => { tcp with nzombies := tcp.nzombies - 1 }
  else return t

/-- `internal_syscall` -/
def internalSyscall (t : Tracer) (cfg : TraceConfig) (a : Answers) (i : ℕ) : Except Fatal Tracer :=
  match (t.tcbtab i).sysFunc with
  | .exit => .ok (t.internalExit i)
  | .fork | .vfork | .clone => t.internalFork cfg a i
  | .wait4 => t.internalWait i 2
  | .waitid => t.internalWait i 3
  | .other => .ok t

/-- `trace_syscall_entering`, which returns whether it failed. If some registers cannot be read, it is up to the
kernel which fields have been set before. -/
def traceSyscallEntering (t : Tracer) (cfg : TraceConfig) (a : Answers) (i : ℕ) (trap : Trap) :
    Except Fatal (Bool × Tracer) :=
  let read := t.modify i fun tcp =>
    { tcp with sysFunc := trap.sysFunc, isExitGroup := trap.isExitGroup, uArg := trap.uArg }
  if !trap.available then .ok (true, read.modify i fun tcp => { tcp with inSyscall := true })
  -- a stray `SIGTRAP`, such as the one after an `execve`
  else if !trap.enosys then .ok (false, read)
  else do
    let t ← read.internalSyscall cfg a i
    return (trap.fails, t.modify i fun tcp =>
      { tcp with sigTrapped := trap.traps || tcp.sigTrapped, inSyscall := true })

/-- `trace_syscall_exiting`, which returns whether it failed. -/
def traceSyscallExiting (t : Tracer) (cfg : TraceConfig) (a : Answers) (i : ℕ) (trap : Trap) :
    Except Fatal (Bool × Tracer) :=
  let read := t.modify i fun tcp => { tcp with uError := trap.uError, uRval := trap.uRval }
  if !trap.available then .ok (true, read.modify i fun tcp => { tcp with inSyscall := false })
  else do
    let t ← read.internalSyscall cfg a i
    return (false, t.modify i fun tcp => { tcp with sigTrapped := trap.traps || tcp.sigTrapped, inSyscall := false })

/-- `trace_syscall` -/
def traceSyscall (t : Tracer) (cfg : TraceConfig) (a : Answers) (i : ℕ) (trap : Trap) :
    Except Fatal (Bool × Tracer) :=
  if (t.tcbtab i).inSyscall then t.traceSyscallExiting cfg a i trap else t.traceSyscallEntering cfg a i trap

/-- `handle_ptrace_event`, with `none` for 1. -/
def handlePtraceEvent (t : Tracer) (a : Answers) (i event : ℕ) : Except Fatal (Option Tracer) :=
  -- `PTRACE_EVENT_FORK`, `PTRACE_EVENT_VFORK` and `PTRACE_EVENT_CLONE` are 1, 2 and 3
  if !t.setOptions || event == 0 || decide (3 < event) then .ok none
  else match a.eventMsg with
    | .error .esrch => .ok (some t)
    | .error _ => .error (.exit (str "handle_ptrace_event: ptrace cannot get new child's pid\n"))
    | .ok pid => (t.handleNewChild a i pid false).map some

/-- The first `SIGSTOP` of a process. -/
def traceStartup (t : Tracer) (cfg : TraceConfig) (a : Answers) (i : ℕ) : Except Fatal (Option ℤ × Tracer) :=
  let tcp := t.tcbtab i
  let t := t.modify i fun tcp => { tcp with startup := false }
  if tcp.bptSet && !a.poke tcp.pid then ((t.droptcb i).cleanup a).map fun t => (some (-1), t)
  else
    let t := if tcp.bptSet then t.clearbpt a i else t
    let t := if cfg.followfork && tcp.parent.isNone && t.setOptions then
        { t.request .setOptions tcp.pid 0 with setOptions := a.ptrace .setOptions tcp.pid != .failed }
      else t
    t.restart a .syscall i 0

/-- A stop for another signal than `SIGTRAP`. -/
def traceSignal (t : Tracer) (a : Answers) (i sig : ℕ) : Except Fatal (Option ℤ × Tracer) :=
  let tcp := t.tcbtab i
  if sig = sigstop ∧ tcp.sigTrapped then
    (t.modify i fun tcp => { tcp with inSyscall := false, sigTrapped := false }).restart a .syscall i 0
  else if (tcp.attached ∨ 0 < tcp.ncloneThreads) ∧ !a.sigIsHandled then
    -- the loop goes on also if this fails
    (t.handleGroupExit a i (some sig)).map fun r => (none, r.2)
  -- `TCB_SUSPENDED`, which is cleared here, is not set
  else t.restart a .syscall i sig

/-- A stop for `SIGTRAP`, at the entry or the exit of a system call. -/
def traceTrap (t : Tracer) (cfg : TraceConfig) (r : Report) (i : ℕ) : Except Fatal (Option ℤ × Tracer) := do
  let (fails, t) ← t.traceSyscall cfg r.answers i r.trap
  let tcp := t.tcbtab i
  if fails && !r.answers.ptraceErrno then
    if tcp.attached then (t.detach r.answers i 0).map fun t => (none, t)
    else return (none, (t.request .kill tcp.pid 15).droptcb i)
  else if tcp.exiting then
    if tcp.groupExiting then t.handleGroupExit r.answers i (some 0)
    else if tcp.attached then (t.detach r.answers i 0).map fun t => (none, t)
    else t.restart r.answers .cont i 0
  else if tcp.suspended then return (none, t)
  else t.restart r.answers .syscall i 0

/-- A process has stopped. -/
def traceStopped (t : Tracer) (cfg : TraceConfig) (r : Report) (i sig event : ℕ) :
    Except Fatal (Option ℤ × Tracer) := do
  match ← t.handlePtraceEvent r.answers i event with
  | some t => t.restart r.answers .syscall i 0
  | none =>
    if (t.tcbtab i).startup ∧ (sig = sigstop ∨ cfg.straceVforked) then t.traceStartup cfg r.answers i
    else if sig ≠ sigtrap then t.traceSignal r.answers i sig
    else t.traceTrap cfg r i

/-- A report of a process in the table. -/
def traceTcb (t : Tracer) (cfg : TraceConfig) (r : Report) (i : ℕ) : Except Fatal (Option ℤ × Tracer) :=
  let ended := fun code => if r.pid = cfg.straceChild then { t with exitCode := code } else t
  if (t.tcbtab i).suspended then .ok (none, t)
  else match r.status with
    | .signaled sig => (ended (0x100 ||| sig)).handleGroupExit r.answers i none
    | .exited code => (ended code).handleGroupExit r.answers i none
    | .other => .ok (none, t.droptcb i)
    | .stopped sig event => t.traceStopped cfg r i sig event

/-- One pass of the loop of `trace` for a report. The number is what `trace` returns, if it does. -/
def traceReport (t : Tracer) (cfg : TraceConfig) (r : Report) : Except Fatal (Option ℤ × Tracer) :=
  let t := t.say (.report r.pid r.status)
  match t.pid2tcb r.pid with
  | some i => t.traceTcb cfg r i
  | none =>
    if !cfg.followfork then .error (.exit (str "unknown pid: " ++ decimal r.pid.toNat ++ str "\n"))
    else do
      -- the child's first stop comes before the report of its parent: it stays suspended until then
      let (i, t) ← t.alloctcb r.pid
      return (none, t.modify i fun tcp => { tcp with attached := true, suspended := true })

/-- One pass of the loop of `trace`. -/
def traceStep (t : Tracer) (cfg : TraceConfig) : WaitResult → Except Fatal (Option ℤ × Tracer)
  | .eintr => .ok (none, t)
  | .echild => .ok (some 0, t)
  | .failed => .ok (some (-1), t)
  | .report r => t.traceReport cfg r

/-- `trace`, for as many results of `wait4` as there have been. -/
def trace (cfg : TraceConfig) : List WaitResult → Tracer → Except Fatal (Option ℤ × Tracer)
  | [], t => .ok (none, t)
  | w :: ws, t =>
    if t.nprocs = 0 then .ok (some 0, t)
    else do
      match ← t.traceStep cfg w with
      | (some code, t) => return (some code, t)
      | (none, t) => trace cfg ws t

/-- Whether a process has stopped and has not been told to go on since. -/
def stoppedIn : List TraceEvent → ℤ → Bool
  | [], _ => false
  | .report q status :: log, pid => if q = pid then status.isStop else stoppedIn log pid
  | .request op q _ :: log, pid => if q = pid ∧ op ≠ .setOptions then false else stoppedIn log pid
  | .weird _ _ :: log, pid => stoppedIn log pid

/-- The tracer when `trace` is called: `startup_child` has entered the program that is to be traced, in a table of
`argc` entries. -/
def startupChild (cfg : TraceConfig) (argc : ℕ) (setOptions : Bool) : Except Fatal Tracer := do
  let (i, t) ← alloctcb { tcbtabsize := argc, setOptions } cfg.straceChild
  return t.modify i fun tcp => { tcp with currentDir := true, attached := true, startup := true }

end Tracer

end Ptu
