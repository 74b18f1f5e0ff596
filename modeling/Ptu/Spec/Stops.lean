import Ptu.Spec.Shm

/-!
# System call stops

`trace_syscall` at the two stops of a system call on x86-64, for traced processes that stop one
after the other, and what the kernel does at an entry stop and for the `shmat` that
`begin_setup_shmat` puts in place of the call. The tables that `set_personality` selects are a
parameter, with the function `sys_func` of each system call in them. The global variable
`current_personality` is shared by all processes and set at entry stops only. The subcalls of
`socketcall` and `ipc` are not decoded and `internal_syscall`, which acts on calls that end, start
or wait for a process, is left out: the segment is attached for none of these. (With the table of
the other personality it may take a call for one of them, but it leaves the registers and
`setting_up_shm` alone.)
-/

namespace Ptu

open Memory

/-- What the tracer keeps about a process from one of its stops to the next. -/
structure Traced where
  tcp : ShmTcb
  child : Child
  /-- `TCB_INSYSCALL` -/
  inSyscall : Bool := false
  scno : Word := 0
  uNargs : ℕ := 0
  uError : Word := 0
  uRval : Word := 0

/-- A process at a stop. `rest` is what the functions of the table keep besides. -/
structure Stop (σ : Type) extends Traced where
  rest : σ

/-- What `set_personality` selects. -/
structure SysTable (σ : Type) where
  nsyscalls : ℕ
  nerrnos : ℕ
  /-- `nargs`, `none` for -1 -/
  nargs : ℕ → Option ℕ
  /-- `SYSCALL_NEVER_FAILS` -/
  neverFails : ℕ → Bool
  /-- `QUAL_TRACE` -/
  trace : ℕ → Bool
  /-- `QUAL_RAW` -/
  raw : ℕ → Bool
  /-- `sys_func == sys_exit` -/
  isSysExit : ℕ → Bool
  /-- `sys_func`, which tells the two stops apart by `TCB_INSYSCALL` -/
  sysFunc : ℕ → Stop σ → Except Fatal (Stop σ)

/-- `scno >= 0 && scno < nsyscalls` -/
def SysTable.inRange {σ : Type} (t : SysTable σ) (scno : Word) : Bool := decide (scno.toNat < t.nsyscalls)

/-- `-ENOSYS` -/
def enosys : Word := -38

section

variable {σ : Type}

/-- The personality that the code segment register tells. -/
def csPersonality (cs : Word) : Option Personality :=
  if cs = 0x23 then some .emu32 else if cs = 0x33 then some .native else none

/-- The number that `get_scno` reads. -/
def getScno (st : Stop σ) : Stop σ :=
  if st.inSyscall then st else { st with scno := st.child.regs .origRax }

/-- The personality that `get_scno` sets. At an exit stop `current_personality` stays as it is. -/
def detectPersonality (current : Personality) (st : Stop σ) : Personality :=
  if st.inSyscall then current else (csPersonality (st.child.regs .cs)).getD current

/-- The variable `rax` of `syscall_fixup`. -/
def fixedRax (p : Personality) (regs : Regs) : Word :=
  match p with
  | .emu32 => ((regs .rax).setWidth 32).signExtend 64
  | .native => regs .rax

/-- `syscall_fixup`, false for a stray exit. -/
def syscallFixup (p : Personality) (st : Stop σ) : Bool :=
  fixedRax p st.child.regs == enosys || st.inSyscall

/-- `is_negated_errno` -/
def isNegatedErrno (p : Personality) (nerrnos : ℕ) (val : Word) : Bool :=
  match p with
  | .emu32 => decide ((2 ^ 64 - nerrnos) % 2 ^ 32 < val.toNat % 2 ^ 32)
  | .native => decide (2 ^ 64 - nerrnos < val.toNat)

/-- `get_error` -/
def getError (p : Personality) (t : SysTable σ) (st : Stop σ) : Stop σ :=
  let rax := fixedRax p st.child.regs
  let checkErrno := !(t.inRange st.scno && t.neverFails st.scno.toNat)
  if checkErrno && isNegatedErrno p t.nerrnos rax then
    { st with uRval := -1, uError := -rax }
  else { st with uRval := rax, uError := 0 }

/-- `syscall_enter` -/
def syscallEnter (p : Personality) (t : SysTable σ) (st : Stop σ) : Stop σ :=
  let uNargs := if t.inRange st.scno then (t.nargs st.scno.toNat).getD 6 else 6
  { st with
    uNargs
    tcp := { st.tcp with
      uArg := fun i => if i.val < uNargs then st.child.regs (argreg p i) else st.tcp.uArg i } }

/-- `trace_syscall_entering` -/
def traceSyscallEntering (p : Personality) (t : SysTable σ) (st : Stop σ) : Except Fatal (Stop σ) := do
  let st := getScno st
  if !syscallFixup p st then return st
  let st := syscallEnter p t st
  if t.inRange st.scno && !t.trace st.scno.toNat then return { st with inSyscall := true }
  let st ← if !t.inRange st.scno || t.raw st.scno.toNat && !t.isSysExit st.scno.toNat then pure st
    else t.sysFunc st.scno.toNat st
  return { st with inSyscall := true }

/-- `trace_syscall_exiting` -/
def traceSyscallExiting (p : Personality) (t : SysTable σ) (st : Stop σ) : Except Fatal (Stop σ) := do
  let st := getScno st
  let st := getError p t st
  if t.inRange st.scno && !t.trace st.scno.toNat then return { st with inSyscall := false }
  let st ← if st.tcp.settingUpShm then do
      -- finish setting up shared memory and re-execute the original instruction
      let (tcp, child) ← finishSetupShmat p st.tcp st.child
      pure { st with tcp, child }
    -- `SYS_exit` is 60
    else if !t.inRange st.scno || t.raw st.scno.toNat && st.scno != 60 then pure st
    else t.sysFunc st.scno.toNat st
  return { st with inSyscall := false }

/-- `trace_syscall`, once the personality is known. -/
def traceSyscall (p : Personality) (t : SysTable σ) (st : Stop σ) : Except Fatal (Stop σ) :=
  if st.inSyscall then traceSyscallExiting p t st else traceSyscallEntering p t st

/-! ## All processes -/

/-- The traced processes by their pids, and what they share. -/
structure Tracees (σ : Type) where
  traced : ℕ → Traced
  /-- `current_personality` -/
  current : Personality := .native
  rest : σ

/-- A system call stop of the process `pid`, which has these registers and this memory then. -/
structure Stopped where
  pid : ℕ
  child : Child

/-- What the tracer has at a stop. -/
def Tracees.stop (ts : Tracees σ) (ev : Stopped) : Stop σ :=
  { ts.traced ev.pid with child := ev.child, rest := ts.rest }

/-- The tracer gets a stop. -/
def Tracees.step (table : Personality → SysTable σ) (ts : Tracees σ) (ev : Stopped) : Except Fatal (Tracees σ) := do
  let p := detectPersonality ts.current (ts.stop ev)
  let st ← traceSyscall p (table p) (ts.stop ev)
  return { traced := Function.update ts.traced ev.pid st.toTraced, current := p, rest := st.rest }

def Tracees.run (table : Personality → SysTable σ) (ts : Tracees σ) (evs : List Stopped) : Except Fatal (Tracees σ) :=
  evs.foldlM (Tracees.step table) ts

end

/-! ## The kernel -/

/-- The registers at the entry stop of the system call whose instruction, of two bytes, is at
`rip`. -/
def sysEnter (p : Personality) (regs : Regs) : Regs :=
  match p with
  | .native =>
    -- `syscall` leaves the return address in `rcx` and the flags in `r11`
    ((((regs.set .origRax (regs .rax)).set .rcx (regs .rip + 2)).set .r11 (regs .eflags)).set
      .rip (regs .rip + 2)).set .rax enosys
  | .emu32 =>
    ((regs.set .origRax (regs .rax &&& 0xffffffff)).set .rip (regs .rip + 2)).set .rax enosys

/-- The kernel has attached the segment at `a`, from the entry stop in `child` to the exit stop
in `child'`: what was mapped stays, except for the address that a 32-bit process gets in memory.
Nothing is said about the other registers. -/
structure ShmatDone (p : Personality) (child child' : Child) (a : Word) : Prop where
  attached : a ≠ 0
  number : child'.regs .origRax = child.regs .origRax
  mem : ∀ x, child.mem x ≠ none → (p = .emu32 → 4 ≤ (x - child.regs .rsi).toNat) → child'.mem x = child.mem x
  native : p = .native → child'.regs .rax = a
  emu32 : p = .emu32 → child'.regs .rax = 0 ∧
    ∃ bs : List Byte, bs.length = 4 ∧ littleEndian bs = a.toNat ∧ Holds child'.mem (child.regs .rsi) bs

/-- The kernel has not attached the segment: the call returns the negated `errno`, and what was
mapped stays. -/
structure ShmatFailed (p : Personality) (child child' : Child) (errno : ℕ) : Prop where
  range : 0 < errno ∧ errno < 4096
  number : child'.regs .origRax = child.regs .origRax
  mem : ∀ x, child.mem x ≠ none → child'.mem x = child.mem x
  native : p = .native → child'.regs .rax = -BitVec.ofNat 64 errno
  emu32 : p = .emu32 → (child'.regs .rax).setWidth 32 = -BitVec.ofNat 32 errno

/-- What a `shmat` can return. -/
inductive ShmatResult
  | attached (a : Word)
  | failed (errno : ℕ)
  deriving DecidableEq, Repr

def ShmatReturned (p : Personality) (child child' : Child) : ShmatResult → Prop
  | .attached a => ShmatDone p child child' a
  | .failed errno => ShmatFailed p child child' errno

end Ptu
