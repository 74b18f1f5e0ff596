import Ptu.Spec.Regs

/-!
# Redirected arguments

`begin_setup_shmat` and `finish_setup_shmat`, which attach the shared memory segment to the
traced process, and the four functions that put a redirected path there and point the
argument registers to it. The segment is mapped in the tracer (`localshm`) and in the
process (`childshm`), so what the tracer copies into it stands in the memory of the process.
-/

namespace Ptu

open Memory

/-- `find_free_addr(pid, PROT_READ|PROT_WRITE, size)`: the first private anonymous region that
can be read and written, NULL if there is none. -/
def findFreeAddr (maps : List Region) (size : ℕ) : Word :=
  match maps.find? fun m => decide (size ≤ (m.cend - m.cstart).toNat) && (m.major == 0 && m.minor == 0) &&
      m.p && m.r && m.w with
  | some m => m.cstart
  | none => 0

/-- The registers with which the `shmat` is issued in place of the system call. -/
def shmatRegs (p : Personality) (regs : Regs) (shmid savedAddr : Word) : Regs :=
  match p with
  | .emu32 =>
    -- `__NR_ipc` with `SHMAT`; the address is written to `savedAddr`
    ((((((regs.set .origRax 117).set .rbx 21).set .rcx shmid).set .rdx 0).set .rsi savedAddr).set
      .rdi 0).set .rbp 0
  | .native =>
    -- `__NR_shmat`
    (((regs.set .origRax 30).set .rdi shmid).set .rsi 0).set .rdx 0

/-- `begin_setup_shmat` -/
def beginSetupShmat (p : Personality) (tcp : ShmTcb) (child : Child) : Except Fatal (ShmTcb × Child) := do
  if !tcp.localshm then throw .assertion
  if tcp.childshm ≠ 0 then throw .assertion
  let tcp := { tcp with savedRegs := child.regs }
  let tcp ← match p with
    | .native => pure tcp
    | .emu32 =>
      let savedAddr := findFreeAddr child.maps 4
      match child.mem.load savedAddr 8 with
      | none => throw exitIf
      | some savedWord => pure { tcp with savedAddr, savedWord }
  return ({ tcp with settingUpShm := true },
    { child with regs := shmatRegs p child.regs tcp.shmid tcp.savedAddr })

/-- `finish_setup_shmat` -/
def finishSetupShmat (p : Personality) (tcp : ShmTcb) (child : Child) : Except Fatal (ShmTcb × Child) := do
  let (childshm, mem) ← match p with
    | .emu32 =>
      if child.regs .origRax ≠ 117 then throw .assertion
      if child.regs .rax ≠ 0 then throw .assertion
      match child.mem.load tcp.savedAddr 8 with
      | none => throw exitIf
      | some word =>
        -- only the 32 least significant bits are an address
        pure (BitVec.ofNat 64 (littleEndian word) &&& 0xffffffff, child.mem.store tcp.savedAddr tcp.savedWord)
    | .native =>
      if child.regs .origRax ≠ 30 then throw .assertion
      pure (child.regs .rax, child.mem)
  -- back up the instruction pointer so that the system call is executed again
  let savedRegs := (tcp.savedRegs.set .rax (tcp.savedRegs .origRax)).set .rip (tcp.savedRegs .rip - 2)
  if childshm = 0 then throw .assertion
  return ({ tcp with childshm, savedRegs, settingUpShm := false }, { child with regs := savedRegs, mem })

/-! ## The functions `modify_syscall_…` -/

/-- `strcpy(localshm + offset, s)`. Beyond the end of the segment the tracer overwrites memory
of its own. -/
def strcpyShm (tcp : ShmTcb) (offset : ℕ) (s : CString) (child : Child) : Except Fatal Child :=
  if sharedPageSize < offset + s.length + 1 then .error .segv
  else .ok { child with mem := child.mem.store (tcp.childshm + BitVec.ofNat 64 offset) (s ++ [0]) }

/-- The argument numbers of two paths, and the registers the source assigns for them. -/
structure ArgPair where
  arg1 : Fin 6
  arg2 : Fin 6
  reg1 : Personality → Reg
  reg2 : Personality → Reg

/-- Copy the redirected paths into the segment and set the registers. -/
def storePair (p : Personality) (a : ArgPair) (tcp : ShmTcb) (redirected1 redirected2 : Option CString)
    (child : Child) : Except Fatal Child :=
  match redirected1, redirected2 with
  | some s1, some s2 => do
    let child ← strcpyShm tcp 0 s1 child
    let child ← strcpyShm tcp (s1.length + 1) s2 child
    let file2 := tcp.childshm + BitVec.ofNat 64 (s1.length + 1)
    return { child with regs := (child.regs.set (a.reg1 p) tcp.childshm).set (a.reg2 p) file2 }
  | some s1, none => do
    let child ← strcpyShm tcp 0 s1 child
    return { child with regs := child.regs.set (a.reg1 p) tcp.childshm }
  | none, some s2 => do
    let child ← strcpyShm tcp 0 s2 child
    return { child with regs := child.regs.set (a.reg2 p) tcp.childshm }
  | none, none => .ok child

/-- The text that `strcpy_from_child` copies from an address, `none` when it aborts. -/
abbrev StrcpyFromChild := Mem → Word → Option CString

/-- The text at an address, if it is shorter than `n`. -/
def readString : ℕ → StrcpyFromChild
  | 0, _, _ => none
  | n + 1, mem, a => do
    let b ← mem a
    if b = 0 then return [] else return b :: (← readString n mem (a + 1))

/-- What the two paths are redirected to. -/
def redirectPair (g : Cde) (strcpyFromChild : StrcpyFromChild) (a : ArgPair) (tcp : ShmTcb)
    (child : Child) (e : Effects) : Except Fatal (Option CString × Option CString × Effects) := do
  let some filename1 := strcpyFromChild child.mem (tcp.uArg a.arg1) | throw exitIf
  let (redirected1, e) ← redirectFilenameIntoCderoot g filename1 tcp.currentDir tcp.pIgnores e
  let some filename2 := strcpyFromChild child.mem (tcp.uArg a.arg2) | throw exitIf
  let (redirected2, e) ← redirectFilenameIntoCderoot g filename2 tcp.currentDir tcp.pIgnores e
  return (redirected1, redirected2, e)

/-- The common body of the functions for two paths. -/
def modifySyscallPair (a : ArgPair) (g : Cde) (strcpyFromChild : StrcpyFromChild) (p : Personality)
    (tcp : ShmTcb) (child : Child) (e : Effects) : Except Fatal (ShmTcb × Child × Effects) := do
  if !g.execMode then throw .assertion
  if tcp.childshm = 0 then
    let (tcp, child) ← beginSetupShmat p tcp child
    return (tcp, child, e)
  let (redirected1, redirected2, e) ← redirectPair g strcpyFromChild a tcp child e
  let child ← storePair p a tcp redirected1 redirected2 child
  return (tcp, child, e)

def twoArgs : ArgPair where
  arg1 := 0
  arg2 := 1
  reg1 | .emu32 => .rbx | .native => .rdi
  reg2 | .emu32 => .rcx | .native => .rsi

def secondAndFourthArgs : ArgPair where
  arg1 := 1
  arg2 := 3
  reg1 | .emu32 => .rcx | .native => .rsi
  reg2 | .emu32 => .rsi | .native => .rcx

def firstAndThirdArgs : ArgPair where
  arg1 := 0
  arg2 := 2
  reg1 | .emu32 => .rbx | .native => .rdi
  reg2 | .emu32 => .rdx | .native => .rdx

/-- The arguments of `execve`: the file and the argument vector. -/
abbrev fileArg : Fin 6 := 0

abbrev argvArg : Fin 6 := 1

/-- `modify_syscall_two_args` -/
def modifySyscallTwoArgs := modifySyscallPair twoArgs

/-- `modify_syscall_second_and_fourth_args` -/
def modifySyscallSecondAndFourthArgs := modifySyscallPair secondAndFourthArgs

/-- `modify_syscall_first_and_third_args` -/
def modifySyscallFirstAndThirdArgs := modifySyscallPair firstAndThirdArgs

/-- `modify_syscall_single_arg` -/
def modifySyscallSingleArg (g : Cde) (p : Personality) (tcp : ShmTcb) (argNum : ℕ) (filename : CString)
    (child : Child) (e : Effects) : Except Fatal (ShmTcb × Child × Effects) := do
  if !g.execMode then throw .assertion
  let (redirected, e) ← redirectFilenameIntoCderoot g filename tcp.currentDir tcp.pIgnores e
  let some redirected := redirected | return (tcp, child, e)
  if tcp.childshm = 0 then
    let (tcp, child) ← beginSetupShmat p tcp child
    return (tcp, child, e)
  let child ← strcpyShm tcp 0 redirected child
  if argNum = 1 then
    let reg : Reg := match p with | .emu32 => .rbx | .native => .rdi
    return (tcp, { child with regs := child.regs.set reg tcp.childshm }, e)
  else
    if argNum ≠ 2 then throw .assertion
    let reg : Reg := match p with | .emu32 => .rcx | .native => .rsi
    return (tcp, { child with regs := child.regs.set reg tcp.childshm }, e)

end Ptu
