import Ptu.Lib.Memory
import Ptu.Spec.Redirect

/-!
# Registers and memory of a traced process

`struct user_regs_struct` of x86-64, the two personalities, the table `argreg` of
`syscall_enter`, and the fields of `struct tcb` around the shared memory segment. A
process on a 64-bit host runs either natively or in 32-bit emulation
(`current_personality == 1`).
-/

namespace Ptu

open Memory

abbrev Word := BitVec 64

/-- The registers of `struct user_regs_struct`. -/
inductive Reg where
  | r15 | r14 | r13 | r12 | rbp | rbx | r11 | r10 | r9 | r8 | rax | rcx | rdx | rsi | rdi | origRax
  | rip | cs | eflags | rsp | ss | fsBase | gsBase | ds | es | fs | gs
  deriving DecidableEq, Repr

abbrev Regs := Reg → Word

def Regs.set (regs : Regs) (r : Reg) (v : Word) : Regs := fun r' => if r' = r then v else regs r'

theorem Regs.set_self (regs : Regs) (r : Reg) (v : Word) : regs.set r v r = v := if_pos rfl

theorem Regs.set_of_ne (regs : Regs) {r r' : Reg} (v : Word) (h : r' ≠ r) : regs.set r v r' = regs r' :=
  if_neg h

/-- `current_personality` -/
inductive Personality where
  | native
  | emu32
  deriving DecidableEq, Repr

/-- `argreg`: the register that holds an argument of a system call. -/
def argreg : Personality → Fin 6 → Reg
  | .native, 0 => .rdi
  | .native, 1 => .rsi
  | .native, 2 => .rdx
  | .native, 3 => .r10
  | .native, 4 => .r8
  | .native, 5 => .r9
  | .emu32, 0 => .rbx
  | .emu32, 1 => .rcx
  | .emu32, 2 => .rdx
  | .emu32, 3 => .rsi
  | .emu32, 4 => .rdi
  | .emu32, 5 => .rbp

/-- A line of `/proc/<pid>/maps`. -/
structure Region where
  cstart : Word
  cend : Word
  r : Bool
  w : Bool
  x : Bool
  p : Bool
  major : ℕ := 0
  minor : ℕ := 0
  deriving DecidableEq, Repr

/-- The traced process: its registers, its memory and the map of its memory. -/
structure Child where
  regs : Regs
  mem : Mem
  maps : List Region := []

/-- The fields of `struct tcb` for redirected arguments; NULL is 0. -/
structure ShmTcb where
  uArg : Fin 6 → Word
  currentDir : CString := []
  pIgnores : Option ProcessIgnore := none
  localshm : Bool := true
  childshm : Word := 0
  shmid : Word := 0
  settingUpShm : Bool := false
  savedRegs : Regs := fun _ => 0
  savedAddr : Word := 0
  savedWord : List Byte := []

/-- `shared_page_size` -/
def sharedPageSize : ℕ := 4 * 4096

/-- `EXITIF(x)`, for a condition that holds. -/
abbrev exitIf : Fatal := .exit []

end Ptu
