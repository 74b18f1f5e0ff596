import Ptu.Spec.Shm

/-!
# The argument vector that starts a program with its linker

In exec mode `CDE_begin_execve` lays out a new argument vector in the shared segment: first
the strings that are new, one behind the other, then the array of pointers. A pointer is
stored with the eight bytes of a `char**` also for a 32-bit process, whose words are four
bytes apart, so that each store overwrites half of the one before.
-/

namespace Ptu

open Memory

/-- `personality_wordsize` -/
def wordsize : Personality → ℕ
  | .native => 8
  | .emu32 => 4

/-- Write into the segment. -/
def pokeShm (tcp : ShmTcb) (offset : ℕ) (bytes : List Byte) (child : Child) : Except Fatal Child :=
  if sharedPageSize < offset + bytes.length then .error .segv
  else .ok { child with mem := child.mem.store (tcp.childshm + BitVec.ofNat 64 offset) bytes }

/-- `*(char**)(new_argv_raw + k * wordsize) = v` -/
def pokeWord (p : Personality) (tcp : ShmTcb) (newArgvRaw k : ℕ) (v : Word) (child : Child) :
    Except Fatal Child :=
  pokeShm tcp (newArgvRaw + k * wordsize p) (bytesLE 8 v.toNat) child

/-- The same for the words from index `k` on. -/
def pokeWords (p : Personality) (tcp : ShmTcb) (newArgvRaw : ℕ) : ℕ → List Word → Child → Except Fatal Child
  | _, [], child => .ok child
  | k, v :: vs, child => do
    let child ← pokeWord p tcp newArgvRaw k v child
    pokeWords p tcp newArgvRaw (k + 1) vs child

/-- The loop that copies `argv[i]`, `argv[i + 1]`, … of the process behind `newArgv[first]`, up to
and with the NULL. Each round writes a word, so it ends in any case: by the NULL, at memory that
is not mapped, or at the end of the segment. -/
def copyArgv (p : Personality) (tcp : ShmTcb) (newArgvRaw first : ℕ) : ℕ → ℕ → Child → Except Fatal Child
  | 0, _, _ => .error .segv
  | n + 1, i, child => do
    let some word := child.mem.load (tcp.uArg argvArg + BitVec.ofNat 64 (i * wordsize p)) (wordsize p)
      | throw exitIf
    let curArg := BitVec.ofNat 64 (littleEndian word)
    let child ← pokeWord p tcp newArgvRaw (i + first) curArg child
    if curArg = 0 then return child
    copyArgv p tcp newArgvRaw first n (i + 1) child

/-- Copy the strings one behind the other from `curLoc` on, and keep where each one starts.
`script_command_token_starts` has room for 200. -/
def layTokens (tcp : ShmTcb) : List CString → ℕ → List ℕ → Child → Except Fatal (ℕ × List ℕ × Child)
  | [], curLoc, starts, child => .ok (curLoc, starts, child)
  | token :: tokens, curLoc, starts, child => do
    let child ← pokeShm tcp curLoc (token ++ [0]) child
    if 200 ≤ starts.length then throw .segv
    layTokens tcp tokens (curLoc + token.length + 1) (starts ++ [curLoc]) child

/-- The address in the process of what is at `offset`. -/
def ShmTcb.inChild (tcp : ShmTcb) (offset : ℕ) : Word := tcp.childshm + BitVec.ofNat 64 offset

/-- Set the file and the argument vector of `execve`. -/
def setExecve (p : Personality) (tcp : ShmTcb) (newArgvRaw : ℕ) (child : Child) : Child :=
  match p with
  | .emu32 => { child with regs := (child.regs.set .rbx tcp.childshm).set .rcx (tcp.inChild newArgvRaw) }
  | .native => { child with regs := (child.regs.set .rdi tcp.childshm).set .rsi (tcp.inChild newArgvRaw) }

/-- A script: the linker, if the one of the package is used, the tokens of the script command,
the script and its arguments. -/
def scriptArgv (p : Personality) (tcp : ShmTcb) (useLinkerFromPackage : Bool) (ldLinuxFullpath : CString)
    (tokens : List CString) (child : Child) : Except Fatal Child := do
  let (child, ldLinuxOffset) ←
    if useLinkerFromPackage then do
      let child ← pokeShm tcp 0 (ldLinuxFullpath ++ [0]) child
      pure (child, ldLinuxFullpath.length + 1)
    else pure (child, 0)
  let (newArgvRaw, starts, child) ← layTokens tcp tokens ldLinuxOffset [] child
  -- without the linker this is the first token, which is at the start of the segment
  let child ← pokeWord p tcp newArgvRaw 0 tcp.childshm child
  let first := if useLinkerFromPackage then 1 else 0
  let child ← pokeWords p tcp newArgvRaw first (starts.map tcp.inChild) child
  let firstNontokenIndex := starts.length + first
  let child ← pokeWord p tcp newArgvRaw firstNontokenIndex (tcp.uArg fileArg) child
  let child ← copyArgv p tcp newArgvRaw firstNontokenIndex sharedPageSize 1 child
  return setExecve p tcp newArgvRaw child

/-- A dynamically linked program: the linker, the program and its arguments. -/
def elfArgv (p : Personality) (tcp : ShmTcb) (ldLinuxFullpath perceivedProgramFullpath : CString)
    (child : Child) : Except Fatal (ℕ × Child) := do
  let child ← pokeShm tcp 0 (ldLinuxFullpath ++ [0]) child
  let offset1 := ldLinuxFullpath.length + 1
  let child ← pokeShm tcp offset1 (perceivedProgramFullpath ++ [0]) child
  let newArgvRaw := offset1 + (perceivedProgramFullpath.length + 1)
  let child ← pokeWord p tcp newArgvRaw 0 tcp.childshm child
  let child ← pokeWord p tcp newArgvRaw 1 (tcp.inChild offset1) child
  let child ← copyArgv p tcp newArgvRaw 1 sharedPageSize 1 child
  return (newArgvRaw, child)

end Ptu
