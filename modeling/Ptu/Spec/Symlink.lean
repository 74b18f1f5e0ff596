import Ptu.Spec.ProvLog
import Ptu.Spec.Shm

/-!
# Symbolic links of a traced process

`CDE_begin_file_symlink` and `CDE_begin_file_symlinkat`, `CDE_begin_standard_fileop` as
`sys_readlink` calls it, and `CDE_end_readlink_internal` with `memcpy_to_child`. A program
makes a link and reads it (`symlinkReadlink`); in between the kernel stores the first
argument of `symlink` as it finds it in the memory of the process, and `readlink` returns it.
-/

namespace Ptu

open Memory

/-- A process at a stop: what the handlers of links read and change. -/
structure LinkStop where
  tcp : ShmTcb
  child : Child
  effects : Effects := {}
  /-- `tcp->u_rval` -/
  uRval : ℤ := 0
  /-- the calls `symlink(oldname, newname_redirected)` of the tracer, NULL for `none` -/
  made : List (CString × Option CString) := []

/-- What else the handlers see. -/
structure LinkEnv where
  cde : Cde
  personality : Personality
  strcpyFromChild : StrcpyFromChild
  pid : ℕ
  /-- `tcp->perceived_program_fullpath` -/
  perceivedProgramFullpath : Option CString
  /-- `lstat(path) == 0` -/
  lstat : CString → Bool
  /-- the bytes of the tracer's memory behind a string that it copies -/
  beyond : List Byte

/-- `AT_FDCWD` as an argument. -/
def atFdcwdArg : Word := -100

/-! ## Making a link -/

/-- The `symlink` of the tracer in the package. -/
def symlinkInPackage (env : LinkEnv) (a : ArgPair) (st : LinkStop) : Except Fatal LinkStop := do
  let some oldname := env.strcpyFromChild st.child.mem (st.tcp.uArg a.arg1) | throw exitIf
  let some newname := env.strcpyFromChild st.child.mem (st.tcp.uArg a.arg2) | throw exitIf
  let (redirected, effects) ←
    redirectFilenameIntoCderoot env.cde newname st.tcp.currentDir st.tcp.pIgnores st.effects
  return { st with effects, made := st.made ++ [(oldname, redirected)] }

/-- `CDE_begin_file_symlink` -/
def beginFileSymlink (env : LinkEnv) (st : LinkStop) : Except Fatal LinkStop := do
  if env.cde.execMode then
    let (tcp, child, effects) ← modifySyscallTwoArgs env.cde env.strcpyFromChild env.personality
      st.tcp st.child st.effects
    return { st with tcp, child, effects }
  else symlinkInPackage env twoArgs st

/-- `CDE_begin_file_symlinkat` -/
def beginFileSymlinkat (env : LinkEnv) (st : LinkStop) : Except Fatal LinkStop := do
  let some newpath := env.strcpyFromChild st.child.mem (st.tcp.uArg firstAndThirdArgs.arg2)
    | throw exitIf
  -- punt early, with a warning
  if !isAbspath newpath && st.tcp.uArg argvArg != atFdcwdArg then return st
  if env.cde.execMode then
    let (tcp, child, effects) ← modifySyscallFirstAndThirdArgs env.cde env.strcpyFromChild
      env.personality st.tcp st.child st.effects
    return { st with tcp, child, effects }
  else symlinkInPackage env firstAndThirdArgs st

/-! ## Reading a link -/

/-- `CDE_begin_standard_fileop` -/
def beginReadlink (env : LinkEnv) (st : LinkStop) : Except Fatal LinkStop := do
  let some filename := env.strcpyFromChild st.child.mem (st.tcp.uArg fileArg) | return st
  if filename = [] then return st
  if env.cde.execMode then
    let (tcp, child, effects) ← modifySyscallSingleArg env.cde env.personality st.tcp 1 filename
      st.child st.effects
    return { st with tcp, child, effects }
  else
    let effects ← copyFileIntoCdeRoot env.cde filename st.tcp.currentDir st.effects
    return { st with effects }

/-- `ptrace(PTRACE_POKEDATA, pid, a, word)`. All eight bytes must be mapped. -/
def pokeData (mem : Mem) (a : Word) (word : List Byte) : Except Fatal Mem :=
  if (mem.load a 8).isSome then .ok (mem.store a word) else .error exitIf

/-- `memcpy_to_child`: words of eight bytes are written in steps of four, and the last bytes are merged into
a word. It exits at a word that is not mapped. `beyond` is what follows the source in the memory of the
tracer. -/
def memcpyToChildOrExit (beyond : List Byte) : Mem → Word → List Byte → Except Fatal Mem
  | mem, dst, a :: b :: c :: d :: src => do
    let mem ← pokeData mem dst (a :: b :: c :: d :: (src ++ beyond).take 4)
    memcpyToChildOrExit beyond mem (dst + 4) src
  | mem, _, [] => .ok mem
  -- clean up the last little bit
  | mem, dst, src => do
    let some dw := mem.load dst 8 | throw exitIf
    pokeData mem dst (src ++ dw.drop src.length)

/-- The text that `readlink` has returned in the buffer `output`. -/
def LinkStop.returned (st : LinkStop) (output : Fin 6) : Option CString :=
  st.child.mem.load (st.tcp.uArg output) (st.child.regs .rax).toNat

/-- Clobber what `readlink` returns with `text`, and its length. -/
def fakeResult (env : LinkEnv) (output : Fin 6) (text : CString) (st : LinkStop) : Except Fatal LinkStop := do
  let mem ← memcpyToChildOrExit env.beyond st.child.mem (st.tcp.uArg output) (text ++ [0])
  return { st with child := { mem, regs := st.child.regs.set .rax (BitVec.ofNat 64 text.length) } }

/-- The absolute path in a "munged" link target: `./` in front and what follows the first of
the slashes of a `//`. -/
def munged (target : CString) : Option CString :=
  if startsWith target (str "./") then (target.tails.find? (startsWith · (str "//"))).map List.tail
  else none

/-- It is returned only if this file actually exists within `cde_cderoot_dir`. -/
def unmunged (env : LinkEnv) (target : CString) : Option CString :=
  (munged target).filter fun suffix => env.lstat (env.cde.cderootDir ++ suffix)

/-- What is returned for the special files `/proc/self/exe` and `/proc/<pid>/exe`, if it is
available. -/
def perceivedExe (env : LinkEnv) (filename : CString) : Option CString :=
  if filename = str "/proc/self/exe" ∨ filename = str "/proc/" ++ decimal env.pid ++ str "/exe" then
    env.perceivedProgramFullpath
  else none

/-- `CDE_end_readlink_internal` -/
def endReadlinkInternal (env : LinkEnv) (input output : Fin 6) (st : LinkStop) :
    Except Fatal LinkStop := do
  let some filename := env.strcpyFromChild st.child.mem (st.tcp.uArg input) | throw exitIf
  if !env.cde.execMode then return st
  if st.uRval < 0 then return st
  if let some program := perceivedExe env filename then return ← fakeResult env output program st
  if filename = str "/proc/self/cwd" then
    let (sandboxedPwd, effects) ←
      extractSandboxedPwd env.cde st.tcp.currentDir st.tcp.pIgnores st.effects
    return ← fakeResult env output sandboxedPwd { st with effects }
  -- `umoven` of the returned text
  let some target := st.returned output | return st
  match unmunged env target with
  | some suffix => fakeResult env output suffix st
  | none => return st

/-- `CDE_end_readlink` -/
def endReadlink (env : LinkEnv) := endReadlinkInternal env fileArg argvArg

/-! ## The program and the kernel -/

/-- A path that the kernel finds at an address: it fails with `ENAMETOOLONG` for one that is not shorter than
`PATH_MAX`. -/
def kernelString : Mem → Word → Option CString := readString maxPathLen

/-- The target and the path of a new link, as the kernel finds them. -/
def kernelSymlink (env : LinkEnv) (a : ArgPair) (child : Child) : Option (CString × CString) := do
  let target ← kernelString child.mem (child.regs (argreg env.personality a.arg1))
  let path ← kernelString child.mem (child.regs (argreg env.personality a.arg2))
  return (target, path)

/-- The target of a link is put into the buffer. -/
def LinkStop.receive (env : LinkEnv) (target : CString) (st : LinkStop) : LinkStop :=
  { st with
    uRval := target.length
    child := { st.child with
      mem := st.child.mem.store (st.child.regs (argreg env.personality argvArg)) target
      regs := st.child.regs.set .rax (BitVec.ofNat 64 target.length) } }

/-- `readlink` of the link that was made, `none` for another path. -/
def kernelReadlink (env : LinkEnv) (link : CString × CString) (st : LinkStop) : Option LinkStop := do
  let path ← kernelString st.child.mem (st.child.regs (argreg env.personality fileArg))
  if path = link.2 then return st.receive env link.1 else none

/-- A call of `symlink` or `symlinkat` and one of `readlink`, at their entry stops. -/
structure LinkCalls where
  symlinkat : Bool
  making : LinkStop
  reading : LinkStop

/-- The arguments of the first call. -/
def LinkCalls.pair (calls : LinkCalls) : ArgPair :=
  if calls.symlinkat then firstAndThirdArgs else twoArgs

/-- The entry stop of the first call. -/
def LinkCalls.beginMaking (calls : LinkCalls) (env : LinkEnv) : Except Fatal LinkStop :=
  if calls.symlinkat then beginFileSymlinkat env calls.making else beginFileSymlink env calls.making

/-- The link that it makes. -/
def makeLink (env : LinkEnv) (calls : LinkCalls) : Except Fatal (Option (CString × CString)) := do
  let made ← calls.beginMaking env
  return kernelSymlink env calls.pair made.child

/-- What the program finds in its buffer after the second call. -/
def readLink (env : LinkEnv) (st : LinkStop) (link : CString × CString) :
    Except Fatal (Option CString) := do
  let st ← beginReadlink env st
  let some st := kernelReadlink env link st | return none
  let st ← endReadlink env st
  return st.returned argvArg

/-- What the program reads. -/
def symlinkReadlink (env : LinkEnv) (calls : LinkCalls) : Except Fatal (Option CString) := do
  let some link ← makeLink env calls | return none
  readLink env calls.reading link

end Ptu
