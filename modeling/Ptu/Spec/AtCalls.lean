import Ptu.Spec.Spoof

/-!
# Calls with a directory descriptor

The handlers at the entry of the `*at` calls, which take a path and a descriptor of the directory
that a relative path starts from: `CDE_begin_at_fileop` (`openat`, `faccessat`, `fstatat64`, …),
`CDE_begin_file_unlinkat`, `CDE_begin_file_linkat`, `CDE_begin_file_symlinkat` and
`CDE_begin_file_renameat`. A relative path with another descriptor than `AT_FDCWD` is left alone,
with a warning.
-/

namespace Ptu

/-- A process at a stop, with what the tracer does in the package and what it prints. -/
structure AtStop extends LinkStop where
  /-- the calls `unlink(redirected_path)` of the tracer -/
  unlinked : List CString := []
  /-- the calls `link(redirected_oldpath, redirected_newpath)` of the tracer, NULL for `none` -/
  linked : List (Option CString × Option CString) := []
  /-- what is printed to `stderr` -/
  stderr : List CString := []

/-- The arguments of the calls: a descriptor and a path, or two of each. -/
abbrev dirfdArg : Fin 6 := fileArg

abbrev pathArg : Fin 6 := argvArg

abbrev newdirfdArg : Fin 6 := bufferArg

abbrev newpathArg : Fin 6 := fourthArg

/-- `!IS_ABSPATH(filename) && tcp->u_arg[dirfd] != AT_FDCWD`, where `u_arg` is an array of `long`. -/
def puntsEarly (tcp : ShmTcb) (path : Fin 6 × CString) : Bool :=
  !isAbspath path.2 && tcp.uArg path.1 != atFdcwdArg

/-- The end of all warnings. -/
def dirfdWarning (call filename : CString) : CString :=
  call ++ str " '" ++ filename ++ str "' is a relative path and dirfd != AT_FDCWD\n"

/-- The tests of the descriptors, one after the other, and what follows if the handler does not punt. -/
def unlessPunting (call : CString) (paths : List (Fin 6 × CString)) (rest : AtStop → Except Fatal AtStop)
    (st : AtStop) : Except Fatal AtStop :=
  match paths.find? (puntsEarly st.tcp) with
  | some path => .ok { st with stderr := st.stderr ++ [dirfdWarning call path.2] }
  | none => rest st

section

variable (env : LinkEnv)

/-- `modify_syscall_single_arg(tcp, 2, filename)` -/
def modifySecondArg (filename : CString) (st : AtStop) : Except Fatal AtStop := do
  let (tcp, child, effects) ←
    modifySyscallSingleArg env.cde env.personality st.tcp 2 filename st.child st.effects
  return { st with tcp, child, effects }

/-- `modify_syscall_second_and_fourth_args(tcp)` -/
def modifyBothPaths (st : AtStop) : Except Fatal AtStop := do
  let (tcp, child, effects) ← modifySyscallSecondAndFourthArgs env.cde env.strcpyFromChild env.personality
    st.tcp st.child st.effects
  return { st with tcp, child, effects }

/-- `CDE_begin_at_fileop` -/
def beginAtFileop (syscallName : CString) (st : AtStop) : Except Fatal AtStop := do
  let some filename := env.strcpyFromChild st.child.mem (st.tcp.uArg pathArg) | throw exitIf
  st |> unlessPunting (str "CDE WARNING (unsupported operation): " ++ syscallName) [(dirfdArg, filename)] fun st => do
    if env.cde.execMode then modifySecondArg env filename st
    else if (getRepoPathId env.cde filename).isSome then return st
    else
      let effects ← copyFileIntoCdeRoot env.cde filename st.tcp.currentDir st.effects
      return { st with effects }

/-- `CDE_begin_file_unlinkat`, with its arguments as they stand in the registers. -/
def beginUnlinkat (st : AtStop) : Except Fatal AtStop := do
  let some filename := env.strcpyFromChild st.child.mem (st.tcp.uArg pathArg) | throw exitIf
  st |> unlessPunting (str "CDE WARNING: unlinkat") [(dirfdArg, filename)] fun st => do
    if env.cde.execMode then modifySecondArg env filename st
    else
      let (redirectedPath, effects) ←
        redirectFilenameIntoCderoot env.cde filename st.tcp.currentDir st.tcp.pIgnores st.effects
      return { st with effects, unlinked := st.unlinked ++ redirectedPath.toList }

/-- `CDE_begin_file_linkat` -/
def beginFileLinkat (st : AtStop) : Except Fatal AtStop := do
  let some oldpath := env.strcpyFromChild st.child.mem (st.tcp.uArg pathArg) | throw exitIf
  let some newpath := env.strcpyFromChild st.child.mem (st.tcp.uArg newpathArg) | throw exitIf
  st |> unlessPunting (str "CDE WARNING: linkat") [(dirfdArg, oldpath), (newdirfdArg, newpath)] fun st => do
    if env.cde.execMode then modifyBothPaths env st
    else
      let (redirectedOldpath, effects) ←
        redirectFilenameIntoCderoot env.cde oldpath st.tcp.currentDir st.tcp.pIgnores st.effects
      -- first copy the origin file into cde-root/ before trying to link it
      let effects ← copyFileIntoCdeRoot env.cde oldpath st.tcp.currentDir effects
      let (redirectedNewpath, effects) ←
        redirectFilenameIntoCderoot env.cde newpath st.tcp.currentDir st.tcp.pIgnores effects
      return { st with effects, linked := st.linked ++ [(redirectedOldpath, redirectedNewpath)] }

/-- `CDE_begin_file_symlinkat`, with its warning. -/
def beginSymlinkat (st : AtStop) : Except Fatal AtStop := do
  let some newpath := env.strcpyFromChild st.child.mem (st.tcp.uArg bufferArg) | throw exitIf
  st |> unlessPunting (str "CDE WARNING: symlinkat") [(pathArg, newpath)] fun st => do
    let link ← beginFileSymlinkat env st.toLinkStop
    return { st with toLinkStop := link }

/-- `CDE_begin_file_renameat` -/
def beginFileRenameat (st : AtStop) : Except Fatal AtStop := do
  let some oldpath := env.strcpyFromChild st.child.mem (st.tcp.uArg pathArg) | throw exitIf
  let some newpath := env.strcpyFromChild st.child.mem (st.tcp.uArg newpathArg) | throw exitIf
  st |> unlessPunting (str "CDE WARNING: renameat") [(dirfdArg, oldpath), (newdirfdArg, newpath)] fun st => do
    if env.cde.execMode then modifyBothPaths env st else return st

/-- The calls with a directory descriptor; the ones of `CDE_begin_at_fileop` have a name. -/
inductive AtCall where
  | fileop (syscallName : CString)
  | unlinkat
  | linkat
  | symlinkat
  | renameat
  deriving DecidableEq, Repr

/-- The handler at the entry of a call. -/
def AtCall.entering : AtCall → AtStop → Except Fatal AtStop
  | fileop syscallName => beginAtFileop env syscallName
  | unlinkat => beginUnlinkat env
  | linkat => beginFileLinkat env
  | symlinkat => beginSymlinkat env
  | renameat => beginFileRenameat env

end

/-- The descriptors of a call, each with its path. -/
def AtCall.args : AtCall → List (Fin 6 × Fin 6)
  | fileop _ => [(dirfdArg, pathArg)]
  | unlinkat => [(dirfdArg, pathArg)]
  | linkat => [(dirfdArg, pathArg), (newdirfdArg, newpathArg)]
  | symlinkat => [(pathArg, bufferArg)]
  | renameat => [(dirfdArg, pathArg), (newdirfdArg, newpathArg)]

end Ptu
