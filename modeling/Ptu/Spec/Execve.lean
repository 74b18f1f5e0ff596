import Ptu.Spec.Argv
import Ptu.Spec.Elf

/-!
# `execve`

`CDE_begin_execve`, which finds out what kind of file is executed, starts it with the linker
of the package in exec mode, copies it into the package in audit mode, and writes the record
`EXECVE` of the provenance log. The text of the arguments in a record (`print_arg_prov`) is a
parameter; so is the environment of another repository, of which only the request is kept.
-/

namespace Ptu

open Memory

/-- A record `EXECVE` of the provenance log, without its time. -/
structure ExecveRecord where
  parentPid : ℕ
  pid : ℕ
  filenameAbspath : CString
  currentDir : CString
  args : CString
  deriving DecidableEq, Repr

/-- What `CDE_begin_execve` reads besides the global variables in `Cde`. -/
structure ExecEnv where
  strcpyFromChild : StrcpyFromChild
  /-- what lies behind a block that `find_ELF_program_interpreter` allocates -/
  heap : ℕ → Byte := fun _ => 0
  printArgProv : Mem → Word → CString
  /-- `CDE_use_linker_from_package` -/
  useLinkerFromPackage : Bool := true
  /-- `Prov_prov_mode` -/
  provMode : Bool := true

/-- A traced process at the entry stop of `execve`, and what has been written for it. -/
structure ExecState where
  tcp : ShmTcb
  child : Child
  e : Effects := {}
  pid : ℕ := 0
  /-- the pid of the parent, or that of the tracer -/
  parentPid : ℕ := 0
  /-- `TCB_ATTACHED` -/
  attached : Bool := false
  /-- `detach` has been called -/
  detached : Bool := false
  perceivedProgramFullpath : Option CString := none
  /-- `current_repo_ind`, `none` for -1 -/
  currentRepoInd : Option ℕ := none
  /-- the arguments of `CDE_load_environment_vars`, `none` for NULL -/
  loadedEnvironments : List (Option CString) := []
  log : List ExecveRecord := []

/-- `get_script_command`, `none` if the file is no script. -/
def getScriptCommand (scriptFilePath : CString) (content : List Byte) : Option CString :=
  -- `getline` reads up to and with the newline; the string ends at the first NUL
  let bytesRead := (content.takeWhile (· != newline)).length + (if content.contains newline then 1 else 0)
  let firstline := strRstrip ((content.takeWhile (· != newline)).takeWhile (· != 0))
  if 2 < bytesRead && startsWith firstline (str "#!") then some (firstline.drop 2)
  else if endswith scriptFilePath (str ".sh") then some (str "/bin/sh")
  else none

/-- GNU `basename` -/
def basename (path : CString) : CString := path.rtakeWhile (· != slash)

/-- `print_begin_execve_prov` -/
def printBeginExecveProv (env : ExecEnv) (st : ExecState) : Except Fatal ExecState := do
  if !env.provMode then return st
  let openedFilename := env.strcpyFromChild st.child.mem (st.tcp.uArg fileArg)
  let filenameAbspath ← canonicalizePathOrNull openedFilename st.tcp.currentDir
  let args := env.printArgProv st.child.mem (st.tcp.uArg argvArg)
  return { st with log := st.log ++ [⟨st.parentPid, st.pid, filenameAbspath, st.tcp.currentDir, args⟩] }

/-- The record of a process that leaves the tracer, to execute another cde. -/
def leaveTracer (env : ExecEnv) (count : ℕ) (st : ExecState) : Except Fatal (ℕ × ExecState) := do
  if !st.attached then return (0, st)
  let st ← printBeginExecveProv env st
  return (count, { st with detached := true })

/-- What the first part of `CDE_begin_execve` comes to: `goto done` with a value of
`is_runable_count`, or the path to an existing file. -/
inductive Executable where
  | done (isRunableCount : ℕ)
  | found (pathToExecutable : CString)
  deriving DecidableEq, Repr

/-- `stat` decides whether the file is there. -/
def statExecutable (g : Cde) (path : Option CString) (st : ExecState) : Executable :=
  match path with
  | none => .done 0
  | some path => if g.stat st.e.fs path then .found path else .done 0

/-- The entry of `process_ignores` for a program. -/
def findProcessIgnore (g : Cde) (path : CString) : Option ProcessIgnore :=
  g.opts.processIgnores.find? (·.processName == path)

/-- Search in exec mode. -/
def findExecutableExec (env : ExecEnv) (g : Cde) (exeFilename : CString) (st : ExecState) :
    Except Fatal (Executable × ExecState) := do
  let (pwd, e) ← extractSandboxedPwd g st.tcp.currentDir st.tcp.pIgnores st.e
  let openedFilenameAbspath ← canonicalizePath exeFilename pwd
  let st := { st with e }
  if isCdeBinary exeFilename then
    let (count, st) ← leaveTracer env 8 st
    return (.done count, st)
  let (ignored, e) ← ignorePath g openedFilenameAbspath st.tcp.pIgnores st.e
  let st := { st with e }
  if ignored then return (.done 0, st)
  if let some pi := findProcessIgnore g openedFilenameAbspath then
    return (.done 0, { st with tcp := { st.tcp with pIgnores := some pi } })
  let (redirectedPath, e) ←
    redirectFilenameIntoCderoot g exeFilename st.tcp.currentDir st.tcp.pIgnores st.e
  let st := { st with e }
  -- `multi_repo_paths[i]`, where `i` is the counter of the loop over `process_ignores`
  let st := match getRepoPathId g openedFilenameAbspath with
    | some id =>
      if some id ≠ st.currentRepoInd then
        { st with
          loadedEnvironments := st.loadedEnvironments ++ [g.opts.multiRepoPaths[g.opts.processIgnores.length]?] }
      else st
    | none => st
  -- without a redirected path `exe_filename_abspath` is NULL, and `stat` fails
  return (statExecutable g redirectedPath st, st)

/-- Search in audit mode. -/
def findExecutableAudit (env : ExecEnv) (g : Cde) (exeFilename : CString) (st : ExecState) :
    Except Fatal (Executable × ExecState) := do
  let exeFilenameAbspath ← canonicalizePath exeFilename st.tcp.currentDir
  if isCdeBinary exeFilenameAbspath then
    let (count, st) ← leaveTracer env 16 st
    return (.done count, st)
  -- `is_in_another_repo`
  if let some id := getRepoPathId g exeFilenameAbspath then
    if some id ≠ st.currentRepoInd then return (.done 0, st)
  return (statExecutable g (some exeFilenameAbspath) st, st)

/-- What the file is: nothing that needs care, a program without an interpreter (`isElf`, or a
script of one), or a program with its interpreter `ldLinuxFilename`, for a script with the
command in its first line. -/
inductive Target where
  | punt
  | static (isElf : Bool)
  | program (ldLinuxFilename : CString) (scriptCommand : Option CString)
  deriving DecidableEq, Repr

/-- `"\177ELF"` -/
def elfMagic : List Byte := [0x7f, 0x45, 0x4c, 0x46]

/-- The result of `find_ELF_program_interpreter`, which must be an absolute path. -/
def targetOf (ldLinuxFilename : Option CString) (scriptCommand : Option CString) : Except Fatal Target :=
  match ldLinuxFilename with
  | none => .ok (.static scriptCommand.isNone)
  | some ld => if isAbspath ld then .ok (.program ld scriptCommand) else .error .assertion

/-- What `fopen` of a path gives the tracer to read. -/
def fopen (g : Cde) (path : CString) (e : Effects) : Option (List Byte) := openRead g.host e.fs (g.hostPath path)

/-- The interpreter of a script, in exec mode where it is not ignored. The command may have no token, then
`p` is NULL: `strdup` reads from it, and `redirect_filename_into_cderoot` has an assertion. -/
def scriptInterpreter (g : Cde) (p : Option CString) (st : ExecState) :
    Except Fatal (Option CString × ExecState) := do
  if !g.execMode then
    let some interpreter := p | throw .segv
    return (some interpreter, st)
  let (pwd, e) ← extractSandboxedPwd g st.tcp.currentDir st.tcp.pIgnores st.e
  let scriptCommandAbspath ← canonicalizePathOrNull p pwd
  let (ignored, e) ← ignorePath g scriptCommandAbspath st.tcp.pIgnores e
  let st := { st with e }
  if ignored then return (none, st)
  if let some pi := findProcessIgnore g scriptCommandAbspath then
    return (none, { st with tcp := { st.tcp with pIgnores := some pi } })
  let some interpreter := p | throw .assertion
  let (redirected, e) ← redirectFilenameIntoCderoot g interpreter st.tcp.currentDir st.tcp.pIgnores st.e
  return (some (redirected.getD interpreter), { st with e })

/-- Look into the file. -/
def identify (env : ExecEnv) (g : Cde) (pathToExecutable : CString) (st : ExecState) :
    Except Fatal (Target × ExecState) := do
  let some content := fopen g pathToExecutable st.e | throw .assertion
  if content.take 4 = elfMagic then
    let interp ← findElfProgramInterpreter (fopen g pathToExecutable st.e) env.heap
    let target ← targetOf interp.name none
    return (target, st)
  -- a file that is no script makes `strdup` read from NULL
  let some scriptCommand := getScriptCommand pathToExecutable content | throw .segv
  let (scriptCommandFilename, st) ← scriptInterpreter g (strtok scriptCommand blank).head? st
  match scriptCommandFilename with
  | none => return (.punt, st)
  | some filename =>
    let interp ← findElfProgramInterpreter (fopen g filename st.e) env.heap
    let target ← targetOf interp.name (some scriptCommand)
    return (target, st)

/-- The program that is executed instead of a link to it, for `java`. -/
def javaFullpath (g : Cde) (perceived : CString) (st : ExecState) :
    Except Fatal (CString × Effects) := do
  if basename perceived ≠ str "java" then return (perceived, st.e)
  let (redirected, e) ← redirectFilenameIntoCderoot g perceived st.tcp.currentDir st.tcp.pIgnores st.e
  let some redirected := redirected | return (perceived, e)
  let some realpath := realpath g.host e.fs (g.hostPath redirected) | throw .assertion
  extractSandboxedPwd g (slash :: joinSlash realpath) st.tcp.pIgnores e

/-- Start a script with the linker. -/
def startScript (env : ExecEnv) (g : Cde) (p : Personality) (ldLinuxFullpath scriptCommand : CString)
    (st : ExecState) : Except Fatal ExecState := do
  let tokens := strtok scriptCommand blank
  let (newTokens, e) ← match env.useLinkerFromPackage, tokens with
    | false, token :: rest => do
      -- the first token is redirected; `strcpy` reads from NULL if it is ignored
      let (redirected, e) ← redirectFilenameIntoCderoot g token st.tcp.currentDir st.tcp.pIgnores st.e
      let some redirected := redirected | throw .segv
      pure (redirected :: rest, e)
    | _, tokens => pure (tokens, st.e)
  let child ← scriptArgv p st.tcp env.useLinkerFromPackage ldLinuxFullpath newTokens st.child
  return { st with e, child, perceivedProgramFullpath := tokens.head? }

/-- Start a dynamically linked program with the linker. -/
def startElf (env : ExecEnv) (g : Cde) (p : Personality) (exeFilename ldLinuxFullpath : CString)
    (st : ExecState) : Except Fatal ExecState := do
  let some perceived := env.strcpyFromChild st.child.mem (st.tcp.uArg fileArg) | throw exitIf
  let (perceived, e) ← javaFullpath g perceived st
  let (newArgvRaw, child) ← elfArgv p st.tcp ldLinuxFullpath perceived st.child
  let st := { st with e, perceivedProgramFullpath := some perceived }
  if env.useLinkerFromPackage then return { st with child := setExecve p st.tcp newArgvRaw child }
  let (tcp, child, e) ← modifySyscallSingleArg g p st.tcp 1 exeFilename child st.e
  return { st with tcp, child, e }

/-- A script is started for its command, a program as it is. -/
def startWith (env : ExecEnv) (g : Cde) (p : Personality) (exeFilename ldLinuxFullpath : CString)
    (scriptCommand : Option CString) (st : ExecState) : Except Fatal ExecState :=
  match scriptCommand with
  | some command => startScript env g p ldLinuxFullpath command st
  | none => startElf env g p exeFilename ldLinuxFullpath st

/-- Make `perceived_program_fullpath` absolute, as the program sees it. -/
def fixPerceived (g : Cde) (st : ExecState) : Except Fatal ExecState := do
  let some perceived := st.perceivedProgramFullpath | return st
  let (redirected, e) ← redirectFilenameIntoCderoot g perceived st.tcp.currentDir st.tcp.pIgnores st.e
  let some redirected := redirected | return { st with e }
  let (pwd, e) ← extractSandboxedPwd g redirected st.tcp.pIgnores e
  return { st with e, perceivedProgramFullpath := some pwd }

/-- Exec mode: redirect the kernel to the linker. -/
def startProgram (env : ExecEnv) (g : Cde) (p : Personality) (exeFilename ldLinuxFilename : CString)
    (scriptCommand : Option CString) (st : ExecState) : Except Fatal ExecState := do
  let (ldLinuxFullpath, e) ← createAbspathWithinCderoot g ldLinuxFilename st.e
  let st := { st with e }
  let st ← startWith env g p exeFilename ldLinuxFullpath scriptCommand st
  fixPerceived g st

/-- Audit mode: copy the program, its interpreter and the interpreter of a script. -/
def copyProgram (g : Cde) (exeFilename ldLinuxFilename : CString) (scriptCommand : Option CString)
    (st : ExecState) : Except Fatal ExecState := do
  let e ← copyFileIntoCdeRoot g exeFilename st.tcp.currentDir st.e
  let e ← copyFileIntoCdeRoot g ldLinuxFilename st.tcp.currentDir e
  let e ← match scriptCommand.bind fun command => (strtok command blank).head? with
    | some interpreter =>
      if g.stat e.fs interpreter then copyFileIntoCdeRoot g interpreter st.tcp.currentDir e else pure e
    | none => pure e
  return { st with e }

/-- What is done with the file, with the value of `is_runable_count`. -/
def executeTarget (env : ExecEnv) (g : Cde) (p : Personality) (exeFilename : CString) (target : Target)
    (st : ExecState) : Except Fatal (ℕ × ExecState) :=
  match target with
  | .punt => return (0, st)
  | .static isElf => do
    if g.execMode then
      let (tcp, child, e) ← modifySyscallSingleArg g p st.tcp 1 exeFilename st.child st.e
      return (0, { st with tcp, child, e })
    if isElf then
      let e ← copyFileIntoCdeRoot g exeFilename st.tcp.currentDir st.e
      return (0, { st with e })
    return (0, st)
  | .program ldLinuxFilename scriptCommand => do
    if st.tcp.childshm = 0 then
      let (tcp, child) ← beginSetupShmat p st.tcp st.child
      return (32, { st with tcp, child })
    let st ←
      if g.execMode then startProgram env g p exeFilename ldLinuxFilename scriptCommand st
      else copyProgram g exeFilename ldLinuxFilename scriptCommand st
    return (0, st)

/-- `CDE_begin_execve` up to the label `done`, with the value of `is_runable_count`. -/
def beginExecveBody (env : ExecEnv) (g : Cde) (p : Personality) (st : ExecState) :
    Except Fatal (ℕ × ExecState) := do
  let some exeFilename := env.strcpyFromChild st.child.mem (st.tcp.uArg fileArg) | throw exitIf
  let st := { st with tcp := { st.tcp with pIgnores := none } }
  let (executable, st) ←
    if g.execMode then findExecutableExec env g exeFilename st else findExecutableAudit env g exeFilename st
  match executable with
  | .done count => return (count, st)
  | .found pathToExecutable =>
    let (target, st) ← identify env g pathToExecutable st
    executeTarget env g p exeFilename target st

/-- `CDE_begin_execve` -/
def beginExecve (env : ExecEnv) (g : Cde) (p : Personality) (st : ExecState) : Except Fatal ExecState := do
  let (isRunableCount, st) ← beginExecveBody env g p st
  if env.provMode && isRunableCount == 0 then printBeginExecveProv env st else return st

end Ptu
