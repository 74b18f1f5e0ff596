import Ptu.Lib.Shell
import Ptu.Spec.Execve
import Ptu.Spec.Okapi
import Ptu.Spec.ProvLog

/-!
# The recorded command

What the audit writes down to run the traced command again: the line of `cde.log` with the
`cd` before it (`CDE_init`), and the scripts that `CDE_create_convenience_scripts` puts
beside the program and on top of the package. The texts are for a POSIX shell, `shellKind`
says what it makes of each byte.
-/

namespace Ptu

/-- `'\''` -/
abbrev squote : Byte := 39

/-- The characters of a shell command. -/
def shellKind (c : Byte) : Shell.Kind :=
  if c = blank ∨ c = tab then .blank
  else if c = newline then .newline
  else if c = squote then .single
  else if c = dquote then .double
  else if c = backslash then .escape
  else if c = 36 then .dollar
  else if c = 96 then .backquote
  else if c = 64 then .atSign
  else if c ∈ str "|&;<>()*?[#~" then .special
  else .plain

/-- The words of a command line. -/
def shellWords (line : CString) : Option (List (Shell.Word Byte)) := Shell.split shellKind line

/-- `safechars` of `malloc_quoted_arg_str` -/
def safechars : CString :=
  str "ABCDEFGHIJKLMNOPQRSTUVWXYZabcdefghijklmnopqrstuvwxyz1234567890@%_-+=:,./"

/-- `malloc_quoted_arg_str` -/
def mallocQuotedArgStr (argstr : CString) : CString :=
  if argstr.all safechars.contains then argstr
  else
    squote :: argstr.flatMap (fun c => if c = squote then str "'\"'\"'" else [c]) ++ [squote]

/-- `num_unsafe_chars` -/
def numUnsafeChars (argstr : CString) : ℕ := argstr.countP fun c => !safechars.contains c

/-- The bytes that `malloc_quoted_arg_str` allocates, by `strdup` or by `malloc`. -/
def quotedArgRoom (argstr : CString) : ℕ :=
  if numUnsafeChars argstr = 0 then argstr.length + 1 else argstr.length + 3 + 4 * numUnsafeChars argstr

/-- The `argv` of a run: the options before `optind`, the target program and its arguments. -/
structure CommandLine where
  options : List CString
  program : CString
  args : List CString
  deriving DecidableEq, Repr

/-- The line of `cde.log`. -/
def CommandLine.logLine (c : CommandLine) : CString :=
  str "./" ++ mallocQuotedArgStr (basename c.program) ++ str ".cde" ++
    c.args.flatMap (fun arg => str " " ++ mallocQuotedArgStr arg) ++ str "\n"

/-- The `cd` at the start of a new `cde.log`. -/
def cdLine (rootName startingPwd : CString) : CString :=
  str "cd '" ++ rootName ++ startingPwd ++ str "'\n"

/-- `cde_script_name` -/
def CommandLine.scriptName (c : CommandLine) : CString := basename c.program ++ str ".cde"

/-- The command of a script that runs the program by `cdeExec`. -/
def CommandLine.scriptLine (c : CommandLine) (cdeExec : CString) : CString :=
  cdeExec ++ c.options.flatMap (fun opt => str " '" ++ opt ++ str "'") ++
    str " '" ++ c.program ++ str "' \"$@\"\n"

/-- A convenience script: the lines before the command, and the command by which cde-exec
is started as `cdeExec`. -/
structure Script where
  filename : CString
  start : CString
  cdeExec : CString
  command : CString
  deriving DecidableEq, Repr

/-- `CDE_PACKAGE_DIR`, with the argument of the option `-o` if there is one. -/
def initPackageDir (option : Option CString) (startingPwd : CString) : Except Fatal CString :=
  canonicalizePath (option.getD (str "cde-package")) startingPwd

/-- `CDE_ROOT_DIR` -/
def packageRootDir (packageDir rootName : CString) : CString := packageDir ++ str "/" ++ rootName

/-- What `dot_dots` is to hold. -/
def dotDots (depth : ℕ) : CString := str ".." ++ (List.replicate depth (str "/..")).flatten

/-- `dot_dots` as it is put together in its buffer. -/
def dotDotsBuffer (depth : ℕ) : Except Fatal CString := do
  let buf ← strcat [] (str "..")
  (List.range depth).foldlM (fun buf _ => strcat buf (str "/..")) buf

/-- The lines of the script on top of the package before `../cde-exec`. -/
def toplevelStart : CString :=
  str "#!/bin/sh\nHERE=\"$(dirname \"$(readlink -f \"$\x7b0\x7d\")\")\"\ncd \"$HERE/cde-root\" && "

/-- The script beside the program, if its path `progname` in cde-root is not NULL. -/
def scriptInRoot (g : Cde) (c : CommandLine) (progname : Option CString) :
    Except Fatal (List Script) := do
  let some filename := progname | return []
  let p ← newPathFromAbspath g.startingPwd
  if p.depth = 0 then throw .assertion
  let dots ← dotDotsBuffer p.depth
  let cdeExec := dots ++ str "/cde-exec"
  return [⟨filename, str "#!/bin/sh\n", cdeExec, c.scriptLine cdeExec⟩]

/-- The script on top of the package, if the program is only a name. -/
def toplevelScript (packageDir : CString) (c : CommandLine) : List Script :=
  if slash ∈ c.program then []
  else [⟨packageDir ++ str "/" ++ c.scriptName, toplevelStart, str "../cde-exec",
    c.scriptLine (str "../cde-exec")⟩]

/-- `CDE_create_convenience_scripts` -/
def createConvenienceScripts (g : Cde) (packageDir : CString) (c : CommandLine) (e : Effects) :
    Except Fatal (List Script × Effects) := do
  if g.execMode then throw .assertion
  if g.noAppCapture then return ([], e)
  let (progname, e) ← redirectFilenameIntoCderoot g c.scriptName g.startingPwd none e
  let inRoot ← scriptInRoot g c progname
  return (inRoot ++ toplevelScript packageDir c, e)

/-- What `CDE_init` records of the command. -/
structure Recorded where
  scripts : List Script
  /-- the `cd` of `cde.log`, when there was no log yet -/
  cd : Option CString
  command : CString
  deriving DecidableEq, Repr

/-- The part of `CDE_init` that records the command. -/
def recordCommand (g : Cde) (packageDir rootName : CString) (logExists : Bool) (c : CommandLine)
    (e : Effects) : Except Fatal (Recorded × Effects) := do
  let (scripts, e) ← createConvenienceScripts g packageDir c e
  let cd := if logExists then none else some (cdLine rootName g.startingPwd)
  return (⟨scripts, cd, c.logLine⟩, e)

end Ptu
