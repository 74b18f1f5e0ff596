import Ptu.Lib.Delimited
import Ptu.Spec.Redirect

/-!
# The options file

`CDE_init_options`, which reads `cde.options` line by line into the arrays of `Options`, with
the `CDE_add_*` functions it calls, and the file that `CDE_init` writes when there is none.
The loop strips a line by moving the pointer that it then gives to `getline` again as its
buffer; `LineBuffer` keeps where that pointer is, and `LineVars` also what `getline` is told
about it.
-/

namespace Ptu

/-- `'='` -/
abbrev equalsSign : Byte := 61

/-- `'#'` -/
abbrev sharp : Byte := 35

/-- `'\x7b'` -/
abbrev openBrace : Byte := 123

/-- `'\x7d'` -/
abbrev closeBrace : Byte := 125

/-- `CDE_OPTIONS_VERSION_NUM` -/
def optionsVersionNum : CString := str "# cde.options v1"

/-! ## The arrays -/

/-- The directives that fill an array of strings. -/
inductive ArrayKey where
  | ignoreExact | ignorePrefix | ignoreEnvironmentVar | redirectExact | redirectPrefix
  | ignoreSubstr | redirectSubstr | multiRepoPath
  deriving DecidableEq, Repr

inductive OptionKey where
  | array (key : ArrayKey)
  | ignoreProcess
  | processIgnorePrefix
  deriving DecidableEq, Repr

def ArrayKey.token : ArrayKey → CString
  | .ignoreExact => str "ignore_exact"
  | .ignorePrefix => str "ignore_prefix"
  | .ignoreEnvironmentVar => str "ignore_environment_var"
  | .redirectExact => str "redirect_exact"
  | .redirectPrefix => str "redirect_prefix"
  | .ignoreSubstr => str "ignore_substr"
  | .redirectSubstr => str "redirect_substr"
  | .multiRepoPath => str "multi_repo_path"

def OptionKey.token : OptionKey → CString
  | .array key => key.token
  | .ignoreProcess => str "ignore_process"
  | .processIgnorePrefix => str "process_ignore_prefix"

/-- The keys in the order in which a token is compared with them. -/
def optionKeys : List OptionKey :=
  [.array .ignoreExact, .array .ignorePrefix, .array .ignoreEnvironmentVar, .array .redirectExact,
    .array .redirectPrefix, .array .ignoreSubstr, .array .redirectSubstr, .ignoreProcess,
    .array .multiRepoPath, .processIgnorePrefix]

def findKey (token : CString) : Option OptionKey := optionKeys.find? (·.token == token)

/-- What `CDE_init_options` has read: its local flags and the arrays it fills. -/
structure Parsed where
  isFirstLine : Bool := true
  inBraces : Bool := false
  opts : Options := {}
  ignoreEnvvars : List CString := []
  deriving DecidableEq, Repr

/-- `_add_to_array_internal` -/
def addToArrayInternal (myArray : List CString) (p arrayName : CString) :
    Except Fatal (List CString) := do
  let myArray := myArray ++ [p]
  if 100 ≤ myArray.length then
    throw (.exit (str "Fatal error: more than 100 entries in " ++ arrayName ++ str "\n"))
  return myArray

/-- `CDE_add_ignore_exact_path` -/
def addIgnoreExactPath (st : Parsed) (p : CString) : Except Fatal Parsed := do
  let paths ← addToArrayInternal st.opts.ignoreExactPaths p (str "ignore_exact_paths")
  return { st with opts.ignoreExactPaths := paths }

/-- `CDE_add_ignore_prefix_path` -/
def addIgnorePrefixPath (st : Parsed) (p : CString) : Except Fatal Parsed := do
  let paths ← addToArrayInternal st.opts.ignorePrefixPaths p (str "ignore_prefix_paths")
  return { st with opts.ignorePrefixPaths := paths }

/-- `CDE_add_ignore_substr_path` -/
def addIgnoreSubstrPath (st : Parsed) (p : CString) : Except Fatal Parsed := do
  let paths ← addToArrayInternal st.opts.ignoreSubstrPaths p (str "ignore_substr_paths")
  return { st with opts.ignoreSubstrPaths := paths }

/-- `CDE_add_redirect_exact_path` -/
def addRedirectExactPath (st : Parsed) (p : CString) : Except Fatal Parsed := do
  let paths ← addToArrayInternal st.opts.redirectExactPaths p (str "redirect_exact_paths")
  return { st with opts.redirectExactPaths := paths }

/-- `CDE_add_redirect_prefix_path` -/
def addRedirectPrefixPath (st : Parsed) (p : CString) : Except Fatal Parsed := do
  let paths ← addToArrayInternal st.opts.redirectPrefixPaths p (str "redirect_prefix_paths")
  return { st with opts.redirectPrefixPaths := paths }

/-- `CDE_add_redirect_substr_path` -/
def addRedirectSubstrPath (st : Parsed) (p : CString) : Except Fatal Parsed := do
  let paths ← addToArrayInternal st.opts.redirectSubstrPaths p (str "redirect_substr_paths")
  return { st with opts.redirectSubstrPaths := paths }

/-- `CDE_add_ignore_envvar`. The values of the variables are not kept. -/
def addIgnoreEnvvar (st : Parsed) (p : CString) : Except Fatal Parsed := do
  let ignoreEnvvars ← addToArrayInternal st.ignoreEnvvars p (str "ignore_envvars")
  return { st with ignoreEnvvars }

/-- `CDE_add_multi_repo_path`: the path is taken below `Cde_app_dir`. -/
def addMultiRepoPath (appDir : CString) (st : Parsed) (p : CString) : Except Fatal Parsed := do
  let tmp := appDir ++ str "/" ++ p
  let paths ← addToArrayInternal st.opts.multiRepoPaths tmp (str "multi_repo_paths")
  return { st with opts.multiRepoPaths := paths }

/-- `CDE_add_ignore_process` -/
def addIgnoreProcess (st : Parsed) (p : CString) : Except Fatal Parsed := do
  let processIgnores := st.opts.processIgnores ++ [⟨p, []⟩]
  if 50 ≤ processIgnores.length then
    throw (.exit (str "Fatal error in cde.options: more than 50 'ignore_process' entries\n"))
  return { st with opts.processIgnores := processIgnores }

/-- Attach a prefix to the latest element of `process_ignores`. -/
def addProcessIgnorePrefix (st : Parsed) (p : CString) : Except Fatal Parsed := do
  let some cur := st.opts.processIgnores.getLast? | throw .assertion
  let paths := cur.processIgnorePrefixPaths ++ [p]
  if 20 ≤ paths.length then
    throw (.exit (str "Fatal error in cde.options: more than 20 'process_ignore_prefix' entries\n"))
  let cur := { cur with processIgnorePrefixPaths := paths }
  return { st with opts.processIgnores := st.opts.processIgnores.dropLast ++ [cur] }

/-- The `switch` on `set_id`. -/
def addOption (appDir : CString) (st : Parsed) (key : OptionKey) (p : CString) :
    Except Fatal Parsed :=
  match key with
  | .array .ignoreExact => addIgnoreExactPath st p
  | .array .ignorePrefix => addIgnorePrefixPath st p
  | .array .ignoreEnvironmentVar => addIgnoreEnvvar st p
  | .array .redirectExact => addRedirectExactPath st p
  | .array .redirectPrefix => addRedirectPrefixPath st p
  | .array .ignoreSubstr => addIgnoreSubstrPath st p
  | .array .redirectSubstr => addRedirectSubstrPath st p
  | .ignoreProcess => addIgnoreProcess st p
  | .array .multiRepoPath => addMultiRepoPath appDir st p
  | .processIgnorePrefix => addProcessIgnorePrefix st p

/-! ## Lines -/

/-- Strip off leading and trailing spaces. -/
def strip (line : CString) : CString := strRstrip (line.dropWhile isspace)

/-- The loop over the tokens of a line, which stops after the second one. -/
def parseTokens (appDir : CString) (st : Parsed) : List CString → Except Fatal Parsed
  | [] => return st
  | token :: rest => do
    let some key := findKey token
      | throw (.exit (str "Fatal error in cde.options: unrecognized token '" ++ token ++ str "'\n"))
    if key = .processIgnorePrefix ∧ st.inBraces = false then
      throw (.exit (str "Fatal error in cde.options: 'process_ignore_prefix' must be enclosed in \x7b \x7d " ++
        str "after an 'ignore_process' directive\n"))
    if st.inBraces = true ∧ key ≠ .processIgnorePrefix then
      throw (.exit (str "Fatal error in cde.options: Only 'process_ignore_prefix' is allowed within \x7b \x7d " ++
        str "after an 'ignore_process' directive\n"))
    match rest with
    | [] => return st
    | p :: _ => addOption appDir st key p

/-- A stripped line that is not the first one. -/
def parseStripped (appDir : CString) (st : Parsed) (line : CString) : Except Fatal Parsed :=
  match line with
  | [] => .ok st
  | c :: _ =>
    if c = sharp then .ok st
    else if c = openBrace then
      -- ignore_process must've come first!
      if st.opts.processIgnores = [] then .error .assertion else .ok { st with inBraces := true }
    else if c = closeBrace then .ok { st with inBraces := false }
    else parseTokens appDir st (strtok line equalsSign)

/-- One round of the loop, without `getline`. -/
def parseLine (appDir : CString) (st : Parsed) (line : CString) : Except Fatal Parsed :=
  if st.isFirstLine then
    if startsWith (strip line) optionsVersionNum then .ok { st with isFirstLine := false }
    else .error (.exit (str "Error: cde.options file incompatible with this version of cde ('" ++
      optionsVersionNum ++ str "')\n"))
  else parseStripped appDir st (strip line)

/-- `line` and `len`: the size of the buffer, and how far `line` points into it. -/
structure LineBuffer where
  size : ℕ := 0
  offset : ℕ := 0
  deriving DecidableEq, Repr

/-- `getline(&line, &len, f)` of a line and the `line++` on its leading spaces. The line needs
room for its newline and a NUL; `grow` is the size that `getline` gives a buffer that is too
small. A pointer into the buffer can neither be reallocated nor written `len` bytes. -/
def LineBuffer.read (grow : ℕ → ℕ → ℕ) (b : LineBuffer) (line : CString) : Except Fatal LineBuffer :=
  let needed := line.length + 2
  let indent := (line.takeWhile isspace).length
  if b.offset = 0 then .ok ⟨if needed ≤ b.size then b.size else grow b.size needed, indent⟩
  else if b.offset + needed ≤ b.size then .ok ⟨b.size, b.offset + indent⟩
  else .error .segv

/-- What is given to `CDE_init_options`. -/
structure OptionsEnv where
  /-- `Cde_exec_mode` -/
  execMode : Bool
  /-- `cde_cderoot_dir` -/
  cderootDir : CString
  /-- `Cde_app_dir` -/
  appDir : CString
  /-- `local_network_settings` -/
  localNetworkSettings : Bool
  grow : ℕ → ℕ → ℕ

def readLine (env : OptionsEnv) (st : LineBuffer × Parsed) (line : CString) :
    Except Fatal (LineBuffer × Parsed) := do
  let buffer ← st.1.read env.grow line
  let parsed ← parseLine env.appDir st.2 line
  return (buffer, parsed)

/-! ### What `getline` is given -/

/-- `line`, NULL or how far it points into the block that `getline` last returned, and `len`, with
the capacity of that block. -/
structure LineVars where
  line : Option ℕ := none
  len : ℕ := 0
  capacity : ℕ := 0
  deriving DecidableEq, Repr

/-- What `getline` requires: `line` is NULL or the start of its block, and `len` the capacity. -/
def LineVars.Owned (v : LineVars) : Prop := (v.line = none ∨ v.line = some 0) ∧ v.len = v.capacity

instance (v : LineVars) : Decidable v.Owned := inferInstanceAs (Decidable (_ ∧ _))

/-- `getline(&line, &len, f)` of a line that needs so many bytes. Only the start of a block can be
reallocated. -/
def LineVars.getline (grow : ℕ → ℕ → ℕ) (v : LineVars) (needed : ℕ) : Except Fatal LineVars :=
  match v.line with
  | none => .ok ⟨some 0, grow v.len needed, grow v.len needed⟩
  | some 0 => .ok (if needed ≤ v.len then v else ⟨some 0, grow v.len needed, grow v.len needed⟩)
  | some offset => if needed ≤ v.len ∧ offset + needed ≤ v.capacity then .ok v else .error .segv

/-- `line++` -/
def LineVars.advance (v : LineVars) (n : ℕ) : LineVars := { v with line := v.line.map (· + n) }

/-- What is left of a line that the loop has read, up to its first NUL. -/
def parseRead (env : OptionsEnv) (st : Parsed) (line : CString) : Except Fatal Parsed :=
  parseLine env.appDir st (line.takeWhile (· != 0))

/-- One round of the loop. -/
def readRound (env : OptionsEnv) (st : LineVars × Parsed) (line : CString) :
    Except Fatal (LineVars × Parsed) := do
  let vars ← st.1.getline env.grow (line.length + 2)
  let parsed ← parseRead env st.2 line
  return (vars.advance (line.takeWhile isspace).length, parsed)

/-- The variables at each call of `getline`. The last call is at the end of the file, or reads what
stands behind the last newline. -/
def getlineCalls (env : OptionsEnv) (st : LineVars × Parsed) : List CString → List LineVars
  | [] => [st.1]
  | line :: lines =>
    st.1 :: match readRound env st line with
      | .ok st' => getlineCalls env st' lines
      | .error _ => []

/-- The message when there is no options file. -/
def missingMessage (env : OptionsEnv) : CString :=
  str "Fatal error: missing cde.options file\n" ++
    if env.execMode then
      str "(trying to locate file at " ++ env.cderootDir ++ str "/../cde.options)\n"
    else []

/-- `CDE_init_options` on the text of the file, with the arrays as they are when it is called. -/
def initOptionsFrom (env : OptionsEnv) (start : Parsed) (file : Option CString) : Except Fatal Parsed := do
  let some text := file | throw (.exit (missingMessage env))
  let pieces := text.splitOn newline
  let st ← pieces.dropLast.foldlM (readLine env) ({}, start)
  -- the last line must end with a newline
  if pieces.getLast? ≠ some [] then throw .assertion
  return st.2

/-- `CDE_init_options` with empty arrays, in a run without `-i` and `-p`. -/
def initOptions (env : OptionsEnv) (file : Option CString) : Except Fatal Parsed :=
  initOptionsFrom env {} file

/-- The options of the command line that add a rule, with their `optarg`. -/
inductive RuleOption where
  | i (optarg : CString)
  | p (optarg : CString)
  deriving DecidableEq, Repr

/-- The cases `'i'` and `'p'` of the loop over the options. -/
def addRuleOption (st : Parsed) : RuleOption → Except Fatal Parsed
  | .i optarg => addIgnoreExactPath st optarg
  | .p optarg => addIgnorePrefixPath st optarg

/-- The options of the command line are read first, then `CDE_init` calls `CDE_init_options`. -/
def initOptionsAfter (env : OptionsEnv) (ruleOptions : List RuleOption) (file : Option CString) :
    Except Fatal Parsed := do
  let start ← ruleOptions.foldlM addRuleOption {}
  initOptionsFrom env start file

/-! ## The generated file -/

/-- The lines on network settings that `CDE_init` writes into a fresh `cde.options`. -/
def networkLines (localNetworkSettings : Bool) : List CString :=
  if localNetworkSettings then
    [str "ignore_exact=/etc/resolv.conf", str "ignore_exact=/etc/host.conf",
      str "ignore_exact=/etc/hosts", str "ignore_exact=/etc/nsswitch.conf",
      str "ignore_exact=/etc/gai.conf"]
  else
    [str "# These files might be useful to ignore if you have network issues.",
      str "# (un-comment if you want to try them)", str "#ignore_exact=/etc/resolv.conf",
      str "#ignore_exact=/etc/host.conf", str "#ignore_exact=/etc/hosts",
      str "#ignore_exact=/etc/nsswitch.conf", str "#ignore_exact=/etc/gai.conf"]

/-- The lines before and after one that is no directive. -/
def defaultLinesBefore : List CString :=
  [optionsVersionNum ++ str " (do not alter this first line!)",
    [], str "# These directories often contain pseudo-files that shouldn't be tracked",
    str "ignore_prefix=/dev/", str "ignore_exact=/dev", str "ignore_prefix=/proc/",
    str "ignore_exact=/proc", str "ignore_prefix=/sys/", str "ignore_exact=/sys",
    str "ignore_prefix=/var/cache/", str "ignore_prefix=/var/lock/", str "ignore_prefix=/var/log/",
    str "ignore_prefix=/var/run/", str "ignore_prefix=/var/tmp/", str "ignore_prefix=/tmp/",
    str "ignore_exact=/tmp",
    [], str "# un-comment the entries below if you think they might help your app:",
    str "#ignore_exact=/etc/ld.so.cache", str "#ignore_exact=/etc/ld.so.preload",
    str "#ignore_exact=/etc/ld.so.nohwcap",
    [], str "# Ignore .Xauthority to allow X Windows programs to work",
    str "ignore_substr=.Xauthority"]

def defaultLinesAfter : List CString :=
  [[], str "# Access the target machine's password files:",
    str "# (some programs like texmacs need these lines to be commented-out,",
    str "#  since they try to use home directory paths within the passwd file,",
    str "#  and those paths might not exist within the package.)",
    str "ignore_prefix=/etc/passwd", str "ignore_prefix=/etc/shadow",
    [], str "# These environment vars might lead to 'overfitting' and hinder portability",
    str "ignore_environment_var=DBUS_SESSION_BUS_ADDRESS",
    str "ignore_environment_var=ORBIT_SOCKETDIR", str "ignore_environment_var=SESSION_MANAGER",
    str "ignore_environment_var=XAUTHORITY", str "ignore_environment_var=DISPLAY"]

/-- A line of the generated file without a key. -/
def strayLine : CString := str "/home/fried-liver/Desktop/depaul/provenance-to-use"

def defaultLines (localNetworkSettings : Bool) : List CString :=
  defaultLinesBefore ++ strayLine :: (networkLines localNetworkSettings ++ defaultLinesAfter)

/-- The text of a fresh `cde.options`. -/
def defaultOptions (localNetworkSettings : Bool) : CString :=
  Delimited.terminated newline (defaultLines localNetworkSettings)

/-- The part of `CDE_init` on the options: an audit first writes the file if there is none. -/
def loadOptions (env : OptionsEnv) (file : Option CString) : Except Fatal Parsed :=
  initOptions env <|
    if env.execMode then file else some (file.getD (defaultOptions env.localNetworkSettings))

end Ptu
