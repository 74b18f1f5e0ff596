import Ptu.Spec.Okapi
import Ptu.Spec.Trie

/-!
# Redirection of paths into cde-root

The global variables of `cde.c` that decide what happens to a path, and the functions
that decide: `ignore_path`, `extract_sandboxed_pwd`, `create_abspath_within_cderoot`,
`redirect_filename_into_cderoot` and `copy_file_into_cde_root`. What these functions do
besides returning a value is kept in `Effects`, which is passed along.
-/

namespace Ptu

/-- `struct PI`: an `ignore_process` entry. -/
structure ProcessIgnore where
  processName : CString
  processIgnorePrefixPaths : List CString
  deriving DecidableEq, Repr

/-- The arrays `CDE_init_options` fills. -/
structure Options where
  ignoreExactPaths : List CString := []
  ignorePrefixPaths : List CString := []
  ignoreSubstrPaths : List CString := []
  redirectExactPaths : List CString := []
  redirectPrefixPaths : List CString := []
  redirectSubstrPaths : List CString := []
  multiRepoPaths : List CString := []
  processIgnores : List ProcessIgnore := []
  deriving DecidableEq, Repr

/-- A call of `create_mirror_file`. -/
structure MirrorCall where
  filenameAbspath : CString
  srcPrefix : CString
  dstPrefix : CString
  deriving DecidableEq, Repr

/-- What the tracer has done so far: the file system, of which the package is a part, the calls of
`create_mirror_file` that have returned, the lines of `cde-copied-files.log`, the trie of cached files
and the lines of `locally-cached-files.txt`. -/
structure Effects where
  fs : Fs := fun _ => none
  mirrored : List MirrorCall := []
  copied : List CString := []
  trie : Trie := trieNew
  cached : List CString := []

/-- The global variables of `cde.c`, and the machine that the tracer runs on. -/
structure Cde where
  /-- `Cde_exec_mode` -/
  execMode : Bool
  /-- `cde_cderoot_dir` -/
  cderootDir : CString := []
  /-- `CDE_ROOT_DIR` -/
  rootDir : CString := []
  /-- `cde_starting_pwd` -/
  startingPwd : CString := []
  /-- `cde_exec_from_outside_cderoot` -/
  execFromOutside : Bool := false
  /-- `CDE_exec_streaming_mode` -/
  streamingMode : Bool := false
  /-- `cde_remote_root_dir` -/
  remoteRootDir : CString := []
  /-- `cached_files_fp` is open -/
  cachedFilesFp : Bool := true
  /-- `CDE_copied_files_logfile` is open (`-c`) -/
  copiedFilesLogfile : Bool := false
  /-- `Prov_no_app_capture` -/
  noAppCapture : Bool := false
  opts : Options := {}
  host : Host := {}
  /-- how deep `create_mirror_symlink_and_target` may be nested before the stack is full -/
  stackDepth : ℕ := 41

/-- A path as the tracer passes it to the kernel: a relative one is read from its working directory, which
it never leaves. -/
def Cde.hostPath (g : Cde) (path : CString) : CString :=
  if isAbspath path || path = [] then path else g.startingPwd ++ slash :: path

/-- Whether `stat` succeeds. -/
def Cde.stat (g : Cde) (fs : Fs) (path : CString) : Bool := (Ptu.stat g.host fs (g.hostPath path)).isSome

/-- One of the `exact`, `prefix` or `substr` rules matches. -/
def matchesRules (exact pre substr : List CString) (filename : CString) : Bool :=
  exact.contains filename || pre.any (startsWith filename) || substr.any (strstr filename)

def Options.redirects (o : Options) : CString → Bool :=
  matchesRules o.redirectExactPaths o.redirectPrefixPaths o.redirectSubstrPaths

def Options.ignores (o : Options) : CString → Bool :=
  matchesRules o.ignoreExactPaths o.ignorePrefixPaths o.ignoreSubstrPaths

/-- The process-specific rules, which take precedence over the global ones. -/
def ProcessIgnore.ignores (pi : ProcessIgnore) (filename : CString) : Bool :=
  filename == pi.processName || pi.processIgnorePrefixPaths.any (startsWith filename)

/-- `create_mirror_file_in_cde_package` -/
def createMirrorFileInCdePackage (g : Cde) (call : MirrorCall) (e : Effects) : Except Fatal Effects := do
  if g.noAppCapture then return e
  let fs ← createMirrorFile g.host g.stackDepth call.filenameAbspath call.srcPrefix call.dstPrefix e.fs
  return { e with fs, mirrored := e.mirrored ++ [call] }

/-- Streaming mode: fetch a path that is not in the trie yet. -/
def streamFile (g : Cde) (path : CString) (e : Effects) : Except Fatal Effects := do
  if ← trieContains path e.trie then return e
  let e ← createMirrorFileInCdePackage g ⟨path, g.remoteRootDir, g.cderootDir⟩ e
  let trie ← trieInsert path e.trie
  return { e with trie, cached := if g.cachedFilesFp then e.cached ++ [path] else e.cached }

/-- `create_abspath_within_cderoot` -/
def createAbspathWithinCderoot (g : Cde) (path : CString) (e : Effects) :
    Except Fatal (CString × Effects) := do
  if !isAbspath path then throw .assertion
  if g.execMode then
    -- the path may already be within cde-root, then it is not redirected again
    if startsWith path g.cderootDir then return (path, e)
    let e ← if g.streamingMode then streamFile g path e else pure e
    return (g.cderootDir ++ path, e)
  else
    let ret ← canonicalizePath (g.rootDir ++ path) g.startingPwd
    if !isAbspath ret then throw .assertion
    return (ret, e)

/-- `ignore_path`. The optional `tcp` is only used for its `p_ignores`. -/
def ignorePath (g : Cde) (filename : CString) (pIgnores : Option ProcessIgnore) (e : Effects) :
    Except Fatal (Bool × Effects) := do
  -- a bogus empty filename is ignored
  if filename = [] then return (true, e)
  if !isAbspath filename then throw .assertion
  if pIgnores.any (·.ignores filename) then return (true, e)
  -- redirect paths override ignore paths
  if g.opts.redirects filename then return (false, e)
  if g.opts.ignores filename then return (true, e)
  if g.execFromOutside then
    -- use the version within cde-root if there is one, else the one of the host
    let (redirected, e) ← createAbspathWithinCderoot g filename e
    return (!g.stat e.fs redirected, e)
  return (false, e)

/-- `get_repo_path_id`, `none` for -1. -/
def getRepoPathId (g : Cde) (path : CString) : Option ℕ :=
  g.opts.multiRepoPaths.findIdx? (startsWith path)

/-- `is_cde_binary` -/
def isCdeBinary (s : CString) : Bool :=
  endswith s (str "/cde") || endswith s (str "/cde-exec") || endswith s (str "/ptu") ||
    endswith s (str "/ptu-exec")

/-- The message of `extract_sandboxed_pwd` before it exits. -/
def outsideMessage (realPwd : CString) : CString :=
  str "Fatal error: '" ++ realPwd ++ str "' is outside of cde-root/ and NOT being ignored.\n"

/-- `extract_sandboxed_pwd` -/
def extractSandboxedPwd (g : Cde) (realPwd : CString) (pIgnores : Option ProcessIgnore)
    (e : Effects) : Except Fatal (CString × Effects) := do
  if !g.execMode then throw .assertion
  let within := startsWith realPwd g.cderootDir
  let (ignored, e) ← ignorePath g realPwd pIgnores e
  if ignored && !within then return (realPwd, e)
  if !within then
    if g.execFromOutside || (getRepoPathId g realPwd).isSome then return (realPwd, e)
    else throw (.exit (outsideMessage realPwd))
  let sandboxedPwd := realPwd.drop g.cderootDir.length
  -- special case for the root directory
  if sandboxedPwd = [] then return (str "/", e) else return (sandboxedPwd, e)

/-- `redirect_filename_into_cderoot`, `none` for NULL. -/
def redirectFilenameIntoCderoot (g : Cde) (filename childCurrentPwd : CString)
    (pIgnores : Option ProcessIgnore) (e : Effects) : Except Fatal (Option CString × Effects) := do
  let (base, e) ←
    if g.execMode then extractSandboxedPwd g childCurrentPwd pIgnores e else pure (childCurrentPwd, e)
  let filenameAbspath ← canonicalizePath filename base
  if (getRepoPathId g filenameAbspath).isSome then return (some filenameAbspath, e)
  if isCdeBinary filenameAbspath then return (none, e)
  let (ignored, e) ← ignorePath g filenameAbspath pIgnores e
  if ignored then return (none, e)
  let (ret, e) ← createAbspathWithinCderoot g filenameAbspath e
  return (some ret, e)

/-- `copy_file_into_cde_root` -/
def copyFileIntoCdeRoot (g : Cde) (filename childCurrentPwd : CString) (e : Effects) :
    Except Fatal Effects := do
  if g.execMode then throw .assertion
  let filenameAbspath ← canonicalizePath filename childCurrentPwd
  let (ignored, e) ← ignorePath g filenameAbspath none e
  if ignored then return e
  if (getRepoPathId g filenameAbspath).isSome then return e
  let e := if g.copiedFilesLogfile then { e with copied := e.copied ++ [filenameAbspath] } else e
  createMirrorFileInCdePackage g ⟨filenameAbspath, [], g.rootDir⟩ e

end Ptu
