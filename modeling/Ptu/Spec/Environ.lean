import Ptu.Spec.Options

/-!
# Environment variables

`load_environment_vars_from_mem` and `CDE_load_environment_vars`, which replace the environment of
the tracer by a captured one, and the values of the ignored variables that `CDE_add_ignore_envvar`
saves before that. An environment is the list of its strings `name=value`, as in `environ`.
-/

namespace Ptu

/-- `environ` -/
abbrev Environ := List CString

/-- Is this the string of the variable `name`? -/
def isVar (name s : CString) : Bool := startsWith s (name ++ [equalsSign])

/-- `getenv` -/
def getenv (environ : Environ) (name : CString) : Option CString :=
  if name = [] then none else (environ.find? (isVar name)).map (·.drop (name.length + 1))

/-- `setenv(name, val, 0)`: an old value stays, and a name that is empty or has a `=` is refused. -/
def setenv (environ : Environ) (name val : CString) : Environ :=
  if name = [] ∨ equalsSign ∈ name then environ
  else if environ.any (isVar name) then environ
  else environ ++ [name ++ equalsSign :: val]

/-- `ignore_envvars[i]` and `ignore_envvars_values[i]` -/
structure IgnoredVar where
  name : CString
  value : Option CString := none
  deriving DecidableEq, Repr

/-- `CDE_add_ignore_envvar`, with the values it saves from the environment `host`. -/
def addIgnoredVar (host : Environ) (vars : List IgnoredVar) (p : CString) :
    Except Fatal (List IgnoredVar) := do
  let _ ← addToArrayInternal (vars.map (·.name)) p (str "ignore_envvars")
  return (vars ++ [IgnoredVar.mk p none]).map fun v => { v with value := (getenv host v.name).or v.value }

/-- The `ignore_environment_var` directives of an option file, in the order of the file. -/
def ignoredVars (host : Environ) (names : List CString) : Except Fatal (List IgnoredVar) :=
  names.foldlM (addIgnoredVar host) []

/-- One round of `load_environment_vars_from_mem`: split at the first `=`, and set the variable,
an ignored one to the value saved for it. -/
def loadEntry (ignored : List IgnoredVar) (environ : Environ) (entry : CString) : Environ :=
  let name := entry.takeWhile (· != equalsSign)
  if equalsSign ∉ entry ∨ name = [] then environ
  else
    match ignored.find? (·.name == name) with
    | some v =>
      match v.value with
      | some value => setenv environ name value
      | none => environ
    | none => setenv environ name (entry.drop (name.length + 1))

/-- The loop of `load_environment_vars_from_mem`. Every round passes a byte, so `fuel` for all of
them never runs out. -/
def loadLoop (ignored : List IgnoredVar) : ℕ → List Byte → Environ → Except Fatal Environ
  | 0, _, _ => .error .segv
  | _ + 1, [], _ => .error .segv
  | fuel + 1, c :: mem, environ =>
    if c = 0 then .ok environ
    else
      -- `strchr(environ_str, '\0') + 1`
      match (c :: mem).dropWhile (· != 0) with
      | [] => .error .segv
      | _ :: next => loadLoop ignored fuel next (loadEntry ignored environ ((c :: mem).takeWhile (· != 0)))

/-- `load_environment_vars_from_mem`, where `mem` is what can be read from `environ_start` on. -/
def loadEnvironmentVarsFromMem (ignored : List IgnoredVar) (mem : List Byte) (environ : Environ) :
    Except Fatal Environ :=
  loadLoop ignored mem.length mem environ

/-- The offsets that `load_environment_vars_from_mem` examines, from an entry at `offset` on: all of the
entry with its NUL, for the search for the NUL goes through it. Where `mem` ends, the byte behind it is
examined. -/
def examinedLoop : ℕ → ℕ → List Byte → List ℕ
  | 0, _, _ => []
  | _ + 1, offset, [] => [offset]
  | fuel + 1, offset, c :: mem =>
    if c = 0 then [offset]
    else
      let entry := (c :: mem).takeWhile (· != 0)
      List.range' offset (entry.length + 1) ++
        match (c :: mem).dropWhile (· != 0) with
        | [] => []
        | _ :: next => examinedLoop fuel (offset + entry.length + 1) next

/-- The offsets that `load_environment_vars_from_mem` examines. -/
def examinedOffsets (mem : List Byte) : List ℕ := examinedLoop (mem.length + 1) 0 mem

/-- The size of a page. -/
def pageSize : ℕ := 4096

/-- What `mmap` shows of a file: zeros fill its last page. (`mmap` of an empty file fails, and its
result is not checked.) -/
def mapped (content : List Byte) : List Byte :=
  content ++ List.replicate ((pageSize - content.length % pageSize) % pageSize) 0

/-- `cde_full_environment_abspath` -/
def fullEnvironmentAbspath (cderootDir repoName : CString) : CString :=
  cderootDir ++ str "/../cde.full-environment." ++ repoName

/-- `CDE_load_environment_vars`, where `files` gives the content of a file or what `perror` says about
it. The old environment is cleared. -/
def loadEnvironmentVars (cderootDir repoName : CString) (files : CString → Except CString (List Byte))
    (ignored : List IgnoredVar) : Except Fatal Environ :=
  let path := fullEnvironmentAbspath cderootDir repoName
  match files path with
  | .error strerror => .error (.exit (path ++ str ": " ++ strerror ++ str "\n"))
  | .ok content => loadEnvironmentVarsFromMem ignored (mapped content) []

end Ptu
