import Ptu.Spec.Redirect
import Ptu.Spec.Regs

/-!
# The table of traced processes

`alloc_tcb` and `droptcb` of `strace.c`, which give out and take back the entries of `tcbtab`, and
what `cde.c` does with its fields of an entry: `alloc_tcb_cde_fields` and `free_tcb_cde_fields`, and
`CDE_init_tcb_dir_fields`, which lets a new process inherit from its parent. Everything else that
happens to these fields (at an `execve`, a `chdir`, an `open` and so on) is an arbitrary change of the
fields of one process.
-/

namespace Ptu

/-- The fields of `struct tcb` that belong to `cde.c`, with `none` for NULL. -/
structure CdeFields where
  /-- the number of the segment that is attached -/
  localshm : Option ℕ := none
  childshm : Option Word := none
  settingUpShm : Bool := false
  openedFilePaths : List (Option CString) := []
  currentDir : Option CString := none
  pIgnores : Option ProcessIgnore := none
  currentRepoInd : ℤ := 0
  perceivedProgramFullpath : Option CString := none
  deriving DecidableEq, Repr

/-- An entry of `tcbtab`. The default is what `calloc` returns. -/
structure TcbEntry where
  /-- `flags & TCB_INUSE` -/
  inUse : Bool := false
  parent : Option ℕ := none
  cde : CdeFields := {}
  deriving DecidableEq, Repr

/-- What the tracer reads besides the table. -/
structure TcbEnv where
  cde : Cde
  /-- `max_open_files()` -/
  maxOpenFiles : ℕ
  /-- what `getcwd` returns in the tracer -/
  getcwd : CString

/-- `alloc_tcb_cde_fields`, where `shm` is the new segment. -/
def allocTcbCdeFields (env : TcbEnv) (shm : ℕ) (f : CdeFields) : CdeFields :=
  { f with
    localshm := some shm
    childshm := none
    settingUpShm := false
    openedFilePaths := List.replicate env.maxOpenFiles none
    currentDir := none
    pIgnores := none
    currentRepoInd := -1 }

/-- `free_tcb_cde_fields`. The strings of `opened_file_paths` are freed, the array is left as it is. -/
def freeTcbCdeFields (f : CdeFields) : CdeFields :=
  { f with
    localshm := none
    childshm := none
    settingUpShm := false
    pIgnores := none
    currentDir := none
    currentRepoInd := -1 }

/-- `get_repo_path_id` -/
def repoInd (env : TcbEnv) (path : CString) : ℤ :=
  match getRepoPathId env.cde path with
  | some i => i
  | none => -1

/-- `CDE_init_tcb_dir_fields`, with the fields of the parent. -/
def initTcbDirFields (env : TcbEnv) (parent : Option CdeFields) (f : CdeFields) : Except Fatal CdeFields := do
  if f.currentDir.isSome then throw .assertion
  match parent with
  | some p =>
    if p.currentDir.isNone then throw .assertion
    let f := { f with currentDir := p.currentDir, currentRepoInd := p.currentRepoInd, pIgnores := p.pIgnores }
    -- only inherited if it has not been set yet
    if f.perceivedProgramFullpath.isNone then
      return { f with perceivedProgramFullpath := p.perceivedProgramFullpath }
    else return f
  | none => return { f with currentDir := some env.getcwd, currentRepoInd := repoInd env env.getcwd }

/-- `tcbtab` with `nprocs`, and the number of the next shared memory segment. -/
structure TcbTable where
  slots : List TcbEntry
  nprocs : ℕ := 0
  nextShm : ℕ := 0
  deriving DecidableEq, Repr

/-- Change the entry at an index. -/
def updateAt (slots : List TcbEntry) (i : ℕ) (change : TcbEntry → TcbEntry) : List TcbEntry :=
  match slots[i]? with
  | some tcp => slots.set i (change tcp)
  | none => slots

/-- `expand_tcbtab` -/
def expandTcbtab (t : TcbTable) : TcbTable :=
  { t with slots := t.slots ++ List.replicate t.slots.length {} }

/-- `alloc_tcb`, which returns the index of the entry. -/
def allocTcb (env : TcbEnv) (t : TcbTable) : Except Fatal (ℕ × TcbTable) :=
  let t := if t.nprocs = t.slots.length then expandTcbtab t else t
  match t.slots.findIdx? (fun tcp => !tcp.inUse) with
  | none => .error (.exit (str "bug in alloc_tcb\n"))
  | some i =>
    let slots := updateAt t.slots i fun tcp => ⟨true, none, allocTcbCdeFields env t.nextShm tcp.cde⟩
    .ok (i, { slots, nprocs := t.nprocs + 1, nextShm := t.nextShm + 1 })

/-- The fields of `tcp->parent`. -/
def TcbTable.fields (t : TcbTable) (parent : Option ℕ) : Option CdeFields :=
  (parent.bind (t.slots[·]?)).map (·.cde)

/-- A new process: `alloc_tcb`, then its parent is set and `CDE_init_tcb_dir_fields` is called, as in
`startup_child` and `internal_fork`. -/
def createTcb (env : TcbEnv) (parent : Option ℕ) (t : TcbTable) : Except Fatal (ℕ × TcbTable) := do
  let (i, t) ← allocTcb env t
  let some tcp := t.slots[i]? | throw .segv
  let cde ← initTcbDirFields env (t.fields parent) tcp.cde
  return (i, { t with slots := t.slots.set i { tcp with parent, cde } })

def TcbTable.live (t : TcbTable) (i : ℕ) : Bool := t.slots[i]?.any (·.inUse)

/-- `droptcb` of a process without other threads; a free entry has no `pid`. -/
def droptcb (i : ℕ) (t : TcbTable) : TcbTable :=
  if t.live i then
    { t with slots := updateAt t.slots i fun tcp => ⟨false, none, freeTcbCdeFields tcp.cde⟩, nprocs := t.nprocs - 1 }
  else t

/-- What a system call of a process may do to its fields: anything, but a process always has a
working directory. -/
structure FieldChange where
  apply : CdeFields → CdeFields
  keepsDir : ∀ f, f.currentDir.isSome = true → (apply f).currentDir.isSome = true

/-- What happens to the table. -/
inductive TcbEvent where
  /-- the first process, or a child of the process at an index -/
  | create (parent : Option ℕ)
  /-- a system call that changes the fields of a process, such as `execve` -/
  | act (i : ℕ) (change : FieldChange)
  | exit (i : ℕ)

/-- An event of a process that is not there does not happen. -/
def TcbEvent.run (env : TcbEnv) : TcbEvent → TcbTable → Except Fatal TcbTable
  | .create parent, t =>
    if parent.all t.live then (createTcb env parent t).map (·.2) else .ok t
  | .act i change, t =>
    .ok (if t.live i then { t with slots := updateAt t.slots i fun tcp => { tcp with cde := change.apply tcp.cde } }
      else t)
  | .exit i, t => .ok (droptcb i t)

/-- A run. The table has `argc` entries at first, all of them free. -/
def runTcbs (env : TcbEnv) (argc : ℕ) (events : List TcbEvent) : Except Fatal TcbTable :=
  events.foldlM (fun t event => event.run env t) { slots := List.replicate argc {} }

end Ptu
