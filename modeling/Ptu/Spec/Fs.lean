import Ptu.Lib.Walk
import Ptu.Spec.Pathname

/-!
# The file system

A file system is a tree of directories, regular files and symbolic links, the text of a
link being a C string. The kernel reads a pathname as its list of components; a slash at
the end asks for a directory, like `/.`. The system calls take absolute paths here.
-/

namespace Ptu

open Pathname

/-- A regular file: what `read` returns and `st_mtime`. -/
structure File where
  content : List Byte
  mtime : ℕ := 0
  deriving DecidableEq, Repr

/-- A file system, by real paths. -/
abbrev Fs := Tree CString File CString

/-- A file system proper: the root is a directory, objects are in directories and have names
that can be written in a path, and no link is empty. -/
structure WellFormed (fs : Fs) : Prop where
  root : fs [] = some .dir
  parent : ∀ p a nd, fs (p ++ [a]) = some nd → fs p = some .dir
  valid : ∀ p nd, fs p = some nd → ValidPath p
  target : ∀ p t, fs p = some (.link t) → t ≠ []

/-- A file system given by the list of its objects. -/
def Fs.ofList (l : List (List CString × Node File CString)) : Fs := fun p => l.lookup p

theorem Fs.wellFormed_ofList {l : List (List CString × Node File CString)}
    (hroot : Fs.ofList l [] = some .dir)
    (h : ∀ x ∈ l, ValidPath x.1 ∧ Fs.ofList l x.1.dropLast = some .dir ∧ x.2 ≠ .link []) :
    WellFormed (Fs.ofList l) := by
  have hmem : ∀ {p nd}, Fs.ofList l p = some nd → (p, nd) ∈ l := by
    intro p nd hp
    obtain ⟨l₁, l₂, rfl, -⟩ := List.lookup_eq_some_iff.1 hp
    simp
  refine ⟨hroot, ?_, ?_, ?_⟩
  · intro p a nd hp
    have := (h _ (hmem hp)).2.1
    rwa [List.dropLast_concat] at this
  · intro p nd hp
    exact (h _ (hmem hp)).1
  · rintro p t hp rfl
    exact (h _ (hmem hp)).2.2 rfl

theorem Fs.empty_ofList {l : List (List CString × Node File CString)} {d : List CString}
    (h : ∀ x ∈ l, x.1.dropLast ≠ d ∨ x.1 = []) (a : CString) : Fs.ofList l (d ++ [a]) = none := by
  rw [Fs.ofList, List.lookup_eq_none_iff]
  intro x hx
  rw [bne_iff_ne]
  intro heq
  rcases h x hx with h | h
  · exact h (by rw [← heq, List.dropLast_concat])
  · rw [← heq] at h; simp at h

/-- The components the kernel walks for a pathname. -/
def pathComps (s : CString) : List (Comp CString) :=
  comps s ++ if s.getLast? = some slash then [.here] else []

/-- How the kernel reads the text of a symbolic link. -/
def readTarget (text : CString) : Target CString := ⟨isAbspath text, pathComps text⟩

/-- Lookup of a pathname from the working directory `cwd`, with at most `b` links followed. -/
def lookup (fs : Fs) (b : ℕ) (follow : Bool) (cwd : List CString) (s : CString) :
    Option (List CString) :=
  if s = [] then none
  else walk readTarget fs (fun _ => true) follow b (if isAbspath s then [] else cwd) (pathComps s)

/-- The object a pathname resolves to. -/
abbrev resolve (fs : Fs) (b : ℕ) (cwd : List CString) (s : CString) : Option (List CString) :=
  lookup fs b true cwd s

/-! ## System calls -/

/-- What the host decides: how many links a lookup may follow, whether two paths can be hard
linked (`link` fails with `EXDEV` or `EPERM` otherwise), whether the tracer has the permission to read
the object at a real path, how many bytes a call of `read` is ready to return, the clock and the times
of directories. -/
structure Host where
  maxLinks : ℕ := 40
  hardLink : CString → CString → Bool := fun _ _ => true
  mayRead : List CString → Bool := fun _ => true
  readSize : ℕ → ℕ := fun _ => 4096
  now : ℕ := 0
  dirMtime : CString → ℕ := fun _ => 0

/-- `errno`, as far as it is looked at. -/
inductive Errno where
  | eexist
  | other
  deriving DecidableEq, Repr

variable (h : Host)

/-- `lstat` -/
def lstat (fs : Fs) (path : CString) : Option (Node File CString) :=
  (lookup fs h.maxLinks false [] path).bind fs

/-- `stat` -/
def stat (fs : Fs) (path : CString) : Option (Node File CString) :=
  (lookup fs h.maxLinks true [] path).bind fs

/-- `realpath` -/
def realpath (fs : Fs) (path : CString) : Option (List CString) := lookup fs h.maxLinks true [] path

/-- What can be read from a path after `open` or `fopen` for reading, `none` if that fails. From a directory
nothing can be read. -/
def openRead (fs : Fs) (path : CString) : Option (List Byte) :=
  (realpath h fs path).bind fun p =>
    if h.mayRead p then
      match fs p with
      | some (.file f) => some f.content
      | some .dir => some []
      | _ => none
    else none

def Fs.set (fs : Fs) (p : List CString) (nd : Node File CString) : Fs :=
  fun q => if q = p then some nd else fs q

/-- Where a new object called `path` is put. A path that ends in `.` or `..` exists, and only
a directory can be created under a name with a slash at the end. -/
def newEntry (fs : Fs) (dir : Bool) (path : CString) : Except Errno (List CString) :=
  match walk readTarget fs (fun _ => true) true h.maxLinks [] (comps path).dropLast with
  | none => .error .other
  | some p =>
    if isDir fs p then
      match (comps path).getLast? with
      | some (.name a) =>
        if (fs (p ++ [a])).isSome then .error .eexist
        else if !dir && path.getLast? == some slash then .error .other
        else .ok (p ++ [a])
      | _ => .error .eexist
    else .error .other

/-- `mkdir`, whose failures are ignored. -/
def mkdir (fs : Fs) (path : CString) : Fs :=
  match newEntry h fs true path with
  | .ok p => fs.set p .dir
  | .error _ => fs

/-- `symlink`, whose failures lead to a warning only. -/
def symlink (fs : Fs) (target path : CString) : Fs :=
  match newEntry h fs false path with
  | .ok p => fs.set p (.link target)
  | .error _ => fs

/-- `link` -/
def link (fs : Fs) (oldpath newpath : CString) : Except Errno Fs :=
  match lstat h fs oldpath with
  | none => .error .other
  | some nd =>
    match newEntry h fs false newpath with
    | .error e => .error e
    | .ok p => if h.hardLink oldpath newpath && nd != .dir then .ok (fs.set p nd) else .error .other

end Ptu
