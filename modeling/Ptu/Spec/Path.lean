import Ptu.Spec.CString

/-!
# Path objects of okapi

`struct path` and the functions of `okapi.c` that build, cut and print it. The stack
of name components is kept as the list of its first `depth` entries; `stacksize` and
the local `stackleft` of `new_path_internal` are carried along as the source updates
them.
-/

namespace Ptu

/-- `struct path` -/
structure Path where
  stacksize : ℕ
  isAbspath : Bool
  stack : List CString
  deriving DecidableEq, Repr

/-- `path->depth` -/
def Path.depth (p : Path) : ℕ := p.stack.length

/-- `new_path` -/
def newPath (isAbspath : Bool) : Path := ⟨1, isAbspath, []⟩

/-- `path_pop` -/
def pathPop (p : Path) : Path := { p with stack := p.stack.dropLast }

/-- The variables of the loop of `new_path_internal`: `base` and `stackleft`. -/
structure NewPath where
  base : Path
  stackleft : ℕ

/-- Double the stack when at most one slot is left. One round of the source's `while`
is enough, since it leaves `stacksize + 1 ≥ 2` slots. -/
def NewPath.grow (st : NewPath) : NewPath :=
  if st.stackleft ≤ 1 then
    ⟨{ st.base with stacksize := 2 * st.base.stacksize + 1 }, st.base.stacksize + 1⟩
  else st

/-- What the loop body does with one component. -/
def NewPath.component (st : NewPath) (comp : CString) : NewPath :=
  if comp = [] then st
  else if comp = str "." then st
  else if comp = str ".." then
    if 0 < st.base.depth then
      ⟨{ st.base with stack := st.base.stack.dropLast }, st.stackleft + 1⟩
    else st
  else ⟨{ st.base with stack := st.base.stack ++ [comp] }, st.stackleft - 1⟩

/-- The loop of `new_path_internal` on the rest of the path. Every round but the last
consumes a slash, so `fuel` above the length of the path never runs out. -/
def newPathLoop : ℕ → CString → NewPath → NewPath
  | 0, _, st => st
  | fuel + 1, path, st =>
    let st := st.grow
    -- skip multiple adjoining slashes
    let path := path.dropWhile (· == slash)
    let comp := path.takeWhile (· != slash)
    let st := st.component comp
    match path.dropWhile (· != slash) with
    | [] => st
    | _ :: path => newPathLoop fuel path st

/-- `new_path_internal` -/
def newPathInternal (path : CString) (isAbspath : Bool) : Path :=
  let path := if isAbspath then path.tail else path
  (newPathLoop (path.length + 1) path ⟨newPath isAbspath, 0⟩).base

/-- `new_path_from_abspath` -/
def newPathFromAbspath (path : CString) : Except Fatal Path :=
  if isAbspath path then .ok (newPathInternal path true) else .error .assertion

/-- `new_path_from_relpath` -/
def newPathFromRelpath (relpath base : CString) : Except Fatal Path :=
  if isAbspath relpath then .error .assertion
  else if isAbspath base then newPathFromAbspath (base ++ slash :: relpath)
  else .error .assertion

/-- The components with a `'/'` before each but the first. -/
def joinSlash : List CString → CString
  | [] => []
  | [c] => c
  | c :: cs => c ++ slash :: joinSlash cs

/-- `path2str`: at most `depth` components, all of them when `depth` is 0 or too large. -/
def path2str (p : Path) (depth : ℕ) : CString :=
  let depth := if depth = 0 ∨ p.depth < depth then p.depth else depth
  (if p.isAbspath then [slash] else []) ++ joinSlash (p.stack.take depth)

/-- `canonicalize_abspath` -/
def canonicalizeAbspath (abspath : CString) : Except Fatal CString := do
  let p ← newPathFromAbspath abspath
  return path2str p 0

/-- `canonicalize_relpath` -/
def canonicalizeRelpath (relpath base : CString) : Except Fatal CString := do
  let p ← newPathFromRelpath relpath base
  return path2str p 0

/-- `canonicalize_path` -/
def canonicalizePath (path relpathBase : CString) : Except Fatal CString :=
  if isAbspath path then canonicalizeAbspath path else canonicalizeRelpath path relpathBase

/-- `canonicalize_path` of a pointer that may be NULL: `IS_ABSPATH` is false for it, and `format` prints it
as `(null)`. -/
def canonicalizePathOrNull (path : Option CString) (relpathBase : CString) : Except Fatal CString :=
  canonicalizePath (path.getD (str "(null)")) relpathBase

/-- A canonical path with a `'/'` tacked on to its end, unless it is simply `/`. -/
def tackSlash (cano : CString) : CString := if 1 < cano.length then cano ++ [slash] else cano

/-- `file_is_within_dir` -/
def fileIsWithinDir (filename targetDir relativePathBasedir : CString) : Except Fatal Bool := do
  let canoDir := tackSlash (← canonicalizeAbspath targetDir)
  let canoFilename := tackSlash (← canonicalizePath filename relativePathBasedir)
  return decide (canoDir.length ≤ canoFilename.length) && startsWith canoFilename canoDir

/-- The name components of an absolute path, as `new_path_from_abspath` finds them. -/
def components (abspath : CString) : List CString := (newPathInternal abspath true).stack

end Ptu
