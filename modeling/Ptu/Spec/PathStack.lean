import Ptu.Spec.Path

/-!
# The block of a path object

`new_path_internal`, `delete_path` and `path2str` over the memory that they use: the block of pointers that `stack`
points to, with the counters `stacksize`, `depth` and `stackleft`, and the string that `path2str` allocates. Every
access is checked against the size of its block. `malloc` and `realloc` succeed, and the counters are integers without
a bound.
-/

namespace Ptu

/-- What a cell of the block holds: nothing yet, NULL, or a pointer to a component. -/
inductive StackCell where
  | uninit
  | null
  | comp (name : CString)
  deriving DecidableEq, Repr

/-- `struct path`. The block is always allocated with `stacksize` cells. -/
structure PathStack where
  stacksize : ℕ
  depth : ℕ
  isAbspath : Bool
  stack : List StackCell
  length_stack : stack.length = stacksize

/-- The value of `path->stack[i]`. -/
def PathStack.read (p : PathStack) (i : ℕ) : Except Fatal StackCell :=
  match p.stack[i]? with
  | some cell => .ok cell
  | none => .error .segv

/-- `path->stack[i] = cell` -/
def PathStack.write (p : PathStack) (i : ℕ) (cell : StackCell) : Except Fatal PathStack :=
  if i < p.stacksize then
    .ok { p with stack := p.stack.set i cell, length_stack := List.length_set.trans p.length_stack }
  else .error .segv

/-- `free(path->stack[i])`, of NULL or of a component. -/
def PathStack.free (p : PathStack) (i : ℕ) : Except Fatal Unit := do
  match ← p.read i with
  | .uninit => throw .segv
  | _ => return ()

/-- `new_path` -/
def newPathStack (isAbspath : Bool) : Except Fatal PathStack :=
  PathStack.write ⟨1, 0, isAbspath, [.uninit], rfl⟩ 0 .null

/-- The loop that `empty_path` and `delete_path` share. Its fuel lasts until `pos` leaves the block. -/
def PathStack.freeFrom : ℕ → ℕ → PathStack → Except Fatal PathStack
  | 0, _, _ => .error .segv
  | fuel + 1, pos, p => do
    match ← p.read pos with
    | .uninit => throw .segv
    | .null => return p
    | .comp _ => freeFrom fuel (pos + 1) (← p.write pos .null)

/-- `empty_path` -/
def emptyPath (p : PathStack) : Except Fatal PathStack :=
  PathStack.freeFrom (p.stacksize + 1) 0 { p with depth := 0 }

/-- `delete_path` -/
def deletePath (p : PathStack) : Except Fatal Unit := do
  let _ ← PathStack.freeFrom (p.stacksize + 1) 0 p
  return ()

/-! ## `new_path_internal` -/

/-- The variables of the loop: `base` and `stackleft`. -/
structure StackLoop where
  base : PathStack
  stackleft : ℤ

/-- `realloc`: the cells that are new hold nothing. -/
def PathStack.realloc (p : PathStack) (n : ℕ) : PathStack :=
  { p with
    stacksize := n
    stack := (p.stack ++ List.replicate n StackCell.uninit).take n
    length_stack := by simp }

/-- One round of the inner `while`. -/
def StackLoop.growRound (st : StackLoop) : StackLoop :=
  let stacksize := st.base.stacksize * 2
  let stackleft := stacksize / 2
  ⟨st.base.realloc (stacksize + 1), stackleft + 1⟩

/-- The inner `while`. -/
def StackLoop.grow : ℕ → StackLoop → Except Fatal StackLoop
  | 0, _ => .error .segv
  | fuel + 1, st => if st.stackleft ≤ 1 then grow fuel st.growRound else .ok st

/-- What the loop body does with one component. -/
def StackLoop.component (st : StackLoop) (comp : CString) : Except Fatal StackLoop :=
  if comp = [] then do
    return ⟨← st.base.write st.base.depth .null, st.stackleft⟩
  else if comp = str "." then do
    return ⟨← st.base.write st.base.depth .null, st.stackleft⟩
  else if comp = str ".." then
    if 0 < st.base.depth then do
      let base := { st.base with depth := st.base.depth - 1 }
      base.free base.depth
      return ⟨← base.write base.depth .null, st.stackleft + 1⟩
    else .ok st
  else do
    let base ← st.base.write st.base.depth (.comp comp)
    let base := { base with depth := base.depth + 1 }
    return ⟨← base.write base.depth .null, st.stackleft - 1⟩

/-- The outer loop: the variables at the end of each iteration. Every round but the last consumes a slash. -/
def newPathRounds : ℕ → CString → StackLoop → Except Fatal (List StackLoop)
  | 0, _, _ => .error .segv
  | fuel + 1, path, st => do
    -- two rounds leave at least two cells
    let st ← st.grow 3
    let path := path.dropWhile (· == slash)
    let st ← st.component (path.takeWhile (· != slash))
    match path.dropWhile (· != slash) with
    | [] => return [st]
    | _ :: path => return st :: (← newPathRounds fuel path st)

/-- The iterations of `new_path_internal`. -/
def pathStackRounds (path : CString) (isAbspath : Bool) : Except Fatal (List StackLoop) := do
  let base ← newPathStack isAbspath
  let base ← if isAbspath then emptyPath base else .ok base
  let path := if isAbspath then path.tail else path
  newPathRounds (path.length + 1) path ⟨base, (base.stacksize : ℤ) - base.depth - 1⟩

/-- `new_path_internal` -/
def pathStackInternal (path : CString) (isAbspath : Bool) : Except Fatal PathStack := do
  let rounds ← pathStackRounds path isAbspath
  match rounds.getLast? with
  | some st => return st.base
  | none => throw .segv

/-! ## `path2str` -/

/-- `path->stack[i]->str`, with its length `path->stack[i]->len`. -/
def PathStack.name (p : PathStack) (i : ℕ) : Except Fatal CString := do
  match ← p.read i with
  | .comp name => return name
  | _ => throw .segv

/-- What has been written from `ret` to `dest`, and `destlen`. -/
structure DestBuffer where
  written : CString
  destlen : ℤ

/-- Write into the `allocated` bytes, advance `dest` and count `destlen` down. -/
def DestBuffer.put (allocated : ℕ) (d : DestBuffer) (bytes : CString) : Except Fatal DestBuffer :=
  if (d.written ++ bytes).length ≤ allocated then .ok ⟨d.written ++ bytes, d.destlen - bytes.length⟩
  else .error .segv

/-- One round of the loop that prints. -/
def path2strRound (p : PathStack) (allocated depth : ℕ) (d : DestBuffer) (i : ℕ) : Except Fatal DestBuffer := do
  let name ← p.name i
  if d.destlen < name.length + 1 then throw .assertion
  let d ← d.put allocated name
  if i + 1 < depth then
    if d.destlen < 2 then throw .assertion
    d.put allocated [slash]
  else return d

/-- `path2str`: the bytes that are written, with the NUL, and the size that is allocated for them. -/
def path2strStack (p : PathStack) (depth : ℤ) : Except Fatal (CString × ℕ) := do
  let depth := if depth ≤ 0 ∨ (p.depth : ℤ) < depth then p.depth else depth.toNat
  let allocated ← (List.range depth).foldlM (fun n i => (p.name i).map fun name => n + (name.length + 1)) 2
  let d ← if p.isAbspath then DestBuffer.put allocated ⟨[], allocated⟩ [slash] else .ok ⟨[], allocated⟩
  let d ← (List.range depth).foldlM (path2strRound p allocated depth) d
  let d ← d.put allocated [0]
  return (d.written, allocated)

end Ptu
