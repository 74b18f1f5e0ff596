import Ptu.Lib.KeyTree
import Ptu.Spec.ProvLog

/-!
# The notebook kernel

`sciunit_tree.py`, `sciunit_kernel/__main__.py` and `subkernel.py`. The cells of a notebook are executed
by a subkernel, which is checkpointed after each of them. A tree has a node for each checkpoint; the
cursor `tree_node` is the path to a node. A cell that is already there as a child of the cursor is
not executed again, and a subkernel is restored from the checkpoint of the cursor only when
there is a new cell to execute. Kernel and subkernel exchange one message in each direction, of which
both receive 1024 bytes. An exception in `do_execute` leaves the kernel running with what has been
changed before it; one in the subkernel ends it.
-/

namespace Ptu

/-- The text of a cell. -/
abbrev Cell := CString

/-- `HASH_SIZE` bytes, as `hash_to_cint` reads them. -/
abbrev Hash := BitVec 32

/-- `hash_to_pyint` -/
def hashToPyint (hash : Hash) : ℤ :=
  let pyint : ℤ := hash.toNat
  if pyint ≥ 0x80000000 then pyint - 0x100000000 else pyint

/-- The directory of the checkpoint with a hash. -/
def checkpointName (hash : Hash) : CString := str "criu" ++ signedDecimal (hashToPyint hash)

/-- The fields of `Tree` besides its children. -/
structure NodeLabel where
  hash : Hash := 0
  code : Cell := []
  deriving DecidableEq, Repr

/-- `Tree`, with the hash of a child as its key. -/
abbrev Tree := KeyTree Hash NodeLabel

/-- `Tree()` -/
def Tree.init : Tree := .node {} []

variable (digest : Cell → Hash)

/-- The hash that `traverse` computes for a cell, where `digest` gives the last bytes of SHA-1. -/
def childHash (t : Tree) (code : Cell) : Hash := digest code ^^^ t.label.hash

/-- `Tree.traverse`, as far as it changes the node. -/
def traverse (code : Cell) (t : Tree) : Tree :=
  let hash := childHash digest t code
  if (t.child hash).isSome then t
  else .node t.label (t.children ++ [(hash, .node ⟨hash, code⟩ [])])

/-- `Tree.traverse` adds a child. -/
def added (code : Cell) (t : Tree) : Bool := (t.child (childHash digest t code)).isNone

/-- `Tree.revert` of the child with a hash. -/
def revert (hash : Hash) (t : Tree) : Tree := .node t.label (t.children.filter fun kc => kc.1 != hash)

/-! ## Execution -/

/-- How `run_cell` ends in the subkernel. -/
inductive CellOutcome where
  /-- the cell has been executed, with an exception of its own or without -/
  | executed
  /-- the cell does not compile -/
  | errorBeforeExec
  /-- `SystemExit`, which `runcode` does not catch -/
  | exits
  deriving DecidableEq, Repr

/-- A call of `do_execute`: the cell, what becomes of it in the subkernel, and the sizes of the messages. -/
structure CellRun where
  code : Cell
  outcome : CellOutcome := .executed
  /-- the length of `pickle.dumps((code, child.hash))` -/
  request : ℕ := 0
  /-- the length of `pickle.dumps(result)` -/
  reply : ℕ := 0
  /-- the buffer of the socket has room for what is not received, or else `sendall` fails -/
  buffered : Bool := true
  deriving DecidableEq, Repr

/-- The number of bytes that `recv` returns at most. A part of a message makes `pickle.loads` raise. -/
def recvSize : ℕ := 1024

/-- `subkernel`: none yet, a live process with the cells that it has executed, or one that has ended. -/
inductive Subkernel where
  | notStarted
  | live (executed : List Cell)
  | dead
  deriving DecidableEq, Repr

/-- `handle_usr1` of a subkernel that has executed some cells: what `do_execute` gets from it, whether
`error_before_exec` is set or, if receiving it raises, nothing; and what becomes of the subkernel. -/
def handleUsr1 (run : CellRun) (executed : List Cell) : Option Bool × Subkernel :=
  if recvSize < run.request then (none, .dead)
  else
    let received (errorBeforeExec : Bool) := if run.reply ≤ recvSize then some errorBeforeExec else none
    match run.outcome with
    | .executed =>
      -- the kernel closes the connection after it has received a part
      (received false, if run.reply ≤ recvSize || run.buffered then .live (executed ++ [run.code]) else .dead)
    | .errorBeforeExec =>
      -- the last line reads `ret`, which is not bound
      (received true, .dead)
    | .exits => (none, .dead)

/-- `SciunitKernel` -/
structure Notebook where
  treeRoot : Tree
  /-- the path to `tree_node` -/
  treeNode : List Hash := []
  subkernel : Subkernel
  /-- what `tree_dump` has written to `tree_path` -/
  treeFile : Tree

/-- The cells on the path to the cursor. -/
def Notebook.cells (s : Notebook) : List Cell := (s.treeRoot.labels s.treeNode).map (·.code)

/-- `SciunitKernel.__init__`, without and with a file to load the tree from. -/
def Notebook.init : Option Tree → Notebook
  | none => { treeRoot := .init, subkernel := .live [], treeFile := .init }
  | some tree => { treeRoot := tree, subkernel := .notStarted, treeFile := tree }

/-- The cells that the subkernel has executed which gets the signal. Restoring the checkpoint of a node gives
one that has executed the cells on its path. A subkernel that has ended is not replaced. -/
def Notebook.signalled (s : Notebook) : Option (List Cell) :=
  match s.subkernel with
  | .notStarted => some s.cells
  | .live executed => some executed
  | .dead => none

/-- `SciunitKernel.do_execute` from `recv` on, after `traverse` has added the child with this hash. -/
def Notebook.answered (code : Cell) (hash : Hash) (answer : Option Bool × Subkernel) (s : Notebook) : Notebook :=
  let root := s.treeRoot.modifyAt (traverse digest code) s.treeNode
  match answer.1 with
  | none => { s with treeRoot := root, subkernel := answer.2 }
  | some false =>
    { treeRoot := root, treeNode := s.treeNode ++ [hash], subkernel := answer.2, treeFile := root }
  | some true =>
    let root := root.modifyAt (revert hash) s.treeNode
    { s with treeRoot := root, subkernel := answer.2, treeFile := root }

/-- `SciunitKernel.do_execute`. There is no result if no subkernel is left to connect: `accept` waits for
ever. -/
def Notebook.doExecute (run : CellRun) (s : Notebook) : Option Notebook :=
  match s.treeRoot.at? s.treeNode with
  | none => some s
  | some node =>
    let hash := childHash digest node run.code
    if added digest run.code node then
      s.signalled.map fun executed => s.answered digest run.code hash (handleUsr1 run executed)
    else some { s with treeNode := s.treeNode ++ [hash] }

/-- A session. -/
def runNotebook (loaded : Option Tree) (runs : List CellRun) : Option Notebook :=
  runs.foldlM (fun s run => s.doExecute digest run) (.init loaded)

/-! ## Trees in general -/

/-- A change of the tree at any of its nodes. -/
inductive TreeOp where
  | traverse (path : List Hash) (code : Cell)
  | revert (path : List Hash) (hash : Hash)

def TreeOp.run (t : Tree) : TreeOp → Tree
  | .traverse path code => t.modifyAt (Ptu.traverse digest code) path
  | .revert path hash => t.modifyAt (Ptu.revert hash) path

/-- The tree that a sequence of changes makes of `Tree()`. -/
def buildTree (ops : List TreeOp) : Tree := ops.foldl (TreeOp.run digest) .init

end Ptu
