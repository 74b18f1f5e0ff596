import Ptu.Proof.Notebook
import Ptu.Proof.ProvLog

/-!
# Names of checkpoints

The hash of a node is the exclusive or of the hashes of all cells on its path
(`buildTree_hash`). So it does not depend on their order, and two equal cells cancel. Two nodes have
different checkpoints exactly if the hashes of the cells on both paths do not cancel each other
(`checkpoints_distinct_iff`).
-/

namespace Ptu

open KeyTree

variable {digest : Cell → Hash} {t : Tree} {code : Cell}

/-- The exclusive or of the hashes of some cells. -/
def xorHashes (digest : Cell → Hash) : List Cell → Hash
  | [] => 0#32
  | code :: cells => digest code ^^^ xorHashes digest cells

theorem foldl_xor (digest : Cell → Hash) (cells : List Cell) (hash : Hash) :
    cells.foldl (fun hash code => digest code ^^^ hash) hash = xorHashes digest cells ^^^ hash := by
  induction cells generalizing hash with
  | nil => exact BitVec.zero_xor.symm
  | cons code cells ih =>
    rw [List.foldl_cons, ih, xorHashes, BitVec.xor_comm (digest code) (xorHashes digest cells), BitVec.xor_assoc]

theorem xorHashes_append (l l' : List Cell) :
    xorHashes digest (l ++ l') = xorHashes digest l ^^^ xorHashes digest l' := by
  induction l with
  | nil => exact BitVec.zero_xor.symm
  | cons code l ih => rw [List.cons_append, xorHashes, xorHashes, ih, BitVec.xor_assoc]

/-! ## Trees -/

/-- A child has its hash as its key, computed from its cell and the hash of its parent. -/
def HashEdge (digest : Cell → Hash) (parent : NodeLabel) (key : Hash) (child : NodeLabel) : Prop :=
  child.hash = key ∧ key = digest child.code ^^^ parent.hash

theorem traverse_edges (h : Edges (HashEdge digest) t) : Edges (HashEdge digest) (traverse digest code t) := by
  unfold traverse
  simp only
  split_ifs
  · exact h
  · cases h with
    | node here below =>
      refine .node (fun kc hkc => ?_) (fun kc hkc => ?_)
      · rcases List.mem_append.1 hkc with hold | hnew
        · exact here kc hold
        · rw [List.mem_singleton.1 hnew]
          exact ⟨rfl, rfl⟩
      · rcases List.mem_append.1 hkc with hold | hnew
        · exact below kc hold
        · rw [List.mem_singleton.1 hnew]
          exact .node (fun kc hkc => absurd hkc List.not_mem_nil) (fun kc hkc => absurd hkc List.not_mem_nil)

theorem revert_edges {hash : Hash} (h : Edges (HashEdge digest) t) : Edges (HashEdge digest) (revert hash t) := by
  cases h with
  | node here below =>
    exact .node (fun kc hkc => here kc (List.mem_of_mem_filter hkc))
      (fun kc hkc => below kc (List.mem_of_mem_filter hkc))

theorem TreeOp.run_edges (op : TreeOp) (h : Edges (HashEdge digest) t) : Edges (HashEdge digest) (op.run digest t) := by
  cases op with
  | traverse path code => exact h.modifyAt (fun s => label_traverse s) (fun s => traverse_edges) path
  | revert path hash => exact h.modifyAt (fun s => label_revert hash s) (fun s => revert_edges) path

theorem buildTree_edges (ops : List TreeOp) : Edges (HashEdge digest) (buildTree digest ops) := by
  induction ops using List.reverseRecOn with
  | nil => exact .node (fun kc hkc => absurd hkc List.not_mem_nil) (fun kc hkc => absurd hkc List.not_mem_nil)
  | append_singleton ops op ih =>
    rw [buildTree, List.foldl_append]
    exact op.run_edges ih

theorem buildTree_root (ops : List TreeOp) : (buildTree digest ops).label = {} := by
  induction ops using List.reverseRecOn with
  | nil => rfl
  | append_singleton ops op ih =>
    rw [buildTree, List.foldl_append]
    cases op with
    | traverse path code => exact (label_modifyAt fun s => label_traverse s).trans ih
    | revert path hash => exact (label_modifyAt fun s => label_revert hash s).trans ih

/-- The cells on a path. -/
def cellsAt (t : Tree) (p : List Hash) : List Cell := (t.labels p).map (·.code)

/-- **The hash of a node is the exclusive or of the hashes of the cells on its path.** -/
theorem buildTree_hash {ops : List TreeOp} {p : List Hash} {s : Tree} (h : (buildTree digest ops).at? p = some s) :
    s.label.hash = xorHashes digest (cellsAt (buildTree digest ops) p) := by
  have hfold := (buildTree_edges ops).foldl NodeLabel.hash (fun hash label => digest label.code ^^^ hash)
    (fun a k b hedge => hedge.1.trans hedge.2) h
  have hxor := foldl_xor digest (cellsAt (buildTree digest ops) p) 0#32
  rw [BitVec.xor_zero, cellsAt, List.foldl_map] at hxor
  rw [hfold, buildTree_root]
  exact hxor

/-! ## Checkpoints -/

theorem hashToPyint_inj {hash hash' : Hash} (h : hashToPyint hash = hashToPyint hash') : hash = hash' := by
  have hlt := hash.isLt
  have hlt' := hash'.isLt
  simp only [hashToPyint] at h
  apply BitVec.eq_of_toNat_eq
  split_ifs at h <;> omega

theorem checkpointName_inj {hash hash' : Hash} (h : checkpointName hash = checkpointName hash') : hash = hash' :=
  hashToPyint_inj (signedDecimal_inj (List.append_cancel_left h))

/-- Different nodes have different hashes and different checkpoint directories. -/
def DistinctCheckpoints (t : Tree) : Prop :=
  ∀ p q s s', t.at? p = some s → t.at? q = some s' → p ≠ q →
    s.label.hash ≠ s'.label.hash ∧ checkpointName s.label.hash ≠ checkpointName s'.label.hash

/-- For different nodes, the hashes of the cells on both paths do not cancel each other. -/
def CellsDoNotCancel (digest : Cell → Hash) (t : Tree) : Prop :=
  ∀ p q s s', t.at? p = some s → t.at? q = some s' → p ≠ q → xorHashes digest (cellsAt t p ++ cellsAt t q) ≠ 0

/-- **The checkpoints of different nodes are different exactly if the hashes of their cells do not
cancel**, for every hash function and every tree that `traverse` and `revert` can build. -/
theorem checkpoints_distinct_iff (digest : Cell → Hash) (ops : List TreeOp) :
    DistinctCheckpoints (buildTree digest ops) ↔ CellsDoNotCancel digest (buildTree digest ops) := by
  have hequal : ∀ {p q s s'}, (buildTree digest ops).at? p = some s → (buildTree digest ops).at? q = some s' →
      (s.label.hash = s'.label.hash ↔
        xorHashes digest (cellsAt (buildTree digest ops) p ++ cellsAt (buildTree digest ops) q) = 0) := by
    intro p q s s' hp hq
    rw [buildTree_hash hp, buildTree_hash hq, xorHashes_append]
    exact BitVec.xor_eq_zero_iff.symm
  constructor
  · intro hdistinct p q s s' hp hq hpq hzero
    exact (hdistinct p q s s' hp hq hpq).1 ((hequal hp hq).2 hzero)
  · intro hcells p q s s' hp hq hpq
    have hne : s.label.hash ≠ s'.label.hash := fun hsame => hcells p q s s' hp hq hpq ((hequal hp hq).1 hsame)
    exact ⟨hne, fun hname => hne (checkpointName_inj hname)⟩

/-- **A cell that is executed twice leads back to the checkpoint of the beginning.** -/
theorem checkpoint_repeated_cell :
    ∃ s, (buildTree letterDigest [.traverse [] (str "a"), .traverse [97] (str "a")]).at? [97, 0] = some s ∧
      checkpointName s.label.hash = checkpointName Tree.init.label.hash :=
  ⟨_, rfl, rfl⟩

end Ptu
