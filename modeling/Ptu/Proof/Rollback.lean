import Ptu.Proof.Checkpoint

/-!
# A failed cell is taken back

`do_execute` adds a child for a new cell before the cell is tried, and takes it out again by the hash that
the child has, once it has received that the cell fails.

* `Reachable.wellKeyed`: what holds of every tree that a notebook gets to, in one session or in several.
* `Notebook.answered_restores`: the answer that the cell fails changes neither the tree nor the cursor.
* `failed_cell_restores_iff`: **both stay as they are exactly if there is a subkernel to try the cell and
  both messages can be received whole**.
-/

namespace Ptu

open KeyTree

variable {digest : Cell → Hash} {s : Notebook} {node t : Tree} {run : CellRun} {code : Cell}

/-- `Tree.revert`, which deletes by the hash of the child. -/
def revertChild (child t : Tree) : Tree := revert child.label.hash t

/-- **Every child has its hash as its key, computed from its cell and the hash of its parent**, and no key
is there twice. -/
structure WellKeyed (digest : Cell → Hash) (t : Tree) : Prop where
  edges : Edges (HashEdge digest) t
  distinct : t.Distinct

theorem wellKeyed_init : WellKeyed digest .init where
  edges := .node (fun _ hkc => absurd hkc List.not_mem_nil) (fun _ hkc => absurd hkc List.not_mem_nil)
  distinct := .node List.nodup_nil (fun _ hkc => absurd hkc List.not_mem_nil)

theorem traverse_distinct (h : t.Distinct) : (traverse digest code t).Distinct := by
  unfold traverse
  simp only
  split_ifs with hthere
  · exact h
  · have hnone : t.child (childHash digest t code) = none := Option.not_isSome_iff_eq_none.1 hthere
    cases h with
    | node keys below =>
      refine .node ?_ (fun kc hkc => ?_)
      · rw [children_node, List.map_append, List.map_singleton, List.nodup_append]
        refine ⟨keys, List.pairwise_singleton _ _, ?_⟩
        rintro key hkey _ hnew rfl
        obtain rfl := List.mem_singleton.1 hnew
        obtain ⟨kc, hkc, hfst⟩ := List.mem_map.1 hkey
        have hne := List.lookup_eq_none_iff.1 hnone kc hkc
        rw [bne_iff_ne] at hne
        exact hne hfst.symm
      · rcases List.mem_append.1 hkc with hold | hnew
        · exact below kc hold
        · rw [List.mem_singleton.1 hnew]
          exact .node List.nodup_nil (fun kc hkc => absurd hkc List.not_mem_nil)

theorem revert_distinct {hash : Hash} (h : t.Distinct) : (revert hash t).Distinct := by
  cases h with
  | node keys below =>
    exact .node (keys.sublist (List.filter_sublist.map Prod.fst)) (fun kc hkc => below kc (List.mem_of_mem_filter hkc))

theorem WellKeyed.traverse (h : WellKeyed digest t) (p : List Hash) :
    WellKeyed digest (t.modifyAt (traverse digest code) p) where
  edges := h.edges.modifyAt (fun s => label_traverse s) (fun _ => traverse_edges) p
  distinct := h.distinct.modifyAt (fun _ => traverse_distinct) p

theorem WellKeyed.revert (h : WellKeyed digest t) (hash : Hash) (p : List Hash) :
    WellKeyed digest (t.modifyAt (Ptu.revert hash) p) where
  edges := h.edges.modifyAt (fun s => label_revert hash s) (fun _ => revert_edges) p
  distinct := h.distinct.modifyAt (fun _ => revert_distinct) p

/-! ## One call -/

/-- The cell is new, so that it is given to the subkernel, and it fails there before it is executed. A cell
that is there already is not tried. -/
def Notebook.Fails (digest : Cell → Hash) (s : Notebook) (run : CellRun) : Prop :=
  ∃ node, s.At node ∧ added digest run.code node = true ∧ run.outcome = .errorBeforeExec

/-- Both messages can be received whole. -/
def CellRun.Received (run : CellRun) : Prop := run.request ≤ recvSize ∧ run.reply ≤ recvSize

/-- The child that `traverse` returns is taken out by its own hash. -/
theorem revertChild_traverse {child : Tree} (h : added digest code node = true)
    (hchild : (traverse digest code node).child (childHash digest node code) = some child) :
    revertChild child (traverse digest code node) = node := by
  rw [child_traverse h] at hchild
  obtain rfl := Option.some.inj hchild
  exact revert_traverse h

/-- **The answer that the cell fails changes neither the tree nor the cursor.** -/
theorem Notebook.answered_restores (hd : s.treeRoot.Distinct) (hnode : s.At node)
    (hnew : added digest code node = true) (subkernel : Subkernel) :
    (s.answered digest code (childHash digest node code) (some true, subkernel)).treeRoot = s.treeRoot ∧
      (s.answered digest code (childHash digest node code) (some true, subkernel)).treeNode = s.treeNode := by
  refine ⟨?_, rfl⟩
  change (s.treeRoot.modifyAt (Ptu.traverse digest code) s.treeNode).modifyAt _ s.treeNode = s.treeRoot
  rw [modifyAt_modifyAt]
  exact modifyAt_eq_self hd hnode (revert_traverse hnew)

/-- **Without an answer the child stays.** -/
theorem Notebook.answered_raised_ne (hnode : s.At node) (hnew : added digest code node = true) (hash : Hash)
    (subkernel : Subkernel) : (s.answered digest code hash (none, subkernel)).treeRoot ≠ s.treeRoot := by
  intro hroot
  have hat := (@Notebook.answered_raised digest s node hnode code hash subkernel).1
  unfold Notebook.At at hat hnode
  rw [hroot] at hat
  have hsame : node = traverse digest code node := Option.some.inj (hnode.symm.trans hat)
  have hchild := child_traverse hnew
  have hnone : node.child (childHash digest node code) = none := Option.isNone_iff_eq_none.1 hnew
  rw [← hsame, hnone] at hchild
  cases hchild

/-- The rollback of the source: the child is looked up in the tree, and deleted by the hash it has. -/
theorem Notebook.revertChild_restores {child : Tree} (hd : s.treeRoot.Distinct) (hnode : s.At node)
    (hnew : added digest code node = true)
    (hchild : (traverse digest code node).child (childHash digest node code) = some child) :
    (s.treeRoot.modifyAt (traverse digest code) s.treeNode).modifyAt (revertChild child) s.treeNode = s.treeRoot := by
  rw [modifyAt_modifyAt]
  exact modifyAt_eq_self hd hnode (revertChild_traverse hnew hchild)

/-- The answer of a subkernel that is given a cell which does not compile. -/
theorem handleUsr1_failing (h : run.outcome = .errorBeforeExec) (executed : List Cell) :
    (run.Received → handleUsr1 run executed = (some true, .dead)) ∧
      (¬ run.Received → handleUsr1 run executed = (none, .dead)) := by
  unfold handleUsr1 CellRun.Received
  rw [h]
  by_cases hrequest : recvSize < run.request
  · rw [if_pos hrequest]
    exact ⟨fun hreceived => absurd hreceived.1 (Nat.not_le.2 hrequest), fun _ => rfl⟩
  · rw [if_neg hrequest]
    by_cases hreply : run.reply ≤ recvSize
    · exact ⟨fun _ => by simp only [hreply, if_true], fun hnot => absurd ⟨Nat.not_lt.1 hrequest, hreply⟩ hnot⟩
    · exact ⟨fun hreceived => absurd hreceived.2 hreply, fun _ => by simp only [hreply, if_false]⟩

/-- **A cell that fails is taken back exactly if it is tried and the answer arrives.** -/
theorem Notebook.doExecute_restores_iff (hd : s.treeRoot.Distinct) (h : s.Fails digest run) :
    (∃ s', s.doExecute digest run = some s' ∧ s'.treeRoot = s.treeRoot ∧ s'.treeNode = s.treeNode) ↔
      s.subkernel ≠ .dead ∧ run.Received := by
  obtain ⟨node, hnode, hnew, hfail⟩ := h
  rw [Notebook.doExecute_new hnode hnew]
  constructor
  · rintro ⟨s', hs, hroot, -⟩
    obtain ⟨executed, hsub, rfl⟩ := Option.map_eq_some_iff.1 hs
    refine ⟨fun hdead => ?_, by_contra fun hnot => ?_⟩
    · rw [Notebook.signalled, hdead] at hsub
      cases hsub
    · rw [(handleUsr1_failing hfail executed).2 hnot] at hroot
      exact Notebook.answered_raised_ne hnode hnew _ _ hroot
  · rintro ⟨hdead, hreceived⟩
    obtain ⟨executed, hsub⟩ := Notebook.signalled_of_ne_dead hdead
    rw [hsub, Option.map_some, (handleUsr1_failing hfail executed).1 hreceived]
    exact ⟨_, rfl, Notebook.answered_restores hd hnode hnew _⟩

/-- Both trees, that of the kernel and the one in its file. -/
theorem Notebook.doExecute_wellKeyed {s' : Notebook} (h : WellKeyed digest s.treeRoot ∧ WellKeyed digest s.treeFile)
    (hs : s.doExecute digest run = some s') : WellKeyed digest s'.treeRoot ∧ WellKeyed digest s'.treeFile := by
  unfold Notebook.doExecute at hs
  split at hs
  · obtain rfl := Option.some.inj hs
    exact h
  · split at hs
    · obtain ⟨executed, -, rfl⟩ := Option.map_eq_some_iff.1 hs
      unfold Notebook.answered
      simp only
      split
      · exact ⟨h.1.traverse _, h.2⟩
      · exact ⟨h.1.traverse _, h.1.traverse _⟩
      · exact ⟨(h.1.traverse _).revert _ _, (h.1.traverse _).revert _ _⟩
    · obtain rfl := Option.some.inj hs
      exact h

/-! ## Sessions -/

/-- The notebooks that can be reached: from a new one, or one that loads the file of another one, by any
calls of `do_execute`. -/
inductive Reachable (digest : Cell → Hash) : Notebook → Prop where
  | new : Reachable digest (.init none)
  | loaded {s : Notebook} (h : Reachable digest s) : Reachable digest (.init (some s.treeFile))
  | executed {s s' : Notebook} (h : Reachable digest s) (run : CellRun) (hs : s.doExecute digest run = some s') :
    Reachable digest s'

theorem Reachable.wellKeyed (h : Reachable digest s) :
    WellKeyed digest s.treeRoot ∧ WellKeyed digest s.treeFile := by
  induction h with
  | new => exact ⟨wellKeyed_init, wellKeyed_init⟩
  | loaded h ih => exact ⟨ih.2, ih.2⟩
  | executed h run hs ih => exact Notebook.doExecute_wellKeyed ih hs

/-- **A failed cell leaves the notebook as it was, exactly if there is a subkernel to try it and both messages
can be received whole.** In every tree that can be reached each child stands under its own hash, which is
that of its cell and its parent, and so the deletion of the child that `traverse` returns, by the hash that
this child has, restores the tree; but `do_execute` comes to it only with an answer. -/
theorem failed_cell_restores_iff (h : Reachable digest s) :
    WellKeyed digest s.treeRoot ∧ ∀ run, s.Fails digest run →
      ((∃ s', s.doExecute digest run = some s' ∧ s'.treeRoot = s.treeRoot ∧ s'.treeNode = s.treeNode) ↔
        s.subkernel ≠ .dead ∧ run.Received) ∧
      ∀ node child, s.At node →
        (traverse digest run.code node).child (childHash digest node run.code) = some child →
        (s.treeRoot.modifyAt (traverse digest run.code) s.treeNode).modifyAt (revertChild child) s.treeNode =
          s.treeRoot := by
  have hkeyed := h.wellKeyed.1
  refine ⟨hkeyed, fun run hfails => ⟨Notebook.doExecute_restores_iff hkeyed.distinct hfails, ?_⟩⟩
  intro node child hnode hchild
  obtain ⟨node', hnode', hnew, -⟩ := hfails
  obtain rfl := Option.some.inj (hnode'.symm.trans hnode)
  exact Notebook.revertChild_restores hkeyed.distinct hnode hnew hchild

/-- The notebook in which the cell `a` has been executed. -/
def oneCell : Notebook where
  treeRoot := .node {} [(97, .node ⟨97, str "a"⟩ [])]
  treeNode := [97]
  subkernel := .live [str "a"]
  treeFile := .node {} [(97, .node ⟨97, str "a"⟩ [])]

theorem oneCell_reachable : Reachable letterDigest oneCell :=
  .executed .new { code := str "a" } rfl

/-- The next cell does not compile. -/
theorem failed_cell_restores_second :
    ∃ s', oneCell.doExecute letterDigest { code := str "(", outcome := .errorBeforeExec } = some s' ∧
      s'.treeRoot = oneCell.treeRoot ∧ s'.treeNode = oneCell.treeNode := by
  have hfails : oneCell.Fails letterDigest { code := str "(", outcome := .errorBeforeExec } :=
    ⟨.node ⟨97, str "a"⟩ [], rfl, rfl, rfl⟩
  exact (((failed_cell_restores_iff oneCell_reachable).2 _ hfails).1).2 ⟨by decide, by decide, by decide⟩

/-- The result of a cell that does not compile holds the line with the error. One with a long line stays in
the tree, and the next time the cursor moves to it. -/
theorem failed_cell_stays :
    ∃ s', oneCell.doExecute letterDigest ⟨str "(", .errorBeforeExec, 927, 1059, true⟩ = some s' ∧
      s'.treeRoot ≠ oneCell.treeRoot ∧ s'.treeNode = [97] ∧
      (s'.doExecute letterDigest ⟨str "(", .errorBeforeExec, 927, 1059, true⟩).map (·.cells) =
        some [str "a", str "("] :=
  have hnode : oneCell.At (.node ⟨97, str "a"⟩ []) := rfl
  ⟨_, rfl, Notebook.answered_raised_ne hnode rfl _ _, rfl, rfl⟩

end Ptu
