import Ptu.Lib.History
import Ptu.Spec.Notebook

/-!
# The notebook and its subkernel

The cells that the live subkernel has executed should be those on the path to the cursor.

* `Notebook.doExecute_hit`, `Notebook.doExecute_new`: what one call does, with `answered_raised`,
  `answered_failed` and `answered_succeeded` for the three ways in which it goes on with a new cell.
* `Notebook.InStep`: **under a live subkernel the cursor is at a node without children**, so that no cell is
  entered without being executed.
* `subkernel_agrees_iff`: **notebook and subkernel agree throughout a session exactly if the result of
  every cell that is executed can be received.**
-/

namespace Ptu

open History KeyTree

variable {digest : Cell → Hash} {s : Notebook} {node : Tree} {run : CellRun} {code : Cell}

@[simp] theorem label_traverse (t : Tree) : (traverse digest code t).label = t.label := by
  unfold traverse
  simp only
  split_ifs <;> rfl

@[simp] theorem label_revert (hash : Hash) (t : Tree) : (revert hash t).label = t.label := rfl

/-- The child that `traverse` adds. -/
theorem child_traverse (h : added digest code node = true) :
    (traverse digest code node).child (childHash digest node code) =
      some (.node ⟨childHash digest node code, code⟩ []) := by
  have hnone : node.child (childHash digest node code) = none := Option.isNone_iff_eq_none.1 h
  unfold traverse
  simp only [hnone, Option.isSome_none, Bool.false_eq_true, if_false]
  unfold KeyTree.child at hnone ⊢
  rw [children_node, List.lookup_append, hnone]
  simp

/-- `revert` undoes `traverse`. -/
theorem revert_traverse (h : added digest code node = true) :
    revert (childHash digest node code) (traverse digest code node) = node := by
  have hnone : node.child (childHash digest node code) = none := Option.isNone_iff_eq_none.1 h
  unfold traverse
  simp only [hnone, Option.isSome_none, Bool.false_eq_true, if_false]
  cases node with
  | node label children =>
    have hkeep : children.filter (fun kc => kc.1 != childHash digest (.node label children) code) = children := by
      refine List.filter_eq_self.2 fun kc hkc => ?_
      have hne := List.lookup_eq_none_iff.1 hnone kc hkc
      rw [bne_iff_ne] at hne ⊢
      exact Ne.symm hne
    simp [revert, List.filter_append, hkeep]

/-! ## One call -/

/-- The cursor is at a node of the tree. -/
def Notebook.At (s : Notebook) (node : Tree) : Prop := s.treeRoot.at? s.treeNode = some node

/-- The cell is already there as a child of the cursor. -/
def Notebook.Hits (digest : Cell → Hash) (s : Notebook) (run : CellRun) : Prop :=
  ∃ node, s.At node ∧ added digest run.code node = false

/-- The result of `traverse`, at the cursor. -/
theorem Notebook.At.traverse (h : s.At node) (digest : Cell → Hash) (code : Cell) :
    (s.treeRoot.modifyAt (traverse digest code) s.treeNode).at? s.treeNode = some (traverse digest code node) ∧
      (s.treeRoot.modifyAt (Ptu.traverse digest code) s.treeNode).labels s.treeNode = s.treeRoot.labels s.treeNode :=
  ⟨at?_modifyAt h, labels_modifyAt (fun t => label_traverse t) h⟩

/-- **A cell that is there**: the cursor moves, and nothing is executed. -/
theorem Notebook.doExecute_hit (h : s.At node) (hhit : added digest run.code node = false) :
    ∃ s' child, s.doExecute digest run = some s' ∧ s'.At child ∧ s'.subkernel = s.subkernel := by
  unfold Notebook.At at h
  have hsome : (node.child (childHash digest node run.code)).isSome = true := by
    rw [added, Option.isNone_eq_false_iff] at hhit
    exact hhit
  obtain ⟨child, hchild⟩ := Option.isSome_iff_exists.1 hsome
  refine ⟨{ s with treeNode := s.treeNode ++ [childHash digest node run.code] }, child, ?_, ?_, rfl⟩
  · simp only [Notebook.doExecute, h, hhit, Bool.false_eq_true, if_false]
  · exact at?_concat h hchild

/-- **A new cell** is given to the subkernel. -/
theorem Notebook.doExecute_new (h : s.At node) (hnew : added digest run.code node = true) :
    s.doExecute digest run = s.signalled.map fun executed =>
      s.answered digest run.code (childHash digest node run.code) (handleUsr1 run executed) := by
  unfold Notebook.At at h
  simp only [Notebook.doExecute, h, hnew, if_true]

/-- **No result is received**: the child stays, and the cursor does not move. -/
theorem Notebook.answered_raised (h : s.At node) (code : Cell) (hash : Hash) (subkernel : Subkernel) :
    (s.answered digest code hash (none, subkernel)).At (traverse digest code node) ∧
      (s.answered digest code hash (none, subkernel)).cells = s.cells :=
  ⟨(h.traverse digest code).1, congrArg (List.map NodeLabel.code) (h.traverse digest code).2⟩

/-- **A new cell that fails**: the tree is as before. -/
theorem Notebook.answered_failed (h : s.At node) (hnew : added digest code node = true) (subkernel : Subkernel) :
    (s.answered digest code (childHash digest node code) (some true, subkernel)).At node ∧
      (s.answered digest code (childHash digest node code) (some true, subkernel)).cells = s.cells := by
  obtain ⟨hat, hlabels⟩ := h.traverse digest code
  constructor
  · have hback := at?_modifyAt (f := revert (childHash digest node code)) hat
    rw [revert_traverse hnew] at hback
    exact hback
  · refine congrArg (List.map NodeLabel.code) (Eq.trans ?_ hlabels)
    exact labels_modifyAt (fun t => label_revert _ t) hat

/-- **A new cell that is executed**: the cursor is at a node without children. -/
theorem Notebook.answered_succeeded (h : s.At node) (hnew : added digest code node = true) (subkernel : Subkernel) :
    (s.answered digest code (childHash digest node code) (some false, subkernel)).At
        (.node ⟨childHash digest node code, code⟩ []) ∧
      (s.answered digest code (childHash digest node code) (some false, subkernel)).cells = s.cells ++ [code] := by
  obtain ⟨hat, hlabels⟩ := h.traverse digest code
  have hchild := child_traverse hnew
  refine ⟨at?_concat hat hchild, ?_⟩
  change ((s.treeRoot.modifyAt (traverse digest code) s.treeNode).labels
    (s.treeNode ++ [childHash digest node code])).map _ = _
  rw [labels_concat hat hchild, hlabels]
  simp only [Notebook.cells, List.map_append, List.map_cons, List.map_nil, label_node]

@[simp] theorem Notebook.answered_subkernel (s : Notebook) (code : Cell) (hash : Hash)
    (answer : Option Bool × Subkernel) : (s.answered digest code hash answer).subkernel = answer.2 := by
  unfold Notebook.answered
  simp only
  split <;> rfl

theorem Notebook.answered_at (h : s.At node) (hnew : added digest code node = true)
    (answer : Option Bool × Subkernel) :
    ∃ node', (s.answered digest code (childHash digest node code) answer).At node' := by
  obtain ⟨_ | _ | _, subkernel⟩ := answer
  · exact ⟨_, (answered_raised h code _ subkernel).1⟩
  · exact ⟨_, (answered_succeeded h hnew subkernel).1⟩
  · exact ⟨_, (answered_failed h hnew subkernel).1⟩

/-! ## The subkernel -/

/-- The cell is executed, and its result is too long to be received; the subkernel goes on. -/
structure CellRun.CutOff (run : CellRun) : Prop where
  request : run.request ≤ recvSize
  executed : run.outcome = .executed
  reply : recvSize < run.reply
  buffered : run.buffered = true

theorem CellRun.CutOff.handleUsr1 (h : run.CutOff) (executed : List Cell) :
    Ptu.handleUsr1 run executed = (none, .live (executed ++ [run.code])) := by
  simp only [Ptu.handleUsr1, Nat.not_lt.2 h.request, h.executed, Nat.not_le.2 h.reply, h.buffered, if_false,
    Bool.or_true, if_true]

/-- **A subkernel that lives on has executed the cell**, and `do_execute` has its result, unless that was too
long. -/
theorem handleUsr1_live {executed executed' : List Cell} (h : (handleUsr1 run executed).2 = .live executed') :
    executed' = executed ++ [run.code] ∧ (run.CutOff ∨ (handleUsr1 run executed).1 = some false) := by
  unfold handleUsr1 at h ⊢
  by_cases hrequest : recvSize < run.request
  · rw [if_pos hrequest] at h
    cases h
  rw [if_neg hrequest] at h ⊢
  cases hout : run.outcome with
  | errorBeforeExec | exits =>
    rw [hout] at h
    cases h
  | executed =>
    simp only [hout] at h ⊢
    by_cases hreply : run.reply ≤ recvSize
    · simp only [hreply, decide_true, Bool.true_or, if_true] at h ⊢
      exact ⟨(Subkernel.live.inj h).symm, .inr trivial⟩
    · cases hbuffered : run.buffered with
      | false =>
        simp only [hreply, hbuffered, decide_false, Bool.or_self, Bool.false_eq_true, if_false] at h
        cases h
      | true =>
        simp only [hbuffered, Bool.or_true, if_true] at h
        exact ⟨(Subkernel.live.inj h).symm, .inl ⟨Nat.not_lt.1 hrequest, hout, Nat.not_le.1 hreply, hbuffered⟩⟩

/-! ## Sessions -/

/-- The live subkernel has executed the cells on the path to the cursor. -/
def Notebook.Agrees (s : Notebook) : Prop := ∀ executed, s.subkernel = .live executed → executed = s.cells

/-- The invariant of a session in which both agree. -/
structure Notebook.InStep (s : Notebook) : Prop where
  agrees : s.Agrees
  leaf : ∀ executed, s.subkernel = .live executed → ∃ label, s.At (.node label [])

/-- The subkernel that gets the signal has executed the cells on the path to the cursor. -/
theorem Notebook.Agrees.signalled {executed : List Cell} (h : s.Agrees) (hsub : s.signalled = some executed) :
    executed = s.cells := by
  unfold Notebook.signalled at hsub
  split at hsub
  · exact (Option.some.inj hsub).symm
  · rename_i executed' hlive
    obtain rfl := Option.some.inj hsub
    exact h _ hlive
  · cases hsub

theorem Notebook.signalled_of_ne_dead (h : s.subkernel ≠ .dead) : ∃ executed, s.signalled = some executed := by
  unfold Notebook.signalled
  split
  · exact ⟨_, rfl⟩
  · exact ⟨_, rfl⟩
  · contradiction

theorem not_hits_iff (h : s.At node) : ¬ s.Hits digest run ↔ added digest run.code node = true := by
  constructor
  · intro hmiss
    by_contra hnew
    exact hmiss ⟨node, h, Bool.eq_false_iff.2 hnew⟩
  · rintro hnew ⟨node', hnode', hhit⟩
    obtain rfl := Option.some.inj (h.symm.trans hnode')
    rw [hnew] at hhit
    cases hhit

/-- The result of a new cell that is executed can be received. -/
def Notebook.Fit (digest : Cell → Hash) (s : Notebook) (run : CellRun) : Prop :=
  s.subkernel ≠ .dead → ¬ s.Hits digest run → ¬ run.CutOff

/-- **One call keeps notebook and subkernel in step.** -/
theorem Notebook.InStep.doExecute {s' : Notebook} (h : s.InStep) (hnode : s.At node) (hfit : s.Fit digest run)
    (hs : s.doExecute digest run = some s') : s'.InStep := by
  cases hnew : added digest run.code node with
  | false =>
    obtain ⟨s₁, child, hs₁, -, hsub⟩ := Notebook.doExecute_hit hnode hnew
    obtain rfl := Option.some.inj (hs₁.symm.trans hs)
    -- a leaf has no cell that could be entered
    have hidle : ∀ executed, s₁.subkernel ≠ .live executed := by
      intro executed hlive
      obtain ⟨label, hleaf⟩ := h.leaf executed (hsub.symm.trans hlive)
      obtain rfl := Option.some.inj (hnode.symm.trans hleaf)
      cases hnew
    exact ⟨fun executed hlive => absurd hlive (hidle executed), fun executed hlive => absurd hlive (hidle executed)⟩
  | true =>
    rw [Notebook.doExecute_new hnode hnew] at hs
    obtain ⟨executed, hsub, rfl⟩ := Option.map_eq_some_iff.1 hs
    obtain rfl := h.agrees.signalled hsub
    have hdead : s.subkernel ≠ .dead := fun hdead => by
      rw [Notebook.signalled, hdead] at hsub
      cases hsub
    have hlive : ∀ executed', (s.answered digest run.code (childHash digest node run.code)
        (handleUsr1 run s.cells)).subkernel = .live executed' →
        executed' = s.cells ++ [run.code] ∧ (handleUsr1 run s.cells).1 = some false := by
      intro executed' hlive
      rw [Notebook.answered_subkernel] at hlive
      obtain ⟨hexec, hcut | hanswer⟩ := handleUsr1_live hlive
      · exact absurd hcut (hfit hdead ((not_hits_iff hnode).2 hnew))
      · exact ⟨hexec, hanswer⟩
    have hdone := Notebook.answered_succeeded hnode hnew (handleUsr1 run s.cells).2
    constructor
    · intro executed' hexec
      obtain ⟨rfl, hanswer⟩ := hlive executed' hexec
      rw [← hanswer] at hdone
      exact hdone.2.symm
    · intro executed' hexec
      obtain ⟨-, hanswer⟩ := hlive executed' hexec
      rw [← hanswer] at hdone
      exact ⟨_, hdone.1⟩

/-- **A result that is too long**: the cell has been executed, but the cursor is still in front of it. -/
theorem Notebook.Agrees.doExecute_cutOff (h : s.Agrees) (hnode : s.At node) (hdead : s.subkernel ≠ .dead)
    (hmiss : ¬ s.Hits digest run) (hcut : run.CutOff) :
    ∃ s', s.doExecute digest run = some s' ∧ ¬ s'.Agrees := by
  obtain ⟨executed, hsub⟩ := Notebook.signalled_of_ne_dead hdead
  rw [Notebook.doExecute_new hnode ((not_hits_iff hnode).1 hmiss), hsub, Option.map_some, hcut.handleUsr1]
  refine ⟨_, rfl, fun hagrees => ?_⟩
  have hafter := hagrees (executed ++ [run.code]) (Notebook.answered_subkernel ..)
  rw [(Notebook.answered_raised hnode _ _ _).2, h.signalled hsub] at hafter
  exact absurd (congrArg List.length hafter) (by simp)

theorem runNotebook_concat (loaded : Option Tree) (runs : List CellRun) (run : CellRun) :
    runNotebook digest loaded (runs ++ [run]) = (runNotebook digest loaded runs).bind (·.doExecute digest run) := by
  simp only [runNotebook, List.foldlM_append, List.foldlM_cons, List.foldlM_nil, bind_pure]
  rfl

/-- The cursor stays in the tree. -/
theorem runNotebook_at {loaded : Option Tree} {runs : List CellRun} (h : runNotebook digest loaded runs = some s) :
    ∃ node, s.At node := by
  induction runs using List.reverseRecOn generalizing s with
  | nil =>
    obtain rfl := Option.some.inj h
    cases loaded with
    | none => exact ⟨_, rfl⟩
    | some tree => exact ⟨tree, rfl⟩
  | append_singleton runs run ih =>
    rw [runNotebook_concat] at h
    obtain ⟨s₁, hs₁, h⟩ := Option.bind_eq_some_iff.1 h
    obtain ⟨node, hnode⟩ := ih hs₁
    cases hnew : added digest run.code node with
    | false =>
      obtain ⟨s₂, child, hs₂, hchild, -⟩ := Notebook.doExecute_hit hnode hnew
      obtain rfl := Option.some.inj (hs₂.symm.trans h)
      exact ⟨child, hchild⟩
    | true =>
      rw [Notebook.doExecute_new hnode hnew] at h
      obtain ⟨executed, -, rfl⟩ := Option.map_eq_some_iff.1 h
      exact Notebook.answered_at hnode hnew _

/-- A session in which every result can be received keeps notebook and subkernel in step. -/
theorem runNotebook_inStep {loaded : Option Tree} {runs : List CellRun}
    (hfit : EachAfter (fun earlier run => ∀ s, runNotebook digest loaded earlier = some s → s.Fit digest run) runs)
    (h : runNotebook digest loaded runs = some s) : s.InStep := by
  induction runs using List.reverseRecOn generalizing s with
  | nil =>
    obtain rfl := Option.some.inj h
    cases loaded with
    | none => exact ⟨fun executed hlive => (Subkernel.live.inj hlive).symm, fun executed hlive => ⟨_, rfl⟩⟩
    | some tree => exact ⟨fun executed hlive => (by cases hlive), fun executed hlive => (by cases hlive)⟩
  | append_singleton runs run ih =>
    obtain ⟨hbefore, hlast⟩ := eachAfter_concat.1 hfit
    rw [runNotebook_concat] at h
    obtain ⟨s₁, hs₁, h⟩ := Option.bind_eq_some_iff.1 h
    obtain ⟨node, hnode⟩ := runNotebook_at hs₁
    exact (ih hbefore hs₁).doExecute hnode (hlast s₁ hs₁) h

/-- **Notebook and subkernel agree throughout a session exactly if the result of every new cell that the
subkernel executes can be received**, whatever tree the session starts from. -/
theorem subkernel_agrees_iff (digest : Cell → Hash) (loaded : Option Tree) (runs : List CellRun) :
    Throughout (fun earlier => ∀ s, runNotebook digest loaded earlier = some s → s.Agrees) runs ↔
      EachAfter (fun earlier run => ∀ s, runNotebook digest loaded earlier = some s →
        s.subkernel ≠ .dead → ¬ s.Hits digest run → ¬ run.CutOff) runs := by
  constructor
  · intro hagrees earlier run later hruns s hs hdead hmiss hcut
    have hpre : earlier <+: runs := ⟨run :: later, hruns.symm⟩
    have hpre' : earlier ++ [run] <+: runs := ⟨later, by rw [hruns, List.append_assoc]; rfl⟩
    obtain ⟨node, hnode⟩ := runNotebook_at hs
    obtain ⟨s', hs', hnot⟩ := (hagrees earlier hpre s hs).doExecute_cutOff hnode hdead hmiss hcut
    refine hnot (hagrees (earlier ++ [run]) hpre' s' ?_)
    rw [runNotebook_concat, hs, Option.bind_some, hs']
  · intro hfit earlier hpre s hs
    obtain ⟨rest, rfl⟩ := hpre
    refine (runNotebook_inStep (fun before run later hbefore => ?_) hs).agrees
    exact hfit before run (later ++ rest) (by rw [hbefore, List.append_assoc]; rfl)

/-- The hash of a cell with one letter, for examples. -/
def letterDigest (code : Cell) : Hash := (code.headD 0).toNat

/-- **A cell with a long result in a new session**: the subkernel has executed it, but there is no cell on the
path to the cursor. -/
theorem subkernel_disagrees :
    (runNotebook letterDigest none [{ code := str "a", reply := 2086 }]).map (fun s => (s.subkernel, s.cells)) =
      some (.live [str "a"], []) := rfl

end Ptu
