import Mathlib.Data.List.Basic

/-!
# Trees with keys

A node has a label and children under keys. A node is named by the list of keys on the way to
it (`at?`), and `labels` are the labels on this way. `modifyAt` changes the node at a path.

* `at?_modifyAt`, `labels_modifyAt`: what is found at a node that has been changed, and on the way to it.
* `Distinct`: no node has two children under one key. Then a change of one node is a change of this node
  only, and a change that leaves it as it is leaves the whole tree (`modifyAt_eq_self`).
* `Edges R`: parent and child are in the relation `R`, all over the tree. A change of one node that
  keeps it there keeps it in the whole tree (`Edges.modifyAt`), and what `R` says about one edge adds
  up along a path (`Edges.foldl`).
-/

/-- A tree with labels in `α` and keys in `κ`. -/
inductive KeyTree (κ α : Type) : Type where
  | node (label : α) (children : List (κ × KeyTree κ α))

namespace KeyTree

variable {κ α : Type}

def label : KeyTree κ α → α
  | node a _ => a

def children : KeyTree κ α → List (κ × KeyTree κ α)
  | node _ cs => cs

@[simp] theorem label_node (a : α) (cs : List (κ × KeyTree κ α)) : (node a cs).label = a := rfl

@[simp] theorem children_node (a : α) (cs : List (κ × KeyTree κ α)) : (node a cs).children = cs := rfl

variable [DecidableEq κ] {t s c : KeyTree κ α} {k : κ} {p q : List κ} {f : KeyTree κ α → KeyTree κ α}

def child (t : KeyTree κ α) (k : κ) : Option (KeyTree κ α) := t.children.lookup k

/-- The node at a path. -/
def at? : KeyTree κ α → List κ → Option (KeyTree κ α)
  | t, [] => some t
  | t, k :: p => (t.child k).bind (·.at? p)

/-- The labels on a path, without that of the root. -/
def labels : KeyTree κ α → List κ → List α
  | _, [] => []
  | t, k :: p =>
    match t.child k with
    | some c => c.label :: c.labels p
    | none => []

/-- Change the node at a path. -/
def modifyAt (f : KeyTree κ α → KeyTree κ α) : KeyTree κ α → List κ → KeyTree κ α
  | t, [] => f t
  | t, k :: p => node t.label (t.children.map fun kc => if kc.1 = k then (kc.1, modifyAt f kc.2 p) else kc)

theorem at?_cons (hk : t.child k = some c) (p : List κ) : t.at? (k :: p) = c.at? p := by
  rw [at?, hk, Option.bind_some]

theorem labels_cons (hk : t.child k = some c) (p : List κ) : t.labels (k :: p) = c.label :: c.labels p := by
  simp only [labels, hk]

theorem child_of_at?_cons (h : t.at? (k :: p) = some s) : ∃ c, t.child k = some c ∧ c.at? p = some s :=
  Option.bind_eq_some_iff.1 h

theorem at?_append (h : t.at? p = some s) (q : List κ) : t.at? (p ++ q) = s.at? q := by
  induction p generalizing t with
  | nil =>
    obtain rfl := Option.some.inj h
    rfl
  | cons k p ih =>
    obtain ⟨c, hc, hp⟩ := child_of_at?_cons h
    rw [List.cons_append, at?_cons hc]
    exact ih hp

theorem labels_append (h : t.at? p = some s) (q : List κ) : t.labels (p ++ q) = t.labels p ++ s.labels q := by
  induction p generalizing t with
  | nil =>
    obtain rfl := Option.some.inj h
    rfl
  | cons k p ih =>
    obtain ⟨c, hc, hp⟩ := child_of_at?_cons h
    rw [List.cons_append, labels_cons hc, labels_cons hc, ih hp, List.cons_append]

theorem at?_concat (h : t.at? p = some s) (hk : s.child k = some c) : t.at? (p ++ [k]) = some c := by
  rw [at?_append h, at?_cons hk, at?]

theorem labels_concat (h : t.at? p = some s) (hk : s.child k = some c) :
    t.labels (p ++ [k]) = t.labels p ++ [c.label] := by
  rw [labels_append h, labels_cons hk, labels]

/-! ## Changing a node -/

/-- Change the values under one key. -/
theorem lookup_map_ite {β : Type} {cs : List (κ × β)} {b : β} (g : β → β) (hk : cs.lookup k = some b) :
    (cs.map fun kc => if kc.1 = k then (kc.1, g kc.2) else kc).lookup k = some (g b) := by
  induction cs with
  | nil => cases hk
  | cons kc cs ih =>
    obtain ⟨k', b'⟩ := kc
    rw [List.lookup_cons] at hk
    by_cases heq : k = k'
    · subst heq
      simp only [beq_self_eq_true, Option.some.injEq] at hk
      simp only [List.map_cons, if_true, List.lookup_cons, beq_self_eq_true, hk]
    · have hbeq : (k == k') = false := beq_eq_false_iff_ne.2 heq
      simp only [hbeq] at hk
      simp only [List.map_cons, if_neg (Ne.symm heq), List.lookup_cons, hbeq]
      exact ih hk

theorem child_modifyAt (hk : t.child k = some c) (p : List κ) :
    (t.modifyAt f (k :: p)).child k = some (c.modifyAt f p) :=
  lookup_map_ite (modifyAt f · p) hk

theorem label_modifyAt (hf : ∀ s, (f s).label = s.label) : (t.modifyAt f p).label = t.label := by
  cases p with
  | nil => exact hf t
  | cons k p => rfl

/-- **What is found at a node that has been changed.** -/
theorem at?_modifyAt (h : t.at? p = some s) : (t.modifyAt f p).at? p = some (f s) := by
  induction p generalizing t with
  | nil =>
    obtain rfl := Option.some.inj h
    rfl
  | cons k p ih =>
    obtain ⟨c, hc, hp⟩ := child_of_at?_cons h
    rw [at?_cons (child_modifyAt hc p)]
    exact ih hp

/-- The labels on the way to a node that has been changed stay. -/
theorem labels_modifyAt (hf : ∀ s, (f s).label = s.label) (h : t.at? p = some s) :
    (t.modifyAt f p).labels p = t.labels p := by
  induction p generalizing t with
  | nil => rfl
  | cons k p ih =>
    obtain ⟨c, hc, hp⟩ := child_of_at?_cons h
    rw [labels_cons (child_modifyAt hc p), labels_cons hc, label_modifyAt hf, ih hp]

/-- Two changes of one node are one change. -/
theorem modifyAt_modifyAt (f g : KeyTree κ α → KeyTree κ α) (t : KeyTree κ α) (p : List κ) :
    (t.modifyAt g p).modifyAt f p = t.modifyAt (fun s => f (g s)) p := by
  induction p generalizing t with
  | nil => rfl
  | cons k p ih =>
    simp only [modifyAt, label_node, children_node, List.map_map]
    congr 1
    refine List.map_congr_left fun kc _ => ?_
    rw [Function.comp_apply]
    by_cases hk : kc.1 = k
    · simp only [hk, if_true, ih]
    · simp only [hk, if_false]

/-! ## Different keys -/

/-- No node has two children under one key. -/
inductive Distinct : KeyTree κ α → Prop where
  | node {a : α} {cs : List (κ × KeyTree κ α)} (keys : (cs.map Prod.fst).Nodup) (below : ∀ kc ∈ cs, Distinct kc.2) :
      Distinct (node a cs)

theorem lookup_of_mem {β : Type} {cs : List (κ × β)} {kc : κ × β} (hkeys : (cs.map Prod.fst).Nodup) (h : kc ∈ cs) :
    cs.lookup kc.1 = some kc.2 := by
  induction cs with
  | nil => exact absurd h List.not_mem_nil
  | cons first cs ih =>
    rw [List.map_cons, List.nodup_cons] at hkeys
    rw [List.lookup_cons]
    rcases List.mem_cons.1 h with rfl | hmem
    · simp
    · have hne : (kc.1 == first.1) = false := by
        rw [beq_eq_false_iff_ne]
        intro heq
        exact hkeys.1 (heq ▸ List.mem_map_of_mem hmem)
      simp only [hne]
      exact ih hkeys.2 hmem

/-- **A change that leaves the node at the path as it is leaves the tree as it is.** -/
theorem modifyAt_eq_self (hd : Distinct t) (h : t.at? p = some s) (hf : f s = s) : t.modifyAt f p = t := by
  induction p generalizing t with
  | nil =>
    obtain rfl := Option.some.inj h
    exact hf
  | cons k p ih =>
    obtain ⟨c, hc, hp⟩ := child_of_at?_cons h
    cases hd with
    | node keys below =>
      rename_i a cs
      rw [modifyAt, label_node, children_node]
      congr 1
      refine (List.map_congr_left fun kc hkc => ?_).trans (List.map_id cs)
      split_ifs with hk
      · -- this is the child that is looked up
        have hlookup := lookup_of_mem keys hkc
        rw [hk] at hlookup
        obtain rfl : kc.2 = c := Option.some.inj (hlookup.symm.trans hc)
        rw [ih (below kc hkc) hp]
        rfl
      · rfl

theorem map_fst_modify {β : Type} (cs : List (κ × β)) (g : β → β) (k : κ) :
    (cs.map fun kc => if kc.1 = k then (kc.1, g kc.2) else kc).map Prod.fst = cs.map Prod.fst := by
  rw [List.map_map]
  refine List.map_congr_left fun kc _ => ?_
  rw [Function.comp_apply]
  split_ifs <;> rfl

/-- A change of one node that keeps its keys distinct keeps those of the tree. -/
theorem Distinct.modifyAt (hf : ∀ s, Distinct s → Distinct (f s)) (h : Distinct t) (p : List κ) :
    Distinct (t.modifyAt f p) := by
  induction p generalizing t with
  | nil => exact hf t h
  | cons k p ih =>
    cases h with
    | node keys below =>
      refine .node ?_ (fun kc hkc => ?_)
      · rw [children_node, map_fst_modify _ (KeyTree.modifyAt f · p)]
        exact keys
      · obtain ⟨kc', hkc', rfl⟩ := List.mem_map.1 hkc
        split_ifs
        · exact ih (below kc' hkc')
        · exact below kc' hkc'

/-! ## Relations between parent and child -/

/-- Every child is in the relation `R` to its parent, with its key. -/
inductive Edges (R : α → κ → α → Prop) : KeyTree κ α → Prop where
  | node {a : α} {cs : List (κ × KeyTree κ α)} (here : ∀ kc ∈ cs, R a kc.1 kc.2.label)
      (below : ∀ kc ∈ cs, Edges R kc.2) :
      Edges R (node a cs)

variable {R : α → κ → α → Prop}

theorem Edges.child (h : Edges R t) (hk : t.child k = some c) : R t.label k c.label ∧ Edges R c := by
  cases h with
  | node here below =>
    obtain ⟨l₁, l₂, hl, -⟩ := List.lookup_eq_some_iff.1 hk
    have hmem : (k, c) ∈ l₁ ++ (k, c) :: l₂ := by simp
    rw [← hl] at hmem
    exact ⟨here (k, c) hmem, below (k, c) hmem⟩

/-- A change of one node that keeps its label and its edges in order keeps those of the tree. -/
theorem Edges.modifyAt (hf : ∀ s, (f s).label = s.label) (hR : ∀ s, Edges R s → Edges R (f s)) (h : Edges R t)
    (p : List κ) : Edges R (t.modifyAt f p) := by
  induction p generalizing t with
  | nil => exact hR t h
  | cons k p ih =>
    cases h with
    | node here below =>
      refine .node (fun kc hkc => ?_) (fun kc hkc => ?_)
      · obtain ⟨kc', hkc', rfl⟩ := List.mem_map.1 hkc
        split_ifs
        · rw [label_modifyAt hf]
          exact here kc' hkc'
        · exact here kc' hkc'
      · obtain ⟨kc', hkc', rfl⟩ := List.mem_map.1 hkc
        split_ifs
        · exact ih (below kc' hkc')
        · exact below kc' hkc'

/-- **What `R` says about one edge adds up along a path.** -/
theorem Edges.foldl {β : Type} (value : α → β) (step : β → α → β)
    (hstep : ∀ a k b, R a k b → value b = step (value a) b) (h : Edges R t) (hp : t.at? p = some s) :
    value s.label = (t.labels p).foldl step (value t.label) := by
  induction p generalizing t with
  | nil =>
    obtain rfl := Option.some.inj hp
    rfl
  | cons k p ih =>
    obtain ⟨c, hc, hp⟩ := child_of_at?_cons hp
    obtain ⟨hedge, hsub⟩ := h.child hc
    rw [labels_cons hc, List.foldl_cons, ← hstep t.label k c.label hedge]
    exact ih hsub hp

end KeyTree
