import Ptu.Spec.CString

/-!
# The trie of cached files

`struct _trie` with its 128 children, as `cde.c` uses it in streaming mode to remember
which paths were fetched. An index of 128 and more is out of bounds in `TrieContains`
and fails the assertion of `TrieInsert`.
-/

namespace Ptu

/-- `Trie` -/
inductive Trie where
  | node (eltIsPresent : Bool) (children : Fin 128 → Option Trie)

/-- `t->elt_is_present` -/
def Trie.eltIsPresent : Trie → Bool
  | .node p _ => p

/-- `t->children` -/
def Trie.children : Trie → Fin 128 → Option Trie
  | .node _ cs => cs

/-- `TrieNew` -/
def trieNew : Trie := .node false fun _ => none

/-- `TrieInsert` -/
def trieInsert : CString → Trie → Except Fatal Trie
  | [], t => .ok (.node true t.children)
  | c :: s, t =>
    if h : c.toNat < 128 then do
      let child ← trieInsert s ((t.children ⟨c.toNat, h⟩).getD trieNew)
      return .node t.eltIsPresent fun i => if i = ⟨c.toNat, h⟩ then some child else t.children i
    else .error .assertion

/-- `TrieContains` -/
def trieContains : CString → Trie → Except Fatal Bool
  | [], t => .ok t.eltIsPresent
  | c :: s, t =>
    if h : c.toNat < 128 then
      match t.children ⟨c.toNat, h⟩ with
      | none => .ok false
      | some child => trieContains s child
    else .error .segv

/-- All bytes are below 128. -/
def isAscii (s : CString) : Bool := s.all fun c => decide (c.toNat < 128)

/-- **Lookups and insertions of ASCII strings succeed.** -/
theorem trieContains_ascii {s : CString} (h : isAscii s = true) (t : Trie) :
    ∃ b, trieContains s t = .ok b := by
  induction s generalizing t with
  | nil => exact ⟨_, rfl⟩
  | cons c s ih =>
    simp only [isAscii, List.all_cons, Bool.and_eq_true, decide_eq_true_eq] at h
    simp only [trieContains, h.1, dif_pos]
    split
    · exact ⟨_, rfl⟩
    · exact ih h.2 _

theorem trieInsert_ascii {s : CString} (h : isAscii s = true) (t : Trie) :
    ∃ t', trieInsert s t = .ok t' := by
  induction s generalizing t with
  | nil => exact ⟨_, rfl⟩
  | cons c s ih =>
    simp only [isAscii, List.all_cons, Bool.and_eq_true, decide_eq_true_eq] at h
    obtain ⟨t', ht'⟩ := ih h.2 ((t.children ⟨c.toNat, h.1⟩).getD trieNew)
    exact ⟨_, by simp only [trieInsert, h.1, dif_pos, ht']; rfl⟩

/-- **What was inserted is found.** -/
theorem trieContains_insert {s : CString} {t t' : Trie} (h : trieInsert s t = .ok t') :
    trieContains s t' = .ok true := by
  induction s generalizing t t' with
  | nil => obtain rfl := Except.ok.inj h; rfl
  | cons c s ih =>
    simp only [trieInsert] at h
    split at h
    · rename_i hc
      obtain ⟨child, hchild, h⟩ := bind_eq_ok.1 h
      obtain rfl := Except.ok.inj h
      simp only [trieContains, hc, dif_pos, Trie.children, if_true]
      exact ih hchild
    · cases h

theorem trieContains_new (p : CString) : trieContains p trieNew ≠ .ok true := by
  cases p with
  | nil => simp [trieNew, trieContains, Trie.eltIsPresent]
  | cons c p =>
    simp only [trieNew, trieContains, Trie.children]
    split <;> simp

/-- **Nothing else is inserted.** -/
theorem trieContains_insert_iff {p s : CString} {t t' : Trie} (h : trieInsert s t = .ok t') :
    trieContains p t' = .ok true ↔ p = s ∨ trieContains p t = .ok true := by
  induction s generalizing p t t' with
  | nil =>
    obtain rfl := Except.ok.inj h
    cases p with
    | nil => simp [trieContains, Trie.eltIsPresent]
    | cons c p => simp [trieContains, Trie.children]
  | cons c s ih =>
    simp only [trieInsert] at h
    split at h
    · rename_i hc
      obtain ⟨child, hchild, h⟩ := bind_eq_ok.1 h
      obtain rfl := Except.ok.inj h
      cases p with
      | nil => simp [trieContains, Trie.eltIsPresent]
      | cons c' p =>
        by_cases hc' : c' = c
        · -- the search goes on in the child that was inserted into
          subst hc'
          have hnew : ∀ t : Trie, trieContains (c' :: p) t = .ok true ↔
              trieContains p ((t.children ⟨c'.toNat, hc⟩).getD trieNew) = .ok true := by
            intro t
            simp only [trieContains, hc, dif_pos]
            cases t.children ⟨c'.toNat, hc⟩ with
            | none => simp [trieContains_new p]
            | some t => rfl
          rw [hnew, hnew, List.cons.injEq]
          simpa [Trie.children] using ih hchild
        · have hne : ∀ hlt : c'.toNat < 128, (⟨c'.toNat, hlt⟩ : Fin 128) ≠ ⟨c.toNat, hc⟩ := by
            intro hlt heq
            exact hc' (UInt8.toNat_inj.1 (Fin.mk.inj heq))
          have hsame : trieContains (c' :: p) (.node t.eltIsPresent fun i =>
              if i = ⟨c.toNat, hc⟩ then some child else t.children i) = trieContains (c' :: p) t := by
            simp only [trieContains, Trie.children]
            split
            · rename_i hlt
              rw [if_neg (hne hlt)]
            · rfl
          rw [hsame]
          simp [hc']
    · cases h

end Ptu
