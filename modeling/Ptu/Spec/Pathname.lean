import Ptu.Lib.Lexical
import Ptu.Spec.CString

/-!
# Pathnames as lists of components

The text between two slashes as a component, and a pathname as the list of its
components. An empty text (adjoining slashes, a leading or trailing slash) is none.
-/

namespace Ptu

open Pathname

/-- The component a text between two slashes stands for. -/
def segComp (s : CString) : Option (Comp CString) :=
  if s = [] then none
  else if s = str "." then some .here
  else if s = str ".." then some .up
  else some (.name s)

/-- The components of a pathname. -/
def comps (s : CString) : List (Comp CString) := (s.splitOn slash).filterMap segComp

/-- A text that can name a directory entry. -/
def ValidName (n : CString) : Prop := n ≠ [] ∧ n ≠ str "." ∧ n ≠ str ".." ∧ slash ∉ n

/-- A real path all of whose entries can be named. -/
def ValidPath (p : List CString) : Prop := ∀ n ∈ p, ValidName n

instance (n : CString) : Decidable (ValidName n) :=
  inferInstanceAs (Decidable (n ≠ [] ∧ n ≠ str "." ∧ n ≠ str ".." ∧ slash ∉ n))

instance (p : List CString) : Decidable (ValidPath p) :=
  inferInstanceAs (Decidable (∀ n ∈ p, ValidName n))

theorem segComp_name {n : CString} (h : ValidName n) : segComp n = some (.name n) := by
  obtain ⟨h1, h2, h3, -⟩ := h
  simp [segComp, h1, h2, h3]

@[simp] theorem comps_nil : comps [] = [] := rfl

/-- **Components of a concatenation** at a slash. -/
theorem comps_append_slash (s t : CString) : comps (s ++ slash :: t) = comps s ++ comps t := by
  simp [comps, List.splitOn_append_cons_self]

@[simp] theorem comps_slash (t : CString) : comps (slash :: t) = comps t := by
  simpa using comps_append_slash [] t

theorem comps_noslash {s : CString} (h : slash ∉ s) : comps s = (segComp s).toList := by
  rw [comps, List.splitOn_eq_singleton h]
  cases hs : segComp s <;> simp [hs]

theorem comps_dropWhile (s : CString) : comps (s.dropWhile (· == slash)) = comps s := by
  induction s with
  | nil => rfl
  | cons c s ih =>
    by_cases h : c = slash
    · subst h; simpa using ih
    · simp [h]

theorem noslash_of_mem_splitOn {s seg : CString} (h : seg ∈ s.splitOn slash) : slash ∉ seg := by
  induction s generalizing seg with
  | nil => simp at h; subst h; simp
  | cons c s ih =>
    rw [List.splitOn_cons_eq_if_modifyHead] at h
    split at h
    · rcases List.mem_cons.1 h with h | h
      · subst h; simp
      · exact ih h
    · rename_i hc
      obtain ⟨x, xs, hx⟩ := List.exists_cons_of_ne_nil (List.splitOn_ne_nil slash s)
      rw [hx] at h ih
      rcases List.mem_cons.1 h with h | h
      · subst h
        simp only [List.mem_cons, not_or]
        exact ⟨fun h => hc (by simp [h]), ih List.mem_cons_self⟩
      · exact ih (List.mem_cons_of_mem _ h)

/-- A name among the components of a text is a valid name. -/
theorem comps_valid {s n : CString} (h : .name n ∈ comps s) : ValidName n := by
  obtain ⟨seg, hseg, hn⟩ := List.mem_filterMap.1 h
  have hs := noslash_of_mem_splitOn hseg
  unfold segComp at hn
  split at hn
  · cases hn
  · split at hn
    · cases hn
    · split at hn
      · cases hn
      · cases hn; exact ⟨‹_›, ‹_›, ‹_›, hs⟩

theorem segComp_eq_none {s : CString} : segComp s = none ↔ s = [] := by
  unfold segComp
  split_ifs <;> simp_all

/-- Only slashes have no components. -/
theorem eq_slash_of_comps_nil {s : CString} (h : comps s = []) : ∀ c ∈ s, c = slash := by
  induction s with
  | nil => intro c hc; simp at hc
  | cons x s ih =>
    by_cases hx : x = slash
    · subst hx
      rw [comps_slash] at h
      intro c hc
      rcases List.mem_cons.1 hc with rfl | hc
      · rfl
      · exact ih h c hc
    · exfalso
      obtain ⟨seg, segs, hs⟩ := List.exists_cons_of_ne_nil (List.splitOn_ne_nil slash s)
      have hne : segComp (x :: seg) ≠ none := by rw [Ne, segComp_eq_none]; simp
      rw [comps, List.splitOn_cons_eq_if_modifyHead, if_neg (by simpa using hx), hs] at h
      rw [List.modifyHead_cons, List.filterMap_eq_nil_iff] at h
      exact hne (h _ List.mem_cons_self)

theorem validPath_append {p q : List CString} : ValidPath (p ++ q) ↔ ValidPath p ∧ ValidPath q := by
  simp only [ValidPath, List.mem_append]
  exact ⟨fun h => ⟨fun n hn => h n (Or.inl hn), fun n hn => h n (Or.inr hn)⟩,
    fun h n hn => hn.elim (h.1 n) (h.2 n)⟩

theorem ValidPath.of_prefix {p q : List CString} (h : ValidPath q) (hp : p <+: q) : ValidPath p :=
  fun n hn => h n (hp.subset hn)

/-- Lexical normalisation of a text yields valid names. -/
theorem validPath_norm {st : List CString} (s : CString) (h : ValidPath st) :
    ValidPath (norm st (comps s)) := by
  intro n hn
  rcases mem_norm hn with h' | h'
  · exact h n h'
  · exact comps_valid h'

end Ptu
