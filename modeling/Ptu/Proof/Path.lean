import Ptu.Lib.Delimited
import Ptu.Spec.Path
import Ptu.Spec.Pathname

/-!
# Canonical paths

`new_path_internal` computes the lexical normal form of the components of its
argument (`components_eq`), and `canonicalize_path` prints it (`canonicalizePath_abs`,
`canonicalizePath_rel`). A canonical path is `render p` for a list `p` of valid names;
`render` turns concatenation of lists into concatenation of strings.
-/

namespace Ptu

open Pathname

/-! ## The loop of `new_path_internal` -/

@[simp] theorem NewPath.grow_stack (st : NewPath) : st.grow.base.stack = st.base.stack := by
  unfold NewPath.grow; split <;> rfl

@[simp] theorem NewPath.grow_isAbspath (st : NewPath) :
    st.grow.base.isAbspath = st.base.isAbspath := by
  unfold NewPath.grow; split <;> rfl

theorem NewPath.component_isAbspath (st : NewPath) (c : CString) :
    (st.component c).base.isAbspath = st.base.isAbspath := by
  unfold NewPath.component; split_ifs <;> rfl

/-- One component does to the stack what lexical normalisation does. -/
theorem NewPath.component_stack (st : NewPath) (c : CString) :
    (st.component c).base.stack = norm st.base.stack (segComp c).toList := by
  unfold NewPath.component segComp
  split_ifs with h1 h2 h3 h4
  · rfl
  · rfl
  · rfl
  · -- `..` on the empty stack
    have : st.base.stack = [] := List.length_eq_zero_iff.1 (by unfold Path.depth at h4; omega)
    simp [Comp.push, this]
  · rfl

theorem newPathLoop_stack : ∀ (fuel : ℕ) (path : CString) (st : NewPath), path.length < fuel →
    (newPathLoop fuel path st).base.stack = norm st.base.stack (comps path) ∧
      (newPathLoop fuel path st).base.isAbspath = st.base.isAbspath := by
  intro fuel
  induction fuel with
  | zero => intro path st h; omega
  | succ fuel ih =>
    intro path st h
    simp only [newPathLoop]
    rw [← comps_dropWhile path]
    have hlen := List.length_dropWhile_le (· == slash) path
    set p := path.dropWhile (· == slash)
    have hp := List.takeWhile_append_dropWhile (p := (· != slash)) (l := p)
    have hc : slash ∉ p.takeWhile (· != slash) := by
      intro hm; simpa using List.mem_takeWhile_imp hm
    split
    · rename_i hd
      rw [hd, List.append_nil] at hp
      rw [hp] at hc
      rw [hp, NewPath.component_stack, NewPath.component_isAbspath, comps_noslash hc]
      simp
    · rename_i c q hd
      have hcs : c = slash := by
        have := List.head_dropWhile_not (· != slash) (l := p) (by rw [hd]; simp)
        simpa [hd] using this
      subst hcs
      rw [hd] at hp
      have hq : q.length < fuel := by
        have := congrArg List.length hp
        simp only [List.length_append, List.length_cons] at this; omega
      obtain ⟨h1, h2⟩ := ih q _ hq
      refine ⟨?_, by rw [h2, NewPath.component_isAbspath, NewPath.grow_isAbspath]⟩
      rw [h1, NewPath.component_stack, ← comps_noslash hc, ← norm_append, ← comps_append_slash, hp,
        NewPath.grow_stack]

/-- **`new_path_internal` normalises lexically.** -/
theorem components_eq {s : CString} (h : isAbspath s = true) : components s = norm [] (comps s) := by
  obtain ⟨q, rfl⟩ := isAbspath_iff.1 h
  unfold components newPathInternal
  simp only [if_true, List.tail_cons]
  rw [(newPathLoop_stack _ _ _ (Nat.lt_succ_self _)).1, comps_slash]
  rfl

theorem newPathInternal_isAbspath (s : CString) : (newPathInternal s true).isAbspath = true := by
  unfold newPathInternal
  rw [(newPathLoop_stack _ _ _ (Nat.lt_succ_self _)).2]
  rfl

/-! ## Printing -/

/-- The canonical path with the components `p`. -/
def render (p : List CString) : CString := slash :: joinSlash p

@[simp] theorem render_nil : render [] = [slash] := rfl

@[simp] theorem isAbspath_render (p : List CString) : isAbspath (render p) = true := by
  simp [render]

theorem joinSlash_cons (a : CString) (p : List CString) :
    joinSlash (a :: p) = a ++ if p = [] then [] else render p := by
  cases p with
  | nil => simp [joinSlash]
  | cons b p => simp [joinSlash, render]

theorem joinSlash_append {p : List CString} (q : List CString) (hp : p ≠ []) :
    joinSlash (p ++ q) = joinSlash p ++ if q = [] then [] else render q := by
  induction p with
  | nil => exact absurd rfl hp
  | cons a p ih =>
    cases p with
    | nil => simp [joinSlash_cons, joinSlash]
    | cons b p =>
      rw [List.cons_append, joinSlash_cons, joinSlash_cons, if_neg (by simp), if_neg (by simp)]
      have := ih (by simp)
      simp only [render, this]
      simp

/-- **Below a directory other than the root, paths are printed one after the other.** -/
theorem render_append {p : List CString} (q : List CString) (hp : p ≠ []) :
    render (p ++ q) = render p ++ if q = [] then [] else render q := by
  simp [render, joinSlash_append q hp]

theorem render_concat (p : List CString) (a : CString) :
    render (p ++ [a]) = (if p = [] then [] else render p) ++ slash :: a := by
  split_ifs with hp
  · subst hp; rfl
  · rw [render_append [a] hp, if_neg (by simp)]; rfl

theorem comps_joinSlash {p : List CString} (h : ValidPath p) : comps (joinSlash p) = names p := by
  induction p with
  | nil => rfl
  | cons a p ih =>
    have ha := h a List.mem_cons_self
    have hp : ValidPath p := fun n hn => h n (List.mem_cons_of_mem _ hn)
    have hc : comps a = [.name a] := by rw [comps_noslash ha.2.2.2, segComp_name ha]; rfl
    rw [joinSlash_cons]
    split_ifs with hnil
    · subst hnil; simpa using hc
    · rw [render, comps_append_slash, hc, ih hp]; rfl

@[simp] theorem comps_render {p : List CString} (h : ValidPath p) : comps (render p) = names p := by
  rw [render, comps_slash, comps_joinSlash h]

theorem comps_render_append {p q : List CString} (hp : ValidPath p) (hq : ValidPath q) :
    comps (render p ++ render q) = names (p ++ q) := by
  rw [render, render, comps_append_slash, ← render, comps_render hp, comps_joinSlash hq, names_append]

theorem components_render {p : List CString} (h : ValidPath p) : components (render p) = p := by
  rw [components_eq (isAbspath_render p), comps_render h]; simp

theorem path2str_zero (p : Path) (h : p.isAbspath = true) : path2str p 0 = render p.stack := by
  simp [path2str, h, render, Path.depth]

theorem path2str_succ (p : Path) (h : p.isAbspath = true) (i : ℕ) :
    path2str p (i + 1) = render (p.stack.take (i + 1)) := by
  unfold path2str render
  rw [h]
  by_cases hi : i + 1 = 0 ∨ p.depth < i + 1
  · have hlen : p.stack.length ≤ i + 1 := by unfold Path.depth at hi; omega
    have hdepth : p.stack.take p.depth = p.stack := List.take_length
    simp only [hi, if_true, hdepth, List.take_of_length_le hlen]
    rfl
  · simp only [hi, if_true, if_false]
    rfl

/-! ## Canonicalisation -/

theorem canonicalizeAbspath_eq {s : CString} (h : isAbspath s = true) :
    canonicalizeAbspath s = .ok (render (norm [] (comps s))) := by
  unfold canonicalizeAbspath newPathFromAbspath
  simp only [h, if_true]
  rw [← components_eq h]
  exact congrArg Except.ok (path2str_zero _ (newPathInternal_isAbspath s))

/-- **`canonicalize_path` of an absolute path.** -/
theorem canonicalizePath_abs {f : CString} (d : CString) (h : isAbspath f = true) :
    canonicalizePath f d = .ok (render (norm [] (comps f))) := by
  rw [canonicalizePath, if_pos h, canonicalizeAbspath_eq h]

/-- **`canonicalize_path` of a relative path** goes through the base directory. -/
theorem canonicalizePath_rel {f d : CString} (h : isAbspath f = false) (hd : isAbspath d = true) :
    canonicalizePath f d = .ok (render (norm [] (comps d ++ comps f))) := by
  have hdf : isAbspath (d ++ slash :: f) = true := isAbspath_append _ hd
  have := canonicalizeAbspath_eq hdf
  rw [comps_append_slash] at this
  rw [← this]
  simp [canonicalizePath, h, canonicalizeRelpath, newPathFromRelpath, hd, canonicalizeAbspath]

/-- The components `canonicalize_path` normalises. -/
def absComps (f d : CString) : List (Comp CString) :=
  if isAbspath f then comps f else comps d ++ comps f

theorem canonicalizePath_eq {f d : CString} (h : isAbspath f = true ∨ isAbspath d = true) :
    canonicalizePath f d = .ok (render (norm [] (absComps f d))) := by
  unfold absComps
  by_cases hf : isAbspath f = true
  · rw [if_pos hf, canonicalizePath_abs d hf]
  · rw [if_neg hf, canonicalizePath_rel (by simpa using hf) (h.resolve_left hf)]

/-- Without an absolute path to start from there is only the assertion. -/
theorem canonicalizePath_ok {f d q : CString} (h : canonicalizePath f d = .ok q) :
    isAbspath f = true ∨ isAbspath d = true := by
  by_contra hn
  simp only [not_or, Bool.not_eq_true] at hn
  simp [canonicalizePath, hn.1, canonicalizeRelpath, newPathFromRelpath, hn.2, Bind.bind,
    Except.bind] at h

theorem validPath_absComps (f d : CString) : ValidPath (norm [] (absComps f d)) := by
  have h0 : ValidPath [] := fun n hn => by simp at hn
  unfold absComps
  split_ifs
  · exact validPath_norm f h0
  · rw [norm_append]; exact validPath_norm f (validPath_norm d h0)

/-- **Every result of `canonicalize_path` is canonical.** -/
theorem canonicalizePath_render {f d q : CString} (h : canonicalizePath f d = .ok q) :
    ∃ p, ValidPath p ∧ q = render p := by
  rw [canonicalizePath_eq (canonicalizePath_ok h)] at h
  cases h
  exact ⟨_, validPath_absComps f d, rfl⟩

/-- A path is canonical when `canonicalize_abspath` leaves it alone. -/
def Canonical (s : CString) : Prop := canonicalizeAbspath s = .ok s

instance (s : CString) : Decidable (Canonical s) :=
  inferInstanceAs (Decidable (canonicalizeAbspath s = .ok s))

theorem canonical_iff {s : CString} : Canonical s ↔ ∃ p, ValidPath p ∧ s = render p := by
  constructor
  · intro h
    have ha : isAbspath s = true := by
      by_contra hn
      simp [Canonical, canonicalizeAbspath, newPathFromAbspath, hn, Bind.bind, Except.bind] at h
    rw [Canonical, canonicalizeAbspath_eq ha] at h
    exact ⟨_, validPath_norm s (fun n hn => by simp at hn), (Except.ok.inj h).symm⟩
  · rintro ⟨p, hp, rfl⟩
    rw [Canonical, canonicalizeAbspath_eq (isAbspath_render p), comps_render hp]; simp

/-! ## The bytes of a canonical path -/

/-- The bytes of a component are bytes of the text. -/
theorem mem_of_mem_comps {s n : CString} {c : Byte} (h : .name n ∈ comps s) (hc : c ∈ n) : c ∈ s := by
  obtain ⟨seg, hseg, hn⟩ := List.mem_filterMap.1 h
  obtain rfl : seg = n := by
    unfold segComp at hn
    split_ifs at hn
    all_goals cases hn
    rfl
  have hjoin : [slash].intercalate (s.splitOn slash) = s := List.intercalate_splitOn slash
  rw [← hjoin]
  exact Delimited.mem_intercalate hseg hc

theorem mem_render {p : List CString} {c : Byte} (h : c ∈ render p) : c = slash ∨ ∃ n ∈ p, c ∈ n := by
  induction p with
  | nil => exact Or.inl (by simpa using h)
  | cons a p ih =>
    rw [render, joinSlash_cons, List.mem_cons, List.mem_append] at h
    rcases h with h | h | h
    · exact Or.inl h
    · exact Or.inr ⟨a, List.mem_cons_self, h⟩
    · split_ifs at h
      · cases h
      · rcases ih h with h | ⟨n, hn, h⟩
        · exact Or.inl h
        · exact Or.inr ⟨n, List.mem_cons_of_mem _ hn, h⟩

/-- Apart from slashes, `canonicalize_path` adds no bytes. -/
theorem mem_canonicalizePath {f d q : CString} {c : Byte} (h : canonicalizePath f d = .ok q)
    (hc : c ∈ q) : c = slash ∨ c ∈ f ∨ c ∈ d := by
  rw [canonicalizePath_eq (canonicalizePath_ok h)] at h
  obtain rfl := Except.ok.inj h
  rcases mem_render hc with hc | ⟨n, hn, hc⟩
  · exact Or.inl hc
  right
  have hname := (mem_norm hn).resolve_left (by simp)
  unfold absComps at hname
  split_ifs at hname
  · exact Or.inl (mem_of_mem_comps hname hc)
  · rcases List.mem_append.1 hname with hname | hname
    · exact Or.inr (mem_of_mem_comps hname hc)
    · exact Or.inl (mem_of_mem_comps hname hc)

end Ptu
