import Ptu.Lib.Delimited
import Ptu.Proof.Path

/-!
# What canonicalisation is for

* `canonicalize_spec`: **`canonicalize_abspath` prints the list of names** that is left when the text
  is split at slashes and read from left to right (`nameList`). So it is idempotent, and a base
  directory may be made canonical first.
* `within_dir_iff`: **`file_is_within_dir` compares these lists**, although it compares strings.
-/

namespace Ptu

open Pathname

/-- What a piece between two slashes does to the names on its left. -/
def pushPiece (st : List CString) (piece : CString) : List CString :=
  if piece = [] ∨ piece = str "." then st
  else if piece = str ".." then st.dropLast
  else st ++ [piece]

/-- The names that a path consists of. -/
def nameList (s : CString) : List CString := (s.splitOn slash).foldl pushPiece []

theorem pushPiece_eq (st : List CString) (piece : CString) :
    pushPiece st piece = norm st (segComp piece).toList := by
  unfold pushPiece segComp
  by_cases hnil : piece = []
  · rw [if_pos (Or.inl hnil), if_pos hnil]
    rfl
  by_cases hdot : piece = str "."
  · rw [if_pos (Or.inr hdot), if_neg hnil, if_pos hdot]
    rfl
  have hname : ¬ (piece = [] ∨ piece = str ".") := fun h => h.elim hnil hdot
  rw [if_neg hname, if_neg hnil, if_neg hdot]
  split_ifs <;> rfl

theorem foldl_pushPiece (st pieces : List CString) :
    pieces.foldl pushPiece st = norm st (pieces.filterMap segComp) := by
  induction pieces generalizing st with
  | nil => rfl
  | cons piece pieces ih =>
    have hcons : (piece :: pieces).filterMap segComp = (segComp piece).toList ++ pieces.filterMap segComp := by
      rw [List.filterMap_cons]
      cases segComp piece <;> rfl
    rw [List.foldl_cons, ih, pushPiece_eq, hcons, norm_append]

theorem nameList_eq (s : CString) : nameList s = norm [] (comps s) := foldl_pushPiece _ _

theorem validPath_nameList (s : CString) : ValidPath (nameList s) := by
  rw [nameList_eq]
  exact validPath_norm s fun n hn => by simp at hn

theorem canonicalizeAbspath_nameList {s : CString} (hs : isAbspath s = true) :
    canonicalizeAbspath s = .ok (render (nameList s)) := by
  rw [canonicalizeAbspath_eq hs, nameList_eq]

theorem splitOn_joinSlash {p : List CString} (hp : ValidPath p) (hne : p ≠ []) :
    (joinSlash p).splitOn slash = p := by
  induction p with
  | nil => exact absurd rfl hne
  | cons a p ih =>
    have ha : slash ∉ a := (hp a List.mem_cons_self).2.2.2
    have hp' : ValidPath p := fun n hn => hp n (List.mem_cons_of_mem _ hn)
    rw [joinSlash_cons]
    split_ifs with hnil
    · rw [List.append_nil, List.splitOn_eq_singleton ha, hnil]
    · rw [render, Delimited.splitOn_append_cons ha, ih hp' hnil]

/-- **Canonicalisation meets its specification.** The result is a slash and the names, joined by
slashes; it has no empty, `.` or `..` piece; it is left alone; it can replace a base directory. -/
theorem canonicalize_spec (t : CString) :
    canonicalizeAbspath (slash :: t) = .ok (slash :: joinSlash (nameList (slash :: t))) ∧
    (∀ n ∈ nameList (slash :: t), n ≠ [] ∧ n ≠ str "." ∧ n ≠ str "..") ∧
    (nameList (slash :: t) = [] ∨
      (joinSlash (nameList (slash :: t))).splitOn slash = nameList (slash :: t)) ∧
    canonicalizeAbspath (slash :: joinSlash (nameList (slash :: t))) =
      .ok (slash :: joinSlash (nameList (slash :: t))) ∧
    ∀ r, canonicalizePath r (slash :: t) =
      canonicalizePath r (slash :: joinSlash (nameList (slash :: t))) := by
  have hvalid := validPath_nameList (slash :: t)
  have habs : isAbspath (slash :: t) = true := isAbspath_cons t
  refine ⟨canonicalizeAbspath_nameList habs, ?_, ?_, ?_, ?_⟩
  · intro n hn
    obtain ⟨hnil, hdot, hdots, -⟩ := hvalid n hn
    exact ⟨hnil, hdot, hdots⟩
  · by_cases hnil : nameList (slash :: t) = []
    · exact Or.inl hnil
    · exact Or.inr (splitOn_joinSlash hvalid hnil)
  · exact canonical_iff.2 ⟨_, hvalid, rfl⟩
  · intro r
    by_cases hr : isAbspath r = true
    · rw [canonicalizePath_abs _ hr, canonicalizePath_abs _ hr]
    · have hrel : isAbspath r = false := by simpa using hr
      have hcomps : comps (slash :: joinSlash (nameList (slash :: t))) = names (nameList (slash :: t)) :=
        comps_render hvalid
      rw [canonicalizePath_rel hrel habs, canonicalizePath_rel hrel (isAbspath_cons _), norm_append,
        norm_append, hcomps, norm_names, ← nameList_eq, List.nil_append]

example : nameList (str "/home////pgbovine/.///../joeblow/hello/world/.") =
    [str "home", str "joeblow", str "hello", str "world"] := by decide

/-! ## Containment -/

/-- With a slash tacked on, every name of a canonical path has a slash behind it. -/
theorem tackSlash_render {p : List CString} (hp : ValidPath p) :
    tackSlash (render p) = slash :: Delimited.terminated slash p := by
  have hjoin : ∀ {p : List CString}, p ≠ [] → joinSlash p ++ [slash] = Delimited.terminated slash p := by
    intro p hne
    induction p with
    | nil => exact absurd rfl hne
    | cons a p ih =>
      rw [joinSlash_cons, Delimited.terminated_cons]
      split_ifs with hnil
      · simp [hnil]
      · rw [List.append_assoc, render, List.cons_append, ih hnil]
  unfold tackSlash
  by_cases hnil : p = []
  · subst hnil
    rfl
  · obtain ⟨a, p', rfl⟩ := List.exists_cons_of_ne_nil hnil
    have ha : a ≠ [] := (hp a List.mem_cons_self).1
    have hlen : 1 < (render (a :: p')).length := by
      have hpos := List.length_pos_iff.2 ha
      rw [render, joinSlash_cons, List.length_cons, List.length_append]
      omega
    rw [if_pos hlen, ← hjoin hnil]
    rfl

/-- The absolute name of a file: a relative one is taken from the directory `base`. -/
def absoluteName (file base : CString) : CString := if isAbspath file then file else base ++ slash :: file

theorem canonicalizePath_nameList {file base : CString}
    (h : isAbspath file = true ∨ isAbspath base = true) :
    canonicalizePath file base = .ok (render (nameList (absoluteName file base))) := by
  rw [canonicalizePath_eq h, nameList_eq]
  unfold absComps absoluteName
  split_ifs
  · rfl
  · rw [comps_append_slash]

/-- **`file_is_within_dir` decides containment by components.** -/
theorem within_dir_iff {file dir base : CString} (hdir : isAbspath dir = true)
    (hfile : isAbspath file = true ∨ isAbspath base = true) :
    ∃ b, fileIsWithinDir file dir base = .ok b ∧
      (b = true ↔ nameList dir <+: nameList (absoluteName file base)) := by
  have hnoslash : ∀ {s : CString}, ∀ n ∈ nameList s, slash ∉ n :=
    fun n hn => (validPath_nameList _ n hn).2.2.2
  unfold fileIsWithinDir
  rw [canonicalizeAbspath_nameList hdir, canonicalizePath_nameList hfile]
  refine ⟨_, rfl, ?_⟩
  rw [tackSlash_render (validPath_nameList _), tackSlash_render (validPath_nameList _), Bool.and_eq_true,
    startsWith_iff, decide_eq_true_eq, List.cons_prefix_cons,
    Delimited.terminated_isPrefix_iff hnoslash hnoslash]
  constructor
  · rintro ⟨-, -, hpre⟩
    exact hpre
  · intro hpre
    have hterm := (Delimited.terminated_isPrefix_iff (d := slash) hnoslash hnoslash).2 hpre
    refine ⟨?_, rfl, hpre⟩
    rw [List.length_cons, List.length_cons]
    exact Nat.succ_le_succ hterm.length_le

/-- `/home/pgbovine/hello.txt` is not within `/home/pgbovine/hello`. -/
theorem within_dir_hello :
    fileIsWithinDir (str "hello.txt") (str "/home/pgbovine/hello") (str "/home/pgbovine/") = .ok false := by
  obtain ⟨b, hb, hiff⟩ : ∃ b, fileIsWithinDir (str "hello.txt") (str "/home/pgbovine/hello")
      (str "/home/pgbovine/") = .ok b ∧ (b = true ↔ nameList (str "/home/pgbovine/hello") <+:
        nameList (absoluteName (str "hello.txt") (str "/home/pgbovine/"))) :=
    within_dir_iff (by decide) (by decide)
  have hnot : ¬ nameList (str "/home/pgbovine/hello") <+:
      nameList (absoluteName (str "hello.txt") (str "/home/pgbovine/")) := by decide
  rw [hb]
  cases b with
  | false => rfl
  | true => exact absurd (hiff.1 rfl) hnot

end Ptu
