import Mathlib.Data.List.Infix
import Ptu.Proof.CopyFile
import Ptu.Proof.Mirror
import Ptu.Proof.Strcat

/-!
# okapi copies faithfully

* `lstat_last`, `newEntry_last`, `linkOrCopy_file`: the system calls on a path whose
  directory part leads somewhere.
* `createMirrorDirs_spec`, `createMirrorTarget_spec`, `mirrorSymlink_spec`: what the
  mirroring functions do to a mirrored tree. The recursion is on the number of links
  that lookup of the path follows.
* `okapi_faithful`: **after `create_mirror_file(f, "", dst)` the copy of `f` is found
  inside `dst`**, if the links on the way are tame.
-/

namespace Ptu

open Pathname

variable {h : Host} {F : Fs} {m : ℕ} {cs : List (Comp CString)} {d : List CString} {a X : CString}

/-! ## System calls -/

theorem Resolves.walkable {n : ℕ} {cur r : List CString} (hr : Resolves F n cur cs r) :
    Res readTarget F (fun p => (fun _ => true) p = true) (fun _ _ => True) n cur cs r :=
  hr.mono (fun _ _ h => h) (fun _ _ => rfl) (fun _ _ h => h)

theorem ne_nil_of_isAbspath (hX : isAbspath X = true) : X ≠ [] := by
  rintro rfl; simp [isAbspath] at hX

/-- `lstat` of a path that ends in a name. -/
theorem lstat_last (hX : isAbspath X = true) (hcs : pathComps X = cs ++ [.name a])
    (hr : Resolves F m [] cs d) (hd : F d = some .dir) (hm : m ≤ h.maxLinks) :
    lstat h F X = F (d ++ [a]) := by
  unfold lstat lookup
  rw [if_neg (ne_nil_of_isAbspath hX), if_pos hX, hcs, walk_append hr.walkable (Or.inl (by simp)) hm]
  cases ha : F (d ++ [a]) with
  | none => rw [walk_none rfl hd ha]; rfl
  | some nd => rw [walk_last rfl hd ha rfl]; exact ha

/-- A path that does not end in a name leads to a directory, and `lstat` finds it. -/
theorem lstat_dir (hF : WellFormed F) (hX : isAbspath X = true) {r : List CString}
    (hr : Resolves F m [] (pathComps X) r) (hm : m ≤ h.maxLinks)
    (hl : ∀ a, (pathComps X).getLast? ≠ some (.name a)) :
    F r = some .dir ∧ lstat h F X = some .dir := by
  unfold lstat lookup
  rw [if_neg (ne_nil_of_isAbspath hX), if_pos hX]
  rcases List.eq_nil_or_concat' (pathComps X) with hnil | ⟨cs, x, hx⟩
  · rw [hnil] at hr ⊢
    cases hr with
    | nil _ => rw [walk_nil rfl]; exact ⟨hF.root, hF.root⟩
  · rw [hx] at hr ⊢
    obtain ⟨n₁, n₂, d, rfl, h₁, h₂⟩ := hr.split
    rw [walk_append (Resolves.walkable h₁) (Or.inl (List.cons_ne_nil x [])) (by omega)]
    cases x with
    | name a => exact absurd (by rw [hx, List.getLast?_concat]) (hl a)
    | here =>
      cases h₂ with
      | here _ hd h₂ =>
        cases h₂ with
        | nil _ => rw [walk_here rfl hd, walk_nil rfl]; exact ⟨hd, hd⟩
    | up =>
      cases h₂ with
      | up _ hd h₂ =>
        cases h₂ with
        | nil _ =>
          have hd' := hF.dir_of_prefix hd (List.dropLast_prefix d)
          rw [walk_up rfl hd, walk_nil rfl]; exact ⟨hd', hd'⟩

/-- **Only a path that ends in a name is no directory for `lstat`.** -/
theorem lstat_inv (hF : WellFormed F) (hX : isAbspath X = true) {nd : Node File CString}
    (hl : lstat h F X = some nd) (hnd : nd ≠ .dir) :
    ∃ cs a m d, pathComps X = cs ++ [.name a] ∧ Resolves F m [] cs d ∧ F d = some .dir ∧
      m ≤ h.maxLinks ∧ F (d ++ [a]) = some nd := by
  have hlook := hl
  unfold lstat lookup at hlook
  rw [if_neg (ne_nil_of_isAbspath hX), if_pos hX] at hlook
  obtain ⟨r, hwalk, hr⟩ := Option.bind_eq_some_iff.1 hlook
  by_cases hlast : ∃ cs a, pathComps X = cs ++ [.name a]
  · obtain ⟨cs, a, hcs⟩ := hlast
    rw [hcs] at hwalk
    obtain ⟨m, hm, d, hres, hd, rfl, -⟩ := res_of_walk_last hwalk
    exact ⟨cs, a, m, d, hcs, hres.mono (fun _ _ h => h) (fun _ _ => trivial) (fun _ _ h => h), hd, hm, hr⟩
  · -- then the last link is followed anyway, and there is a directory at the end
    exfalso
    have hnoname : ∀ a, (pathComps X).getLast? ≠ some (.name a) := by
      intro a ha
      apply hlast
      exact ⟨(pathComps X).dropLast, a, (List.dropLast_append_getLast? _ ha).symm⟩
    rw [walk_follow hnoname] at hwalk
    obtain ⟨m, hm, hres⟩ := walk_iff_res.1 hwalk
    have hres' : Resolves F m [] (pathComps X) r :=
      hres.mono (fun _ _ h => h) (fun _ _ => trivial) (fun _ _ h => h)
    obtain ⟨-, hdir⟩ := lstat_dir hF hX hres' hm hnoname
    rw [hdir] at hl
    exact hnd (Option.some.inj hl).symm

/-- What `lstat` finds no link at leads there. -/
theorem lstat_eq_dir (hX : isAbspath X = true) (hl : lstat h F X = some .dir) :
    ∃ m e, m ≤ h.maxLinks ∧ Resolves F m [] (pathComps X) e ∧ F e = some .dir := by
  unfold lstat lookup at hl
  rw [if_neg (ne_nil_of_isAbspath hX), if_pos hX] at hl
  obtain ⟨r, hwalk, hr⟩ := Option.bind_eq_some_iff.1 hl
  by_cases hlast : ∃ a, (pathComps X).getLast? = some (.name a)
  · obtain ⟨a, ha⟩ := hlast
    have hcs := (List.dropLast_append_getLast? _ ha).symm
    rw [hcs] at hwalk ⊢
    obtain ⟨m, hm, d, hres, hd, rfl, -⟩ := res_of_walk_last hwalk
    have hparent : Resolves F m [] (pathComps X).dropLast d :=
      hres.mono (fun _ _ h => h) (fun _ _ => trivial) (fun _ _ h => h)
    exact ⟨m, d ++ [a], hm, hparent.append (.name trivial hd hr (by simp) (.nil trivial)), hr⟩
  · rw [walk_follow (fun a ha => hlast ⟨a, ha⟩)] at hwalk
    obtain ⟨m, hm, hres⟩ := walk_iff_res.1 hwalk
    exact ⟨m, r, hm, hres.mono (fun _ _ h => h) (fun _ _ => trivial) (fun _ _ h => h), hr⟩

/-- `stat` and `realpath` of a path that leads somewhere. -/
theorem realpath_of_res (hX : isAbspath X = true) {r : List CString}
    (hr : Resolves F m [] (pathComps X) r) (hm : m ≤ h.maxLinks) : realpath h F X = some r := by
  unfold realpath lookup
  rw [if_neg (ne_nil_of_isAbspath hX), if_pos hX]
  exact walk_of_res hr.walkable hm

theorem stat_of_res (hX : isAbspath X = true) {r : List CString}
    (hr : Resolves F m [] (pathComps X) r) (hm : m ≤ h.maxLinks) : stat h F X = F r := by
  have hreal := realpath_of_res hX hr hm
  unfold realpath at hreal
  unfold stat
  rw [hreal]; rfl

/-- A path whose last name does not exist leads nowhere. -/
theorem realpath_none (hX : isAbspath X = true) (hcs : pathComps X = cs ++ [.name a])
    (hr : Resolves F m [] cs d) (hd : F d = some .dir) (hm : m ≤ h.maxLinks) (ha : F (d ++ [a]) = none) :
    realpath h F X = none := by
  unfold realpath lookup
  rw [if_neg (ne_nil_of_isAbspath hX), if_pos hX, hcs, walk_append hr.walkable (Or.inl (by simp)) hm,
    walk_none rfl hd ha]

theorem comps_of_pathComps (hcs : pathComps X = cs ++ [.name a]) :
    comps X = cs ++ [.name a] ∧ X.getLast? ≠ some slash := by
  unfold pathComps at hcs
  split_ifs at hcs with hl
  · have := congrArg List.getLast? hcs
    simp at this
  · rw [List.append_nil] at hcs
    exact ⟨hcs, hl⟩

/-- Creation of an object under a path that ends in a name. -/
theorem newEntry_last (hcs : pathComps X = cs ++ [.name a]) (hr : Resolves F m [] cs d)
    (hd : F d = some .dir) (hm : m ≤ h.maxLinks) (dir : Bool) :
    newEntry h F dir X = if (F (d ++ [a])).isSome then .error .eexist else .ok (d ++ [a]) := by
  obtain ⟨hc, hl⟩ := comps_of_pathComps hcs
  unfold newEntry
  rw [hc, List.dropLast_concat, walk_of_res hr.walkable hm, List.getLast?_concat]
  simp only [isDir_iff.2 hd, if_true]
  have hslash : (!dir && X.getLast? == some slash) = false := by simp [hl]
  rw [hslash]; rfl

/-- What can be read from a path that leads to a file. -/
theorem openRead_of_res (hX : isAbspath X = true) {r : List CString} {f : File}
    (hr : Resolves F m [] (pathComps X) r) (hm : m ≤ h.maxLinks) (hf : F r = some (.file f)) :
    openRead h F X = if h.mayRead r then some f.content else none := by
  unfold openRead
  rw [realpath_of_res hX hr hm, Option.bind_some, hf]

/-- The content of a copy of the file at the real path `r`: a hard link has all of it, a copy only what the
tracer may read. -/
def copiedContent (h : Host) (r : List CString) (X Y : CString) (f : File) : List Byte :=
  if h.hardLink X Y || h.mayRead r then f.content else []

/-- **Hard link or copy**: there is a file in the end, which was there before or is a copy. -/
theorem linkOrCopy_file {Y : CString} {f : File} {cs' : List (Comp CString)} {m' : ℕ}
    {d' : List CString} {a' : CString} (hX : isAbspath X = true) (hcs : pathComps X = cs ++ [.name a])
    (hr : Resolves F m [] cs d) (hd : F d = some .dir) (hm : m ≤ h.maxLinks)
    (hf : F (d ++ [a]) = some (.file f)) (hY : isAbspath Y = true)
    (hcs' : pathComps Y = cs' ++ [.name a']) (hr' : Resolves F m' [] cs' d')
    (hd' : F d' = some .dir) (hm' : m' ≤ h.maxLinks) :
    ((F (d' ++ [a'])).isSome ∧ linkOrCopy h F X Y = .ok F) ∨
    (F (d' ++ [a']) = none ∧
      ∃ f', f'.content = copiedContent h (d ++ [a]) X Y f ∧
        linkOrCopy h F X Y = .ok (F.set (d' ++ [a']) (.file f'))) := by
  have hl : lstat h F X = some (.file f) := by rw [lstat_last hX hcs hr hd hm, hf]
  unfold linkOrCopy link
  rw [hl]
  simp only [newEntry_last hcs' hr' hd' hm']
  cases hnew : F (d' ++ [a']) with
  | some nd => left; simp
  | none =>
    right
    simp only [Option.isSome_none, Bool.false_eq_true, if_false, true_and]
    cases hlink : h.hardLink X Y with
    | true =>
      refine ⟨f, ?_, rfl⟩
      rw [copiedContent, hlink]
      rfl
    | false =>
      have hres : Resolves F m [] (pathComps X) (d ++ [a]) := by
        rw [hcs]
        exact hr.append (.name trivial hd hf (by simp) (.nil trivial))
      refine ⟨⟨copiedContent h (d ++ [a]) X Y f, h.now⟩, rfl, ?_⟩
      have hcopy : okapiCopy h.readSize (openRead h F X) none = copiedContent h (d ++ [a]) X Y f := by
        rw [openRead_of_res hX hres hm hf, copiedContent, hlink, Bool.false_or]
        split_ifs
        · simp [okapiCopy_eq]
        · rfl
      simp only [Bool.false_and, Bool.false_eq_true, if_false, okapiCopyFile, realpath_none hY hcs' hr' hd' hm' hnew,
        newEntry_last hcs' hr' hd' hm', hnew, hcopy]
      rfl

/-! ## Texts -/

theorem pathComps_append {p : CString} (hX : isAbspath X = true) :
    pathComps (p ++ X) = comps p ++ pathComps X := by
  obtain ⟨Y, rfl⟩ := isAbspath_iff.1 hX
  have hlast : (p ++ slash :: Y).getLast? = (slash :: Y).getLast? := by
    rw [List.getLast?_append, List.getLast?_cons]; rfl
  unfold pathComps
  rw [hlast, comps_append_slash, comps_slash, List.append_assoc]

theorem pathComps_ne_nil {t : CString} (ht : t ≠ []) : pathComps t ≠ [] := by
  intro hnil
  unfold pathComps at hnil
  split_ifs at hnil with hl
  · simp at hnil
  · rw [List.append_nil] at hnil
    apply hl
    rw [List.getLast?_eq_some_getLast ht, eq_slash_of_comps_nil hnil _ (List.getLast_mem ht)]

theorem comps_rdropWhile (s : CString) : comps (s.rdropWhile (· == slash)) = comps s := by
  induction s using List.reverseRec with
  | nil => rfl
  | append_singleton s c ih =>
    by_cases hc : c = slash
    · subst hc
      rw [List.rdropWhile_concat_pos _ _ _ (by simp), ih, comps_append_slash]; simp
    · rw [List.rdropWhile_concat_neg _ _ _ (by simpa using hc)]

/-- An absolute path is cut at its last slash. -/
theorem exists_last_slash (hX : isAbspath X = true) :
    ∃ Z seg, X = Z ++ slash :: seg ∧ slash ∉ seg ∧ X.rdropWhile (· != slash) = Z ++ [slash] := by
  have hsplit : X.rdropWhile (· != slash) ++ X.rtakeWhile (· != slash) = X :=
    List.rdropWhile_append_rtakeWhile
  have hnoslash : slash ∉ X.rtakeWhile (· != slash) :=
    fun hm => by simpa using List.mem_rtakeWhile_imp hm
  have hne : X.rdropWhile (· != slash) ≠ [] := by
    intro hnil
    rw [hnil, List.nil_append] at hsplit
    obtain ⟨Z, hZ⟩ := isAbspath_iff.1 hX
    exact hnoslash (by rw [hsplit, hZ]; exact List.mem_cons_self)
  have hlast := List.rdropWhile_last_not (· != slash) X hne
  have hdrop : X.rdropWhile (· != slash) = (X.rdropWhile (· != slash)).dropLast ++ [slash] := by
    conv_lhs => rw [← List.dropLast_concat_getLast hne]
    simpa using hlast
  refine ⟨_, _, ?_, hnoslash, hdrop⟩
  rw [hdrop] at hsplit
  simpa using hsplit.symm

theorem validPath_components (hX : isAbspath X = true) : ValidPath (components X) := by
  rw [components_eq hX]; exact validPath_norm X (by simp [ValidPath])

/-- `dirname` cuts off the last component. -/
theorem dirname_spec (hX : isAbspath X = true) (hcs : pathComps X = cs ++ [.name a]) :
    isAbspath (dirname X) = true ∧ (pathComps (dirname X) = cs ∨ pathComps (dirname X) = cs ++ [.here]) := by
  obtain ⟨hc, hl⟩ := comps_of_pathComps hcs
  have hne : X ≠ [] := ne_nil_of_isAbspath hX
  -- there is no slash at the end, so the first cut does nothing
  have hcut : X.rdropWhile (· == slash) = X := by
    rw [List.rdropWhile_eq_self_iff]
    intro hne' hlast
    exact hl (by rw [List.getLast?_eq_some_getLast hne']; simpa using hlast)
  obtain ⟨Z, seg, hZ, hnoslash, hdrop⟩ := exists_last_slash hX
  have hcomps : comps Z = cs := by
    rw [hZ, comps_append_slash, comps_noslash hnoslash] at hc
    cases hs : segComp seg with
    | none =>
      have hseg : seg = [] := by
        by_contra hn
        unfold segComp at hs
        rw [if_neg hn] at hs
        split_ifs at hs
      exact absurd (by rw [hZ, hseg, List.getLast?_concat]) hl
    | some c =>
      rw [hs] at hc
      exact (List.append_inj' hc rfl).1
  have hV : (Z ++ [slash]).rdropWhile (· == slash) = Z.rdropWhile (· == slash) :=
    List.rdropWhile_concat_pos _ _ _ (by simp)
  have hVcomps : comps (Z.rdropWhile (· == slash)) = cs := by rw [comps_rdropWhile, hcomps]
  unfold dirname
  simp only [hcut, hdrop, hV, hne, if_false, List.append_eq_nil_iff, List.cons_ne_nil, and_false]
  split_ifs with hnil
  · rw [hnil, comps_nil] at hVcomps
    rw [← hVcomps]
    exact ⟨rfl, Or.inr rfl⟩
  · constructor
    · obtain ⟨u, hu⟩ := List.rdropWhile_prefix (· == slash) Z
      rw [hZ, ← hu] at hX
      obtain ⟨v, V, hvV⟩ := List.exists_cons_of_ne_nil hnil
      rw [hvV] at hX ⊢
      simpa [isAbspath] using hX
    · left
      unfold pathComps
      rw [hVcomps, if_neg, List.append_nil]
      intro hlast
      have := List.rdropWhile_last_not (· == slash) Z hnil
      rw [List.getLast?_eq_some_getLast hnil] at hlast
      exact this (by simpa using hlast)

/-- `realpath` of the directory part of a path. -/
theorem realpath_dirname (hX : isAbspath X = true) (hcs : pathComps X = cs ++ [.name a])
    (hr : Resolves F m [] cs d) (hd : F d = some .dir) (hm : m ≤ h.maxLinks) :
    realpath h F (dirname X) = some d := by
  obtain ⟨habs, hdir⟩ := dirname_spec hX hcs
  refine realpath_of_res habs (m := m) ?_ hm
  rcases hdir with hdir | hdir
  · rw [hdir]
    exact hr
  · rw [hdir]
    have hhere : Resolves F 0 d [.here] d := .here trivial hd (.nil trivial)
    exact hr.append hhere

/-! ## Directories -/

section Mirroring

variable {S F' : Fs} {D : List CString} {dst : CString} {k b n c j : ℕ} {B ns r e : List CString}
variable {symlinkAndTarget : MirrorSymlink}

/-- The destination `dst` leads to the directory `D`, following `k` links; the paths that are
mirrored follow at most `b`. -/
structure Setup (h : Host) (S : Fs) (D : List CString) (dst : CString) (k b : ℕ) : Prop where
  wf : WellFormed S
  dir : S D = some .dir
  abs : isAbspath dst = true
  leads : Resolves S k [] (comps dst) D
  limit : k + b ≤ h.maxLinks

/-- A file at this real path can be copied: the tracer may read it, or hard links are always possible. -/
def Copyable (h : Host) (S : Fs) (r : List CString) : Prop :=
  ∀ file, S r = some (.file file) → h.mayRead r = true ∨ ∀ x y, h.hardLink x y = true

theorem Copyable.dir (hr : S r = some .dir) : Copyable h S r := by
  intro file hfile
  rw [hr] at hfile
  cases hfile

theorem Copyable.content {file : File} (hc : Copyable h S r) (hr : S r = some (.file file)) (x y : CString) :
    copiedContent h r x y file = file.content := by
  unfold copiedContent
  rcases hc file hr with hread | hlink
  · rw [hread, Bool.or_true, if_pos rfl]
  · rw [hlink, Bool.true_or, if_pos rfl]

/-- The path `X` ends in the name `a`. Its directory part is the real directory `B`, `j` times up, and
then the names `ns`; it leads to the directory `d`. -/
structure PathAt (S : Fs) (X : CString) (B : List CString) (j : ℕ) (ns : List CString) (a : CString)
    (d : List CString) (m : ℕ) : Prop where
  abs : isAbspath X = true
  text : ∃ cs, pathComps X = cs ++ [.name a] ∧ strip cs = names B ++ (List.replicate j .up ++ names ns)
  up_le : j ≤ B.length
  base : S B = some .dir
  valid : ValidPath ns
  parent : ResS S m [] (names (B.take (B.length - j) ++ ns)) d
  dir : S d = some .dir

/-- `X` is the path of a link, which leads to `r`, and the real directory in it is mirrored already. -/
structure LinkAt (h : Host) (S : Fs) (D : List CString) (F : Fs) (X : CString) (B : List CString) (j : ℕ)
    (ns : List CString) (a : CString) (d : List CString) (m c : ℕ) (r : List CString) : Prop
    extends PathAt S X B j ns a d m where
  mirrored : F (D ++ B) = some .dir
  link : ∃ t, S (d ++ [a]) = some (.link t)
  leads : ResS S c d [.name a] r
  copies : Copyable h S r

/-- What `create_mirror_symlink_and_target` does with paths that follow at most `w` links. -/
def SymlinkSpec (h : Host) (S : Fs) (D : List CString) (dst : CString) (symlinkAndTarget : MirrorSymlink)
    (w : ℕ) : Prop :=
  ∀ F X B j ns a d m c r, m + c ≤ w → Mirror S D F → Complete S D F (m + c) →
    LinkAt h S D F X B j ns a d m c r → ∃ F', symlinkAndTarget X [] dst F = .ok F' ∧ Step S D F F' ∧
      ResD D F' m D (names (B.take (B.length - j) ++ ns)) (D ++ d) ∧
      ResD D F' c (D ++ d) [.name a] (D ++ r)

theorem Mirror.dest (hM : Mirror S D F) (hs : Setup h S D dst k b) : F D = some .dir := hM.ext _ _ hs.dir

/-- A path inside `D`, written with `dst` before it. -/
theorem Mirror.dst_res (hM : Mirror S D F) (hs : Setup h S D dst k b) (hr : ResD D F m D cs (D ++ d)) :
    Resolves F (k + m) [] (comps dst ++ cs) (D ++ d) :=
  Res.append (hs.leads.mono hM.ext (fun _ h => h) (fun _ _ h => h))
    (Res.mono (fun _ _ h => h) (fun _ _ => trivial) (fun _ _ h => h) hr)

theorem Mirror.src_res (hM : Mirror S D F) {cur : List CString} (hr : ResS S m cur cs d) :
    Resolves F m cur cs d :=
  hr.mono hM.ext (fun _ h => h) (fun _ _ _ => trivial)

/-- The directory part of a path, in the source. -/
theorem PathAt.src_parent (hX : PathAt S X B j ns a d m) (hS : WellFormed S)
    (hcs : strip cs = names B ++ (List.replicate j .up ++ names ns)) : ResS S m [] cs d := by
  have hdirs : ∀ q, q <+: B → S ([] ++ q) = some .dir := fun q hq => hS.dir_of_prefix (q := q) hX.base hq
  have hlex := (Res.lex_iff hX.up_le hdirs (fun _ _ => trivial)).1 hX.parent
  have hfull := (Res.dirs (d := []) (p := B) hdirs (fun _ _ => trivial)).append_iff.2 hlex
  rw [← hcs] at hfull
  exact hfull.unstrip (Or.inl hX.dir)

theorem PathAt.components (hX : PathAt S X B j ns a d m) :
    components X = (B.take (B.length - j) ++ ns) ++ [a] := by
  obtain ⟨cs, hXc, hcs⟩ := hX.text
  have hdir : norm [] cs = B.take (B.length - j) ++ ns := by
    rw [← norm_strip, hcs, norm_append, norm_names, norm_append, norm_names, norm_up, List.nil_append]
  rw [components_eq hX.abs, (comps_of_pathComps hXc).1, norm_append, hdir]
  rfl

/-- `realpath` of the directory part, in a file system that has all of the source. -/
theorem PathAt.realpath_dirname (hX : PathAt S X B j ns a d m) (hS : WellFormed S)
    (hext : ∀ p nd, S p = some nd → F p = some nd) (hm : m ≤ h.maxLinks) :
    realpath h F (dirname X) = some d := by
  obtain ⟨cs, hXc, hcs⟩ := hX.text
  exact Ptu.realpath_dirname hX.abs hXc ((hX.src_parent hS hcs).mono hext (fun _ h => h) (fun _ _ _ => trivial))
    (hext _ _ hX.dir) hm

/-- `lstat` of a path finds what is in the directory. -/
theorem PathAt.lstat_eq (hX : PathAt S X B j ns a d m) (hS : WellFormed S)
    (hext : ∀ p nd, S p = some nd → F p = some nd) (hm : m ≤ h.maxLinks) : lstat h F X = F (d ++ [a]) := by
  obtain ⟨cs, hXc, hcs⟩ := hX.text
  exact lstat_last hX.abs hXc ((hX.src_parent hS hcs).mono hext (fun _ h => h) (fun _ _ _ => trivial))
    (hext _ _ hX.dir) hm

theorem pathComps_render_concat {p : List CString} (hp : ValidPath (p ++ [a])) :
    pathComps (render (p ++ [a])) = names p ++ [.name a] := by
  rw [pathComps_render hp, if_neg (by simp)]; simp

/-- A canonical path is a sequence of names. -/
theorem PathAt.render {p : List CString} (hS : WellFormed S) (hv : ValidPath (p ++ [a]))
    (hp : ResS S m [] (names p) d) (hd : S d = some .dir) : PathAt S (render (p ++ [a])) [] 0 p a d m where
  abs := isAbspath_render _
  text := ⟨names p, pathComps_render_concat hv, by simp⟩
  up_le := Nat.le_refl _
  base := hS.root
  valid := (validPath_append.1 hv).1
  parent := by simpa using hp
  dir := hd

/-- **One directory.** The directory part `p` is mirrored, then so is `p` with `a`. -/
theorem createMirrorDir_spec (hs : Setup h S D dst k b) (hrec : SymlinkSpec h S D dst symlinkAndTarget n)
    (hn : n ≤ b) {p : List CString} (hv : ValidPath (p ++ [a])) (hp : ResS S m [] (names p) d)
    (ha : ResS S c d [.name a] e) (he : S e = some .dir) (hmc : m + c ≤ n) (hM : Mirror S D F)
    (hcomp : Complete S D F n) (hpD : ResD D F m D (names p) (D ++ d)) :
    ∃ F', createMirrorDir h symlinkAndTarget [] dst F (render (p ++ [a])) = .ok F' ∧ Step S D F F' ∧
      ResD D F' (m + c) D (names (p ++ [a])) (D ++ e) := by
  have hd : S d = some .dir := ha.dir_of_ne_nil (by simp)
  have hDd : F (D ++ d) = some .dir := hM.reached_dir (hM.dest hs) hpD hd
  have habs : isAbspath (render (p ++ [a])) = true := isAbspath_render _
  have hpc := pathComps_render_concat hv
  have hdpc : pathComps (dst ++ render (p ++ [a])) = (comps dst ++ names p) ++ [.name a] := by
    rw [pathComps_append habs, hpc, List.append_assoc]
  have hlim := hs.limit
  have hlst : lstat h F (dst ++ render (p ++ [a])) = F (D ++ (d ++ [a])) := by
    rw [lstat_last (isAbspath_append _ hs.abs) hdpc (hM.dst_res hs hpD) hDd (by omega), List.append_assoc]
  have hsrc : lstat h F ([] ++ render (p ++ [a])) = F (d ++ [a]) :=
    lstat_last habs hpc (hM.src_res hp) (hM.ext _ _ hd) (by omega)
  -- it is enough to lead on from the copy of `d`
  have hfinish : ∀ {F'}, Step S D F F' → ResD D F' c (D ++ d) [.name a] (D ++ e) →
      ResD D F' (m + c) D (names (p ++ [a])) (D ++ e) := by
    intro F' hstep hr
    rw [names_append]
    exact (hpD.mono hstep.mono).append hr
  have hname : ∀ {F'}, F' (D ++ d) = some .dir → F' (D ++ (d ++ [a])) = some .dir →
      ResD D F' 0 (D ++ d) [.name a] (D ++ (d ++ [a])) := by
    intro F' h₁ h₂
    rw [← List.append_assoc] at h₂ ⊢
    exact .name (isPrefixOf_append D d) h₁ h₂ (by simp) (.nil (by rw [List.append_assoc]; exact isPrefixOf_append D _))
  unfold createMirrorDir
  rw [hlst, hsrc]
  cases hex : F (D ++ (d ++ [a])) with
  | some nd =>
    -- the entry is there already
    have hcopy := hM.copy _ _ (by simp) hex
    refine ⟨F, rfl, Step.refl hM, hfinish (Step.refl hM) ?_⟩
    cases ha with
    | name _ _ ha' hl h' =>
      cases h' with
      | nil _ => exact hname hDd (by rw [hex, hcopy.dir he])
    | link hP hd' ha' hQ h₁ h₂ =>
      rw [hcopy.link ha'] at hex
      exact hcomp d a _ hex _ _ (by omega) (.link hP hd' ha' hQ h₁ h₂)
  | none =>
    simp only [Option.isSome_none, Bool.false_eq_true, if_false, List.nil_append, habs, Bool.not_true]
    have ha₀ := ha
    cases ha with
    | name _ _ ha' hl h' =>
      cases h' with
      | nil _ =>
        rw [hM.ext _ _ he]
        have hstep : Step S D F (F.set (D ++ (d ++ [a])) .dir) :=
          Step.set hM (hs.wf.valid _ _ hs.dir) hs.wf hDd hex he (by simp)
        refine ⟨F.set (D ++ (d ++ [a])) .dir, ?_, hstep, hfinish hstep ?_⟩
        · have hnew := newEntry_last hdpc (hM.dst_res hs hpD) hDd (by omega : k + m ≤ h.maxLinks) true
          rw [List.append_assoc, hex] at hnew
          simp only [mkdir, hnew]
          rfl
        · exact hname (hstep.mono _ _ hDd) (by simp [Fs.set])
    | @link n₁ n₂ _ _ _ _ _ t hP hd' ha' hQ h₁ h₂ =>
      rw [hM.ext _ _ ha']
      obtain ⟨F', hok, hstep, -, hr⟩ := hrec F (render (p ++ [a])) [] 0 p a d m _ e hmc hM
        (hcomp.mono hmc)
        ⟨.render hs.wf hv hp hd, by rw [List.append_nil]; exact hM.dest hs, ⟨t, ha'⟩, ha₀, .dir he⟩
      exact ⟨F', hok, hstep, hfinish hstep hr⟩

/-- After `i` rounds of `create_mirror_dirs`, the first `i` names lead inside `D` as they do in the source. -/
structure MirroredTo (S : Fs) (D : List CString) (F : Fs) (L : List CString) (n : ℕ) (e : List CString) (i : ℕ)
    (F' : Fs) (m c : ℕ) (q : List CString) : Prop where
  step : Step S D F F'
  links : n = m + c
  done : ResS S m [] (names (L.take i)) q
  rest : ResS S c q (names (L.drop i)) e
  inside : ResD D F' m D (names (L.take i)) (D ++ q)

/-- The loop of `create_mirror_dirs`. -/
theorem mirrorDirs_loop (hs : Setup h S D dst k b) (hrec : SymlinkSpec h S D dst symlinkAndTarget n)
    (hn : n ≤ b) {L : List CString} (hv : ValidPath L) (hL : ResS S n [] (names L) e)
    (he : S e = some .dir) (hM : Mirror S D F) (hcomp : Complete S D F n) :
    ∃ F', (List.range L.length).foldlM
        (fun fs i => createMirrorDir h symlinkAndTarget [] dst fs (render (L.take (i + 1)))) F = .ok F' ∧
      ∃ m c q, MirroredTo S D F L n e L.length F' m c q := by
  refine foldlM_range_total (I := fun i F' => ∃ m c q, MirroredTo S D F L n e i F' m c q) ?_
    ⟨0, n, [], Step.refl hM, by omega, .nil trivial, hL, by rw [List.append_nil]; exact .nil (by simp)⟩
  rintro i F₁ hi ⟨m, c, q, hstep, hmc, hp, hrest, hpD⟩
  have hcons : L.drop i = L.get ⟨i, hi⟩ :: L.drop (i + 1) := List.drop_eq_getElem_cons hi
  have htake : L.take (i + 1) = L.take i ++ [L.get ⟨i, hi⟩] := by
    rw [List.take_add_one, List.getElem?_eq_getElem hi]; rfl
  generalize L.get ⟨i, hi⟩ = a at hcons htake
  -- split off the next name
  have hrest' : ResS S c q ([.name a] ++ names (L.drop (i + 1))) e := by
    rw [hcons] at hrest; exact hrest
  obtain ⟨c₁, c₂, q', hc, h₁, h₂⟩ := hrest'.split
  have hq' : S q' = some .dir := by
    by_cases hnil : L.drop (i + 1) = []
    · rw [hnil] at h₂
      cases h₂ with
      | nil _ => exact he
    · exact h₂.dir_of_ne_nil (by simpa [names] using hnil)
  have hv' : ValidPath (L.take i ++ [a]) := htake ▸ hv.of_prefix (List.take_prefix _ _)
  obtain ⟨F₂, hok₂, hstep₂, hD₂⟩ := createMirrorDir_spec hs hrec hn hv' hp h₁ hq' (by omega)
    hstep.mirror (hstep.complete hcomp) hpD
  rw [htake]
  refine ⟨F₂, hok₂, m + c₁, c₂, q', hstep.trans hstep₂, by omega, ?_, h₂, ?_⟩
  · rw [htake, names_append]; exact hp.append h₁
  · rw [htake]; exact hD₂

/-- The names `create_mirror_dirs` goes through. -/
def mirrorNames (X : CString) (pop : Bool) : List CString :=
  if pop then (components X).dropLast else components X

theorem validPath_mirrorNames (hX : isAbspath X = true) (pop : Bool) : ValidPath (mirrorNames X pop) := by
  have hvX := validPath_components hX
  unfold mirrorNames
  split_ifs
  · exact hvX.of_prefix (List.dropLast_prefix _)
  · exact hvX

/-- `create_mirror_dirs` as a loop over the prefixes of the names. -/
theorem createMirrorDirs_eq (hdst : isAbspath dst = true) (hX : isAbspath X = true) (src : CString)
    (pop : Bool) (fs : Fs) :
    createMirrorDirs h symlinkAndTarget X src dst pop fs =
      (List.range (mirrorNames X pop).length).foldlM (fun fs i =>
        createMirrorDir h symlinkAndTarget src dst fs (render ((mirrorNames X pop).take (i + 1)))) fs := by
  -- the path object of the source prints the prefixes of the names
  obtain ⟨p, hp, habs, hstack⟩ : ∃ p : Path, (if pop then pathPop (newPathInternal X true)
      else newPathInternal X true) = p ∧ p.isAbspath = true ∧ p.stack = mirrorNames X pop := by
    refine ⟨_, rfl, ?_, ?_⟩
    · split_ifs
      · exact newPathInternal_isAbspath X
      · exact newPathInternal_isAbspath X
    · unfold mirrorNames
      split_ifs
      · rfl
      · rfl
  unfold createMirrorDirs newPathFromAbspath
  simp only [hdst, hX, if_true, Bool.not_true, Bool.false_eq_true, if_false, Bind.bind, Except.bind]
  rw [hp, ← hstack]
  simp only [path2str_succ p habs]
  rfl

/-- **`create_mirror_dirs` makes the path lead inside `D`.** -/
theorem createMirrorDirs_spec (hs : Setup h S D dst k b) (hrec : SymlinkSpec h S D dst symlinkAndTarget n)
    (hn : n ≤ b) (hX : isAbspath X = true) {pop : Bool} {L : List CString}
    (hcut : (if pop then (components X).dropLast else components X) = L) (hL : ResS S n [] (names L) e)
    (he : S e = some .dir) (hM : Mirror S D F) (hcomp : Complete S D F n) :
    ∃ F', createMirrorDirs h symlinkAndTarget X [] dst pop F = .ok F' ∧ Step S D F F' ∧
      ResD D F' n D (names L) (D ++ e) := by
  have hv : ValidPath L := hcut ▸ validPath_mirrorNames hX pop
  obtain ⟨F', hok, m, c, q, hstep, hmc, -, hrest, hD'⟩ := mirrorDirs_loop hs hrec hn hv hL he hM hcomp
  rw [List.drop_length, List.take_length] at *
  cases hrest with
  | nil _ =>
    obtain rfl : n = m := by omega
    refine ⟨F', ?_, hstep, hD'⟩
    rw [createMirrorDirs_eq hs.abs hX]
    unfold mirrorNames
    rw [hcut]
    exact hok

/-! ## Links -/

/-- The last name of a text that goes up and then down. -/
theorem strip_concat_name (hcs : strip (cs ++ [.name a]) = List.replicate j .up ++ names ns) :
    ∃ ns', ns = ns' ++ [a] ∧ strip cs = List.replicate j .up ++ names ns' := by
  rw [strip_append] at hcs
  rcases List.eq_nil_or_concat' ns with rfl | ⟨ns', x, rfl⟩
  · have := congrArg List.getLast? hcs
    rw [names_nil, List.append_nil] at this
    cases j with
    | zero => simp at this
    | succ j => rw [List.replicate_succ'] at this; simp at this
  · rw [names_append, ← List.append_assoc] at hcs
    obtain ⟨h₁, h₂⟩ := List.append_inj' hcs rfl
    simp only [strip_name, strip_nil, names_cons, names_nil, List.cons.injEq, Comp.name.injEq,
      and_true] at h₂
    subst h₂
    exact ⟨ns', rfl, h₁⟩

/-- The path `T` is the real directory `B` and the text `t` of a tame link. -/
structure TextAt (S : Fs) (T t : CString) (B : List CString) (j : ℕ) (ns : List CString) : Prop where
  abs : isAbspath T = true
  text : pathComps T = names B ++ pathComps t
  tame : strip (pathComps t) = List.replicate j .up ++ names ns
  up_le : j ≤ B.length
  base : S B = some .dir
  valid : ValidPath ns

section TextAt

variable {T t : CString}

theorem TextAt.lex (ht : TextAt S T t B j ns) (hS : WellFormed S) {ns' : List CString}
    (hcs : strip cs = List.replicate j .up ++ names ns') (hr : ResS S m B cs e) :
    ResS S m [] (names (B.take (B.length - j) ++ ns')) e := by
  have hs := hr.strip
  rw [hcs] at hs
  exact (Res.lex_iff (d := []) ht.up_le (fun q hq => hS.dir_of_prefix (q := q) ht.base hq)
    (fun _ _ => trivial)).2 hs

theorem TextAt.full_iff (ht : TextAt S T t B j ns) (hS : WellFormed S) :
    ResS S m [] (names B ++ cs) e ↔ ResS S m B cs e :=
  (Res.dirs (d := []) (fun q hq => hS.dir_of_prefix (q := q) ht.base hq) (fun _ _ => trivial)).append_iff

theorem TextAt.components (ht : TextAt S T t B j ns) : components T = B.take (B.length - j) ++ ns := by
  have hcomps : strip (comps T) = strip (pathComps T) := (strip_pathComps T).symm
  rw [components_eq ht.abs, ← norm_strip, hcomps, ht.text, strip_append, strip_names, ht.tame,
    norm_append, norm_names, norm_append, norm_names, norm_up, List.nil_append]

/-- The path of a target that ends in a name. -/
theorem TextAt.pathAt (ht : TextAt S T t B j ns) (hS : WellFormed S) (hcs : pathComps t = cs ++ [.name a])
    (hr : ResS S m B cs e) (he : S e = some .dir) : ∃ ns', ns = ns' ++ [a] ∧ PathAt S T B j ns' a e m := by
  have htame := ht.tame
  rw [hcs] at htame
  obtain ⟨ns', rfl, hcs'⟩ := strip_concat_name htame
  refine ⟨ns', rfl, ?_⟩
  exact {
    abs := ht.abs
    text := ⟨names B ++ cs, by rw [ht.text, hcs, List.append_assoc], by rw [strip_append, strip_names, hcs']⟩
    up_le := ht.up_le
    base := ht.base
    valid := (validPath_append.1 ht.valid).1
    parent := ht.lex hS hcs' hr
    dir := he }

end TextAt

/-- What `create_mirror_symlink_and_target` knows when it comes to the target of a link. -/
structure TargetAt (h : Host) (S : Fs) (D : List CString) (F : Fs) (T t : CString) (B : List CString) (j : ℕ)
    (ns : List CString) (n : ℕ) (r : List CString) : Prop extends TextAt S T t B j ns where
  mirrored : F (D ++ B) = some .dir
  leads : ResS S n B (pathComps t) r
  copies : Copyable h S r

/-- `createMirrorTarget` with an empty source prefix. -/
theorem createMirrorTarget_eq {T : CString} (hT : isAbspath T = true) :
    createMirrorTarget h symlinkAndTarget T [] dst F =
      match lstat h F T with
      | none => .ok F
      | some (.link _) => symlinkAndTarget T [] dst F
      | some .dir => createMirrorDirs h symlinkAndTarget (render (components T)) [] dst false F
      | some (.file _) =>
        createMirrorDirs h symlinkAndTarget (render (components T)) [] dst true F >>=
          fun fs => linkOrCopy h fs T (dst ++ render (components T)) := by
  have hcano : canonicalizeAbspath T = .ok (render (components T)) := by
    rw [canonicalizeAbspath_eq hT, components_eq hT]
  unfold createMirrorTarget
  simp only [startsWith_nil, Bool.not_true, Bool.false_eq_true, if_false, List.length_nil,
    List.drop_zero, hT]
  cases hl : lstat h F T with
  | none => rfl
  | some nd =>
    cases nd with
    | link t => rfl
    | dir => simp only [hcano]; rfl
    | file f => simp only [hcano]; rfl

/-- The case of a directory. -/
theorem createMirrorTarget_dir (hs : Setup h S D dst k b) (hrec : SymlinkSpec h S D dst symlinkAndTarget n)
    (hn : n ≤ b) {T t : CString} (ht : TargetAt h S D F T t B j ns n r) (hM : Mirror S D F)
    (hcomp : Complete S D F n) (hl : lstat h F T = some .dir) (hr : S r = some .dir) :
    ∃ F', createMirrorTarget h symlinkAndTarget T [] dst F = .ok F' ∧ Step S D F F' ∧
      ResD D F' n D (names (components T)) (D ++ r) := by
  have hL := ht.lex hs.wf ht.tame ht.leads
  rw [← ht.components] at hL
  obtain ⟨F', hok, hstep, hD'⟩ := createMirrorDirs_spec hs hrec hn (isAbspath_render _)
    (by rw [if_neg (by simp : ¬ false = true), components_render (validPath_components ht.abs)]) hL hr hM hcomp
  refine ⟨F', ?_, hstep, hD'⟩
  rw [createMirrorTarget_eq ht.abs, hl]
  exact hok

/-- The case of a regular file. -/
theorem createMirrorTarget_file (hs : Setup h S D dst k b) (hrec : SymlinkSpec h S D dst symlinkAndTarget n)
    (hn : n ≤ b) {T : CString} {L : List CString} {f : File} (hT : isAbspath T = true)
    (hTc : pathComps T = cs ++ [.name a]) (hfull : Resolves F n [] cs e) (he : S e = some .dir)
    (ha : S (e ++ [a]) = some (.file f)) (hcompT : components T = L ++ [a])
    (hL : ResS S n [] (names L) e) (hc : Copyable h S (e ++ [a])) (hM : Mirror S D F) (hcomp : Complete S D F n) :
    ∃ F', (createMirrorDirs h symlinkAndTarget (render (components T)) [] dst true F >>=
        fun fs => linkOrCopy h fs T (dst ++ render (components T))) = .ok F' ∧ Step S D F F' ∧
      ResD D F' n D (names (components T)) (D ++ (e ++ [a])) := by
  have hlim := hs.limit
  have hvL := validPath_components hT
  obtain ⟨F₁, hok₁, hstep₁, hD₁⟩ := createMirrorDirs_spec hs hrec hn (isAbspath_render _)
    (by rw [if_pos rfl, components_render hvL, hcompT, List.dropLast_concat]) hL he hM hcomp
  have hDe : F₁ (D ++ e) = some .dir := hstep₁.mirror.reached_dir (hstep₁.mirror.dest hs) hD₁ he
  have hYc : pathComps (dst ++ render (components T)) = (comps dst ++ names L) ++ [.name a] := by
    rw [pathComps_append (isAbspath_render _), hcompT, pathComps_render_concat (hcompT ▸ hvL),
      List.append_assoc]
  have hY : isAbspath (dst ++ render (components T)) = true := isAbspath_append _ hs.abs
  have hcopy := linkOrCopy_file hT hTc (hfull.mono hstep₁.mono (fun _ h => h) (fun _ _ h => h))
    (hstep₁.mirror.ext _ _ he) (by omega : n ≤ h.maxLinks) (hstep₁.mirror.ext _ _ ha) hY hYc
    (hstep₁.mirror.dst_res hs hD₁) hDe (by omega)
  -- either way there is a copy of the file in the end
  obtain ⟨F₂, f', hok₂, hstep₂, hf'⟩ : ∃ F₂ f', linkOrCopy h F₁ T (dst ++ render (components T)) = .ok F₂ ∧
      Step S D F₁ F₂ ∧ F₂ (D ++ (e ++ [a])) = some (.file f') := by
    rw [List.append_assoc] at hcopy
    rcases hcopy with ⟨hex, hok⟩ | ⟨hnew, f', hf', hok⟩
    · obtain ⟨nd, hnd⟩ := Option.isSome_iff_exists.1 hex
      obtain ⟨f', rfl, -⟩ := (hstep₁.mirror.copy _ _ (by simp) hnd).file ha
      exact ⟨F₁, f', hok, Step.refl hstep₁.mirror, hnd⟩
    · exact ⟨_, f', hok, Step.set hstep₁.mirror (hs.wf.valid _ _ hs.dir) hs.wf hDe hnew
        ⟨f, ha, (hf'.trans (hc.content ha _ _)).symm⟩ (by simp), by simp [Fs.set]⟩
  refine ⟨F₂, bind_eq_ok.2 ⟨F₁, hok₁, hok₂⟩, hstep₁.trans hstep₂, ?_⟩
  have hlast : ResD D F₂ 0 (D ++ e) [.name a] (D ++ (e ++ [a])) := by
    rw [← List.append_assoc] at hf' ⊢
    exact .name (isPrefixOf_append D e) (hstep₂.mono _ _ hDe) hf' (by simp)
      (.nil (by rw [List.append_assoc]; exact isPrefixOf_append D _))
  have := (hD₁.mono hstep₂.mono).append hlast
  rwa [hcompT, names_append]

/-- **Mirroring the target of a link.** -/
theorem createMirrorTarget_spec (hs : Setup h S D dst k b) (hrec : SymlinkSpec h S D dst symlinkAndTarget n)
    (hn : n ≤ b) {T t : CString} (htne : t ≠ []) (ht : TargetAt h S D F T t B j ns n r) (hM : Mirror S D F)
    (hcomp : Complete S D F n) :
    ∃ F', createMirrorTarget h symlinkAndTarget T [] dst F = .ok F' ∧ Step S D F F' ∧
      ResD D F' n D (names (B.take (B.length - j) ++ ns)) (D ++ r) := by
  have hlim := hs.limit
  rw [← ht.components]
  obtain ⟨cs, x, hcs⟩ := (List.eq_nil_or_concat' (pathComps t)).resolve_left (pathComps_ne_nil htne)
  have hTc : pathComps T = (names B ++ cs) ++ [x] := by rw [ht.text, hcs, List.append_assoc]
  by_cases hname : ∃ a, x = .name a
  · obtain ⟨a, rfl⟩ := hname
    have hleads := ht.leads
    rw [hcs] at hleads
    obtain ⟨m, c, e, rfl, h₁, h₂⟩ := hleads.split
    have he : S e = some .dir := h₂.dir_of_ne_nil (by simp)
    obtain ⟨ns', rfl, hT⟩ := ht.pathAt hs.wf hcs h₁ he
    have hlst : lstat h F T = F (e ++ [a]) := hT.lstat_eq hs.wf hM.ext (by omega)
    have h₂' := h₂
    cases h₂ with
    | @name _ _ _ _ _ nd _ _ ha hl h₂ =>
      cases h₂ with
      | nil _ =>
        cases nd with
        | link t => exact absurd rfl (hl t)
        | dir => exact createMirrorTarget_dir hs hrec hn ht hM hcomp (by rw [hlst, hM.ext _ _ ha]) ha
        | file f =>
          rw [createMirrorTarget_eq ht.abs, hlst, hM.ext _ _ ha]
          have hfull : Resolves F m [] (names B ++ cs) e := hM.src_res ((ht.full_iff hs.wf).2 h₁)
          exact createMirrorTarget_file hs hrec hn ht.abs hTc hfull he ha hT.components hT.parent ht.copies hM hcomp
    | @link n₁ n₂ _ _ _ _ _ t' _ _ ha _ _ _ =>
      obtain ⟨F', hok, hstep, hp, hr⟩ := hrec F T B j ns' a e m _ r (by omega) hM hcomp
        ⟨hT, ht.mirrored, ⟨t', ha⟩, h₂', ht.copies⟩
      refine ⟨F', ?_, hstep, ?_⟩
      · rw [createMirrorTarget_eq ht.abs, hlst, hM.ext _ _ ha]
        exact hok
      · rw [hT.components, names_append]
        exact hp.append hr
  · -- the text does not end in a name, so it leads to a directory
    have hlast : ∀ a, (pathComps T).getLast? ≠ some (.name a) := by
      intro a ha
      rw [hTc, List.getLast?_concat] at ha
      exact hname ⟨a, Option.some.inj ha⟩
    have hres : ResS S n [] (pathComps T) r := by rw [ht.text]; exact (ht.full_iff hs.wf).2 ht.leads
    have hr : S r = some .dir :=
      (lstat_dir (h := h) hs.wf ht.abs (hres.mono (fun _ _ h => h) (fun _ h => h) (fun _ _ _ => trivial))
        (by omega) hlast).1
    exact createMirrorTarget_dir hs hrec hn ht hM hcomp
      (lstat_dir hM.wf ht.abs (hM.src_res hres) (by omega) hlast).2 hr

/-- The path of the target of a link, as `create_mirror_symlink_and_target` writes it. -/
def targetAbspath (d : List CString) (t : CString) : CString :=
  if isAbspath t then t else render d ++ slash :: t

theorem pathComps_targetAbspath {t : CString} (ht : t ≠ []) (hd : ValidPath d) :
    pathComps (targetAbspath d t) = names (linkBase d t) ++ pathComps t := by
  unfold targetAbspath linkBase
  split_ifs with habs
  · rfl
  · have hcons : pathComps (slash :: t) = pathComps t := by
      unfold pathComps
      rw [comps_slash, List.getLast?_cons, List.getLast?_eq_some_getLast ht]
      rfl
    rw [pathComps_append (isAbspath_cons t), comps_render hd, hcons]

theorem isAbspath_targetAbspath (d : List CString) (t : CString) : isAbspath (targetAbspath d t) = true := by
  unfold targetAbspath
  split_ifs with habs
  · exact habs
  · exact isAbspath_append _ (isAbspath_render d)

theorem strstr_append (p q u : CString) : strstr (p ++ (q ++ u)) q = true := by
  unfold strstr
  rw [List.any_eq_true]
  exact ⟨q ++ u, (List.mem_tails _ _).2 (List.suffix_append _ _),
    List.isPrefixOf_iff_prefix.2 (List.prefix_append _ _)⟩

/-- The text before the target of a rewritten link ends in a slash. -/
theorem strstr_dotdots (n : ℕ) {t : CString} (habs : isAbspath t = true) :
    strstr (str "./" ++ dotdots n ++ t) (str "//") = true := by
  obtain ⟨u, hu⟩ : ∃ u, str "./" ++ dotdots n = u ++ [slash] := by
    cases n with
    | zero => exact ⟨str ".", rfl⟩
    | succ n =>
      refine ⟨str "./" ++ dotdots n ++ str "..", ?_⟩
      rw [dotdots, List.replicate_succ', List.flatten_append, ← dotdots]
      simp [str]
  obtain ⟨t', rfl⟩ := isAbspath_iff.1 habs
  have hslashes := strstr_append u (str "//") t'
  rw [hu]
  simpa [str] using hslashes

/-- **The text for a link** to `t` in a directory `dir`, both below the prefix of the source, if it fits. -/
theorem relativeSymlinkTarget_abs {srcPrefix dir t x : CString} (hdir : isAbspath dir = true)
    (habs : isAbspath t = true) :
    relativeSymlinkTarget srcPrefix (srcPrefix ++ dir) (srcPrefix ++ t) = .ok x ↔
      x = str "./" ++ dotdots (components dir).length ++ t ∧
        2 + 3 * (components dir).length + t.length < maxPathLen := by
  have hdot : strcat [] (str "./") = .ok (str "./") := rfl
  have hstart : ∀ v u : CString, startsWith (v ++ u) v = true :=
    fun v u => List.isPrefixOf_iff_prefix.2 (List.prefix_append v u)
  have hlength : (str "./" ++ dotdots (components dir).length ++ t).length =
      2 + 3 * (components dir).length + t.length := by
    have htwo : (str "./").length = 2 := rfl
    rw [List.length_append, List.length_append, length_dotdots, htwo]
  have hmark : startsWith (str "./" ++ dotdots (components dir).length ++ t) (str "./") = true := by
    rw [List.append_assoc]
    exact hstart _ _
  have hpath : newPathFromAbspath dir = .ok (newPathInternal dir true) := if_pos hdir
  have hdepth : (newPathInternal dir true).depth = (components dir).length := rfl
  unfold relativeSymlinkTarget
  rw [hdot]
  simp only [hstart, List.drop_left, hpath, habs, Bool.not_true, Bool.false_eq_true, if_false, ite_throw_eq_ok,
    bind_eq_ok, strcat_eq_ok]
  constructor
  · rintro ⟨_, hbuf, _, hp, y, hloop, _, ⟨rfl, hlen⟩, -, hx⟩
    obtain rfl := Except.ok.inj hbuf
    obtain rfl := Except.ok.inj hp
    obtain ⟨rfl, -⟩ := (strcat_repeat (str "../") (by decide) _).1 hloop
    obtain rfl := Except.ok.inj hx
    rw [hdepth] at hlen ⊢
    exact ⟨rfl, hlength ▸ hlen⟩
  · rintro ⟨rfl, hlen⟩
    have hstem : (str "./" ++ dotdots (components dir).length).length < maxPathLen := by
      rw [← hlength, List.length_append] at hlen
      omega
    refine ⟨_, rfl, _, rfl, _, (strcat_repeat (str "../") (by decide) _).2 ⟨rfl, hstem⟩, _, ⟨rfl, ?_⟩, ?_, rfl⟩
    · exact hlength ▸ hlen
    · have hslashes := strstr_dotdots (components dir).length habs
      rw [dotdots] at hmark hslashes
      rw [hdepth, hmark, hslashes]
      decide

theorem munge_abs (dir : List CString) {t : CString} (ht : isAbspath t = true) :
    munge dir t = str "./" ++ dotdots dir.length ++ t := if_pos ht

/-- The text of a link in a real directory. -/
theorem relativeSymlinkTarget_render {t x : CString} (hd : ValidPath d) (habs : isAbspath t = true) :
    relativeSymlinkTarget [] (render d) t = .ok x ↔ x = munge d t ∧ 2 + 3 * d.length + t.length < maxPathLen := by
  have htext := @relativeSymlinkTarget_abs [] (render d) t x (isAbspath_render d) habs
  rwa [components_render hd, ← munge_abs d habs] at htext

theorem linkBase_dir (hS : WellFormed S) (hd : S d = some .dir) (t : CString) : S (linkBase d t) = some .dir := by
  unfold linkBase
  split_ifs
  · exact hS.root
  · exact hd

/-- The path of the target of a tame link. -/
theorem TextAt.of_link {t : CString} (hS : WellFormed S) (hd : S d = some .dir) (ht : t ≠ [])
    (htame : Ptu.tame d t = true) : ∃ j ns, TextAt S (targetAbspath d t) t (linkBase d t) j ns := by
  obtain ⟨j, ns, htext, hj, hns⟩ := tame_comps htame
  exact ⟨j, ns, isAbspath_targetAbspath d t, pathComps_targetAbspath ht (hS.valid _ _ hd),
    by rw [strip_pathComps, htext], hj, linkBase_dir hS hd t, hns⟩

/-- The text that is written for a link to `t` in the real directory `d`. -/
def linkText (src : CString) (d : List CString) (t : CString) : Except Fatal CString :=
  if isAbspath t then relativeSymlinkTarget src (render d) t else .ok t

theorem linkText_nil {t : CString} (hd : ValidPath d) (hfits : fitsBuffer d t = true) :
    linkText [] d t = .ok (munge d t) := by
  unfold linkText
  unfold fitsBuffer at hfits
  by_cases habs : isAbspath t = true
  · rw [if_pos habs, relativeSymlinkTarget_render hd habs]
    rw [habs, Bool.not_true, Bool.false_or, decide_eq_true_eq] at hfits
    exact ⟨rfl, hfits⟩
  · unfold munge
    rw [if_neg habs, if_neg habs]

/-- `create_mirror_symlink_and_target` on a link in the real directory `d`. -/
theorem mirrorSymlink_succ {fuel : ℕ} {src t : CString} (hX : isAbspath X = true) (hdst : isAbspath dst = true)
    (hsrc : isAbspath (src ++ X) = true) (hl : lstat h F (src ++ X) = some (.link t)) (ht : t ≠ [])
    (hreal : realpath h F (dirname (src ++ X)) = some d) :
    createMirrorSymlinkAndTarget h (fuel + 1) X src dst F =
      createMirrorDirs h (createMirrorSymlinkAndTarget h fuel) X src dst true F >>= fun fs =>
        linkText src d t >>= fun text =>
          createMirrorTarget h (createMirrorSymlinkAndTarget h fuel) (targetAbspath d t) src dst
            (symlink h fs text (dst ++ X)) := by
  unfold createMirrorSymlinkAndTarget targetAbspath linkText render
  simp only [hX, hdst, hsrc, Bool.not_true, Bool.or_self, Bool.false_eq_true, if_false, hl, ht, hreal]
  cases createMirrorDirs h (createMirrorSymlinkAndTarget h fuel) X src dst true F with
  | error x => rfl
  | ok fs =>
    simp only [Bind.bind, Except.bind]
    split_ifs
    · rfl
    · rfl

theorem mirrorSymlink_eq {fuel : ℕ} {t : CString} (hX : isAbspath X = true) (hdst : isAbspath dst = true)
    (hl : lstat h F X = some (.link t)) (ht : t ≠ []) (hreal : realpath h F (dirname X) = some d)
    (hd : ValidPath d) (hfits : fitsBuffer d t = true) :
    createMirrorSymlinkAndTarget h (fuel + 1) X [] dst F =
      createMirrorDirs h (createMirrorSymlinkAndTarget h fuel) X [] dst true F >>= fun fs =>
        createMirrorTarget h (createMirrorSymlinkAndTarget h fuel) (targetAbspath d t) [] dst
          (symlink h fs (munge d t) (dst ++ X)) := by
  have hsrc : isAbspath ([] ++ X) = true := hX
  rw [mirrorSymlink_succ hX hdst hsrc hl ht hreal, linkText_nil hd hfits]
  rfl

/-- The directory part of `X`, in the mirror. -/
theorem LinkAt.dst_parent (hl : LinkAt h S D F X B j ns a d m c r) (hM : Mirror S D F')
    (hbase : F' (D ++ B) = some .dir) (hd : F' (D ++ d) = some .dir)
    (hcs : strip cs = names B ++ (List.replicate j .up ++ names ns))
    (hp : ResD D F' m D (names (B.take (B.length - j) ++ ns)) (D ++ d)) : ResD D F' m D cs (D ++ d) := by
  have hdirs : ∀ q, q <+: B → F' (D ++ q) = some .dir := fun q hq => hM.dir_of_prefix hbase hq
  have hpre : ∀ q, q <+: B → D.isPrefixOf (D ++ q) = true := fun q _ => isPrefixOf_append D q
  have hlex := (Res.lex_iff hl.up_le hdirs hpre).1 hp
  have hfull := (Res.dirs hdirs hpre).append_iff.2 hlex
  rw [← hcs] at hfull
  exact hfull.unstrip (Or.inl hd)

/-- The link itself: after `symlink` there is a mirrored link, and nothing else is new. -/
theorem symlink_spec (hs : Setup h S D dst k b) (hM : Mirror S D F) {t : CString}
    (hX : pathComps (dst ++ X) = (comps dst ++ cs) ++ [.name a]) (hp : ResD D F m D cs (D ++ d))
    (hm : m ≤ b) (hd : F (D ++ d) = some .dir) (ht : S (d ++ [a]) = some (.link t)) :
    Mirror S D (symlink h F (munge d t) (dst ++ X)) ∧
      (∀ p nd, F p = some nd → symlink h F (munge d t) (dst ++ X) p = some nd) ∧
      symlink h F (munge d t) (dst ++ X) (D ++ (d ++ [a])) = some (.link (munge d t)) ∧
      ∀ p, p ≠ D ++ (d ++ [a]) → symlink h F (munge d t) (dst ++ X) p = F p := by
  have hlim := hs.limit
  have hnew := newEntry_last hX (hM.dst_res hs hp) hd (by omega : k + m ≤ h.maxLinks) false
  rw [List.append_assoc] at hnew
  unfold symlink
  rw [hnew]
  cases hex : F (D ++ (d ++ [a])) with
  | some nd =>
    have hcopy := (hM.copy _ _ (by simp) hex).link ht
    rw [List.dropLast_concat] at hcopy
    rw [hcopy] at hex
    exact ⟨hM, fun _ _ h => h, hex, fun _ _ => rfl⟩
  | none =>
    have hcopy : Copy S (d ++ [a]) (.link (munge d t)) := ⟨t, ht, by rw [List.dropLast_concat]⟩
    refine ⟨hM.set (hs.wf.valid _ _ hs.dir) hs.wf hd hex hcopy, Fs.set_mono hex, ?_, ?_⟩
    · simp [Fs.set]
    · intro p hp
      simp [Fs.set, hp]

/-- **`create_mirror_symlink_and_target` mirrors a link and all it needs.** By induction on the
nesting: the directory part follows `m` links and the target one less than the link, so both
follow fewer links than the whole path. -/
theorem mirrorSymlink_spec (hs : Setup h S D dst k b) :
    ∀ fuel w, w < fuel → w ≤ b → SymlinkSpec h S D dst (createMirrorSymlinkAndTarget h fuel) w := by
  intro fuel
  induction fuel with
  | zero => intro w hw; omega
  | succ fuel ih =>
    intro w hw hwb F X B j ns a d m c r hmc hM hcomp hl
    have hlim := hs.limit
    obtain ⟨cs, hXc, hcs⟩ := hl.text
    obtain ⟨t, ht⟩ := hl.link
    have htne := hs.wf.target _ _ ht
    have hd := hl.dir
    -- what the link leads to, one link less
    obtain ⟨n, rfl, hlink, hleads⟩ : ∃ n, c = n + 1 ∧ mirrorable d t = true ∧
        ResS S n (linkBase d t) (pathComps t) r := hl.leads.of_link ht
    obtain ⟨htame, hfits⟩ := mirrorable_iff.1 hlink
    have hlst : lstat h F X = some (.link t) := by
      rw [hl.lstat_eq hs.wf hM.ext (by omega), hM.ext _ _ ht]
    rw [mirrorSymlink_eq hl.abs hs.abs hlst htne (hl.realpath_dirname hs.wf hM.ext (by omega))
      (hs.wf.valid _ _ hd) hfits]
    -- the directory part
    obtain ⟨F₁, hok₁, hstep₁, hD₁⟩ := createMirrorDirs_spec hs (ih m (by omega) (by omega)) (by omega) hl.abs
      (by rw [if_pos rfl, hl.components, List.dropLast_concat]) hl.parent hd hM (hcomp.mono (by omega))
    have hM₁ := hstep₁.mirror
    have hDd₁ : F₁ (D ++ d) = some .dir := hM₁.reached_dir (hM₁.dest hs) hD₁ hd
    -- the link
    have hp₁ := hl.dst_parent hM₁ (hstep₁.mono _ _ hl.mirrored) hDd₁ hcs hD₁
    have hdst : pathComps (dst ++ X) = (comps dst ++ cs) ++ [.name a] := by
      rw [pathComps_append hl.abs, hXc, List.append_assoc]
    obtain ⟨hM₂, hmono₂, hlink₂, hsame₂⟩ := symlink_spec hs hM₁ hdst hp₁ (by omega) hDd₁ ht
    set F₂ := symlink h F₁ (munge d t) (dst ++ X)
    have hcomp₂ : Complete S D F₂ n := by
      intro d' a' t' hF' n' r' hn' hr'
      by_cases hsame : d' ++ [a'] = d ++ [a]
      · -- the new link itself follows more than `n` links
        obtain ⟨rfl, h'⟩ := List.append_inj' hsame rfl
        obtain rfl : a' = a := by simpa using h'
        have := (hr'.det hl.leads).1
        omega
      · rw [hsame₂ _ (fun h' => hsame (List.append_cancel_left h'))] at hF'
        have hc₁ := hstep₁.complete (hcomp.mono (by omega : n ≤ m + (n + 1)))
        exact (hc₁ d' a' t' hF' n' r' hn' hr').mono hmono₂
    -- the target
    obtain ⟨j', ns', htext⟩ := TextAt.of_link hs.wf hd htne htame
    have hbase₂ : F₂ (D ++ linkBase d t) = some .dir := by
      unfold linkBase
      split_ifs
      · rw [List.append_nil]; exact hM₂.dest hs
      · exact hmono₂ _ _ hDd₁
    obtain ⟨F₃, hok₃, hstep₃, hD₃⟩ := createMirrorTarget_spec hs (ih n (by omega) (by omega)) (by omega) htne
      ⟨htext, hbase₂, hleads, hl.copies⟩ hM₂ hcomp₂
    have hres : ResD D F₃ (n + 1) (D ++ d) [.name a] (D ++ r) :=
      hstep₃.mirror.res_link hs.wf (hstep₃.mono _ _ (hmono₂ _ _ hDd₁)) (hstep₃.mono _ _ hlink₂) ht
        (hstep₃.mirror.res_text (hstep₃.mirror.dest hs) (strip_pathComps t ▸ htext.tame) htext.up_le
          (hstep₃.mono _ _ hbase₂) hleads hD₃)
    have hmono : ∀ p nd, F₁ p = some nd → F₃ p = some nd := fun p nd h => hstep₃.mono _ _ (hmono₂ _ _ h)
    refine ⟨F₃, bind_eq_ok.2 ⟨F₁, hok₁, hok₃⟩, ⟨hstep₃.mirror, fun p nd h => hmono _ _ (hstep₁.mono _ _ h), ?_⟩,
      hD₁.mono hmono, hres⟩
    intro d' a' t' hF hF₃ n' r' hr'
    by_cases hsame : d' ++ [a'] = d ++ [a]
    · obtain ⟨rfl, h'⟩ := List.append_inj' hsame rfl
      obtain rfl : a' = a := by simpa using h'
      obtain ⟨rfl, rfl⟩ := hr'.det hl.leads
      exact hres
    · have hsame₂' := hsame₂ (D ++ (d' ++ [a'])) (fun h' => hsame (List.append_cancel_left h'))
      cases hF₁ : F₁ (D ++ (d' ++ [a'])) with
      | none => exact hstep₃.done d' a' t' (hsame₂'.trans hF₁) hF₃ n' r' hr'
      | some nd =>
        obtain rfl : nd = .link t' := Option.some.inj ((hmono _ _ hF₁).symm.trans hF₃)
        exact (hstep₁.done d' a' t' hF hF₁ n' r' hr').mono hmono

/-! ## The whole -/

/-- **A faithful copy**: `create_mirror_file(f, "", dst)` succeeds, the path `dst ++ f` leads
from `D` to a file with the same content without leaving `D`, and nothing outside `D` has
changed. -/
def Faithful (h : Host) (fuel : ℕ) (S : Fs) (dst f : CString) (D : List CString) (content : List Byte) :
    Prop :=
  ∃ F r file, createMirrorFile h fuel f [] dst S = .ok F ∧
    walk readTarget F (fun p => D.isPrefixOf p) true h.maxLinks D (pathComps f) = some r ∧
    resolve F h.maxLinks [] (dst ++ f) = some r ∧
    F r = some (.file file) ∧ file.content = content ∧ ∀ p, F p ≠ S p → D <+: p ∧ p ≠ D

/-- Nothing is found below an empty directory. -/
theorem stat_empty (hs : Setup h S D dst k b) (hempty : ∀ a, S (D ++ [a]) = none) {p : List CString}
    (hp : ValidPath (p ++ [a])) : stat h S (dst ++ render (p ++ [a])) = none := by
  have hlim := hs.limit
  have hwalk : walk readTarget S (fun _ => true) true h.maxLinks [] (comps dst ++ names (p ++ [a])) = none := by
    rw [walk_append hs.leads.walkable (Or.inr rfl) (by omega)]
    cases p with
    | nil => exact walk_none rfl hs.dir (hempty a)
    | cons x p => exact walk_none rfl hs.dir (hempty x)
  unfold stat lookup
  rw [if_neg (ne_nil_of_isAbspath (isAbspath_append _ hs.abs)), if_pos (isAbspath_append _ hs.abs),
    pathComps_append (isAbspath_render _), pathComps_render_concat hp]
  rw [names_append] at hwalk
  rw [show names [a] = [Comp.name a] from rfl] at hwalk
  rw [hwalk]; rfl

/-- `create_mirror_file` mirrors the path. -/
theorem createMirrorFile_spec (hs : Setup h S D dst k b) (hempty : ∀ a, S (D ++ [a]) = none)
    {fuel : ℕ} (hfuel : n < fuel) (hn : n ≤ b) {p : List CString} {file : File} (hp : ValidPath (p ++ [a]))
    (hr : ResS S n [] (names p ++ [.name a]) r) (hfile : S r = some (.file file)) (hc : Copyable h S r) :
    ∃ F, createMirrorFile h fuel (render (p ++ [a])) [] dst S = .ok F ∧ Mirror S D F ∧
      ResD D F n D (names p ++ [.name a]) (D ++ r) := by
  have hlim := hs.limit
  have hM : Mirror S D S := Mirror.init hs.wf hempty
  have habs : isAbspath (render (p ++ [a])) = true := isAbspath_render _
  have hpc := pathComps_render_concat hp
  obtain ⟨m, c, d, rfl, h₁, h₂⟩ := hr.split
  have hd : S d = some .dir := h₂.dir_of_ne_nil (by simp)
  have hlst : lstat h S (render (p ++ [a])) = S (d ++ [a]) :=
    lstat_last habs hpc (hM.src_res h₁) hd (by omega)
  have hcomp : ∀ k, Complete S D S k := by
    intro k d' a' t hl
    rw [hs.wf.below_empty hempty (by simp)] at hl
    cases hl
  have hfresh : ∀ nd, isFresh h S (dst ++ render (p ++ [a])) nd = false := by
    intro nd
    unfold isFresh
    rw [stat_empty hs hempty hp]
    split <;> rfl
  unfold createMirrorFile
  simp only [habs, hs.abs, Bool.not_true, Bool.or_self, Bool.false_eq_true, if_false, List.nil_append, hlst,
    hfresh]
  have h₂' := h₂
  cases h₂ with
  | @name _ _ _ _ _ nd _ _ ha hl h₂ =>
    cases h₂ with
    | nil _ =>
      rw [ha] at hfile ⊢
      cases hfile
      have hcT : components (render (p ++ [a])) = p ++ [a] := components_render hp
      have := createMirrorTarget_file hs (mirrorSymlink_spec hs fuel m hfuel hn) hn habs hpc (hM.src_res h₁)
        hd ha hcT h₁ hc hM (hcomp m)
      rw [hcT, names_append] at this
      obtain ⟨F, hok, hstep, hD⟩ := this
      exact ⟨F, hok, hstep.mirror, hD⟩
  | @link n₁ n₂ _ _ _ _ _ t _ _ ha _ _ _ =>
    rw [ha]
    obtain ⟨F, hok, hstep, hp', hr'⟩ := mirrorSymlink_spec hs fuel _ hfuel hn S (render (p ++ [a])) [] 0 p a d m _
      r (Nat.le_refl _) hM (hcomp _)
      ⟨.render hs.wf hp h₁ hd, by rw [List.append_nil]; exact hs.dir, ⟨t, ha⟩, h₂', hc⟩
    have hpD : ResD D F m D (names p) (D ++ d) := by simpa using hp'
    exact ⟨F, hok, hstep.mirror, hpD.append hr'⟩

end Mirroring

/-- **okapi copies faithfully** the file `f` into the empty directory `dst`, if every link that
the kernel follows on the way to `f` is tame and its rewritten text fits, and the file can be read or
hard linked. -/
theorem okapi_faithful {S : Fs} {D r : List CString} {dst f : CString} {k b fuel : ℕ} {file : File}
    (hS : WellFormed S) (hdst : isAbspath dst = true) (hD : resolve S k [] dst = some D)
    (hdir : S D = some .dir) (hempty : ∀ a, S (D ++ [a]) = none) (hf : Canonical f)
    (hr : resolve S b [] f = some r) (hfile : S r = some (.file file))
    (hlinks : ∀ x ∈ followed readTarget S b [] (pathComps f), tame x.1 x.2 = true ∧ fitsBuffer x.1 x.2 = true)
    (hcopy : h.mayRead r = true ∨ ∀ x y, h.hardLink x y = true) (hlim : k + b ≤ h.maxLinks) (hfuel : b < fuel) :
    Faithful h fuel S dst f D file.content := by
  obtain ⟨k', hk', hleads⟩ := (resolve_abs hdst).1 hD
  have hs : Setup h S D dst k' b := ⟨hS, hdir, hdst, hleads.of_pathComps, by omega⟩
  obtain ⟨P, hP, rfl⟩ := canonical_iff.1 hf
  -- the lookup of `f` as a derivation through tame links
  obtain ⟨n, hn, hres⟩ : ∃ n ≤ b, ResS S n [] (pathComps (render P)) r := by
    unfold resolve lookup at hr
    rw [if_neg (ne_nil_of_isAbspath (isAbspath_render P)), if_pos (isAbspath_render P)] at hr
    obtain ⟨n, hn, hres⟩ := res_of_walk hr
    exact ⟨n, hn, hres.mono (fun _ _ h => h) (fun _ _ => trivial)
      (fun d t h => mirrorable_iff.2 (hlinks (d, t) h))⟩
  rcases List.eq_nil_or_concat' P with rfl | ⟨p, a, rfl⟩
  · -- the root is no regular file
    cases hres with
    | here _ _ hres =>
      cases hres with
      | nil _ => rw [hS.root] at hfile; cases hfile
  · rw [pathComps_render_concat hP] at hres
    obtain ⟨F, hok, hM, hresD⟩ := createMirrorFile_spec hs hempty (by omega : n < fuel) hn hP hres hfile
      (fun _ _ => hcopy)
    obtain ⟨nd, hnd, hcopy⟩ := hM.reached (hM.dest hs) hresD
    have hrne : r ≠ [] := by rintro rfl; rw [hS.root] at hfile; cases hfile
    obtain ⟨file', rfl, hcontent⟩ := (hcopy hrne).file hfile
    refine ⟨F, D ++ r, file', hok, ?_, ?_, hnd, hcontent, ?_⟩
    · rw [pathComps_render_concat hP]
      exact walk_of_res hresD (by omega)
    · rw [resolve_abs (isAbspath_append _ hdst), pathComps_append (isAbspath_render _),
        pathComps_render_concat hP]
      exact ⟨k' + n, by omega, hM.dst_res hs hresD⟩
    · intro x hx
      obtain ⟨q, hq, rfl⟩ := hM.frame x hx
      exact ⟨List.prefix_append D q, by simpa using hq⟩

/-- A file behind three links: to a link beside a directory link, and to an absolute path. -/
def chainedLinks : Fs := Fs.ofList
  [([], .dir), ([str "d"], .dir), ([str "e"], .dir), ([str "p"], .dir),
   ([str "d", str "l"], .link (str "../k/m")), ([str "k"], .link (str "/e/.")),
   ([str "e", str "m"], .link (str "f")), ([str "e", str "f"], .file ⟨str "text", 0⟩)]

theorem okapi_faithful_chained :
    Faithful {} 41 chainedLinks (str "/p") (str "/d/l") [str "p"] (str "text") := by
  have hS : WellFormed chainedLinks := Fs.wellFormed_ofList (by decide +kernel) (by decide +kernel)
  have hD : resolve chainedLinks 0 [] (str "/p") = some [str "p"] := by decide +kernel
  have hempty : ∀ a, chainedLinks ([str "p"] ++ [a]) = none := Fs.empty_ofList (by decide +kernel)
  have hr : resolve chainedLinks 40 [] (str "/d/l") = some [str "e", str "f"] := by decide +kernel
  have hfile : chainedLinks [str "e", str "f"] = some (.file ⟨str "text", 0⟩) := by decide +kernel
  have hlinks : ∀ x ∈ followed readTarget chainedLinks 40 [] (pathComps (str "/d/l")),
      tame x.1 x.2 = true ∧ fitsBuffer x.1 x.2 = true := by decide +kernel
  exact okapi_faithful hS rfl hD (by decide +kernel) hempty (by decide +kernel) hr hfile hlinks (.inl rfl)
    (Nat.le_refl 40) (by decide)

/-- A link with a `..` after a name. -/
def dottedLink : Fs := Fs.ofList
  [([], .dir), ([str "d"], .dir), ([str "d", str "x"], .dir), ([str "p"], .dir),
   ([str "d", str "l"], .link (str "x/../f")), ([str "d", str "f"], .file ⟨str "text", 0⟩)]

/-- The directory `/d/x` is not mirrored, so the mirrored link leads nowhere. -/
theorem okapi_dotted_link :
    WellFormed dottedLink ∧ resolve dottedLink 40 [] (str "/p") = some [str "p"] ∧
    (∀ a, dottedLink ([str "p"] ++ [a]) = none) ∧ Canonical (str "/d/l") ∧
    resolve dottedLink 40 [] (str "/d/l") = some [str "d", str "f"] ∧
    dottedLink [str "d", str "f"] = some (.file ⟨str "text", 0⟩) ∧
    ∀ fuel, ¬ Faithful {} fuel dottedLink (str "/p") (str "/d/l") [str "p"] (str "text") := by
  refine ⟨Fs.wellFormed_ofList (by decide +kernel) (by decide +kernel), by decide +kernel,
    Fs.empty_ofList (by decide +kernel), by decide +kernel, by decide +kernel, by decide +kernel, ?_⟩
  rintro fuel ⟨F, r, file, hok, -, hres, -⟩
  -- no nested call is made, whatever the fuel
  have hnone : (createMirrorFile {} fuel (str "/d/l") [] (str "/p") dottedLink).toOption.bind
      (fun F => resolve F 40 [] (str "/p/d/l")) = none := by
    cases fuel with
    | zero => decide +kernel
    | succ fuel => rfl
  rw [hok] at hnone
  have hsome : resolve F 40 [] (str "/p/d/l") = some r := hres
  rw [show (Except.ok F : Except Fatal Fs).toOption = some F from rfl, Option.bind_some, hsome] at hnone
  cases hnone

end Ptu
