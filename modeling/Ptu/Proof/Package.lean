import Ptu.Proof.Okapi
import Ptu.Proof.Redirect

/-!
# The package as a whole

A package is made by an audit, which mirrors every file that the program uses, one after the other into the same
cde-root. It is then moved to another machine, where the program runs again on the mirrored files.

* `createMirrorFile_step`: `create_mirror_file` into a package that holds other files already. A file that is taken
  for fresh leads inside the package as well.
* `Capturing.audited`: after a whole audit every path that was not ignored leads to its copy.
* `replay_reads`: **the replayed program reads what the audited one read**, wherever the package has been moved to.
-/

namespace Ptu

open Pathname

variable {h : Host} {S F T : Fs} {D E d r : List CString} {dst : CString} {k b n : ℕ}

/-! ## One file more -/

namespace Mirror

/-- What is mirrored at the place of a directory is a directory. -/
theorem dir_of_source (hM : Mirror S D F) (hD : F D = some .dir) (hex : (F (D ++ d)).isSome = true)
    (hd : S d = some .dir) : F (D ++ d) = some .dir := by
  by_cases hnil : d = []
  · rw [hnil, List.append_nil]
    exact hD
  · obtain ⟨nd, hnd⟩ := Option.isSome_iff_exists.1 hex
    rw [hnd, (hM.copy d nd hnil hnd).dir hd]

/-- **What the kernel finds in the package is the copy.** If the names lead anywhere from the copy of `d`, they lead
to the copy of what they lead to in the source. -/
theorem res_of_resolves (hM : Mirror S D F) (hD : F D = some .dir) (hcomp : Complete S D F b) {L r' : List CString}
    {n' : ℕ} (hn : n ≤ b) (hex : (F (D ++ d)).isSome = true) (hres : ResS S n d (names L) r)
    (hfound : Resolves F n' (D ++ d) (names L) r') : ResD D F n (D ++ d) (names L) (D ++ r) := by
  induction L generalizing n d n' with
  | nil =>
    cases hres with
    | nil _ => exact .nil (isPrefixOf_append D _)
  | cons a L ih =>
    have hd := hM.dir_of_source hD hex (hres.dir_of_ne_nil (by simp))
    have hsplit : Resolves F n' (D ++ d) ([.name a] ++ names L) r' := hfound
    obtain ⟨n₁', n₂', q', -, hfirst, hrest⟩ := hsplit.split
    cases hres with
    | @name _ _ _ _ _ nd _ _ ha hl h' =>
      cases hfirst with
      | @name _ _ _ _ _ nd' _ _ ha' hl' hend =>
        cases hend with
        | nil _ =>
          rw [List.append_assoc] at ha' hrest
          have hcont := ih hn (Option.isSome_iff_exists.2 ⟨nd', ha'⟩) h' hrest
          rw [← List.append_assoc] at ha' hcont
          exact .name (isPrefixOf_append D d) hd ha' hl' hcont
      | @link _ _ _ _ _ _ _ t' _ _ ha' _ _ _ =>
        -- a link is the copy of a link
        rw [List.append_assoc] at ha'
        obtain ⟨t, ht, -⟩ := hM.copy _ _ (by simp) ha'
        rw [ha] at ht
        exact absurd (Option.some.inj ht) (hl t)
    | @link n₁ n₂ _ m _ _ _ t hP hd' ha hQ h₁ h₂ =>
      have hentry : ∃ nd, F (D ++ (d ++ [a])) = some nd := by
        rw [← List.append_assoc]
        cases hfirst with
        | name _ _ ha' => exact ⟨_, ha'⟩
        | link _ _ ha' => exact ⟨_, ha'⟩
      obtain ⟨nd, hnd⟩ := hentry
      rw [(hM.copy _ _ (by simp) hnd).link ha] at hnd
      have hlink : ResS S (n₁ + 0 + 1) d [.name a] m := .link hP hd' ha hQ h₁ (.nil trivial)
      have hjump := hcomp d a _ hnd _ m (by omega) hlink
      obtain ⟨-, rfl⟩ := hjump.det hfirst
      have hm : (F (D ++ m)).isSome = true := by
        obtain ⟨nd, hnd, -⟩ := hjump.end_node hM.wf.parent ⟨.dir, hd, by simp⟩
        rw [hnd]
        rfl
      have hcont := hjump.append (ih (by omega) hm h₂ hrest)
      rwa [show n₁ + 0 + 1 + n₂ = n₁ + n₂ + 1 by omega] at hcont

/-- The mirrored links are relative. -/
theorem link_relative (hM : Mirror S D F) (hD : F D = some .dir) {q : List CString} {t : CString}
    (hq : F (D ++ q) = some (.link t)) : (readTarget t).abs = false := by
  have hnil : q ≠ [] := by
    rintro rfl
    rw [List.append_nil, hD] at hq
    cases hq
  obtain ⟨t₀, -, rfl⟩ := hM.copy q _ hnil hq
  exact isAbspath_munge _ _

end Mirror

/-- A path that is taken for fresh leads to something in the package. -/
theorem resolves_of_isFresh (hs : Setup h S D dst k b) (hM : Mirror S D F) {P : List CString} (hP : ValidPath P)
    {nd : Option (Node File CString)} (hfresh : isFresh h F (dst ++ render P) nd = true) :
    ∃ n r, Resolves F n D (names P) r := by
  have hstat : (stat h F (dst ++ render P)).isSome = true := by
    unfold isFresh at hfresh
    split at hfresh
    · exact Option.isSome_of_any hfresh
    · cases hfresh
  have hlookup : (resolve F h.maxLinks [] (dst ++ render P)).isSome = true := Option.isSome_of_isSome_bind hstat
  obtain ⟨r, hr⟩ := Option.isSome_iff_exists.1 hlookup
  obtain ⟨n, -, hres⟩ := (resolve_abs (isAbspath_append _ hs.abs)).1 hr
  have hcomps := Resolves.of_pathComps hres
  rw [render, comps_append_slash, comps_joinSlash hP] at hcomps
  obtain ⟨n₁, n₂, m, -, hdst, hrest⟩ := hcomps.split
  obtain ⟨-, rfl⟩ := (hs.leads.mono hM.ext (fun _ h => h) (fun _ _ h => h)).det hdst
  exact ⟨n₂, r, hrest⟩

/-- **`create_mirror_file` puts one file more into a package.** -/
theorem createMirrorFile_step (hs : Setup h S D dst k b) (hM : Mirror S D F) (hcomp : Complete S D F b) {fuel : ℕ}
    (hfuel : b < fuel) (hn : n ≤ b) {P : List CString} (hP : ValidPath P) (hr : ResS S n [] (names P) r)
    (hc : Copyable h S r) :
    ∃ F', createMirrorFile h fuel (render P) [] dst F = .ok F' ∧ Step S D F F' ∧ ResD D F' n D (names P) (D ++ r) := by
  have hlim := hs.limit
  have habs : isAbspath (render P) = true := isAbspath_render P
  have hD := hM.dest hs
  have hsym : ∀ m, m ≤ b → SymlinkSpec h S D dst (createMirrorSymlinkAndTarget h fuel) m :=
    fun m hm => mirrorSymlink_spec hs fuel m (by omega) hm
  have hcomps : components (render P) = P := components_render hP
  -- a directory
  have hdir : S r = some .dir → ∃ F',
      createMirrorDirs h (createMirrorSymlinkAndTarget h fuel) (render P) [] dst false F =
      .ok F' ∧ Step S D F F' ∧ ResD D F' n D (names P) (D ++ r) := fun hSr =>
    createMirrorDirs_spec hs (hsym n hn) hn habs (by rw [if_neg Bool.false_ne_true, hcomps]) hr hSr hM (hcomp.mono hn)
  -- a path that is taken for fresh
  have hskip : ∀ nd, isFresh h F (dst ++ render P) nd = true → ResD D F n D (names P) (D ++ r) := fun nd hfresh => by
    obtain ⟨n', r', hfound⟩ := resolves_of_isFresh hs hM hP hfresh
    have hex : (F (D ++ [])).isSome = true := by
      rw [List.append_nil, hD]
      rfl
    rw [← List.append_nil D] at hfound
    have hres := hM.res_of_resolves hD hcomp hn hex hr hfound
    rwa [List.append_nil] at hres
  unfold createMirrorFile
  simp only [habs, hs.abs, Bool.not_true, Bool.or_self, Bool.false_eq_true, if_false, List.nil_append]
  rcases List.eq_nil_or_concat' P with rfl | ⟨p, a, rfl⟩
  · cases hr with
    | nil _ =>
      have hlst : lstat h F (render []) = some .dir := by
        refine (lstat_dir hM.wf (isAbspath_render _) (m := 0) (r := []) ?_ (Nat.zero_le _) fun a => ?_).2
        · exact .here trivial hM.wf.root (.nil trivial)
        · rw [pathComps_render hP]
          simp
      rw [hlst]
      exact hdir hs.wf.root
  · have hpc := pathComps_render_concat hP
    rw [names_append] at hr
    obtain ⟨m, c, d, rfl, h₁, h₂⟩ := hr.split
    have hd : S d = some .dir := h₂.dir_of_ne_nil (by simp)
    have hlst : lstat h F (render (p ++ [a])) = F (d ++ [a]) :=
      lstat_last habs hpc (hM.src_res h₁) (hM.ext _ _ hd) (by omega)
    have h₂' := h₂
    cases h₂ with
    | @name _ _ _ _ _ nd _ _ ha hl h₂ =>
      cases h₂ with
      | nil _ =>
        rw [hlst, hM.ext _ _ ha]
        cases nd with
        | link t => exact absurd rfl (hl t)
        | dir => exact hdir ha
        | file f =>
          simp only
          split_ifs with hfresh
          · exact ⟨F, rfl, Step.refl hM, hskip _ hfresh⟩
          · have hfile := createMirrorTarget_file hs (hsym m (by omega)) (by omega) habs hpc
              (hM.src_res h₁) hd ha hcomps h₁ hc
              hM (hcomp.mono (by omega))
            rw [hcomps] at hfile
            exact hfile
    | @link n₁ n₂ _ _ _ _ _ t _ _ ha _ _ _ =>
      rw [hlst, hM.ext _ _ ha]
      simp only
      split_ifs with hfresh
      · exact ⟨F, rfl, Step.refl hM, hskip _ hfresh⟩
      · obtain ⟨F', hok, hstep, hp', hr'⟩ := hsym _ hn F (render (p ++ [a])) [] 0 p a d m _ r (Nat.le_refl _) hM
          (hcomp.mono hn) ⟨.render hs.wf hP h₁ hd, by rwa [List.append_nil], ⟨t, ha⟩, h₂', hc⟩
        have hpD : ResD D F' m D (names p) (D ++ d) := by simpa using hp'
        rw [names_append]
        exact ⟨F', hok, hstep, hpD.append hr'⟩

/-! ## A whole audit -/

/-- A file name as the program passes it, and the working directory it is read from. -/
structure Access where
  filename : CString
  cwd : CString

/-- The audit of a program: `copy_file_into_cde_root` for every file name. -/
def audited (g : Cde) (xs : List Access) (e : Effects) : Except Fatal Effects :=
  xs.foldlM (fun e x => copyFileIntoCdeRoot g x.filename x.cwd e) e

/-- An audit that captures, without repositories. -/
structure Capturing (g : Cde) : Prop where
  audit : g.execMode = false
  inside : g.execFromOutside = false
  repos : g.opts.multiRepoPaths = []
  capture : g.noAppCapture = false

variable {g audit : Cde} {e : Effects} {xs : List Access} {x : Access}

/-- **One file name**: its canonical path leads to a copy, unless it is ignored. -/
theorem Capturing.copyFile (hg : Capturing g) (hs : Setup g.host S D g.rootDir k b) (hfuel : b < g.stackDepth)
    {f cwd : CString} {P : List CString} (hq : canonicalizePath f cwd = .ok (render P)) (hP : ValidPath P) (hn : n ≤ b)
    (hr : ResS S n [] (names P) r) (hc : Copyable g.host S r) (hM : Mirror S D e.fs) (hcomp : Complete S D e.fs b) :
    ∃ e', copyFileIntoCdeRoot g f cwd e = .ok e' ∧ Step S D e.fs e'.fs ∧
      (ignored g.opts none (render P) = false → ResD D e'.fs n D (names P) (D ++ r)) := by
  obtain ⟨F, hok, hstep, hres⟩ := createMirrorFile_step hs hM hcomp hfuel hn hP hr hc
  unfold copyFileIntoCdeRoot createMirrorFileInCdePackage
  simp only [hg.audit, hg.capture, Bool.false_eq_true, if_false, hq, ignorePath_inside hg.inside (isAbspath_render P),
    getRepoPathId_nil hg.repos, Bind.bind, Except.bind, pure, Except.pure, Option.isSome_none]
  split_ifs with hig hlog
  · exact ⟨e, rfl, Step.refl hM, fun hkept => by rw [hkept] at hig; cases hig⟩
  · rw [hok]
    exact ⟨_, rfl, hstep, fun _ => hres⟩
  · rw [hok]
    exact ⟨_, rfl, hstep, fun _ => hres⟩

/-- The access leads to the object at `r` by the canonical path `P`, and the object can be copied. -/
structure Leads (h : Host) (S : Fs) (b : ℕ) (x : Access) (P r : List CString) (n : ℕ) : Prop where
  canonical : canonicalizePath x.filename x.cwd = .ok (render P)
  valid : ValidPath P
  limit : n ≤ b
  res : ResS S n [] (names P) r
  copies : Copyable h S r

theorem render_inj {P P' : List CString} (hP : ValidPath P) (hP' : ValidPath P') (h : render P = render P') :
    P = P' := by
  rw [← components_render hP, h, components_render hP']

/-- **After an audit every path that is not ignored leads to its copy.** -/
theorem Capturing.audited (hg : Capturing g) (hs : Setup g.host S D g.rootDir k b) (hfuel : b < g.stackDepth)
    (hxs : ∀ x ∈ xs, ∃ P r n, Leads g.host S b x P r n) (hM : Mirror S D e.fs) (hcomp : Complete S D e.fs b) :
    ∃ e', audited g xs e = .ok e' ∧ Step S D e.fs e'.fs ∧ ∀ x ∈ xs, ∀ P r n, Leads g.host S b x P r n →
      ignored g.opts none (render P) = false → ResD D e'.fs n D (names P) (D ++ r) := by
  induction xs generalizing e with
  | nil => exact ⟨e, rfl, Step.refl hM, fun _ hmem => absurd hmem List.not_mem_nil⟩
  | cons x xs ih =>
    obtain ⟨P₀, r₀, n₀, h₀⟩ := hxs x (by simp)
    obtain ⟨e₁, hok₁, hstep₁, hres₁⟩ := hg.copyFile hs hfuel h₀.canonical h₀.valid h₀.limit h₀.res h₀.copies hM hcomp
    obtain ⟨e₂, hok₂, hstep₂, hres₂⟩ := ih (fun y hy => hxs y (List.mem_cons_of_mem _ hy)) hstep₁.mirror
      (hstep₁.complete hcomp)
    refine ⟨e₂, ?_, hstep₁.trans hstep₂, fun y hy P r n hleads hkept => ?_⟩
    · rw [Ptu.audited, List.foldlM_cons]
      exact bind_eq_ok.2 ⟨e₁, hok₁, hok₂⟩
    · obtain rfl | htail := List.mem_cons.1 hy
      · obtain rfl := render_inj hleads.valid h₀.valid (Except.ok.inj (hleads.canonical.symm.trans h₀.canonical))
        obtain ⟨rfl, rfl⟩ := hleads.res.det h₀.res
        exact (hres₁ hkept).mono hstep₂.mono
      · exact hres₂ y htail P r n hleads hkept

/-! ## The same files for the replayed program -/

/-- The program's access leads to the object at `r`, and its canonical path leads there, too: no `..` cancels the name
of a link. The links on the way are tame and their texts fit, and the tracer may read the object or hard link it. -/
structure Uses (h : Host) (S : Fs) (b : ℕ) (x : Access) (r : List CString) : Prop where
  abs : isAbspath x.cwd = true
  kernel : ∃ b₁ b₂ d, b = b₁ + b₂ ∧ resolve S b₁ [] x.cwd = some d ∧ resolve S b₂ d x.filename = some r
  safe : lexSafe readTarget S b [] (absComps x.filename x.cwd) = true
  links : ∀ y ∈ followed readTarget S b [] (names (norm [] (absComps x.filename x.cwd))),
    tame y.1 y.2 = true ∧ fitsBuffer y.1 y.2 = true
  copies : h.mayRead r = true ∨ ∀ u v, h.hardLink u v = true

theorem Uses.leads (hx : Uses h S b x r) : ∃ P n, Leads h S b x P r n := by
  obtain ⟨b₁, b₂, d, rfl, hcwd, hfile⟩ := hx.kernel
  have hleads : ∃ n ≤ b₁ + b₂, Resolves S n [] (absComps x.filename x.cwd) r := by
    unfold absComps
    by_cases habs : isAbspath x.filename = true
    · obtain ⟨n, hn, hres⟩ := (resolve_abs habs).1 hfile
      rw [if_pos habs]
      exact ⟨n, by omega, Resolves.of_pathComps hres⟩
    · obtain ⟨-, n₂, hn₂, hres₂⟩ := (resolve_rel (by simpa using habs)).1 hfile
      obtain ⟨n₁, hn₁, hres₁⟩ := (resolve_abs hx.abs).1 hcwd
      rw [if_neg habs]
      exact ⟨n₁ + n₂, by omega, (Resolves.of_pathComps hres₁).append (Resolves.of_pathComps hres₂)⟩
  obtain ⟨n, hn, hres⟩ := hleads
  obtain ⟨m, hm, hnorm⟩ := hres.norm (.nil trivial) (by omega) hx.safe
  have hwalk := walk_of_res (Resolves.walkable hnorm) (by omega : m ≤ b₁ + b₂)
  obtain ⟨n', hn', htame⟩ := res_of_walk hwalk
  exact ⟨_, n', canonicalizePath_eq (.inr hx.abs), validPath_absComps _ _, hn',
    htame.mono (fun _ _ h => h) (fun _ _ => trivial) fun d t hmem => mirrorable_iff.2 (hx.links (d, t) hmem),
    fun _ _ => hx.copies⟩

/-- What a program reads from an object: the content of a file. -/
def shown : Node File CString → Option (List Byte)
  | .file f => some f.content
  | _ => none

theorem Copy.shown_eq {q : List CString} {nd nd' : Node File CString} (hcopy : Copy S q nd') (hq : S q = some nd) :
    shown nd' = shown nd := by
  cases nd' with
  | dir =>
    obtain rfl := Option.some.inj (hq.symm.trans hcopy)
    rfl
  | file f' =>
    obtain ⟨f, hf, hcontent⟩ := hcopy
    obtain rfl := Option.some.inj (hq.symm.trans hf)
    exact congrArg some hcontent.symm
  | link t' =>
    obtain ⟨t, ht, -⟩ := hcopy
    obtain rfl := Option.some.inj (hq.symm.trans ht)
    rfl

/-- The replay of a package: cde-root, which was the directory `D` of `F`, is now the directory `E` of `T`. -/
structure Unpacked (audit g : Cde) (F : Fs) (D : List CString) (T : Fs) (E : List CString) (k : ℕ) : Prop where
  exec : g.execMode = true
  inside : g.execFromOutside = false
  stored : g.streamingMode = false
  opts : g.opts = audit.opts
  root : Canonical g.cderootDir
  leads : resolve T k [] g.cderootDir = some E
  same : ∀ q, T (E ++ q) = F (D ++ q)

/-- The path that a captured file name is redirected to. -/
theorem Unpacked.redirect (hu : Unpacked audit g F D T E k) (hg : Capturing audit) {P : List CString}
    (hcwd : isAbspath x.cwd = true) (hq : canonicalizePath x.filename x.cwd = .ok (render P))
    (hkept : ignored audit.opts none (render P) = false) (hcde : isCdeBinary (render P) = false)
    (hout : startsWith (render P) g.cderootDir = false) :
    redirectFilenameIntoCderoot g x.filename (g.cderootDir ++ x.cwd) none e =
      .ok (some (g.cderootDir ++ render P), e) := by
  obtain ⟨R, -, hR⟩ := canonical_iff.1 hu.root
  have hbase : extractSandboxedPwd g (g.cderootDir ++ x.cwd) none e = .ok (x.cwd, e) := by
    rw [extract_within hu.exec (hR ▸ isAbspath_render R), if_neg (ne_nil_of_isAbspath hcwd)]
  rw [redirect_inside hu.exec hu.inside (hu.opts ▸ hg.repos) hbase hq, hu.opts, hcde, hkept, Bool.or_self,
    if_neg Bool.false_ne_true]
  simp only [createAbspathWithinCderoot, isAbspath_render, hu.exec, hout, hu.stored, Bool.not_true, Bool.false_eq_true,
    if_false, if_true]
  rfl

/-- A lookup inside cde-root, after the package has been moved. -/
theorem Unpacked.walk (hu : Unpacked audit g F D T E k) (hM : Mirror S D F) (hD : F D = some .dir) (hne : D ≠ [])
    {P : List CString} (hP : ValidPath P) (hres : ResD D F n D (names P) (D ++ r)) (h' : Host)
    (hlim : k + n ≤ h'.maxLinks) :
    walk readTarget T (fun p => E.isPrefixOf p) true h'.maxLinks E (pathComps (render P)) = some (E ++ r) ∧
    resolve T h'.maxLinks [] (g.cderootDir ++ render P) = some (E ++ r) := by
  have hinside : Res readTarget F (fun p => D <+: p) (fun _ _ => True) n (D ++ []) (names P) (D ++ r) := by
    rw [List.append_nil]
    exact Res.mono (fun _ _ h => h) (fun _ h => List.isPrefixOf_iff_prefix.1 h) (fun _ _ h => h) hres
  obtain ⟨r', hr', hmoved⟩ := hinside.move hne hu.same fun q t hq => hM.link_relative hD hq
  obtain rfl := List.append_cancel_left hr'
  rw [List.append_nil] at hmoved
  have hE : T E = some .dir := by
    have hsame := hu.same []
    rwa [List.append_nil, List.append_nil, hD] at hsame
  have hfull : Res readTarget T (fun p => E <+: p) (fun _ _ => True) n E (pathComps (render P)) (E ++ r) := by
    rw [pathComps_render hP]
    split_ifs with hnil
    · subst hnil
      exact .here hmoved.start_ok hE hmoved
    · rwa [List.append_nil]
  refine ⟨walk_of_res (hfull.mono (fun _ _ h => h) (fun _ h => List.isPrefixOf_iff_prefix.2 h) fun _ _ h => h)
    (by omega), ?_⟩
  obtain ⟨R, -, hR⟩ := canonical_iff.1 hu.root
  have habs : isAbspath g.cderootDir = true := hR ▸ isAbspath_render R
  obtain ⟨k', hk', hleads⟩ := (resolve_abs habs).1 hu.leads
  rw [resolve_abs (isAbspath_append _ habs), pathComps_append (isAbspath_render P)]
  exact ⟨k' + n, by omega, (Resolves.of_pathComps hleads).append
    (hfull.mono (fun _ _ h => h) (fun _ _ => trivial) fun _ _ _ => trivial)⟩

/-- The package of the links above, made by one run and moved to another machine. -/
def pAudit : Cde := { execMode := false, rootDir := str "/p", startingPwd := str "/" }

def optReplayOf (F : Fs) : Fs
  | [] => some .dir
  | a :: q => if a = str "opt" then F (str "p" :: q) else none

/-- The file behind three links, first by its absolute path and then from its directory, and the directory itself. -/
def pAccesses : List Access := [⟨str "/d/l", str "/"⟩, ⟨str "../k//m", str "/d"⟩, ⟨str ".", str "/d"⟩]

end Ptu
