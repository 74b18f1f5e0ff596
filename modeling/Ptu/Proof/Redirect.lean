import Ptu.Proof.Path
import Ptu.Spec.Redirect

/-!
# What redirection does to a path

Spec lemmas for the functions of `Ptu.Spec.Redirect`, and the two main results:

* `capture_replay`: a file that was mirrored during the audit is read back from the
  package by the replayed program, unless its name is that of a cde binary or starts
  with the path of cde-root itself.
* `contained_iff`: a redirected path lies inside cde-root, except when the file name
  starts with the text of `cde_cderoot_dir` without lying in that directory.
-/

namespace Ptu

open Pathname

variable {g : Cde} {e e' : Effects} {pi : Option ProcessIgnore}

/-! ## Spec lemmas -/

/-- The verdict of the rules of `ignore_path`, without the test for cde-exec from outside. -/
def ignored (o : Options) (pi : Option ProcessIgnore) (f : CString) : Bool :=
  pi.any (·.ignores f) || (!o.redirects f && o.ignores f)

theorem ignorePath_abs {f : CString} (hf : isAbspath f = true) :
    ignorePath g f pi e =
      if ignored g.opts pi f then .ok (true, e)
      else if g.execFromOutside && !g.opts.redirects f then
        (createAbspathWithinCderoot g f e).map fun r => (!g.stat r.2.fs r.1, r.2)
      else .ok (false, e) := by
  obtain ⟨q, rfl⟩ := isAbspath_iff.1 hf
  unfold ignorePath ignored
  simp only [List.cons_ne_nil, if_false, hf, Bool.not_true, Bool.false_eq_true]
  cases pi.any (·.ignores (slash :: q)) <;> cases g.opts.redirects (slash :: q) <;>
    cases g.opts.ignores (slash :: q) <;> cases g.execFromOutside <;> rfl

theorem ignorePath_rel {f : CString} (hf : isAbspath f = false) :
    ignorePath g f pi e = if f = [] then .ok (true, e) else .error .assertion := by
  unfold ignorePath
  simp only [hf, Bool.not_false, if_true]
  rfl

theorem ignorePath_inside (hout : g.execFromOutside = false) {f : CString} (hf : isAbspath f = true) :
    ignorePath g f pi e = .ok (ignored g.opts pi f, e) := by
  rw [ignorePath_abs hf, hout]
  cases ignored g.opts pi f <;> rfl

/-- A path that is not ignored matches no `ignore` rule, or some `redirect` rule. -/
theorem ignorePath_false {f : CString} (h : ignorePath g f pi e = .ok (false, e')) :
    isAbspath f = true ∧ ignored g.opts pi f = false := by
  by_cases hf : isAbspath f = true
  · rw [ignorePath_abs hf] at h
    refine ⟨hf, ?_⟩
    by_contra hi
    simp [eq_true_of_ne_false hi] at h
  · rw [ignorePath_rel (by simpa using hf)] at h
    split at h <;> cases h

theorem getRepoPathId_nil (h : g.opts.multiRepoPaths = []) (f : CString) : getRepoPathId g f = none := by
  simp [getRepoPathId, h]

/-- Where `create_abspath_within_cderoot` sends a path in exec mode. -/
def withinCderoot (g : Cde) (path : CString) : CString :=
  if startsWith path g.cderootDir then path else g.cderootDir ++ path

theorem createAbspath_ok (hex : g.execMode = true) {path r : CString}
    (h : createAbspathWithinCderoot g path e = .ok (r, e')) : r = withinCderoot g path := by
  unfold createAbspathWithinCderoot at h
  unfold withinCderoot
  by_cases hp : isAbspath path = true
  · simp only [hp, Bool.not_true, Bool.false_eq_true, if_false, hex, if_true] at h
    split at h
    · rename_i hs; rw [if_pos hs]; cases h; rfl
    · rename_i hs; rw [if_neg hs]
      split at h <;> (obtain ⟨e₁, -, h⟩ := bind_eq_ok.1 h; cases h; rfl)
  · simp [hp] at h; cases h

/-- Mirroring a file touches neither the trie nor the lines of the tracer's files. -/
theorem createMirrorFile_frame {c : MirrorCall} (h : createMirrorFileInCdePackage g c e = .ok e') :
    e'.trie = e.trie ∧ e'.cached = e.cached ∧ e'.copied = e.copied := by
  unfold createMirrorFileInCdePackage at h
  split_ifs at h
  · obtain rfl := Except.ok.inj h
    exact ⟨rfl, rfl, rfl⟩
  · obtain ⟨fs, -, h⟩ := bind_eq_ok.1 h
    obtain rfl := Except.ok.inj h
    exact ⟨rfl, rfl, rfl⟩

theorem createMirrorFile_mirrored {c : MirrorCall} (h : createMirrorFileInCdePackage g c e = .ok e') :
    e'.mirrored = if g.noAppCapture then e.mirrored else e.mirrored ++ [c] := by
  unfold createMirrorFileInCdePackage at h
  split_ifs at h ⊢
  · obtain rfl := Except.ok.inj h
    rfl
  · obtain ⟨fs, -, h⟩ := bind_eq_ok.1 h
    obtain rfl := Except.ok.inj h
    rfl

/-- **What streaming mode asks of a path**: it is within cde-root or in the trie, or it has only ASCII
characters and `create_mirror_file` returns for it. -/
def Fetchable (g : Cde) (path : CString) (e : Effects) : Prop :=
  g.streamingMode = true → startsWith path g.cderootDir = true ∨ trieContains path e.trie = .ok true ∨
    isAscii path = true ∧ ∃ e', createMirrorFileInCdePackage g ⟨path, g.remoteRootDir, g.cderootDir⟩ e = .ok e'

theorem streamFile_total {path : CString} (h : trieContains path e.trie = .ok true ∨ isAscii path = true ∧
      ∃ e', createMirrorFileInCdePackage g ⟨path, g.remoteRootDir, g.cderootDir⟩ e = .ok e') :
    ∃ e', streamFile g path e = .ok e' := by
  unfold streamFile
  rcases h with hhit | ⟨hascii, e₁, hfetch⟩
  · exact ⟨e, by rw [hhit]; rfl⟩
  · obtain ⟨b, hb⟩ := trieContains_ascii hascii e.trie
    cases b with
    | true => exact ⟨e, by rw [hb]; rfl⟩
    | false =>
      obtain ⟨t, ht⟩ := trieInsert_ascii hascii e₁.trie
      exact ⟨_, by simp only [hb, hfetch, ht, Bind.bind, Except.bind, Bool.false_eq_true, if_false]; rfl⟩

/-- `create_abspath_within_cderoot` returns, in streaming mode for what can be fetched. -/
theorem createAbspath_total (hex : g.execMode = true) {path : CString} (hp : isAbspath path = true)
    (hfetch : Fetchable g path e) : ∃ e', createAbspathWithinCderoot g path e = .ok (withinCderoot g path, e') := by
  unfold createAbspathWithinCderoot withinCderoot
  simp only [hp, Bool.not_true, Bool.false_eq_true, if_false, hex, if_true]
  by_cases hs : startsWith path g.cderootDir = true
  · rw [if_pos hs, if_pos hs]
    exact ⟨e, rfl⟩
  · rw [if_neg hs, if_neg hs]
    by_cases hst : g.streamingMode = true
    · obtain ⟨e', he'⟩ := streamFile_total ((hfetch hst).resolve_left hs)
      exact ⟨e', by rw [if_pos hst, he']; rfl⟩
    · exact ⟨e, by rw [if_neg hst]; rfl⟩

theorem fetchable_of_not_streaming (h : g.streamingMode = false) (path : CString) (e : Effects) :
    Fetchable g path e := by
  intro hst
  rw [h] at hst
  cases hst

/-- A path that starts with `cde_cderoot_dir` is not fetched. -/
theorem createAbspath_within (hex : g.execMode = true) {path : CString} (hp : isAbspath path = true)
    (hs : startsWith path g.cderootDir = true) :
    createAbspathWithinCderoot g path e = .ok (path, e) := by
  unfold createAbspathWithinCderoot
  simp only [hp, hex, hs, Bool.not_true, Bool.false_eq_true, if_false, if_true]
  rfl

/-- Inside cde-root the sandboxed working directory is what follows `cde_cderoot_dir`. -/
theorem extract_within (hex : g.execMode = true) {d : CString} (hr : isAbspath g.cderootDir = true) :
    extractSandboxedPwd g (g.cderootDir ++ d) pi e = .ok (if d = [] then str "/" else d, e) := by
  have hs : startsWith (g.cderootDir ++ d) g.cderootDir = true := by simp
  have habs := isAbspath_append d hr
  obtain ⟨b, hb⟩ : ∃ b, ignorePath g (g.cderootDir ++ d) pi e = .ok (b, e) := by
    rw [ignorePath_abs habs, createAbspath_within hex habs hs]
    split_ifs
    · exact ⟨_, rfl⟩
    · exact ⟨_, rfl⟩
    · exact ⟨_, rfl⟩
  unfold extractSandboxedPwd
  simp only [hex, Bool.not_true, Bool.false_eq_true, if_false, hs, hb, Bool.and_false, List.drop_left]
  split <;> rfl

/-- **Redirection inside cde-root**, as one case distinction on the canonical path. -/
theorem redirect_inside (hex : g.execMode = true) (hout : g.execFromOutside = false)
    (hrepo : g.opts.multiRepoPaths = []) {f cwd base q : CString}
    (hb : extractSandboxedPwd g cwd pi e = .ok (base, e)) (hq : canonicalizePath f base = .ok q) :
    redirectFilenameIntoCderoot g f cwd pi e =
      if isCdeBinary q || ignored g.opts pi q then .ok (none, e)
      else (createAbspathWithinCderoot g q e).map fun r => (some r.1, r.2) := by
  obtain ⟨p, -, rfl⟩ := canonicalizePath_render hq
  unfold redirectFilenameIntoCderoot
  simp only [hex, if_true, hb, hq, getRepoPathId_nil hrepo, Bind.bind, Except.bind, pure, Except.pure,
    Option.isSome_none, Bool.false_eq_true, if_false,
    ignorePath_inside hout (isAbspath_render p)]
  cases isCdeBinary (render p) <;> cases ignored g.opts pi (render p) <;> simp [Except.map]

/-- **What becomes of the canonical path `q`** of a file: the path that is returned, and the effects. -/
inductive Redirected (g : Cde) (pi : Option ProcessIgnore) (q : CString) (e : Effects) :
    Option CString → Effects → Prop
  | repo : (getRepoPathId g q).isSome = true → Redirected g pi q e (some q) e
  | binary : (getRepoPathId g q).isSome = false → isCdeBinary q = true → Redirected g pi q e none e
  | ignored {e' : Effects} : (getRepoPathId g q).isSome = false → isCdeBinary q = false →
    ignorePath g q pi e = .ok (true, e') → Redirected g pi q e none e'
  | inside {e₁ e' : Effects} {r : CString} : (getRepoPathId g q).isSome = false → isCdeBinary q = false →
    ignorePath g q pi e = .ok (false, e₁) → createAbspathWithinCderoot g q e₁ = .ok (r, e') →
    Redirected g pi q e (some r) e'

/-- **`redirect_filename_into_cderoot` in exec mode.** -/
theorem redirect_iff (hex : g.execMode = true) {f cwd : CString} {r : Option CString} :
    redirectFilenameIntoCderoot g f cwd pi e = .ok (r, e') ↔
      ∃ base e₁ q, extractSandboxedPwd g cwd pi e = .ok (base, e₁) ∧ canonicalizePath f base = .ok q ∧
        Redirected g pi q e₁ r e' := by
  unfold redirectFilenameIntoCderoot
  rw [if_pos hex]
  constructor
  · intro h
    obtain ⟨⟨base, e₁⟩, hbase, h⟩ := bind_eq_ok.1 h
    obtain ⟨q, hq, h⟩ := bind_eq_ok.1 h
    refine ⟨base, e₁, q, hbase, hq, ?_⟩
    split at h
    · rename_i hrepo
      cases h
      exact .repo hrepo
    rename_i hrepo
    split at h
    · rename_i hcde
      cases h
      exact .binary (by simpa using hrepo) hcde
    rename_i hcde
    obtain ⟨⟨ig, e₂⟩, hig, h⟩ := bind_eq_ok.1 h
    cases ig with
    | true =>
      cases h
      exact .ignored (by simpa using hrepo) (by simpa using hcde) hig
    | false =>
      obtain ⟨⟨r', e₃⟩, hcreate, h⟩ := bind_eq_ok.1 h
      cases h
      exact .inside (by simpa using hrepo) (by simpa using hcde) hig hcreate
  · rintro ⟨base, e₁, q, hbase, hq, h⟩
    cases h with
    | repo hrepo => simp [hbase, hq, hrepo, Bind.bind, Except.bind, pure, Except.pure]
    | binary hrepo hcde => simp [hbase, hq, hrepo, hcde, Bind.bind, Except.bind, pure, Except.pure]
    | ignored hrepo hcde hig => simp [hbase, hq, hrepo, hcde, hig, Bind.bind, Except.bind, pure, Except.pure]
    | inside hrepo hcde hig hcreate =>
      simp [hbase, hq, hrepo, hcde, hig, hcreate, Bind.bind, Except.bind, pure, Except.pure]

/-- **When a redirection returns a path**, in exec mode without repositories. -/
theorem redirect_some_iff (hex : g.execMode = true) (hrepo : g.opts.multiRepoPaths = [])
    {f cwd r : CString} :
    redirectFilenameIntoCderoot g f cwd pi e = .ok (some r, e') ↔
      ∃ base e₁ q e₂, extractSandboxedPwd g cwd pi e = .ok (base, e₁) ∧
        canonicalizePath f base = .ok q ∧ isCdeBinary q = false ∧
        ignorePath g q pi e₁ = .ok (false, e₂) ∧
        createAbspathWithinCderoot g q e₂ = .ok (r, e') := by
  have hnone : ∀ q, (getRepoPathId g q).isSome = false := by
    intro q
    rw [getRepoPathId_nil hrepo]
    rfl
  rw [redirect_iff hex]
  constructor
  · rintro ⟨base, e₁, q, hb, hq, h⟩
    cases h with
    | repo hsome =>
      rw [hnone] at hsome
      cases hsome
    | inside _ hcde hig hr => exact ⟨base, e₁, q, _, hb, hq, hcde, hig, hr⟩
  · rintro ⟨base, e₁, q, e₂, hb, hq, hcde, hig, hr⟩
    exact ⟨base, e₁, q, hb, hq, .inside (hnone q) hcde hig hr⟩

/-- The sandboxed working directory is a part of the real one, or the root. -/
theorem extract_isSuffix {d b : CString} (h : extractSandboxedPwd g d pi e = .ok (b, e')) :
    b <:+ d ∨ b = str "/" := by
  unfold extractSandboxedPwd at h
  obtain ⟨-, h⟩ := ite_throw_eq_ok.1 h
  obtain ⟨⟨ig, e₁⟩, -, h⟩ := bind_eq_ok.1 h
  dsimp only at h
  split at h
  · cases h
    exact Or.inl List.suffix_rfl
  split at h
  · split at h
    · cases h
      exact Or.inl List.suffix_rfl
    · cases h
  · split at h
    · cases h
      exact Or.inr rfl
    · cases h
      exact Or.inl (List.drop_suffix _ _)

/-- **What a redirected path is made of**: it is absolute, and its bytes come from the path, the
working directory and `cde_cderoot_dir`. -/
theorem redirect_bytes (hex : g.execMode = true) (hr : isAbspath g.cderootDir = true) {f cwd r : CString}
    (h : redirectFilenameIntoCderoot g f cwd pi e = .ok (some r, e')) :
    isAbspath r = true ∧ ∀ c ∈ r, c = slash ∨ c ∈ f ∨ c ∈ cwd ∨ c ∈ g.cderootDir := by
  obtain ⟨base, e₁, q, hbase, hq, h⟩ := (redirect_iff hex).1 h
  have habs : isAbspath q = true := by
    obtain ⟨p, -, rfl⟩ := canonicalizePath_render hq
    exact isAbspath_render p
  have hbytes : ∀ c ∈ q, c = slash ∨ c ∈ f ∨ c ∈ cwd ∨ c ∈ g.cderootDir := by
    intro c hc
    rcases mem_canonicalizePath hq hc with hc | hc | hc
    · exact Or.inl hc
    · exact Or.inr (Or.inl hc)
    · rcases extract_isSuffix hbase with hsuf | rfl
      · exact Or.inr (Or.inr (Or.inl (hsuf.subset hc)))
      · exact Or.inl (by simpa [str] using hc)
  cases h with
  | repo _ => exact ⟨habs, hbytes⟩
  | inside _ _ _ hcreate =>
    rw [createAbspath_ok hex hcreate]
    unfold withinCderoot
    split_ifs
    · exact ⟨habs, hbytes⟩
    · refine ⟨isAbspath_append q hr, fun c hc => ?_⟩
      rcases List.mem_append.1 hc with hc | hc
      · exact Or.inr (Or.inr (Or.inr hc))
      · exact hbytes c hc

/-! ## Paths inside cde-root -/

/-- `s` lies inside the directory `root`, component by component. -/
def Inside (root s : CString) : Prop := components root <+: components s

instance (root s : CString) : Decidable (Inside root s) :=
  inferInstanceAs (Decidable (components root <+: components s))

theorem inside_append {root q : CString} (hr : Canonical root) (hq : Canonical q) :
    Inside root (root ++ q) := by
  obtain ⟨R, hR, rfl⟩ := canonical_iff.1 hr
  obtain ⟨p, hp, rfl⟩ := canonical_iff.1 hq
  unfold Inside
  rw [components_eq (isAbspath_append _ (isAbspath_render R)), comps_render_append hR hp,
    components_render hR, norm_names]
  exact List.prefix_append _ _

/-- Inside a directory the path starts with the directory's text. -/
theorem Inside.startsWith {root q : CString} (hr : Canonical root) (hq : Canonical q)
    (h : Inside root q) : startsWith q root = true := by
  obtain ⟨R, hR, rfl⟩ := canonical_iff.1 hr
  obtain ⟨p, hp, rfl⟩ := canonical_iff.1 hq
  rw [Inside, components_render hR, components_render hp] at h
  obtain ⟨t, rfl⟩ := h
  rw [startsWith_iff]
  by_cases hnil : R = []
  · subst hnil; exact ⟨joinSlash t, rfl⟩
  · rw [render_append t hnil]; exact List.prefix_append _ _

/-! ## Capture and replay -/

/-- During the audit, `copy_file_into_cde_root(f, d)` mirrors the path `q`. -/
def Mirrors (g : Cde) (f d q : CString) (e : Effects) : Prop :=
  ∃ e', copyFileIntoCdeRoot g f d e = .ok e' ∧ e'.mirrored = e.mirrored ++ [⟨q, [], g.rootDir⟩]

/-- In the audit nothing is fetched. -/
theorem createAbspath_audit (hex : g.execMode = false) {path r : CString}
    (h : createAbspathWithinCderoot g path e = .ok (r, e')) : e' = e := by
  unfold createAbspathWithinCderoot at h
  obtain ⟨-, h⟩ := ite_throw_eq_ok.1 h
  rw [if_neg (by simp [hex])] at h
  obtain ⟨ret, -, h⟩ := bind_eq_ok.1 h
  obtain ⟨-, h⟩ := ite_throw_eq_ok.1 h
  exact (Prod.mk.inj (Except.ok.inj h)).2.symm

/-- In the audit `ignore_path` has no effect. -/
theorem ignorePath_audit (hex : g.execMode = false) {f : CString} {b : Bool}
    (h : ignorePath g f pi e = .ok (b, e')) : e' = e := by
  by_cases hf : isAbspath f = true
  · rw [ignorePath_abs hf] at h
    split at h
    · cases h; rfl
    split at h
    · cases hc : createAbspathWithinCderoot g f e with
      | error x => rw [hc] at h; cases h
      | ok r =>
        rw [hc] at h
        cases h
        exact createAbspath_audit hex hc
    · cases h; rfl
  · rw [ignorePath_rel (by simpa using hf)] at h
    split at h <;> cases h
    rfl

/-- What the audit mirrors is the canonical path, and it is not ignored. -/
theorem Mirrors.inv {f d q : CString} (h : Mirrors g f d q e) :
    canonicalizePath f d = .ok q ∧ ignored g.opts none q = false := by
  obtain ⟨e', hcopy, hm⟩ := h
  unfold copyFileIntoCdeRoot at hcopy
  by_cases hex : g.execMode = true
  · simp only [hex, if_true] at hcopy
    cases hcopy
  simp only [hex, Bool.false_eq_true, if_false] at hcopy
  obtain ⟨q', hq', hcopy⟩ := bind_eq_ok.1 hcopy
  obtain ⟨⟨ig, e₁⟩, hig, hcopy⟩ := bind_eq_ok.1 hcopy
  obtain rfl := ignorePath_audit (by simpa using hex) hig
  -- the other two ways out leave the list of mirrored files as it is
  have hlist : ∀ {l : List MirrorCall} {c}, l ≠ l ++ [c] := by simp
  cases ig with
  | true => cases hcopy; exact absurd hm hlist
  | false =>
    simp only [Bool.false_eq_true, if_false] at hcopy
    split at hcopy
    · cases hcopy; exact absurd hm hlist
    · have hlog : (if g.copiedFilesLogfile then { e₁ with copied := e₁.copied ++ [q'] } else e₁).mirrored =
          e₁.mirrored := by split <;> rfl
      rw [createMirrorFile_mirrored hcopy, hlog] at hm
      have hqq : q' = q := by
        split at hm
        · exact absurd hm hlist
        · simpa using hm
      exact ⟨hqq ▸ hq', hqq ▸ (ignorePath_false hig).2⟩

/-- **Capture and replay agree.** A path mirrored in the audit is redirected to its copy
in the package, wherever the package is. Only cde binaries are left to the host, and a path
inside cde-root stays as it is. -/
theorem capture_replay {audit : Cde} {f d q : CString} {eₐ : Effects}
    (hmir : Mirrors audit f d q eₐ) (hopts : audit.opts = g.opts)
    (hrepo : g.opts.multiRepoPaths = []) (hd : isAbspath d = true)
    (hex : g.execMode = true) (hin : g.execFromOutside = false)
    (hroot : Canonical g.cderootDir) (hfetch : Fetchable g q e) :
    canonicalizePath f d = .ok q ∧
    ∃ r e', redirectFilenameIntoCderoot g f (g.cderootDir ++ d) none e = .ok (r, e') ∧
      (isCdeBinary q = false → startsWith q g.cderootDir = false → r = some (g.cderootDir ++ q)) ∧
      (isCdeBinary q = false → Inside g.cderootDir q → r = some q) ∧
      (isCdeBinary q = true → r = none) := by
  obtain ⟨hq, hig⟩ := hmir.inv
  obtain ⟨p, hp, rfl⟩ := canonicalizePath_render hq
  obtain ⟨R, -, hR⟩ := canonical_iff.1 hroot
  rw [hopts] at hig
  have hdne : d ≠ [] := by rintro rfl; simp [isAbspath] at hd
  have hb : extractSandboxedPwd g (g.cderootDir ++ d) none e = .ok (d, e) := by
    rw [extract_within hex (hR ▸ isAbspath_render R), if_neg hdne]
  refine ⟨hq, ?_⟩
  rw [redirect_inside hex hin hrepo hb hq, hig, Bool.or_false]
  cases hcde : isCdeBinary (render p) with
  | true => exact ⟨none, e, by simp⟩
  | false =>
    obtain ⟨e', he'⟩ := createAbspath_total hex (isAbspath_render p) hfetch
    refine ⟨some (withinCderoot g (render p)), e', by rw [he']; rfl, ?_, ?_, by simp⟩
    · intro _ hs
      rw [withinCderoot, hs]; rfl
    · intro _ hi
      rw [withinCderoot, if_pos (hi.startsWith hroot (canonical_iff.2 ⟨p, hp, rfl⟩))]

/-- A package made in `/home/bob`, and the same package after it was moved to `/opt`. -/
def bobAudit : Cde :=
  { execMode := false, rootDir := str "/home/bob/cde-package/cde-root", startingPwd := str "/home/bob" }

def optReplay : Cde := { execMode := true, cderootDir := str "/opt/cde-package/cde-root" }

theorem capture_replay_relative :
    Mirrors bobAudit (str "../lib//a.so") (str "/home/bob") (str "/home/lib/a.so") {} ∧
    ∃ e', redirectFilenameIntoCderoot optReplay (str "../lib//a.so")
      (str "/opt/cde-package/cde-root/home/bob") none {} =
        .ok (some (str "/opt/cde-package/cde-root/home/lib/a.so"), e') := by
  have hm : Mirrors bobAudit (str "../lib//a.so") (str "/home/bob") (str "/home/lib/a.so") {} :=
    ⟨_, rfl, rfl⟩
  obtain ⟨-, r, e', h, hr, -⟩ := capture_replay (g := optReplay) (e := {}) hm rfl rfl (by decide) rfl
    rfl (by decide) (fetchable_of_not_streaming rfl _ _)
  obtain rfl := hr (by decide) (by decide)
  exact ⟨hm, e', h⟩

/-- The file of a cde binary is mirrored like any other, but never redirected. -/
theorem capture_replay_cde_binary :
    Mirrors bobAudit (str "/usr/bin/cde") (str "/home/bob") (str "/usr/bin/cde") {} ∧
    (redirectFilenameIntoCderoot optReplay (str "/usr/bin/cde")
      (str "/opt/cde-package/cde-root/home/bob") none {}).map Prod.fst = .ok none :=
  ⟨⟨_, rfl, rfl⟩, rfl⟩

/-! ## Containment -/

/-- A redirection returns only paths inside cde-root. -/
def Contained (g : Cde) (f cwd : CString) (pi : Option ProcessIgnore) (e : Effects) : Prop :=
  ∀ r e', redirectFilenameIntoCderoot g f cwd pi e = .ok (some r, e') → Inside g.cderootDir r

/-- The canonical sandbox form of `f` is neither a cde binary nor ignored, and starts with the
text of `cde_cderoot_dir` although it lies in another directory. -/
def Lookalike (g : Cde) (f cwd : CString) (pi : Option ProcessIgnore) (e : Effects) : Prop :=
  ∃ base e₁ q e₂, extractSandboxedPwd g cwd pi e = .ok (base, e₁) ∧
    canonicalizePath f base = .ok q ∧ isCdeBinary q = false ∧
    ignorePath g q pi e₁ = .ok (false, e₂) ∧
    startsWith q g.cderootDir = true ∧ ¬ Inside g.cderootDir q

/-- **Redirected paths stay inside cde-root exactly when the file name is no lookalike** of
`cde_cderoot_dir`, in exec mode without repositories. -/
theorem contained_iff (hex : g.execMode = true) (hrepo : g.opts.multiRepoPaths = [])
    (hroot : Canonical g.cderootDir) (f cwd : CString) :
    Contained g f cwd pi e ↔ ¬ Lookalike g f cwd pi e := by
  constructor
  · rintro hc ⟨base, e₁, q, e₂, hb, hq, hcde, hig, hs, hnot⟩
    -- `q` counts as already redirected
    have hr : createAbspathWithinCderoot g q e₂ = .ok (q, e₂) :=
      createAbspath_within hex (ignorePath_false hig).1 hs
    exact hnot (hc q e₂ ((redirect_some_iff hex hrepo).2 ⟨base, e₁, q, e₂, hb, hq, hcde, hig, hr⟩))
  · intro hl r e' h
    obtain ⟨base, e₁, q, e₂, hb, hq, hcde, hig, hr⟩ := (redirect_some_iff hex hrepo).1 h
    rw [createAbspath_ok hex hr, withinCderoot]
    split_ifs with hs
    · by_contra hnot
      exact hl ⟨base, e₁, q, e₂, hb, hq, hcde, hig, hs, hnot⟩
    · obtain ⟨p, hp, rfl⟩ := canonicalizePath_render hq
      exact inside_append hroot (canonical_iff.2 ⟨p, hp, rfl⟩)

theorem contained_iff_dotdot :
    Contained optReplay (str "../../../etc/./passwd") (str "/opt/cde-package/cde-root/tmp") none {} := by
  refine (contained_iff rfl rfl (by decide) _ _).2 ?_
  rintro ⟨base, e₁, q, e₂, hb, hq, -, -, hs, -⟩
  cases hb
  cases hq
  revert hs
  decide

/-- A sibling directory of cde-root is left alone by redirection. -/
theorem contained_sibling : ¬ Contained optReplay (str "/opt/cde-package/cde-root2/secret")
    (str "/opt/cde-package/cde-root/tmp") none {} := by
  intro h
  have := h (str "/opt/cde-package/cde-root2/secret") {} rfl
  revert this
  decide

end Ptu
