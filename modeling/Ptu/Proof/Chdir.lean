import Ptu.Proof.Args
import Ptu.Proof.Twice
import Ptu.Spec.Chdir

/-!
# The spoofed working directory is that of a chroot

* `redirect_again`: a redirection that was done once gives the same path when the call is
  issued again, so the detour through `shmat` does not show.
* `modifySyscallPath_reads`: the path of `Ptu.modifySyscallPath` is the text that the kernel finds behind the
  register which `modify_syscall_single_arg` has set.
* `chdir_step`: one `chdir` moves the real working directory `cde_cderoot_dir ++ s` to
  `cde_cderoot_dir ++ s'`, where `s'` is what `chdir` makes of `s` in a chroot.
* `chdir_run`: **along every sequence of `chdir` calls the process stays inside cde-root,
  and `getcwd` returns the fold of `canonicalize_path` over the paths.**
-/

namespace Ptu

open Pathname

variable {g : Cde} {e e' : Effects} {pi : Option ProcessIgnore}

/-! ## Doing it twice -/

theorem createAbspath_again (hex : g.execMode = true) {path r : CString}
    (h : createAbspathWithinCderoot g path e = .ok (r, e')) :
    createAbspathWithinCderoot g path e' = .ok (r, e') := by
  have hp : isAbspath path = true := by
    unfold createAbspathWithinCderoot at h
    simpa using (ite_throw_eq_ok.1 h).1
  obtain ⟨hfetched, -⟩ := createAbspath_later hex h
  obtain rfl := createAbspath_ok hex h
  exact createAbspath_fetched hex hp hfetched

/-- The two steps after canonicalisation, repeated. -/
theorem ignorePath_again (hex : g.execMode = true) {q r : CString} {e₁ : Effects}
    (hig : ignorePath g q pi e = .ok (false, e₁))
    (hr : createAbspathWithinCderoot g q e₁ = .ok (r, e')) : ignorePath g q pi e' = .ok (false, e') := by
  obtain ⟨habs, hrule⟩ := ignorePath_false hig
  rw [ignorePath_abs habs, hrule] at hig ⊢
  simp only [Bool.false_eq_true, if_false] at hig ⊢
  split_ifs at hig ⊢ with hout
  · cases hc : createAbspathWithinCderoot g q e with
    | error x => rw [hc] at hig; cases hig
    | ok y =>
      obtain ⟨r₁, e₂⟩ := y
      rw [hc] at hig
      obtain ⟨hstat, rfl⟩ := Prod.mk.inj (Except.ok.inj hig)
      -- the first test has fetched the file already
      have hsame := createAbspath_again hex hc
      rw [hsame] at hr
      obtain ⟨rfl, rfl⟩ := Prod.mk.inj (Except.ok.inj hr)
      rw [hsame]
      exact congrArg (fun b => Except.ok (b, e₂)) hstat
  · rfl

/-- **A redirection inside cde-root can be repeated.** -/
theorem redirect_again (hex : g.execMode = true) (hrepo : g.opts.multiRepoPaths = [])
    (hr : isAbspath g.cderootDir = true) {f d r : CString}
    (h : redirectFilenameIntoCderoot g f (g.cderootDir ++ d) pi e = .ok (some r, e')) :
    redirectFilenameIntoCderoot g f (g.cderootDir ++ d) pi e' = .ok (some r, e') := by
  obtain ⟨base, e₁, q, e₂, hb, hq, hcde, hig, hc⟩ := (redirect_some_iff hex hrepo).1 h
  rw [extract_within hex hr] at hb
  obtain ⟨rfl, rfl⟩ := Prod.mk.inj (Except.ok.inj hb)
  exact (redirect_some_iff hex hrepo).2 ⟨_, e', q, e', extract_within hex hr, hq, hcde,
    ignorePath_again hex hig hc, createAbspath_again hex hc⟩

/-! ## One call -/

/-- The working directory of a chroot after `chdir(path)`, as a list of names below the root. -/
def chroot (s : List CString) (path : CString) : List CString :=
  norm (if isAbspath path then [] else s) (comps path)

theorem validPath_chroot {s : List CString} (hs : ValidPath s) (path : CString) :
    ValidPath (chroot s path) := by
  unfold chroot
  split_ifs
  · exact validPath_norm path (fun n hn => by simp at hn)
  · exact validPath_norm path hs

/-- `canonicalize_path` computes the working directory of the chroot. -/
theorem canonicalizePath_chroot {s : List CString} (hs : ValidPath s) (path : CString) :
    canonicalizePath path (render s) = .ok (render (chroot s path)) := by
  rw [canonicalizePath_eq (Or.inr (isAbspath_render s))]
  unfold absComps chroot
  split_ifs
  · rfl
  · rw [comps_render hs, norm_append, norm_names, List.nil_append]

/-- The sandboxed form of a directory below cde-root. -/
theorem extract_render (hex : g.execMode = true) {R s : List CString} (hroot : g.cderootDir = render R)
    (hR : R ≠ []) : extractSandboxedPwd g (render (R ++ s)) pi e = .ok (render s, e) := by
  rw [render_append s hR, ← hroot, extract_within hex (hroot ▸ isAbspath_render R)]
  by_cases hs : s = []
  · subst hs; rfl
  · rw [if_neg hs, if_neg (by simp [render])]

/-- A path whose canonical form is no cde binary and not ignored is redirected. -/
theorem redirect_ordinary (hex : g.execMode = true) (hrepo : g.opts.multiRepoPaths = [])
    {f cwd base q : CString} {r : Option CString} (hb : extractSandboxedPwd g cwd pi e = .ok (base, e))
    (hq : canonicalizePath f base = .ok q) (hcde : isCdeBinary q = false)
    (hig : ∀ b e', ignorePath g q pi e = .ok (b, e') → b = false)
    (h : redirectFilenameIntoCderoot g f cwd pi e = .ok (r, e')) : r = some (withinCderoot g q) := by
  unfold redirectFilenameIntoCderoot at h
  simp only [hex, if_true, getRepoPathId_nil hrepo, Option.isSome_none, Bool.false_eq_true, if_false] at h
  obtain ⟨b₁, hb₁, h⟩ := bind_eq_ok.1 h
  obtain rfl : (base, e) = b₁ := Except.ok.inj (hb.symm.trans hb₁)
  obtain ⟨q', hq', h⟩ := bind_eq_ok.1 h
  obtain rfl : q = q' := Except.ok.inj (hq.symm.trans hq')
  rw [hcde] at h
  obtain ⟨⟨b, e₂⟩, hb', h⟩ := bind_eq_ok.1 h
  obtain rfl := hig b e₂ hb'
  obtain ⟨⟨r', e₃⟩, hr, h⟩ := bind_eq_ok.1 h
  obtain ⟨rfl, -⟩ := Prod.mk.inj (Except.ok.inj h)
  rw [createAbspath_ok hex hr]

/-- **The kernel gets the path below cde-root**, on the first pass or on the second. -/
theorem beginChdir_ordinary (hex : g.execMode = true) (hrepo : g.opts.multiRepoPaths = [])
    {R s : List CString} (hroot : g.cderootDir = render R) (hR : R ≠ []) (hs : ValidPath s)
    {tcp tcp' : Tcb} {f path : CString} (ht : tcp.currentDir = render (R ++ s)) (hf : f ≠ [])
    (hcde : isCdeBinary (render (chroot s f)) = false)
    (hwithin : startsWith (render (chroot s f)) g.cderootDir = false)
    (hig : ∀ b e', ignorePath g (render (chroot s f)) tcp.pIgnores e = .ok (b, e') → b = false)
    (h : beginChdir g tcp f e = .ok (path, tcp', e')) :
    path = g.cderootDir ++ render (chroot s f) ∧ tcp'.pIgnores = tcp.pIgnores := by
  have hb : extractSandboxedPwd g tcp.currentDir tcp.pIgnores e = .ok (render s, e) := by
    rw [ht]; exact extract_render hex hroot hR
  have hr' : withinCderoot g (render (chroot s f)) = g.cderootDir ++ render (chroot s f) := by
    rw [withinCderoot, hwithin]; rfl
  unfold beginChdir beginStandardFileop modifySyscallPath at h
  simp only [hf, if_false, hex, if_true, Bool.not_true, Bool.false_eq_true] at h
  obtain ⟨⟨r, e₁⟩, hr, h⟩ := bind_eq_ok.1 h
  obtain rfl := redirect_ordinary hex hrepo hb (canonicalizePath_chroot hs f) hcde hig hr
  rw [hr'] at h hr
  simp only at h
  split_ifs at h with hshm
  · cases h
    exact ⟨rfl, rfl⟩
  · -- the call is issued again after the `shmat`
    have hagain : redirectFilenameIntoCderoot g f tcp.currentDir tcp.pIgnores e₁ =
        .ok (some (g.cderootDir ++ render (chroot s f)), e₁) := by
      rw [ht, render_append s hR, ← hroot] at hr ⊢
      exact redirect_again hex hrepo (hroot ▸ isAbspath_render R) hr
    rw [hagain] at h
    cases h
    exact ⟨rfl, rfl⟩

/-- A call whose path is an ordinary one: its canonical sandbox form `q` is no cde binary, does
not start with `cde_cderoot_dir` and is not ignored. -/
structure Ordinary (g : Cde) (pi : Option ProcessIgnore) (q : CString) (c : ChdirCall) : Prop where
  nonempty : c.path ≠ []
  notCdeBinary : isCdeBinary q = false
  notWithin : startsWith q g.cderootDir = false
  notIgnored : ∀ b e', ignorePath g q pi c.effects = .ok (b, e') → b = false

/-- **One `chdir` is one `chdir` of the chroot.** -/
theorem chdir_step (hex : g.execMode = true) (hrepo : g.opts.multiRepoPaths = [])
    {R s : List CString} (hroot : g.cderootDir = render R) (hRv : ValidPath R) (hR : R ≠ [])
    (hs : ValidPath s) {tcp tcp' : Tcb} {c : ChdirCall} (ht : tcp.currentDir = render (R ++ s))
    (hc : Ordinary g tcp.pIgnores (render (chroot s c.path)) c) (h : chdir g tcp c = .ok tcp') :
    tcp'.currentDir = render (R ++ chroot s c.path) ∧ tcp'.pIgnores = tcp.pIgnores := by
  unfold chdir at h
  obtain ⟨⟨path, tcp₁, e₁⟩, hbegin, h⟩ := bind_eq_ok.1 h
  obtain ⟨hpath, hpi⟩ := beginChdir_ordinary hex hrepo hroot hR hs ht
    hc.nonempty hc.notCdeBinary hc.notWithin hc.notIgnored hbegin
  obtain ⟨cwd, hcwd, h⟩ := bind_eq_ok.1 h
  have hcanon : cwd = render (R ++ chroot s c.path) := by
    have habs : isAbspath path = true := by
      rw [hpath, hroot]; exact isAbspath_append _ (isAbspath_render R)
    have hcomps : comps path = names (R ++ chroot s c.path) := by
      rw [hpath, hroot, comps_render_append hRv (validPath_chroot hs _)]
    rw [canonicalizePath_abs _ habs, hcomps, norm_names] at hcwd
    exact (Except.ok.inj hcwd).symm
  have hne : cwd ≠ [] := by rw [hcanon]; simp [render]
  unfold endChdir endFchdir at h
  rw [if_neg hne] at h
  obtain rfl := Except.ok.inj h
  exact ⟨hcanon, hpi⟩

/-- Outside streaming mode nothing on the way can fail. -/
theorem redirect_total (hex : g.execMode = true) (hrepo : g.opts.multiRepoPaths = [])
    (hns : g.streamingMode = false) {f cwd base q : CString}
    (hb : extractSandboxedPwd g cwd pi e = .ok (base, e)) (hq : canonicalizePath f base = .ok q)
    (hcde : isCdeBinary q = false) (hig : ∀ b e', ignorePath g q pi e = .ok (b, e') → b = false) :
    ∃ r e', redirectFilenameIntoCderoot g f cwd pi e = .ok (some r, e') := by
  have habs : isAbspath q = true := by
    obtain ⟨p, -, rfl⟩ := canonicalizePath_render hq
    exact isAbspath_render p
  have hcreate : ∀ e₁, ∃ e₂, createAbspathWithinCderoot g q e₁ = .ok (withinCderoot g q, e₂) :=
    fun e₁ => createAbspath_total hex habs (fetchable_of_not_streaming hns q e₁)
  obtain ⟨b, e₁, hb₁⟩ : ∃ b e₁, ignorePath g q pi e = .ok (b, e₁) := by
    obtain ⟨e₂, he₂⟩ := hcreate e
    rw [ignorePath_abs habs, he₂]
    split_ifs
    · exact ⟨_, _, rfl⟩
    · exact ⟨_, _, rfl⟩
    · exact ⟨_, _, rfl⟩
  obtain rfl := hig b e₁ hb₁
  obtain ⟨e₂, he₂⟩ := hcreate e₁
  exact ⟨_, e₂, (redirect_some_iff hex hrepo).2 ⟨base, e, q, e₁, hb, hq, hcde, hb₁, he₂⟩⟩

theorem chdir_total (hex : g.execMode = true) (hrepo : g.opts.multiRepoPaths = [])
    (hns : g.streamingMode = false) {R s : List CString} (hroot : g.cderootDir = render R) (hR : R ≠ [])
    (hs : ValidPath s) {tcp : Tcb} {c : ChdirCall} (ht : tcp.currentDir = render (R ++ s))
    (hc : Ordinary g tcp.pIgnores (render (chroot s c.path)) c) : ∃ tcp', chdir g tcp c = .ok tcp' := by
  unfold chdir
  have hb : extractSandboxedPwd g tcp.currentDir tcp.pIgnores c.effects = .ok (render s, c.effects) := by
    rw [ht]; exact extract_render hex hroot hR
  obtain ⟨r, e₁, hr⟩ :=
    redirect_total hex hrepo hns hb (canonicalizePath_chroot hs c.path) hc.notCdeBinary hc.notIgnored
  have hagain : redirectFilenameIntoCderoot g c.path tcp.currentDir tcp.pIgnores e₁ =
      .ok (some r, e₁) := by
    rw [ht, render_append s hR, ← hroot] at hr ⊢
    exact redirect_again hex hrepo (hroot ▸ isAbspath_render R) hr
  obtain ⟨tcp₁, hbegin, hdir⟩ : ∃ tcp₁, beginChdir g tcp c.path c.effects = .ok (r, tcp₁, e₁) ∧
      tcp₁.currentDir = tcp.currentDir := by
    unfold beginChdir beginStandardFileop modifySyscallPath
    simp only [hc.nonempty, if_false, hex, if_true, Bool.not_true, Bool.false_eq_true, hr]
    by_cases hshm : tcp.childshm = true
    · exact ⟨tcp, by simp [Bind.bind, Except.bind, hshm]; rfl, rfl⟩
    · refine ⟨{ tcp with childshm := true }, ?_, rfl⟩
      simp only [Bind.bind, Except.bind, hshm, hagain]
      rfl
  have hcanon : ∃ cwd, canonicalizePath r tcp₁.currentDir = .ok cwd :=
    ⟨_, canonicalizePath_eq (Or.inr (by rw [hdir, ht]; exact isAbspath_render _))⟩
  obtain ⟨cwd, hcwd⟩ := hcanon
  obtain ⟨p, -, rfl⟩ := canonicalizePath_render hcwd
  refine ⟨{ tcp₁ with currentDir := render p, currentRepoInd := getRepoPathId g (render p) }, ?_⟩
  simp only [hbegin, hcwd, Bind.bind, Except.bind]
  unfold endChdir endFchdir
  rw [if_neg (by simp [render])]

/-! ## The argument that the kernel reads -/

section

open Memory

variable {p : Personality} {tcp : Tcb} {shm shm' shm₁ shm₂ : ShmTcb} {child child' child₁ child₂ : Child}
  {filename : CString} {e₁ : Effects}

/-- What both models of the process have in common. -/
structure SameTcb (tcp : Tcb) (shm : ShmTcb) : Prop where
  currentDir : shm.currentDir = tcp.currentDir
  pIgnores : shm.pIgnores = tcp.pIgnores

/-- The register of the first argument points to a text. -/
def FirstArg (p : Personality) (child : Child) (text : CString) : Prop :=
  Holds child.mem (child.regs (argreg p fileArg)) (text ++ [0])

/-- **With a segment**: the path is stored there, or left alone. -/
theorem modifySyscallSingleArg_firstArg (hshm : shm.childshm ≠ 0) (hfile : FirstArg p child filename)
    (h : modifySyscallSingleArg g p shm 1 filename child e = .ok (shm', child', e')) :
    ∃ redirected, redirectFilenameIntoCderoot g filename shm.currentDir shm.pIgnores e = .ok (redirected, e') ∧
      FirstArg p child' (redirected.getD filename) := by
  obtain ⟨-, h⟩ := ite_throw_eq_ok.1 h
  obtain ⟨⟨redirected, e₁⟩, hr, h⟩ := bind_eq_ok.1 h
  cases redirected with
  | none =>
    obtain ⟨rfl, rfl, rfl⟩ : shm = shm' ∧ child = child' ∧ e₁ = e' := by simpa [pure, Except.pure] using h
    exact ⟨none, hr, hfile⟩
  | some r =>
    simp only [hshm, if_false] at h
    obtain ⟨child₁, hstore, h⟩ := bind_eq_ok.1 h
    unfold strcpyShm at hstore
    split at hstore
    · cases hstore
    rename_i hlen
    obtain rfl := Except.ok.inj hstore
    obtain ⟨-, rfl, rfl⟩ : shm = shm' ∧ _ = child' ∧ e₁ = e' := by simpa [pure, Except.pure] using h
    have hblock : Holds (child.mem.store shm.childshm (r ++ [0])) shm.childshm (r ++ [0]) := by
      refine holds_store _ _ ?_
      simp only [sharedPageSize, List.length_append, List.length_singleton] at hlen ⊢
      omega
    refine ⟨some r, hr, ?_⟩
    cases p <;> exact hblock

/-- **With a segment, both models of `modify_syscall_single_arg` are about the same path.** -/
theorem modifySyscallPath_reads (hsame : SameTcb tcp shm) (htcp : tcp.childshm = true) (hshm : shm.childshm ≠ 0)
    (hfile : FirstArg p child filename)
    (h : modifySyscallSingleArg g p shm 1 filename child e = .ok (shm', child', e')) :
    ∃ path, modifySyscallPath g tcp filename e = .ok (path, tcp, e') ∧ FirstArg p child' path := by
  obtain ⟨hex, -⟩ := ite_throw_eq_ok.1 h
  obtain ⟨redirected, hr, hfirst⟩ := modifySyscallSingleArg_firstArg hshm hfile h
  rw [hsame.currentDir, hsame.pIgnores] at hr
  refine ⟨redirected.getD filename, ?_, hfirst⟩
  simp only [modifySyscallPath, hex, hr, htcp]
  cases redirected <;> rfl

/-- **Without a segment** the first pass asks for it; the second one, for the process that has it then, is
about the path of `modifySyscallPath`. -/
theorem modifySyscallPath_reads_again (hsame : SameTcb tcp shm) (htcp : tcp.childshm = false)
    (hshm : shm.childshm = 0) (hoff : shm.settingUpShm = false)
    (h₁ : modifySyscallSingleArg g p shm 1 filename child e = .ok (shm₁, child₁, e₁))
    (hon : shm₁.settingUpShm = true) (hsame₂ : SameTcb tcp shm₂) (hshm₂ : shm₂.childshm ≠ 0)
    (hfile : FirstArg p child₂ filename)
    (h₂ : modifySyscallSingleArg g p shm₂ 1 filename child₂ e₁ = .ok (shm', child', e')) :
    ∃ path, modifySyscallPath g tcp filename e = .ok (path, { tcp with childshm := true }, e') ∧
      FirstArg p child' path := by
  obtain ⟨hex, h₁⟩ := ite_throw_eq_ok.1 h₁
  obtain ⟨⟨redirected₁, e₁'⟩, hr₁, h₁⟩ := bind_eq_ok.1 h₁
  obtain ⟨redirected, hr, hfirst⟩ := modifySyscallSingleArg_firstArg hshm₂ hfile h₂
  rw [hsame.currentDir, hsame.pIgnores] at hr₁
  rw [hsame₂.currentDir, hsame₂.pIgnores] at hr
  cases redirected₁ with
  | none =>
    obtain ⟨rfl, -⟩ : shm = shm₁ ∧ _ := by simpa [pure, Except.pure] using h₁
    rw [hoff] at hon
    cases hon
  | some r =>
    simp only [hshm, if_true] at h₁
    obtain ⟨⟨shm₃, child₃⟩, -, h₁⟩ := bind_eq_ok.1 h₁
    obtain ⟨-, -, rfl⟩ : shm₃ = shm₁ ∧ child₃ = child₁ ∧ e₁' = e₁ := by simpa [pure, Except.pure] using h₁
    refine ⟨redirected.getD filename, ?_, hfirst⟩
    simp only [modifySyscallPath, hex, hr₁, htcp]
    simp only [bind, Except.bind, hr]
    rfl

end

/-! ## Runs -/

/-- Each call of the sequence is ordinary, started in the sandboxed directory `d`. -/
def OrdinaryRun (g : Cde) (pi : Option ProcessIgnore) : CString → List ChdirCall → Prop
  | _, [] => True
  | d, c :: cs => ∃ q, canonicalizePath c.path d = .ok q ∧ Ordinary g pi q c ∧ OrdinaryRun g pi q cs

theorem OrdinaryRun.take {d : CString} {cs : List ChdirCall} (h : OrdinaryRun g pi d cs) (n : ℕ) :
    OrdinaryRun g pi d (cs.take n) := by
  induction cs generalizing d n with
  | nil => simpa using h
  | cons c cs ih =>
    obtain ⟨q, hq, hc, h⟩ := h
    rcases n with _ | n
    · trivial
    · exact ⟨q, hq, hc, ih h n⟩

theorem runChdir_take {tcp tcp' : Tcb} {cs : List ChdirCall} (h : runChdir g tcp cs = .ok tcp') (n : ℕ) :
    ∃ t, runChdir g tcp (cs.take n) = .ok t := by
  induction cs generalizing tcp n with
  | nil => exact ⟨tcp, by simp [runChdir]⟩
  | cons c cs ih =>
    rcases n with _ | n
    · exact ⟨tcp, rfl⟩
    · obtain ⟨t, ht, h⟩ := bind_eq_ok.1 h
      obtain ⟨u, hu⟩ := ih h n
      exact ⟨u, bind_eq_ok.2 ⟨t, ht, hu⟩⟩

theorem validPath_foldl_chroot {s : List CString} (hs : ValidPath s) (cs : List ChdirCall) :
    ValidPath (cs.foldl (fun s c => chroot s c.path) s) := by
  induction cs generalizing s with
  | nil => exact hs
  | cons c cs ih => exact ih (validPath_chroot hs _)

theorem foldlM_chroot {s : List CString} (hs : ValidPath s) (cs : List ChdirCall) :
    cs.foldlM (fun d c => canonicalizePath c.path d) (render s) =
      .ok (render (cs.foldl (fun s c => chroot s c.path) s)) := by
  induction cs generalizing s with
  | nil => rfl
  | cons c cs ih =>
    rw [List.foldlM_cons, canonicalizePath_chroot hs]
    exact ih (validPath_chroot hs _)

/-- **A run of the tracer is a run of the chroot**, shifted below cde-root. -/
theorem runChdir_refines (hex : g.execMode = true) (hrepo : g.opts.multiRepoPaths = [])
    {R s : List CString} (hroot : g.cderootDir = render R) (hRv : ValidPath R) (hR : R ≠ [])
    (hs : ValidPath s) {tcp tcp' : Tcb} {cs : List ChdirCall} (ht : tcp.currentDir = render (R ++ s))
    (hord : OrdinaryRun g tcp.pIgnores (render s) cs) (h : runChdir g tcp cs = .ok tcp') :
    tcp'.currentDir = render (R ++ cs.foldl (fun s c => chroot s c.path) s) := by
  induction cs generalizing tcp s with
  | nil =>
    obtain rfl := Except.ok.inj h
    exact ht
  | cons c cs ih =>
    obtain ⟨q, hq, hc, hord⟩ := hord
    obtain ⟨t, hstep, h⟩ := bind_eq_ok.1 h
    rw [canonicalizePath_chroot hs] at hq
    obtain rfl := Except.ok.inj hq
    obtain ⟨hdir, hpi⟩ := chdir_step hex hrepo hroot hRv hR hs ht hc hstep
    rw [← hpi] at hord
    exact ih (validPath_chroot hs _) hdir hord h

theorem runChdir_total (hex : g.execMode = true) (hrepo : g.opts.multiRepoPaths = [])
    (hns : g.streamingMode = false) {R s : List CString} (hroot : g.cderootDir = render R)
    (hRv : ValidPath R) (hR : R ≠ []) (hs : ValidPath s) {tcp : Tcb} {cs : List ChdirCall}
    (ht : tcp.currentDir = render (R ++ s)) (hord : OrdinaryRun g tcp.pIgnores (render s) cs) :
    ∃ tcp', runChdir g tcp cs = .ok tcp' := by
  induction cs generalizing tcp s with
  | nil => exact ⟨tcp, rfl⟩
  | cons c cs ih =>
    obtain ⟨q, hq, hc, hord⟩ := hord
    rw [canonicalizePath_chroot hs] at hq
    obtain rfl := Except.ok.inj hq
    obtain ⟨t, hstep⟩ := chdir_total hex hrepo hns hroot hR hs ht hc
    obtain ⟨hdir, hpi⟩ := chdir_step hex hrepo hroot hRv hR hs ht hc hstep
    rw [← hpi] at hord
    obtain ⟨tcp', h⟩ := ih (validPath_chroot hs _) hdir hord
    exact ⟨tcp', bind_eq_ok.2 ⟨t, hstep, h⟩⟩

theorem getcwd_render (hex : g.execMode = true) {R s : List CString} (hroot : g.cderootDir = render R)
    (hR : R ≠ []) {tcp : Tcb} (ht : tcp.currentDir = render (R ++ s)) :
    getcwd g tcp e = .ok (render s) := by
  unfold getcwd
  rw [ht, extract_render hex hroot hR]; rfl

/-- **The spoofed working directory behaves like that of a chroot.** After any number of
`chdir` calls the process is inside cde-root, and `getcwd` returns the fold of
`canonicalize_path` over the paths. That the calls get through is only assumed in streaming
mode, where the tracer does not survive a path outside ASCII. -/
theorem chdir_run (hex : g.execMode = true) (hrepo : g.opts.multiRepoPaths = [])
    (hroot : Canonical g.cderootDir) {tcp : Tcb} {cs : List ChdirCall} {d : CString}
    (hcwd : Canonical tcp.currentDir) (hin : Inside g.cderootDir tcp.currentDir)
    (hd : getcwd g tcp e = .ok d) (hord : OrdinaryRun g tcp.pIgnores d cs)
    (hsucc : g.streamingMode = true → ∃ tcp', runChdir g tcp cs = .ok tcp') (n : ℕ) :
    ∃ t, runChdir g tcp (cs.take n) = .ok t ∧ Inside g.cderootDir t.currentDir ∧
      getcwd g t e' = (cs.take n).foldlM (fun d c => canonicalizePath c.path d) d := by
  obtain ⟨R, hRv, hR⟩ := canonical_iff.1 hroot
  obtain ⟨p, hp, hcd⟩ := canonical_iff.1 hcwd
  rw [hR, hcd, Inside, components_render hRv, components_render hp] at hin
  obtain ⟨s, rfl⟩ := hin
  have hs : ValidPath s := fun a ha => hp a (List.mem_append_right _ ha)
  by_cases hRnil : R = []
  · -- every path starts with the root, so there is no ordinary call
    subst hRnil
    obtain rfl : cs = [] := by
      cases cs with
      | nil => rfl
      | cons c cs =>
        obtain ⟨q, hq, hc, -⟩ := hord
        obtain ⟨q, -, rfl⟩ := canonicalizePath_render hq
        have hw : startsWith (render q) g.cderootDir = true := by
          rw [hR, startsWith_iff]; exact ⟨joinSlash q, rfl⟩
        rw [hc.notWithin] at hw
        exact absurd hw (by simp)
    have hcat : tcp.currentDir = g.cderootDir ++ joinSlash s := by rw [hcd, hR]; rfl
    refine ⟨tcp, by simp [runChdir], ?_, ?_⟩
    · rw [hR, hcd, Inside, components_render hRv]; exact List.nil_prefix
    · have habs : isAbspath g.cderootDir = true := hR ▸ isAbspath_render []
      unfold getcwd at hd ⊢
      rw [hcat, extract_within hex habs] at hd ⊢
      rw [List.take_nil]; exact hd
  · have hds : d = render s := by
      rw [getcwd_render hex hR hRnil hcd] at hd
      exact (Except.ok.inj hd).symm
    subst hds
    obtain ⟨t, ht⟩ : ∃ t, runChdir g tcp (cs.take n) = .ok t := by
      by_cases hst : g.streamingMode = true
      · obtain ⟨tcp', h⟩ := hsucc hst
        exact runChdir_take h n
      · exact runChdir_total hex hrepo (by simpa using hst) hR hRv hRnil hs hcd (hord.take n)
    have hdir := runChdir_refines hex hrepo hR hRv hRnil hs hcd (hord.take n) ht
    refine ⟨t, ht, ?_, ?_⟩
    · have hvalid := validPath_append.2 ⟨hRv, validPath_foldl_chroot hs (cs.take n)⟩
      rw [hR, hdir, Inside, components_render hRv, components_render hvalid]
      exact List.prefix_append _ _
    · rw [getcwd_render hex hR hRnil hdir, foldlM_chroot hs]

/-- A process in the `/tmp` of the package. -/
def tmpProcess : Tcb := { currentDir := str "/opt/cde-package/cde-root/tmp" }

/-- Three levels up from `/tmp` is still the root of the sandbox. -/
theorem chdir_run_excess_dotdot :
    ∃ t, runChdir optReplay tmpProcess
        [{ path := str "../../.." }, { path := str "usr//./lib" }] = .ok t ∧
      Inside (str "/opt/cde-package/cde-root") t.currentDir ∧
      getcwd optReplay t {} = .ok (str "/usr/lib") := by
  have hord : ∀ {q f : CString}, f ≠ [] → isAbspath q = true → isCdeBinary q = false →
      startsWith q optReplay.cderootDir = false → ignored optReplay.opts none q = false →
      Ordinary optReplay none q { path := f } := by
    intro q f hf habs hcde hw hig
    refine ⟨hf, hcde, hw, fun b e' h => ?_⟩
    rw [ignorePath_inside rfl habs] at h
    exact ((Prod.mk.inj (Except.ok.inj h)).1.symm.trans hig)
  have hcalls : OrdinaryRun optReplay tmpProcess.pIgnores (str "/tmp")
      [{ path := str "../../.." }, { path := str "usr//./lib" }] :=
    ⟨str "/", rfl, hord (by decide) (by decide) (by decide) (by decide) (by decide),
      str "/usr/lib", rfl, hord (by decide) (by decide) (by decide) (by decide) (by decide), trivial⟩
  have hcwd : Canonical tmpProcess.currentDir := by decide
  exact chdir_run (e := {}) rfl rfl (by decide) hcwd (by decide) rfl hcalls (fun h => absurd h (by decide)) 2

end Ptu
