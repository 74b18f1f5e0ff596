import Mathlib.Data.List.Infix
import Ptu.Proof.Args
import Ptu.Proof.Memcpy
import Ptu.Proof.Umove

/-!
# A link is read back

A program makes a link and reads it, in exec mode.

* `makeLink_iff`: the link that is made has the redirected target, not only the redirected path.
* `readLink_iff`: of a link, the program reads what `CDE_end_readlink` makes of its target.
* `symlink_readlink_iff`: **the program reads the target that it has passed** only if the target is
  redirected to itself or not at all, apart from the special files of `/proc` and from targets that
  look munged. Nothing undoes the redirection, so a relative target is always lost
  (`relative_target_lost`).
-/

namespace Ptu

open Memory

variable {env : LinkEnv} {st : LinkStop} {t l : CString} {r1 r2 : Option CString}

/-! ## The calls of a program -/

/-- `strcpy_from_child` reads every text that is shorter than its buffer. -/
def Fetches (strcpyFromChild : StrcpyFromChild) : Prop :=
  ∀ mem a s, WholeWords mem → 0 ∉ s → s.length < maxPathLen → Holds mem a (s ++ [0]) → strcpyFromChild mem a = some s

/-- `strcpy_from_child` for a buffer with the bytes `path`. -/
def fetchString (path : List Byte) : StrcpyFromChild := fun mem a => (strcpyFromChildOrNull path mem a).toOption.join

theorem fetches_fetchString (path : List Byte) : Fetches (fetchString path) := by
  intro mem a s hmap hnul hlen h
  unfold fetchString
  rw [strcpyFromChildOrNull_text hmap hnul hlen h]
  rfl

/-- The kernel reads a text that is shorter than its limit. -/
theorem readString_text {mem : Mem} {n : ℕ} {a : Word} {s : CString} (hnul : 0 ∉ s) (h : Holds mem a (s ++ [0])) :
    readString n mem a = if s.length < n then some s else none := by
  induction n generalizing a s with
  | zero => rfl
  | succ n ih =>
    have hfirst := h 0 (by simp)
    rw [BitVec.add_zero] at hfirst
    cases s with
    | nil =>
      rw [readString, hfirst]
      rfl
    | cons c s =>
      have hc : c ≠ 0 := fun hzero => hnul (by simp [hzero])
      obtain ⟨-, hrest⟩ : Holds mem a [c] ∧ Holds mem (a + 1) (s ++ [0]) := holds_append.1 h
      rw [readString, ih (fun hmem => hnul (List.mem_cons_of_mem _ hmem)) hrest, hfirst]
      by_cases hlen : s.length < n
      · simp [hc, hlen]
      · simp [hc, hlen]

/-- The tracer has an absolute `cde_cderoot_dir`, and all of its paths are shorter than `MAXPATHLEN`. -/
structure LinkEnv.Sane (env : LinkEnv) : Prop where
  exec : env.cde.execMode = true
  root : isAbspath env.cde.cderootDir = true
  rootNul : 0 ∉ env.cde.cderootDir
  strcpy : Fetches env.strcpyFromChild
  program : ∀ s, env.perceivedProgramFullpath = some s → s.length < maxPathLen

/-- A process with the shared segment attached. -/
structure LinkStop.Ready (st : LinkStop) : Prop where
  shm : st.tcp.childshm ≠ 0
  cwdNul : 0 ∉ st.tcp.currentDir
  cwdLength : st.tcp.currentDir.length < maxPathLen
  words : WholeWords st.child.mem
  segment : ∀ i < sharedPageSize, st.child.mem (st.tcp.childshm + BitVec.ofNat 64 i) ≠ none

/-- Argument `i` of the call is the text `s`, which stands outside of the segment. -/
structure Passes (env : LinkEnv) (st : LinkStop) (i : Fin 6) (s : CString) : Prop where
  reg : st.child.regs (argreg env.personality i) = st.tcp.uArg i
  nul : 0 ∉ s
  length : s.length < maxPathLen
  text : Holds st.child.mem (st.tcp.uArg i) (s ++ [0])
  outside : Apart (st.tcp.uArg i) (s.length + 1) st.tcp.childshm sharedPageSize

/-- The same words are mapped while the paths are stored. -/
theorem LinkStop.Ready.storePair_words (hst : st.Ready) {p : Personality} {a : ArgPair} {child' : Child}
    (hstore : storePair p a st.tcp r1 r2 st.child = .ok child') : WholeWords child'.mem := by
  refine hst.words.congr fun x => ⟨fun hnone => ?_, fun hnone => ?_⟩
  · by_contra hx
    exact storePair_mapped hstore hx hnone
  · by_cases hout : sharedPageSize ≤ (x - st.tcp.childshm).toNat
    · rw [(storePair_frame hstore).2 x hout, hnone]
    · have hmapped := hst.segment (x - st.tcp.childshm).toNat (by omega)
      rw [add_sub_toNat] at hmapped
      exact absurd hnone hmapped

section Stop

variable {a : ArgPair} {child' : Child} {i : Fin 6} {s : CString}

/-- A redirected path is a C string. -/
theorem LinkEnv.Sane.redirect_nul (henv : env.Sane) (hst : st.Ready) {f : CString} (hf : 0 ∉ f) {e e' : Effects}
    {r : Option CString}
    (h : redirectFilenameIntoCderoot env.cde f st.tcp.currentDir st.tcp.pIgnores e = .ok (r, e')) :
    ∀ s, r = some s → 0 ∉ s := by
  rintro s rfl hs
  rcases (redirect_bytes henv.exec henv.root h).2 0 hs with hc | hc | hc | hc
  · exact absurd hc (by decide)
  · exact hf hc
  · exact hst.cwdNul hc
  · exact henv.rootNul hc

theorem Passes.read (henv : env.Sane) (hst : st.Ready) (h : Passes env st i s) :
    env.strcpyFromChild st.child.mem (st.tcp.uArg i) = some s :=
  henv.strcpy _ _ _ hst.words h.nul h.length h.text

/-- The tracer does not write over the arguments. -/
theorem Passes.kept (h : Passes env st i s)
    (hstore : storePair env.personality a st.tcp r1 r2 st.child = .ok child') :
    Holds child'.mem (st.tcp.uArg i) (s ++ [0]) := by
  refine h.text.congr fun j hj => (storePair_frame hstore).2 _ (h.outside j ?_)
  simpa using hj

variable (hstore : storePair env.personality a st.tcp r1 r2 st.child = .ok child')
variable (hreach : Reaches env.personality a st.tcp.childshm r1 r2 st.child child')

include hstore hreach

/-- **The kernel reads the redirected path**, or the argument itself when there is none. -/
theorem Passes.kernel_first (h : Passes env st a.arg1 s) (hnul : ∀ s', r1 = some s' → 0 ∉ s')
    (hne : a.arg1 = a.arg2 → r2 = none) :
    kernelString child'.mem (child'.regs (argreg env.personality a.arg1)) =
      if (r1.getD s).length < maxPathLen then some (r1.getD s) else none := by
  cases hr1 : r1 with
  | none =>
    rw [hreach.other a.arg1 (fun _ => hr1) hne, h.reg]
    exact readString_text h.nul (h.kept hstore)
  | some s' =>
    obtain ⟨hreg, hmem⟩ := hreach.first s' hr1
    rw [hreg]
    exact readString_text (hnul s' hr1) hmem

theorem Passes.kernel_second (h : Passes env st a.arg2 s) (hnul : ∀ s', r2 = some s' → 0 ∉ s')
    (hne : a.arg1 ≠ a.arg2) :
    kernelString child'.mem (child'.regs (argreg env.personality a.arg2)) =
      if (r2.getD s).length < maxPathLen then some (r2.getD s) else none := by
  cases hr2 : r2 with
  | none =>
    rw [hreach.other a.arg2 (fun heq => absurd heq.symm hne) (fun _ => hr2), h.reg]
    exact readString_text h.nul (h.kept hstore)
  | some s' =>
    obtain ⟨hreg, hmem⟩ := hreach.second s' hr2
    rw [hreg]
    exact readString_text (hnul s' hr2) hmem

end Stop

/-- The buffer `output` has room for every path, and the words at its end are mapped. -/
def LinkStop.Room (st : LinkStop) (output : Fin 6) : Prop :=
  ∀ i < maxPathLen + 8, st.child.mem (st.tcp.uArg output + BitVec.ofNat 64 i) ≠ none

/-- The two calls of a program that makes the link `l` to `t` and reads it, and where their
arguments stand. -/
structure LinkCalls.Sane (calls : LinkCalls) (env : LinkEnv) (t l : CString) : Prop where
  tracer : env.Sane
  making : calls.making.Ready
  target : Passes env calls.making calls.pair.arg1 t
  path : Passes env calls.making calls.pair.arg2 l
  /-- a relative path of `symlinkat` starts from the working directory -/
  dirfd : calls.symlinkat = true → isAbspath l = true ∨ calls.making.tcp.uArg argvArg = atFdcwdArg
  reading : calls.reading.Ready
  path' : Passes env calls.reading fileArg l
  buffer : calls.reading.child.regs (argreg env.personality argvArg) = calls.reading.tcp.uArg argvArg
  apart : Apart (calls.reading.tcp.uArg fileArg) (l.length + 1) (calls.reading.tcp.uArg argvArg) maxPathLen
  room : calls.reading.Room argvArg

/-- What a path of the program is redirected to. -/
def LinkCalls.redirect (calls : LinkCalls) (env : LinkEnv) (f : CString) (e : Effects) :
    Except Fatal (Option CString × Effects) :=
  redirectFilenameIntoCderoot env.cde f calls.making.tcp.currentDir calls.making.tcp.pIgnores e

variable {calls : LinkCalls}

/-! ## Making the link -/

/-- The function that rewrites the arguments. -/
def LinkCalls.modify (calls : LinkCalls) : Modify :=
  if calls.symlinkat then .firstAndThirdArgs else .twoArgs

theorem LinkCalls.pair_eq (calls : LinkCalls) : calls.modify.pair = calls.pair := by
  unfold LinkCalls.modify LinkCalls.pair
  cases calls.symlinkat <;> rfl

theorem LinkCalls.args_ne (calls : LinkCalls) : calls.pair.arg1 ≠ calls.pair.arg2 := by
  unfold LinkCalls.pair
  cases calls.symlinkat
  all_goals decide

theorem LinkCalls.redirections_ok_iff (h : calls.Sane env t l) {e' : Effects} :
    calls.modify.redirections env.cde env.strcpyFromChild calls.making.tcp calls.making.child
        calls.making.effects = .ok (r1, r2, e') ↔
      ∃ e₁, calls.redirect env t calls.making.effects = .ok (r1, e₁) ∧
        calls.redirect env l e₁ = .ok (r2, e') := by
  have hpair : calls.modify.redirections env.cde env.strcpyFromChild calls.making.tcp calls.making.child
      calls.making.effects = redirectPair env.cde env.strcpyFromChild calls.pair calls.making.tcp
        calls.making.child calls.making.effects := by
    rw [← calls.pair_eq]
    unfold LinkCalls.modify
    cases calls.symlinkat <;> rfl
  rw [hpair]
  unfold redirectPair
  simp only [h.target.read h.tracer h.making, h.path.read h.tracer h.making]
  constructor
  · intro hok
    obtain ⟨⟨r1', e₁⟩, h1, hok⟩ := bind_eq_ok.1 hok
    obtain ⟨⟨r2', e₂⟩, h2, hok⟩ := bind_eq_ok.1 hok
    cases hok
    exact ⟨e₁, h1, h2⟩
  · rintro ⟨e₁, h1, h2⟩
    exact bind_eq_ok.2 ⟨_, h1, bind_eq_ok.2 ⟨_, h2, rfl⟩⟩

theorem LinkCalls.beginMaking_eq (h : calls.Sane env t l) :
    calls.beginMaking env =
      (calls.modify.run env.cde env.strcpyFromChild env.personality calls.making.tcp calls.making.child
        calls.making.effects).map fun r => { calls.making with tcp := r.1, child := r.2.1, effects := r.2.2 } := by
  have hmap : ∀ {x : Except Fatal (ShmTcb × Child × Effects)} {f : ShmTcb × Child × Effects → LinkStop},
      (x >>= fun r => pure (f r)) = x.map f := by
    intro x f
    cases x <;> rfl
  unfold LinkCalls.beginMaking
  cases hat : calls.symlinkat with
  | false =>
    simp only [LinkCalls.modify, hat, Bool.false_eq_true, if_false, beginFileSymlink, h.tracer.exec, if_true]
    exact hmap
  | true =>
    have hpath := h.path.read h.tracer h.making
    simp only [LinkCalls.pair, hat, if_true] at hpath
    have hpunt : (!isAbspath l && calls.making.tcp.uArg argvArg != atFdcwdArg) = false := by
      rcases h.dirfd hat with habs | hfd
      · simp [habs]
      · simp [hfd]
    simp only [LinkCalls.modify, hat, if_true, beginFileSymlinkat, hpath, hpunt, Bool.false_eq_true,
      if_false, h.tracer.exec]
    exact hmap

theorem LinkCalls.reaches (calls : LinkCalls) {p : Personality} {tcp : ShmTcb} {child child' : Child}
    (hstore : storePair p calls.pair tcp r1 r2 child = .ok child') :
    Reaches p calls.pair tcp.childshm r1 r2 child child' := by
  refine Reaches.of_argreg hstore ?_ ?_ fun _ => calls.args_ne
  · unfold LinkCalls.pair
    cases calls.symlinkat <;> cases p <;> rfl
  · unfold LinkCalls.pair
    cases calls.symlinkat <;> cases p <;> rfl

/-- **The link that is made** has the redirected target and the redirected path, unless they are too long. -/
theorem makeLink_iff (h : calls.Sane env t l) {link : CString × CString} :
    makeLink env calls = .ok (some link) ↔
      ∃ r1 e₁ r2 e₂, calls.redirect env t calls.making.effects = .ok (r1, e₁) ∧
        calls.redirect env l e₁ = .ok (r2, e₂) ∧ roomFor r1 + roomFor r2 ≤ sharedPageSize ∧
        (r1.getD t).length < maxPathLen ∧ (r2.getD l).length < maxPathLen ∧ link = (r1.getD t, r2.getD l) := by
  -- what the kernel finds once the paths are stored
  have hkernel : ∀ {r1 r2 : Option CString} {e₁ e₂ : Effects} {child' : Child},
      calls.redirect env t calls.making.effects = .ok (r1, e₁) → calls.redirect env l e₁ = .ok (r2, e₂) →
      storePair env.personality calls.pair calls.making.tcp r1 r2 calls.making.child = .ok child' →
      (kernelSymlink env calls.pair child' = some link ↔
        (r1.getD t).length < maxPathLen ∧ (r2.getD l).length < maxPathLen ∧ link = (r1.getD t, r2.getD l)) := by
    intro r1 r2 e₁ e₂ child' h1 h2 hstore
    have hreach := calls.reaches hstore
    have htarget := h.target.kernel_first hstore hreach
      (h.tracer.redirect_nul h.making h.target.nul h1) (fun heq => absurd heq calls.args_ne)
    have hpath := h.path.kernel_second hstore hreach
      (h.tracer.redirect_nul h.making h.path.nul h2) calls.args_ne
    unfold kernelSymlink
    rw [htarget, hpath]
    by_cases ht : (r1.getD t).length < maxPathLen
    · by_cases hl : (r2.getD l).length < maxPathLen
      · simp [ht, hl, eq_comm]
      · simp [ht, hl]
    · simp [ht]
  unfold makeLink
  rw [LinkCalls.beginMaking_eq h]
  constructor
  · intro hok
    obtain ⟨made, hmade, hok⟩ := bind_eq_ok.1 hok
    obtain ⟨⟨tcp', child', e'⟩, hrun, rfl⟩ := map_eq_ok.1 hmade
    obtain ⟨r1, r2, hr, hstore, rfl⟩ := (Modify.run_ok_iff h.tracer.exec h.making.shm).1 hrun
    rw [calls.pair_eq] at hstore
    obtain ⟨e₁, h1, h2⟩ := (LinkCalls.redirections_ok_iff h).1 hr
    exact ⟨r1, e₁, r2, e', h1, h2, (storePair_frame hstore).1, (hkernel h1 h2 hstore).1 (Except.ok.inj hok)⟩
  · rintro ⟨r1, e₁, r2, e₂, h1, h2, hfit, hlink⟩
    obtain ⟨child', hstore⟩ : ∃ child',
        storePair env.personality calls.pair calls.making.tcp r1 r2 calls.making.child = .ok child' :=
      storePair_total hfit
    have hstore' : storePair env.personality calls.modify.pair calls.making.tcp r1 r2 calls.making.child =
        .ok child' := by rw [calls.pair_eq]; exact hstore
    have hr := (LinkCalls.redirections_ok_iff h).2 ⟨e₁, h1, h2⟩
    rw [(Modify.run_ok_iff h.tracer.exec h.making.shm).2 ⟨r1, r2, hr, hstore', rfl⟩]
    exact congrArg Except.ok ((hkernel h1 h2 hstore).2 hlink)

/-! ## Reading the link -/

/-- What the path of `readlink` is redirected to. -/
def entryPath (env : LinkEnv) (st : LinkStop) (l : CString) : Except Fatal (Option CString × Effects) :=
  if l = [] then .ok (none, st.effects)
  else redirectFilenameIntoCderoot env.cde l st.tcp.currentDir st.tcp.pIgnores st.effects

/-- What `CDE_end_readlink` makes of a target. -/
def answer (env : LinkEnv) (tcp : ShmTcb) (l target : CString) (e : Effects) : Except Fatal CString :=
  match perceivedExe env l with
  | some program => .ok program
  | none =>
    if l = str "/proc/self/cwd" then
      (extractSandboxedPwd env.cde tcp.currentDir tcp.pIgnores e).map (·.1)
    else .ok ((unmunged env target).getD target)

/-- The path of `readlink` is its only argument that is rewritten. -/
abbrev readlinkPair (l : CString) : ArgPair := (Modify.singleArg ⟨0, by decide⟩ l).pair

theorem entryPath_nul (h : calls.Sane env t l) {r : Option CString} {e : Effects}
    (hentry : entryPath env calls.reading l = .ok (r, e)) : ∀ s, r = some s → 0 ∉ s := by
  unfold entryPath at hentry
  split_ifs at hentry
  · obtain ⟨rfl, -⟩ := Prod.mk.inj (Except.ok.inj hentry)
    intro s hs
    cases hs
  · exact h.tracer.redirect_nul h.reading h.path'.nul hentry

theorem beginReadlink_ok_iff (henv : env.Sane) (hst : st.Ready) (hl : Passes env st fileArg l)
    {st' : LinkStop} :
    beginReadlink env st = .ok st' ↔
      ∃ r e child', entryPath env st l = .ok (r, e) ∧
        storePair env.personality (readlinkPair l) st.tcp r none st.child = .ok child' ∧
        st' = { st with child := child', effects := e } := by
  unfold beginReadlink entryPath
  simp only [hl.read henv hst]
  by_cases hnil : l = []
  · simp only [hnil, if_true]
    constructor
    · intro h
      exact ⟨none, st.effects, st.child, rfl, rfl, (Except.ok.inj h).symm⟩
    · rintro ⟨r, e, child', hr, hstore, rfl⟩
      cases hr
      cases hstore
      rfl
  · simp only [hnil, if_false, henv.exec, if_true]
    have hrun : ∀ tcp' child' e',
        modifySyscallSingleArg env.cde env.personality st.tcp 1 l st.child st.effects = .ok (tcp', child', e') ↔
          ∃ r1 r2, (Modify.singleArg 0 l).redirections env.cde env.strcpyFromChild st.tcp st.child st.effects =
              .ok (r1, r2, e') ∧
            storePair env.personality (readlinkPair l) st.tcp r1 r2 st.child = .ok child' ∧ tcp' = st.tcp :=
      fun _ _ _ => Modify.run_ok_iff (M := .singleArg 0 l) henv.exec hst.shm
    constructor
    · intro h
      obtain ⟨⟨tcp', child', e'⟩, hmod, h⟩ := bind_eq_ok.1 h
      obtain ⟨r1, r2, hr, hstore, rfl⟩ := (hrun _ _ _).1 hmod
      obtain ⟨⟨r, e⟩, hredirect, hr⟩ := bind_eq_ok.1 hr
      cases hr
      exact ⟨_, _, child', hredirect, hstore, (Except.ok.inj h).symm⟩
    · rintro ⟨r, e, child', hredirect, hstore, rfl⟩
      exact bind_eq_ok.2 ⟨_, (hrun _ _ _).2 ⟨r, none, bind_eq_ok.2 ⟨_, hredirect, rfl⟩, hstore, rfl⟩, rfl⟩

/-- **The program finds the text that is put in.** -/
theorem returned_fakeResult {st' : LinkStop} {output : Fin 6} {text : CString} (hlen : text.length < maxPathLen)
    (h : fakeResult env output text st = .ok st') : st'.returned output = some text := by
  obtain ⟨mem, hcopy, h⟩ := bind_eq_ok.1 h
  obtain rfl := Except.ok.inj h
  unfold maxPathLen at hlen
  have hmem : Holds mem (st.tcp.uArg output) (text ++ [0]) := by
    rw [memcpyToChildOrExit_ok hcopy]
    exact holds_memcpyToChild _ _ _ _ (by simp only [List.length_append, List.length_singleton]; omega)
  have hrax : ((st.child.regs.set .rax (BitVec.ofNat 64 text.length)) .rax).toNat = text.length := by
    rw [Regs.set_self, BitVec.toNat_ofNat, Nat.mod_eq_of_lt (by omega)]
  unfold LinkStop.returned
  rw [hrax]
  exact (holds_append.1 hmem).1.load

theorem fakeResult_total (env : LinkEnv) {output : Fin 6} {text : CString}
    (hroom : ∀ i < text.length + 9, st.child.mem (st.tcp.uArg output + BitVec.ofNat 64 i) ≠ none) :
    ∃ st', fakeResult env output text st = .ok st' := by
  have hmapped : ∀ i < (text ++ [0]).length + 8, st.child.mem (st.tcp.uArg output + BitVec.ofNat 64 i) ≠ none := by
    intro i hi
    rw [List.length_append, List.length_singleton] at hi
    exact hroom i (by omega)
  exact ⟨_, bind_eq_ok.2 ⟨_, memcpyToChildOrExit_total env.beyond hmapped, rfl⟩⟩

theorem LinkStop.Room.fakeResult {output : Fin 6} {text : CString} (hroom : st.Room output) (env : LinkEnv)
    (hlen : text.length < maxPathLen) :
    (Ptu.fakeResult env output text st >>= fun st' => pure (st'.returned output)) = .ok (some text) := by
  have hmapped : ∀ i < text.length + 9, st.child.mem (st.tcp.uArg output + BitVec.ofNat 64 i) ≠ none :=
    fun i hi => hroom i (by omega)
  obtain ⟨st', hst'⟩ := fakeResult_total env hmapped
  rw [hst']
  exact congrArg Except.ok (returned_fakeResult hlen hst')

theorem perceivedExe_eq_some {filename program : CString} (h : perceivedExe env filename = some program) :
    env.perceivedProgramFullpath = some program := by
  unfold perceivedExe at h
  split_ifs at h
  exact h

/-- What is un-munged stands behind the first of two slashes. -/
theorem unmunged_isSuffix {target suffix : CString} (h : unmunged env target = some suffix) :
    suffix <:+ target ∧ suffix.length < target.length := by
  have hmunged : munged target = some suffix := (Option.filter_eq_some_iff.1 h).1
  unfold munged at hmunged
  split_ifs at hmunged
  obtain ⟨rest, hfind, rfl⟩ := Option.map_eq_some_iff.1 hmunged
  have hslashes : str "//" <+: rest := by simpa using List.find?_some hfind
  have hrest : rest <:+ target := (List.mem_tails _ _).1 (List.mem_of_find?_eq_some hfind)
  have htwo : 2 ≤ rest.length := hslashes.length_le
  have hle := hrest.length_le
  refine ⟨(List.tail_suffix rest).trans hrest, ?_⟩
  rw [List.length_tail]
  omega

/-- **What the program finds after `CDE_end_readlink`.** -/
theorem returned_endReadlink (henv : env.Sane) (hcwd : st.tcp.currentDir.length < maxPathLen)
    (hroom : st.Room argvArg) {target : CString}
    (hl : env.strcpyFromChild st.child.mem (st.tcp.uArg fileArg) = some l) (hrval : 0 ≤ st.uRval)
    (htarget : st.returned argvArg = some target) (hlen : target.length < maxPathLen) :
    (endReadlink env st >>= fun st' => pure (st'.returned argvArg)) =
      (answer env st.tcp l target st.effects).map some := by
  unfold endReadlink endReadlinkInternal answer
  simp only [hl, henv.exec, Bool.not_true, Bool.false_eq_true, if_false, if_neg (Int.not_lt.2 hrval)]
  cases hexe : perceivedExe env l with
  | some program =>
    exact hroom.fakeResult env (henv.program program (perceivedExe_eq_some hexe))
  | none =>
    by_cases hself : l = str "/proc/self/cwd"
    · simp only [if_pos hself]
      cases hextract : extractSandboxedPwd env.cde st.tcp.currentDir st.tcp.pIgnores st.effects with
      | error err => rfl
      | ok r =>
        obtain ⟨pwd, e⟩ := r
        have hpwd : pwd.length < maxPathLen := by
          rcases extract_isSuffix hextract with hsuf | rfl
          · exact Nat.lt_of_le_of_lt hsuf.length_le hcwd
          · decide
        have hroom' : LinkStop.Room { st with effects := e } argvArg := hroom
        simp only [bind_assoc]
        exact hroom'.fakeResult env hpwd
    · simp only [if_neg hself, htarget]
      cases hun : unmunged env target with
      | none => exact congrArg Except.ok htarget
      | some suffix =>
        have hshort := (unmunged_isSuffix hun).2
        exact hroom.fakeResult env (by omega)

section Reading

variable (h : calls.Sane env t l) {r : Option CString} {e : Effects} {child' : Child} {target : CString}
variable (hentry : entryPath env calls.reading l = .ok (r, e))
variable
  (hstore : storePair env.personality (readlinkPair l) calls.reading.tcp r none calls.reading.child = .ok child')
variable {st' : LinkStop} (hst' : st' = { calls.reading with child := child', effects := e })

include h hstore hst'

omit h hst' in
theorem readlink_reaches :
    Reaches env.personality (readlinkPair l) calls.reading.tcp.childshm r none calls.reading.child child' :=
  Reaches.of_argreg hstore rfl rfl (by simp)

/-- The process after the kernel has put a target into the buffer. -/
theorem receive_spec (hlen : target.length < maxPathLen) :
    (st'.receive env target).tcp = calls.reading.tcp ∧ (st'.receive env target).Room argvArg ∧
      env.strcpyFromChild (st'.receive env target).child.mem (calls.reading.tcp.uArg fileArg) = some l ∧
      (st'.receive env target).returned argvArg = some target := by
  have hbuf : child'.regs (argreg env.personality argvArg) = calls.reading.tcp.uArg argvArg := by
    have hother : argvArg ≠ fileArg := by decide
    rw [(readlink_reaches hstore).other argvArg (fun heq => absurd heq hother) (fun _ => rfl), h.buffer]
  have hmem : (st'.receive env target).child.mem =
      child'.mem.store (calls.reading.tcp.uArg argvArg) target := by
    rw [← hbuf, hst']
    rfl
  have htcp : (st'.receive env target).tcp = calls.reading.tcp := by
    rw [hst']
    rfl
  have hmapped : ∀ i < maxPathLen + 8, child'.mem (calls.reading.tcp.uArg argvArg + BitVec.ofNat 64 i) ≠ none :=
    fun i hi => storePair_mapped hstore (h.room i hi)
  have hwords : WholeWords (child'.mem.store (calls.reading.tcp.uArg argvArg) target) := by
    refine (h.reading.storePair_words hstore).congr fun x => ⟨fun hnone => ?_, fun hnone => ?_⟩
    · by_contra hx
      exact store_ne_none _ _ hx hnone
    · by_cases hout : target.length ≤ (x - calls.reading.tcp.uArg argvArg).toNat
      · rw [store_other hout, hnone]
      · have hx := hmapped (x - calls.reading.tcp.uArg argvArg).toNat (by omega)
        rw [add_sub_toNat] at hx
        exact absurd hnone hx
  have hsize : maxPathLen < 2 ^ 64 := by decide
  have hrax : ((st'.receive env target).child.regs .rax).toNat = target.length := by
    have hset : (st'.receive env target).child.regs .rax = BitVec.ofNat 64 target.length :=
      Regs.set_self st'.child.regs .rax _
    rw [hset, BitVec.toNat_ofNat, Nat.mod_eq_of_lt (by omega)]
  refine ⟨htcp, ?_, ?_, ?_⟩
  · intro i hi
    rw [hmem, htcp]
    exact store_ne_none _ _ (hmapped i hi)
  · rw [hmem]
    apply h.tracer.strcpy _ _ _ hwords h.path'.nul h.path'.length
    apply (h.path'.kept hstore).store_apart
    rw [List.length_append]
    exact h.apart.mono (by omega)
  · unfold LinkStop.returned
    rw [hmem, htcp, hrax]
    exact (holds_store _ _ (by omega)).load

include hentry

theorem kernelReadlink_eq {path : CString} (hlen : path.length < maxPathLen) :
    kernelReadlink env (target, path) st' = if r.getD l = path then some (st'.receive env target) else none := by
  have hpath := h.path'.kernel_first hstore (readlink_reaches hstore) (entryPath_nul h hentry) (fun _ => rfl)
  have hread : kernelString st'.child.mem (st'.child.regs (argreg env.personality fileArg)) =
      if (r.getD l).length < maxPathLen then some (r.getD l) else none := by
    rw [hst']
    exact hpath
  unfold kernelReadlink
  rw [hread]
  by_cases heq : r.getD l = path
  · simp [heq, hlen]
  · split_ifs
    · simp [heq]
    · simp

end Reading

/-- **What the program reads** of a link whose target the kernel knows. -/
theorem readLink_iff (h : calls.Sane env t l) {target path u : CString} (hlen : target.length < maxPathLen)
    (hpath : path.length < maxPathLen) :
    readLink env calls.reading (target, path) = .ok (some u) ↔
      ∃ r e, entryPath env calls.reading l = .ok (r, e) ∧ roomFor r ≤ sharedPageSize ∧ r.getD l = path ∧
        answer env calls.reading.tcp l target e = .ok u := by
  -- the rest of the call, once the path is stored
  have hrest : ∀ {r : Option CString} {e : Effects} {child' : Child},
      entryPath env calls.reading l = .ok (r, e) →
      storePair env.personality (readlinkPair l) calls.reading.tcp r none calls.reading.child = .ok child' →
      (readLink env calls.reading (target, path) = .ok (some u) ↔
        r.getD l = path ∧ answer env calls.reading.tcp l target e = .ok u) := by
    intro r e child' hentry hstore
    obtain ⟨st', hst'⟩ : ∃ st' : LinkStop, st' = { calls.reading with child := child', effects := e } := ⟨_, rfl⟩
    have hbegin := (beginReadlink_ok_iff h.tracer h.reading h.path').2 ⟨r, e, child', hentry, hstore, hst'⟩
    obtain ⟨htcp, hroom, hname, hreturned⟩ := receive_spec h hstore hst' hlen
    have heffects : (st'.receive env target).effects = e := by
      rw [hst']
      rfl
    have hcwd : (st'.receive env target).tcp.currentDir.length < maxPathLen := by
      rw [htcp]
      exact h.reading.cwdLength
    have hend := returned_endReadlink h.tracer hcwd hroom (htcp ▸ hname) (Int.natCast_nonneg _) hreturned hlen
    rw [htcp, heffects] at hend
    unfold readLink
    rw [hbegin]
    simp only [bind, Except.bind, kernelReadlink_eq h hentry hstore hst' hpath]
    by_cases hp : r.getD l = path
    · simp only [hp, true_and]
      refine (Eq.congr_left hend).trans ?_
      rw [map_eq_ok]
      simp
    · simp [hp, pure, Except.pure]
  constructor
  · intro hread
    obtain ⟨st', hbegin, -⟩ := bind_eq_ok.1 hread
    obtain ⟨r, e, child', hentry, hstore, -⟩ := (beginReadlink_ok_iff h.tracer h.reading h.path').1 hbegin
    obtain ⟨hpath, hanswer⟩ := (hrest hentry hstore).1 hread
    exact ⟨r, e, hentry, (storePair_frame hstore).1, hpath, hanswer⟩
  · rintro ⟨r, e, hentry, hroom, hpath, hanswer⟩
    obtain ⟨child', hstore⟩ : ∃ child',
        storePair env.personality (readlinkPair l) calls.reading.tcp r none calls.reading.child = .ok child' :=
      storePair_total hroom
    exact (hrest hentry hstore).2 ⟨hpath, hanswer⟩

/-! ## Making and reading -/

/-- **The second call opens the link of the first one**: the paths fit into the segment, the kernel is given
paths that are not too long, and the same one in both calls. `r` is what the target is redirected to. -/
def LinkCalls.Opens (calls : LinkCalls) (env : LinkEnv) (t l : CString) (r : Option CString) (e : Effects) :
    Prop :=
  ∃ e₁ r2 e₂ r3, calls.redirect env t calls.making.effects = .ok (r, e₁) ∧
    calls.redirect env l e₁ = .ok (r2, e₂) ∧ roomFor r + roomFor r2 ≤ sharedPageSize ∧
    (r.getD t).length < maxPathLen ∧ (r2.getD l).length < maxPathLen ∧
    entryPath env calls.reading l = .ok (r3, e) ∧ roomFor r3 ≤ sharedPageSize ∧ r3.getD l = r2.getD l

/-- **The redirected target is what `CDE_end_readlink` is given.** -/
theorem symlinkReadlink_iff (h : calls.Sane env t l) {u : CString} :
    symlinkReadlink env calls = .ok (some u) ↔
      ∃ r e, calls.Opens env t l r e ∧ answer env calls.reading.tcp l (r.getD t) e = .ok u := by
  constructor
  · intro hok
    obtain ⟨link, hmake, hok⟩ := bind_eq_ok.1 hok
    cases link with
    | none => cases hok
    | some link =>
      obtain ⟨r, e₁, r2, e₂, h1, h2, hroom, ht, hl, rfl⟩ := (makeLink_iff h).1 hmake
      obtain ⟨r3, e, hentry, hroom', hpath, hanswer⟩ := (readLink_iff h ht hl).1 hok
      exact ⟨r, e, ⟨e₁, r2, e₂, r3, h1, h2, hroom, ht, hl, hentry, hroom', hpath⟩, hanswer⟩
  · rintro ⟨r, e, ⟨e₁, r2, e₂, r3, h1, h2, hroom, ht, hl, hentry, hroom', hpath⟩, hanswer⟩
    have hmake := (makeLink_iff h).2 ⟨r, e₁, r2, e₂, h1, h2, hroom, ht, hl, rfl⟩
    have hread := (readLink_iff h ht hl).2 ⟨r3, e, hentry, hroom', hpath, hanswer⟩
    exact bind_eq_ok.2 ⟨_, hmake, hread⟩

/-- An absolute target is not taken for a munged one. -/
theorem unmunged_abspath {s : CString} (hs : isAbspath s = true) : unmunged env s = none := by
  obtain ⟨q, rfl⟩ := isAbspath_iff.1 hs
  have hdot : ¬ str "./" <+: slash :: q := by
    intro hpre
    obtain ⟨rest, hrest⟩ := hpre
    have hhead : (46 : Byte) = slash := (List.cons.inj hrest).1
    exact absurd hhead (by decide)
  simp [unmunged, munged, hdot]

/-- **When the program reads the text `t` that it has passed**, if `t` is redirected to `r`. The
special files of `/proc` are answered without regard to the link. Otherwise the target is
redirected to itself, or it is neither redirected nor taken for a munged one. -/
structure Restored (env : LinkEnv) (tcp : ShmTcb) (t l : CString) (r : Option CString) (e : Effects) : Prop where
  exe : ∀ program, perceivedExe env l = some program → program = t
  cwd : perceivedExe env l = none → l = str "/proc/self/cwd" →
    ∃ e', extractSandboxedPwd env.cde tcp.currentDir tcp.pIgnores e = .ok (t, e')
  link : perceivedExe env l = none → l ≠ str "/proc/self/cwd" →
    r = some t ∨ r = none ∧ unmunged env t = none

theorem restored_iff {tcp : ShmTcb} {r : Option CString} {e : Effects}
    (hr : ∀ s, r = some s → isAbspath s = true) :
    answer env tcp l (r.getD t) e = .ok t ↔ Restored env tcp t l r e := by
  unfold answer
  cases hexe : perceivedExe env l with
  | some program =>
    constructor
    · intro h
      refine ⟨?_, ?_, ?_⟩
      · rintro program' hprogram
        rw [hexe] at hprogram
        exact (Option.some.inj hprogram).symm.trans (Except.ok.inj h)
      · intro hnone
        rw [hexe] at hnone
        cases hnone
      · intro hnone
        rw [hexe] at hnone
        cases hnone
    · intro h
      exact congrArg Except.ok (h.exe program hexe)
  | none =>
    have hexe' : ∀ program, perceivedExe env l = some program → program = t := by
      intro program hprogram
      rw [hexe] at hprogram
      cases hprogram
    by_cases hcwd : l = str "/proc/self/cwd"
    · simp only [if_pos hcwd]
      rw [map_eq_ok]
      constructor
      · rintro ⟨⟨pwd, e'⟩, hextract, rfl⟩
        exact ⟨hexe', fun _ _ => ⟨e', hextract⟩, fun _ hne => absurd hcwd hne⟩
      · intro h
        obtain ⟨e', hextract⟩ := h.cwd hexe hcwd
        exact ⟨_, hextract, rfl⟩
    · simp only [if_neg hcwd]
      have htext : (unmunged env (r.getD t)).getD (r.getD t) = t ↔ r = some t ∨ r = none ∧ unmunged env t = none := by
        cases hcase : r with
        | some s => simp [unmunged_abspath (hr s hcase)]
        | none =>
          cases hun : unmunged env t with
          | none => simp [hun]
          | some suffix =>
            -- the suffix is shorter than the target
            have hshort := (unmunged_isSuffix hun).2
            have hne : suffix ≠ t := fun heq => by rw [heq] at hshort; omega
            simp [hun, hne]
      constructor
      · intro h
        exact ⟨hexe', fun _ hc => absurd hc hcwd, fun _ _ => htext.1 (Except.ok.inj h)⟩
      · intro h
        exact congrArg Except.ok (htext.2 (h.link hexe hcwd))

/-- **A program reads back the target of a link that it has made** only under this condition: the
target is rewritten like the path, and the rewriting is not undone. -/
theorem symlink_readlink_iff (h : calls.Sane env t l) :
    symlinkReadlink env calls = .ok (some t) ↔
      ∃ r e, calls.Opens env t l r e ∧ Restored env calls.reading.tcp t l r e := by
  have habs : ∀ {r : Option CString} {e : Effects}, calls.Opens env t l r e →
      ∀ s, r = some s → isAbspath s = true := by
    rintro r e ⟨e₁, r2, e₂, r3, h1, -⟩ s rfl
    exact (redirect_bytes h.tracer.exec h.tracer.root h1).1
  rw [symlinkReadlink_iff h]
  constructor
  · rintro ⟨r, e, hopens, hanswer⟩
    exact ⟨r, e, hopens, (restored_iff (habs hopens)).1 hanswer⟩
  · rintro ⟨r, e, hopens, hrestored⟩
    exact ⟨r, e, hopens, (restored_iff (habs hopens)).2 hrestored⟩

/-- **A relative target is lost** whenever it is redirected: the program reads an absolute path. -/
theorem relative_target_lost (h : calls.Sane env t l) (hrel : isAbspath t = false) {s : CString} {e : Effects}
    (hopens : calls.Opens env t l (some s) e) (hexe : perceivedExe env l = none)
    (hcwd : l ≠ str "/proc/self/cwd") : symlinkReadlink env calls = .ok (some s) ∧ s ≠ t := by
  have habs : isAbspath s = true := by
    obtain ⟨e₁, r2, e₂, r3, h1, -⟩ := hopens
    exact (redirect_bytes h.tracer.exec h.tracer.root h1).1
  constructor
  · refine (symlinkReadlink_iff h).2 ⟨some s, e, hopens, ?_⟩
    unfold answer
    simp only [hexe, if_neg hcwd, Option.getD_some, unmunged_abspath habs, Option.getD_none]
  · rintro rfl
    rw [hrel] at habs
    cases habs

/-! ## A package in `/opt` -/

def optLinks : LinkEnv where
  cde := optReplay
  personality := .native
  strcpyFromChild := fetchString (List.replicate maxPathLen 1)
  pid := 4711
  perceivedProgramFullpath := none
  lstat _ := false
  beyond := []

theorem optLinks_sane : optLinks.Sane where
  exec := rfl
  root := by decide
  rootNul := by decide
  strcpy := fetches_fetchString _
  program s hs := by cases hs

/-- A process below `/home/bob` of the package with two texts in its memory. -/
def bobStop (uArg : Fin 6 → Word) (t l : CString) : LinkStop where
  tcp := { uArg, currentDir := str "/opt/cde-package/cde-root/home/bob", childshm := 0x10000 }
  child := {
    regs := fun r => if r = .rdi then uArg fileArg else uArg argvArg
    mem := (zeros.store 0x1000 (t ++ [0])).store 0x2000 (l ++ [0]) }

/-- `symlink(t, l)` and `readlink(l, buf, bufsiz)` -/
def bobCalls (t l : CString) : LinkCalls where
  symlinkat := false
  making := bobStop (fun i => if i = fileArg then 0x1000 else 0x2000) t l
  reading := bobStop (fun i => if i = fileArg then 0x2000 else 0x20000) t l

theorem bobCalls_sane (ht : t.length < 0x1000) (hl : l.length < 0x1000) (htnul : 0 ∉ t) (hlnul : 0 ∉ l) :
    (bobCalls t l).Sane optLinks t l := by
  have hmapped : ∀ uArg x, (bobStop uArg t l).child.mem x ≠ none := fun uArg x =>
    store_ne_none _ _ (store_ne_none _ _ (by simp [zeros]))
  have hready : ∀ uArg, (bobStop uArg t l).Ready := by
    intro uArg
    refine ⟨?_, ?_, ?_, fun a _ i _ j _ hnone => absurd hnone (hmapped uArg _), fun i _ => hmapped uArg _⟩
    · show (0x10000 : Word) ≠ 0
      decide
    · show 0 ∉ str "/opt/cde-package/cde-root/home/bob"
      decide
    · show (str "/opt/cde-package/cde-root/home/bob").length < maxPathLen
      decide
  have hpath : ∀ uArg, Holds (bobStop uArg t l).child.mem 0x2000 (l ++ [0]) := by
    intro uArg
    apply holds_store
    rw [List.length_append, List.length_singleton]
    omega
  have htarget : ∀ uArg, Holds (bobStop uArg t l).child.mem 0x1000 (t ++ [0]) := by
    intro uArg
    apply Holds.store_apart
    · apply holds_store
      rw [List.length_append, List.length_singleton]
      omega
    · apply Apart.of_le
      · show 0x1000 + (t ++ [0]).length ≤ 0x2000
        rw [List.length_append, List.length_singleton]
        omega
      · show 0x2000 + (l ++ [0]).length ≤ 2 ^ 64
        rw [List.length_append, List.length_singleton]
        omega
  -- the segment and the buffer lie behind the texts
  have hsegment : ∀ {a : Word} {n : ℕ}, a.toNat ≤ 0x2000 → n ≤ 0x1000 → Apart a n 0x10000 sharedPageSize := by
    intro a n ha hn
    apply Apart.of_le
    · show a.toNat + n ≤ 0x10000
      omega
    · decide
  exact {
    tracer := optLinks_sane
    making := hready _
    target := ⟨rfl, htnul, ht, htarget _, hsegment (a := 0x1000) (by decide) ht⟩
    path := ⟨rfl, hlnul, hl, hpath _, hsegment (a := 0x2000) (by decide) hl⟩
    dirfd := fun hat => absurd hat Bool.false_ne_true
    reading := hready _
    path' := ⟨rfl, hlnul, hl, hpath _, hsegment (a := 0x2000) (by decide) hl⟩
    buffer := rfl
    apart := by
      apply Apart.of_le
      · show 0x2000 + (l.length + 1) ≤ 0x20000
        omega
      · show 0x20000 + maxPathLen ≤ 2 ^ 64
        decide
    room := fun i _ => hmapped _ _ }

/-- A target inside the package is read back. -/
theorem symlink_readlink_within :
    symlinkReadlink optLinks (bobCalls (str "/opt/cde-package/cde-root/lib/a") (str "b")) =
      .ok (some (str "/opt/cde-package/cde-root/lib/a")) := by
  have hsane : (bobCalls (str "/opt/cde-package/cde-root/lib/a") (str "b")).Sane optLinks
      (str "/opt/cde-package/cde-root/lib/a") (str "b") :=
    bobCalls_sane (by decide) (by decide) (by decide) (by decide)
  have hcwd : str "b" ≠ str "/proc/self/cwd" := by decide
  refine (symlink_readlink_iff hsane).2 ⟨some (str "/opt/cde-package/cde-root/lib/a"), {}, ?_, ?_⟩
  · exact ⟨{}, some (str "/opt/cde-package/cde-root/home/bob/b"), {}, _, rfl, rfl, by decide, by decide, by decide,
      rfl, by decide, rfl⟩
  · exact ⟨fun _ h => by simp [perceivedExe, optLinks] at h, fun _ h => absurd h hcwd, fun _ _ => Or.inl rfl⟩

/-- **The link of `symlink_test`**: what `os.symlink('test_file.txt', '../test_file.symlink')` makes is
read back as an absolute path of the host. -/
theorem symlink_readlink_relative :
    (bobCalls (str "test_file.txt") (str "../test_file.symlink")).Sane optLinks (str "test_file.txt")
        (str "../test_file.symlink") ∧
      symlinkReadlink optLinks (bobCalls (str "test_file.txt") (str "../test_file.symlink")) =
        .ok (some (str "/opt/cde-package/cde-root/home/bob/test_file.txt")) ∧
      symlinkReadlink optLinks (bobCalls (str "test_file.txt") (str "../test_file.symlink")) ≠
        .ok (some (str "test_file.txt")) := by
  have hsane : (bobCalls (str "test_file.txt") (str "../test_file.symlink")).Sane optLinks
      (str "test_file.txt") (str "../test_file.symlink") :=
    bobCalls_sane (by decide) (by decide) (by decide) (by decide)
  have hopens : (bobCalls (str "test_file.txt") (str "../test_file.symlink")).Opens optLinks
      (str "test_file.txt") (str "../test_file.symlink")
      (some (str "/opt/cde-package/cde-root/home/bob/test_file.txt")) {} :=
    ⟨{}, some (str "/opt/cde-package/cde-root/home/test_file.symlink"), {}, _, rfl, rfl, by decide,
      by decide, by decide, rfl, by decide, rfl⟩
  obtain ⟨hread, hne⟩ := relative_target_lost hsane (by decide) hopens (by simp [perceivedExe, optLinks])
    (by decide)
  refine ⟨hsane, hread, ?_⟩
  rw [hread]
  intro heq
  exact hne (Option.some.inj (Except.ok.inj heq))

end Ptu
