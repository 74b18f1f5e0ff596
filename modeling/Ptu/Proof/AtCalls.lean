import Mathlib.Tactic.SplitIfs
import Ptu.Spec.AtCalls

/-!
# `AT_FDCWD` as the kernel reads it

The kernel reads a directory descriptor as an `int`, the handlers compare the whole register with
-100.

* `AtCall.quiet_iff`: a handler goes on, without a warning, if and only if every relative path comes
  with a register of -100.
* `at_fdcwd_iff`: **the handlers go on exactly for the descriptors that the kernel takes for
  `AT_FDCWD`** if and only if these registers are sign-extended.
-/

namespace Ptu

variable {env : LinkEnv} {st st' : AtStop} {call : AtCall}

/-- The kernel takes the register for `AT_FDCWD`: its low 32 bits, as a signed int, are -100. -/
def KernelAtFdcwd (w : Word) : Prop := (w.setWidth 32).toInt = -100

/-- The descriptors of the relative paths of a call. -/
def AtCall.RelativeDirfds (call : AtCall) (env : LinkEnv) (st : AtStop) (P : Word → Prop) : Prop :=
  ∀ arg ∈ call.args, ∀ filename, env.strcpyFromChild st.child.mem (st.tcp.uArg arg.2) = some filename →
    isAbspath filename = false → P (st.tcp.uArg arg.1)

theorem kernelAtFdcwd_atFdcwdArg : KernelAtFdcwd atFdcwdArg := by
  show (BitVec.setWidth 32 atFdcwdArg).toInt = -100
  decide

theorem puntsEarly_eq_false {tcp : ShmTcb} {d : Fin 6} {filename : CString} :
    puntsEarly tcp (d, filename) = false ↔ (isAbspath filename = false → tcp.uArg d = atFdcwdArg) := by
  unfold puntsEarly
  cases isAbspath filename
  · simp
  · simp

/-- A warning is printed if and only if one of the tests fails. -/
theorem unlessPunting_quiet_iff {name : CString} {paths : List (Fin 6 × CString)}
    {rest : AtStop → Except Fatal AtStop} (hrest : ∀ st', rest st = .ok st' → st'.stderr = st.stderr)
    (h : unlessPunting name paths rest st = .ok st') :
    st'.stderr = st.stderr ↔ ∀ path ∈ paths, puntsEarly st.tcp path = false := by
  unfold unlessPunting at h
  cases hfind : paths.find? (puntsEarly st.tcp) with
  | some path =>
    rw [hfind] at h
    obtain rfl := Except.ok.inj h
    refine iff_of_false (by simp) fun hquiet => ?_
    have hfalse := hquiet path (List.mem_of_find?_eq_some hfind)
    rw [List.find?_some hfind] at hfalse
    cases hfalse
  | none =>
    rw [hfind] at h
    refine iff_of_true (hrest st' h) fun path hpath => ?_
    simpa using List.find?_eq_none.1 hfind path hpath

/-! ## What follows the tests prints nothing -/

theorem modifySecondArg_stderr {filename : CString} (h : modifySecondArg env filename st = .ok st') :
    st'.stderr = st.stderr := by
  obtain ⟨⟨tcp, child, effects⟩, -, h⟩ := bind_eq_ok.1 h
  obtain rfl := Except.ok.inj h
  rfl

theorem modifyBothPaths_stderr (h : modifyBothPaths env st = .ok st') : st'.stderr = st.stderr := by
  obtain ⟨⟨tcp, child, effects⟩, -, h⟩ := bind_eq_ok.1 h
  obtain rfl := Except.ok.inj h
  rfl

/-! ## The handlers -/

/-- A path that a handler reads. -/
theorem strcpy_eq_some {a : Word} {mem : Memory.Mem} {f : CString → Except Fatal AtStop}
    (h : (do
      let some filename := env.strcpyFromChild mem a | throw exitIf
      f filename) = .ok st') :
    ∃ filename, env.strcpyFromChild mem a = some filename ∧ f filename = .ok st' := by
  cases hname : env.strcpyFromChild mem a with
  | none =>
    rw [hname] at h
    cases h
  | some filename =>
    rw [hname] at h
    exact ⟨filename, rfl, h⟩

/-- The paths that a handler has read, with their descriptors. -/
def AtCall.Read (call : AtCall) (env : LinkEnv) (st : AtStop) (paths : List (Fin 6 × CString)) : Prop :=
  List.Forall₂ (fun arg path => arg.1 = path.1 ∧
    env.strcpyFromChild st.child.mem (st.tcp.uArg arg.2) = some path.2) call.args paths

/-- **What a handler does first**: it reads its paths and tests their descriptors. What follows prints
nothing. -/
theorem AtCall.entering_ok (h : call.entering env st = .ok st') :
    ∃ name paths rest, call.Read env st paths ∧ unlessPunting name paths rest st = .ok st' ∧
      ∀ st', rest st = .ok st' → st'.stderr = st.stderr := by
  cases call with
  | fileop syscallName =>
    obtain ⟨filename, hname, h⟩ := strcpy_eq_some h
    refine ⟨_, _, _, .cons ⟨rfl, hname⟩ .nil, h, fun st₁ h₁ => ?_⟩
    split_ifs at h₁
    · exact modifySecondArg_stderr h₁
    · rw [← Except.ok.inj h₁]
    · obtain ⟨effects, -, h₁⟩ := bind_eq_ok.1 h₁
      rw [← Except.ok.inj h₁]
  | unlinkat =>
    obtain ⟨filename, hname, h⟩ := strcpy_eq_some h
    refine ⟨_, _, _, .cons ⟨rfl, hname⟩ .nil, h, fun st₁ h₁ => ?_⟩
    split_ifs at h₁
    · exact modifySecondArg_stderr h₁
    · obtain ⟨⟨redirected, effects⟩, -, h₁⟩ := bind_eq_ok.1 h₁
      rw [← Except.ok.inj h₁]
  | linkat =>
    obtain ⟨oldpath, hold, h⟩ := strcpy_eq_some h
    obtain ⟨newpath, hnew, h⟩ := strcpy_eq_some h
    refine ⟨_, _, _, .cons ⟨rfl, hold⟩ (.cons ⟨rfl, hnew⟩ .nil), h, fun st₁ h₁ => ?_⟩
    split_ifs at h₁
    · exact modifyBothPaths_stderr h₁
    · obtain ⟨⟨redirectedOld, effects⟩, -, h₁⟩ := bind_eq_ok.1 h₁
      obtain ⟨effects', -, h₁⟩ := bind_eq_ok.1 h₁
      obtain ⟨⟨redirectedNew, effects''⟩, -, h₁⟩ := bind_eq_ok.1 h₁
      rw [← Except.ok.inj h₁]
  | symlinkat =>
    obtain ⟨newpath, hnew, h⟩ := strcpy_eq_some h
    refine ⟨_, _, _, .cons ⟨rfl, hnew⟩ .nil, h, fun st₁ h₁ => ?_⟩
    obtain ⟨link, -, h₁⟩ := bind_eq_ok.1 h₁
    rw [← Except.ok.inj h₁]
  | renameat =>
    obtain ⟨oldpath, hold, h⟩ := strcpy_eq_some h
    obtain ⟨newpath, hnew, h⟩ := strcpy_eq_some h
    refine ⟨_, _, _, .cons ⟨rfl, hold⟩ (.cons ⟨rfl, hnew⟩ .nil), h, fun st₁ h₁ => ?_⟩
    split_ifs at h₁
    · exact modifyBothPaths_stderr h₁
    · rw [← Except.ok.inj h₁]

theorem AtCall.Read.relativeDirfds_iff {paths : List (Fin 6 × CString)} (h : call.Read env st paths) :
    call.RelativeDirfds env st (· = atFdcwdArg) ↔ ∀ path ∈ paths, puntsEarly st.tcp path = false := by
  unfold AtCall.RelativeDirfds
  unfold AtCall.Read at h
  generalize call.args = args at h ⊢
  induction h with
  | nil => simp
  | cons harg _ ih =>
    obtain ⟨hfst, hread⟩ := harg
    simp only [List.forall_mem_cons, ih]
    refine and_congr ?_ Iff.rfl
    rw [puntsEarly_eq_false, hread, hfst]
    simp

/-- **A handler goes on without a warning** if and only if every relative path comes with a register
of -100. -/
theorem AtCall.quiet_iff (h : call.entering env st = .ok st') :
    st'.stderr = st.stderr ↔ call.RelativeDirfds env st (· = atFdcwdArg) := by
  obtain ⟨name, paths, rest, hread, hrun, hrest⟩ := AtCall.entering_ok h
  rw [unlessPunting_quiet_iff hrest hrun, hread.relativeDirfds_iff]

theorem AtCall.RelativeDirfds.mono {P Q : Word → Prop} (h : call.RelativeDirfds env st P)
    (hPQ : ∀ w, P w → Q w) : call.RelativeDirfds env st Q :=
  fun arg harg filename hname hrel => hPQ _ (h arg harg filename hname hrel)

/-- **The handlers go on exactly for the descriptors that the kernel takes for `AT_FDCWD`** if and only
if, whenever it takes all of them for it, all of these registers are -100 in 64 bits. -/
theorem at_fdcwd_iff (h : call.entering env st = .ok st') :
    (st'.stderr = st.stderr ↔ call.RelativeDirfds env st KernelAtFdcwd) ↔
      (call.RelativeDirfds env st KernelAtFdcwd → call.RelativeDirfds env st (· = atFdcwdArg)) := by
  rw [AtCall.quiet_iff h]
  constructor
  · intro hiff
    exact hiff.2
  · intro hextended
    refine ⟨fun hwhole => hwhole.mono ?_, hextended⟩
    rintro w rfl
    exact kernelAtFdcwd_atFdcwdArg

/-! ## `openat` of a relative path -/

def openatEnv : LinkEnv where
  cde := { execMode := false, startingPwd := str "/home/bob", rootDir := str "/opt/cde-package/cde-root" }
  personality := .native
  strcpyFromChild := fun _ a => if a = 0x1000 then some (str "a.txt") else none
  pid := 4711
  perceivedProgramFullpath := none
  lstat _ := false
  beyond := []

/-- `openat(dirfd, "a.txt", …)` of a process in `/home/bob`. -/
def openatStop (dirfd : Word) : AtStop where
  tcp := { uArg := fun i => if i = dirfdArg then dirfd else 0x1000, currentDir := str "/home/bob" }
  child := { regs := fun _ => 0, mem := fun _ => none }

theorem at_fdcwd_extended :
    ∃ st', (AtCall.fileop (str "sys_openat")).entering openatEnv (openatStop atFdcwdArg) = .ok st' ∧
      (st'.stderr = [] ↔
        (AtCall.fileop (str "sys_openat")).RelativeDirfds openatEnv (openatStop atFdcwdArg) KernelAtFdcwd) := by
  have hreturns : ((AtCall.fileop (str "sys_openat")).entering openatEnv (openatStop atFdcwdArg)).isOk = true := by
    rfl
  cases hok : (AtCall.fileop (str "sys_openat")).entering openatEnv (openatStop atFdcwdArg) with
  | error err =>
    rw [hok] at hreturns
    cases hreturns
  | ok st' =>
    refine ⟨st', rfl, (at_fdcwd_iff hok).2 fun _ => ?_⟩
    intro arg harg filename _ _
    obtain rfl : arg = (dirfdArg, pathArg) := by simpa [AtCall.args] using harg
    rfl

/-- **A zero-extended `AT_FDCWD` is not recognised**: `openat` is left alone. -/
theorem at_fdcwd_zero_extended :
    KernelAtFdcwd 0xffffff9c ∧ isAbspath (str "a.txt") = false ∧
      ((AtCall.fileop (str "sys_openat")).entering openatEnv (openatStop 0xffffff9c)).map (·.stderr) =
        .ok [str "CDE WARNING (unsupported operation): sys_openat 'a.txt' is a relative path and dirfd != AT_FDCWD\n"] := by
  refine ⟨?_, by decide, by rfl⟩
  show (BitVec.setWidth 32 (0xffffff9c : Word)).toInt = -100
  decide

end Ptu
