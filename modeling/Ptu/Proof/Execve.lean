import Ptu.Proof.Argv
import Ptu.Proof.Elf
import Ptu.Proof.Shebang
import Ptu.Proof.Stops

/-!
# `execve`

* `SameProcess`: the search for the program changes nothing of the process.
* `script_argv_iff`: **a script is replayed with the kernel's own argument vector exactly if its
  first line is plain.**
* `beginExecveBody_cases`: the ways in which `CDE_begin_execve` ends.
* `execve_record_iff`: **an `execve` is recorded exactly once, unless a program without an
  interpreter is executed in exec mode by a process that has no segment yet.**
* `callsSetup_execve`: a pass that asks for the segment is one of the stops that
  `shmat_invisible_iff` is about.
-/

namespace Ptu

open Memory

variable {env : ExecEnv} {g : Cde} {p : Personality} {st st' st'' st₁ st₂ : ExecState}
variable {exeFilename path : CString}

/-! ## What stays as it is -/

/-- The process and what the tracer knows about it are the same, up to `p_ignores`. -/
structure SameProcess (st st' : ExecState) : Prop where
  child : st'.child = st.child
  tcp : ∃ pIgnores, st'.tcp = { st.tcp with pIgnores }

theorem SameProcess.refl (st : ExecState) : SameProcess st st := ⟨rfl, _, rfl⟩

theorem SameProcess.of_eq (h : (st'.tcp, st'.child) = (st.tcp, st.child)) : SameProcess st st' := by
  obtain ⟨htcp, hchild⟩ := Prod.mk.inj h
  exact ⟨hchild, _, htcp⟩

theorem SameProcess.trans (h : SameProcess st st₁) (h₁ : SameProcess st₁ st') : SameProcess st st' := by
  obtain ⟨pi, hpi⟩ := h.tcp
  obtain ⟨pi', hpi'⟩ := h₁.tcp
  exact ⟨h₁.child.trans h.child, pi', by rw [hpi', hpi]⟩

theorem SameProcess.childshm (h : SameProcess st st') : st'.tcp.childshm = st.tcp.childshm := by
  obtain ⟨pi, hpi⟩ := h.tcp
  rw [hpi]

theorem SameProcess.uArg (h : SameProcess st st') : st'.tcp.uArg = st.tcp.uArg := by
  obtain ⟨pi, hpi⟩ := h.tcp
  rw [hpi]

theorem SameProcess.settingUpShm (h : SameProcess st st') : st'.tcp.settingUpShm = st.tcp.settingUpShm := by
  obtain ⟨pi, hpi⟩ := h.tcp
  rw [hpi]

theorem printBeginExecveProv_ok (h : printBeginExecveProv env st = .ok st') :
    (st'.tcp, st'.child) = (st.tcp, st.child) ∧ (env.provMode = true → st'.log.length = st.log.length + 1) := by
  unfold printBeginExecveProv at h
  cases hprov : env.provMode with
  | false =>
    simp only [hprov, Bool.not_false, if_true] at h
    obtain rfl := Except.ok.inj h
    exact ⟨rfl, by simp⟩
  | true =>
    simp only [hprov, Bool.not_true, Bool.false_eq_true, if_false] at h
    obtain ⟨abspath, -, h⟩ := bind_eq_ok.1 h
    obtain rfl := Except.ok.inj h
    exact ⟨rfl, by simp⟩

/-- What has been recorded before the label `done`, with this value of `is_runable_count`. -/
def Counted (env : ExecEnv) (count : ℕ) (st st' : ExecState) : Prop :=
  (count = 0 ∧ st'.log = st.log) ∨
    (count ≠ 0 ∧ (env.provMode = true → st'.log.length = st.log.length + 1))

theorem leaveTracer_ok {count count' : ℕ} (hcount : count ≠ 0) (h : leaveTracer env count st = .ok (count', st')) :
    SameProcess st st' ∧ Counted env count' st st' := by
  unfold leaveTracer at h
  cases hatt : st.attached with
  | false =>
    simp only [hatt, Bool.not_false, if_true] at h
    obtain ⟨rfl, rfl⟩ := Prod.mk.inj (Except.ok.inj h)
    exact ⟨.refl _, .inl ⟨rfl, rfl⟩⟩
  | true =>
    simp only [hatt, Bool.not_true, Bool.false_eq_true, if_false] at h
    obtain ⟨st₁, h₁, h⟩ := bind_eq_ok.1 h
    obtain ⟨rfl, rfl⟩ := Prod.mk.inj (Except.ok.inj h)
    obtain ⟨hsame, hlog⟩ := printBeginExecveProv_ok h₁
    exact ⟨.of_eq hsame, .inr ⟨hcount, hlog⟩⟩

/-- The same for the search of the file. -/
def Executable.Counted (env : ExecEnv) (st st' : ExecState) : Executable → Prop
  | .done count => Ptu.Counted env count st st'
  | .found _ => st'.log = st.log

theorem statExecutable_counted {o : Option CString} (h : st'.log = st.log) :
    (statExecutable g o st').Counted env st st' := by
  unfold statExecutable
  split
  · exact .inl ⟨rfl, h⟩
  · split
    · exact h
    · exact .inl ⟨rfl, h⟩

theorem findExecutableExec_ok {x : Executable} (h : findExecutableExec env g exeFilename st = .ok (x, st')) :
    SameProcess st st' ∧ x.Counted env st st' := by
  unfold findExecutableExec at h
  obtain ⟨⟨pwd, e₁⟩, -, h⟩ := bind_eq_ok.1 h
  obtain ⟨abspath, -, h⟩ := bind_eq_ok.1 h
  by_cases hcde : isCdeBinary exeFilename = true
  · simp only [hcde, if_true] at h
    obtain ⟨⟨count, st₁⟩, hleave, h⟩ := bind_eq_ok.1 h
    obtain ⟨rfl, rfl⟩ := Prod.mk.inj (Except.ok.inj h)
    obtain ⟨hsame, hcount⟩ := leaveTracer_ok (by decide) hleave
    exact ⟨⟨hsame.child, hsame.tcp⟩, hcount⟩
  simp only [hcde, Bool.false_eq_true, if_false] at h
  obtain ⟨⟨ignored, e₂⟩, -, h⟩ := bind_eq_ok.1 h
  cases ignored with
  | true =>
    obtain ⟨rfl, rfl⟩ := Prod.mk.inj (Except.ok.inj h)
    exact ⟨⟨rfl, _, rfl⟩, .inl ⟨rfl, rfl⟩⟩
  | false =>
    simp only [Bool.false_eq_true, if_false] at h
    cases hpi : findProcessIgnore g abspath with
    | some pi =>
      simp only [hpi] at h
      obtain ⟨rfl, rfl⟩ := Prod.mk.inj (Except.ok.inj h)
      exact ⟨⟨rfl, _, rfl⟩, .inl ⟨rfl, rfl⟩⟩
    | none =>
      simp only [hpi] at h
      obtain ⟨⟨redirected, e₃⟩, -, h⟩ := bind_eq_ok.1 h
      obtain ⟨rfl, rfl⟩ := Prod.mk.inj (Except.ok.inj h)
      -- the environment of another repository may have been loaded
      split
      · split
        · exact ⟨⟨rfl, _, rfl⟩, statExecutable_counted rfl⟩
        · exact ⟨⟨rfl, _, rfl⟩, statExecutable_counted rfl⟩
      · exact ⟨⟨rfl, _, rfl⟩, statExecutable_counted rfl⟩

theorem findExecutableAudit_ok {x : Executable} (h : findExecutableAudit env g exeFilename st = .ok (x, st')) :
    SameProcess st st' ∧ x.Counted env st st' := by
  unfold findExecutableAudit at h
  obtain ⟨abspath, -, h⟩ := bind_eq_ok.1 h
  by_cases hcde : isCdeBinary abspath = true
  · simp only [hcde, if_true] at h
    obtain ⟨⟨count, st₁⟩, hleave, h⟩ := bind_eq_ok.1 h
    obtain ⟨rfl, rfl⟩ := Prod.mk.inj (Except.ok.inj h)
    exact leaveTracer_ok (by decide) hleave
  simp only [hcde, Bool.false_eq_true, if_false] at h
  cases hid : getRepoPathId g abspath with
  | none =>
    simp only [hid] at h
    obtain ⟨rfl, rfl⟩ := Prod.mk.inj (Except.ok.inj h)
    exact ⟨.refl _, statExecutable_counted rfl⟩
  | some id =>
    simp only [hid] at h
    split at h
    · obtain ⟨rfl, rfl⟩ := Prod.mk.inj (Except.ok.inj h)
      exact ⟨.refl _, .inl ⟨rfl, rfl⟩⟩
    · obtain ⟨rfl, rfl⟩ := Prod.mk.inj (Except.ok.inj h)
      exact ⟨.refl _, statExecutable_counted rfl⟩

theorem scriptInterpreter_ok {token o : Option CString}
    (h : scriptInterpreter g token st = .ok (o, st')) : SameProcess st st' ∧ st'.log = st.log := by
  unfold scriptInterpreter at h
  cases hex : g.execMode with
  | false =>
    simp only [hex, Bool.not_false, if_true] at h
    cases token with
    | none => cases h
    | some interpreter =>
      obtain ⟨-, rfl⟩ := Prod.mk.inj (Except.ok.inj h)
      exact ⟨.refl _, rfl⟩
  | true =>
    simp only [hex, Bool.not_true, Bool.false_eq_true, if_false] at h
    obtain ⟨⟨pwd, e₁⟩, -, h⟩ := bind_eq_ok.1 h
    obtain ⟨abspath, -, h⟩ := bind_eq_ok.1 h
    obtain ⟨⟨ignored, e₂⟩, -, h⟩ := bind_eq_ok.1 h
    cases ignored with
    | true =>
      obtain ⟨-, rfl⟩ := Prod.mk.inj (Except.ok.inj h)
      exact ⟨⟨rfl, _, rfl⟩, rfl⟩
    | false =>
      simp only [Bool.false_eq_true, if_false] at h
      cases hpi : findProcessIgnore g abspath with
      | some pi =>
        simp only [hpi] at h
        obtain ⟨-, rfl⟩ := Prod.mk.inj (Except.ok.inj h)
        exact ⟨⟨rfl, _, rfl⟩, rfl⟩
      | none =>
        simp only [hpi] at h
        cases token with
        | none => cases h
        | some interpreter =>
          obtain ⟨⟨redirected, e₃⟩, -, h⟩ := bind_eq_ok.1 h
          obtain ⟨-, rfl⟩ := Prod.mk.inj (Except.ok.inj h)
          exact ⟨⟨rfl, _, rfl⟩, rfl⟩

theorem identify_ok {target : Target} (h : identify env g path st = .ok (target, st')) :
    SameProcess st st' ∧ st'.log = st.log := by
  unfold identify at h
  cases hopen : fopen g path st.e with
  | none => simp only [hopen] at h; cases h
  | some content =>
    simp only [hopen] at h
    by_cases helf : content.take 4 = elfMagic
    · simp only [helf, if_true] at h
      obtain ⟨interp, -, h⟩ := bind_eq_ok.1 h
      obtain ⟨t, -, h⟩ := bind_eq_ok.1 h
      obtain ⟨-, rfl⟩ := Prod.mk.inj (Except.ok.inj h)
      exact ⟨.refl _, rfl⟩
    · simp only [helf, if_false] at h
      cases hcmd : getScriptCommand path content with
      | none => simp only [hcmd] at h; cases h
      | some command =>
        simp only [hcmd] at h
        obtain ⟨⟨filename, st₁⟩, h₁, h⟩ := bind_eq_ok.1 h
        have hsame := scriptInterpreter_ok h₁
        cases filename with
        | none =>
          obtain ⟨-, rfl⟩ := Prod.mk.inj (Except.ok.inj h)
          exact hsame
        | some filename =>
          obtain ⟨interp, -, h⟩ := bind_eq_ok.1 h
          obtain ⟨t, -, h⟩ := bind_eq_ok.1 h
          obtain ⟨-, rfl⟩ := Prod.mk.inj (Except.ok.inj h)
          exact hsame

theorem fixPerceived_ok (h : fixPerceived g st = .ok st') : SameProcess st st' ∧ st'.log = st.log := by
  unfold fixPerceived at h
  cases hperceived : st.perceivedProgramFullpath with
  | none =>
    simp only [hperceived] at h
    obtain rfl := Except.ok.inj h
    exact ⟨.refl _, rfl⟩
  | some perceived =>
    simp only [hperceived] at h
    obtain ⟨⟨redirected, e₁⟩, -, h⟩ := bind_eq_ok.1 h
    cases redirected with
    | none =>
      obtain rfl := Except.ok.inj h
      exact ⟨⟨rfl, _, rfl⟩, rfl⟩
    | some redirected =>
      obtain ⟨⟨pwd, e₂⟩, -, h⟩ := bind_eq_ok.1 h
      obtain rfl := Except.ok.inj h
      exact ⟨⟨rfl, _, rfl⟩, rfl⟩

/-- Behind the label `done`: a record is written if `is_runable_count` is 0. -/
theorem beginExecve_inv (h : beginExecve env g p st = .ok st') :
    ∃ count st₁, beginExecveBody env g p st = .ok (count, st₁) ∧ (st'.tcp, st'.child) = (st₁.tcp, st₁.child) ∧
      (env.provMode = true → st'.log.length = st₁.log.length + if count = 0 then 1 else 0) := by
  obtain ⟨⟨count, st₁⟩, hbody, h⟩ := bind_eq_ok.1 h
  refine ⟨count, st₁, hbody, ?_⟩
  by_cases hprint : (env.provMode && count == 0) = true
  · simp only [hprint, if_true] at h
    obtain ⟨hsame, hlog⟩ := printBeginExecveProv_ok h
    have hcount : count = 0 := by simpa using (Bool.and_eq_true_iff.1 hprint).2
    exact ⟨hsame, fun hprov => by rw [hlog hprov, if_pos hcount]⟩
  · simp only [hprint] at h
    obtain rfl := Except.ok.inj h
    refine ⟨rfl, fun hprov => ?_⟩
    have hcount : count ≠ 0 := by simpa [hprov] using hprint
    rw [if_neg hcount, Nat.add_zero]

/-- What is left of `CDE_begin_execve` where the file has been found. -/
theorem beginExecve_found (hexe : env.strcpyFromChild st.child.mem (st.tcp.uArg fileArg) = some exeFilename)
    (hexec : g.execMode = true →
      findExecutableExec env g exeFilename { st with tcp := { st.tcp with pIgnores := none } } = .ok (.found path, st₁))
    (haudit : g.execMode = false →
      findExecutableAudit env g exeFilename { st with tcp := { st.tcp with pIgnores := none } } =
        .ok (.found path, st₁)) :
    beginExecve env g p st = identify env g path st₁ >>= fun target =>
      executeTarget env g p exeFilename target.1 target.2 >>= fun count =>
        if env.provMode && count.1 == 0 then printBeginExecveProv env count.2 else return count.2 := by
  have hbody : beginExecveBody env g p st = identify env g path st₁ >>= fun target =>
      executeTarget env g p exeFilename target.1 target.2 := by
    unfold beginExecveBody
    simp only [hexe]
    cases hmode : g.execMode with
    | true =>
      rw [if_pos rfl, hexec hmode]
      rfl
    | false =>
      rw [if_neg Bool.false_ne_true, haudit hmode]
      rfl
  unfold beginExecve
  rw [hbody, bind_assoc]

/-! ## Scripts -/

section

variable {content : List Byte} {text ld : CString} {command : Option CString} {args argv : List Word}

/-- The command that a script with a first line `#!` and a text is executed with. -/
theorem identify_shebang (hopen : fopen g path st.e = some content)
    (hline : content.takeWhile (· != newline) = str "#!" ++ text) (hnul : 0 ∉ text) (hne : text ≠ [])
    (h : identify env g path st = .ok (.program ld command, st')) : command = some (strRstrip text) := by
  have helf : content.take 4 ≠ elfMagic := by
    intro helf
    have hhead : content.head? = some 0x7f := by
      have htake := congrArg List.head? helf
      rwa [List.head?_take, if_neg (by decide)] at htake
    have hhash : content.head? = some 0x23 := by
      have hpre : content.takeWhile (· != newline) <+: content := List.takeWhile_prefix _
      rw [hline] at hpre
      obtain ⟨rest, rfl⟩ := hpre
      rfl
    rw [hhead] at hhash
    exact absurd hhash (by decide)
  unfold identify at h
  simp only [hopen, helf, if_false, getScriptCommand_shebang hline hnul hne] at h
  obtain ⟨⟨filename, st₁⟩, -, h⟩ := bind_eq_ok.1 h
  cases filename with
  | none =>
    obtain ⟨htarget, -⟩ := Prod.mk.inj (Except.ok.inj h)
    cases htarget
  | some filename =>
    obtain ⟨interp, -, h⟩ := bind_eq_ok.1 h
    obtain ⟨target, htarget, h⟩ := bind_eq_ok.1 h
    obtain ⟨rfl, -⟩ := Prod.mk.inj (Except.ok.inj h)
    unfold targetOf at htarget
    split at htarget
    · cases Except.ok.inj htarget
    · split at htarget
      · obtain ⟨-, rfl⟩ := Target.program.inj (Except.ok.inj htarget)
        rfl
      · cases htarget

/-- A script of a dynamically linked program. -/
theorem identify_script {scriptCommand filename : CString} {file : List Byte} {found : Interp}
    (hopen : fopen g path st.e = some content) (helf : content.take 4 ≠ elfMagic)
    (hcommand : getScriptCommand path content = some scriptCommand)
    (hinterpreter : scriptInterpreter g (strtok scriptCommand blank).head? st = .ok (some filename, st'))
    (hfile : fopen g filename st'.e = some file)
    (hfound : findElfProgramInterpreter (some file) env.heap = .ok found) (hname : found.name = some ld)
    (habs : isAbspath ld = true) :
    identify env g path st = .ok (.program ld (some scriptCommand), st') := by
  unfold identify
  simp only [hopen, helf, if_false, hcommand]
  refine bind_eq_ok.2 ⟨_, hinterpreter, ?_⟩
  simp only [hfile]
  refine bind_eq_ok.2 ⟨_, hfound, ?_⟩
  simp only [targetOf, hname, habs, if_true]
  rfl

/-- A script whose interpreter cannot be opened. -/
theorem identify_unreadable {scriptCommand filename : CString} (hopen : fopen g path st.e = some content)
    (helf : content.take 4 ≠ elfMagic) (hcommand : getScriptCommand path content = some scriptCommand)
    (hinterpreter : scriptInterpreter g (strtok scriptCommand blank).head? st = .ok (some filename, st'))
    (hfile : fopen g filename st'.e = none) : identify env g path st = .error .assertion := by
  unfold identify
  simp only [hopen, helf, if_false, hcommand, hinterpreter, Except.bind, bind, hfile]
  rfl

theorem identify_static {found : Interp} (hopen : fopen g path st.e = some content) (helf : content.take 4 = elfMagic)
    (hfound : findElfProgramInterpreter (some content) env.heap = .ok found) (hname : found.name = none) :
    identify env g path st = .ok (.static true, st) := by
  unfold identify
  simp only [hopen, helf, if_true]
  refine bind_eq_ok.2 ⟨_, hfound, ?_⟩
  rw [hname]
  rfl

/-- With the linker of the package the tokens of the command are put behind it as they are. -/
theorem startScript_ok {ldLinuxFullpath scriptCommand : CString} (huse : env.useLinkerFromPackage = true)
    (h : startScript env g p ldLinuxFullpath scriptCommand st = .ok st') :
    scriptArgv p st.tcp true ldLinuxFullpath (strtok scriptCommand blank) st.child = .ok st'.child ∧
      st'.tcp = st.tcp ∧ st'.log = st.log := by
  unfold startScript at h
  simp only [huse, pure_bind] at h
  obtain ⟨child, hchild, h⟩ := bind_eq_ok.1 h
  obtain rfl := Except.ok.inj h
  exact ⟨hchild, rfl, rfl⟩

/-- A system call `execve` of a script with the first line `#!` and `text`, in exec mode and with
the linker of the package. The interpreter is a program that `ld` links. -/
structure ScriptCall (env : ExecEnv) (g : Cde) (st : ExecState) (text ld : CString) (st₂ : ExecState) :
    Prop where
  execMode : g.execMode = true
  linker : env.useLinkerFromPackage = true
  nul : 0 ∉ text
  interpreter : kernelInterpreter text ≠ []
  script : ∃ exeFilename path st₁ content command,
    env.strcpyFromChild st.child.mem (st.tcp.uArg fileArg) = some exeFilename ∧
    findExecutableExec env g exeFilename { st with tcp := { st.tcp with pIgnores := none } } =
      .ok (.found path, st₁) ∧
    fopen g path st₁.e = some content ∧
    content.takeWhile (· != newline) = str "#!" ++ text ∧
    identify env g path st₁ = .ok (.program ld command, st₂)

theorem ScriptCall.text_ne_nil (hcall : ScriptCall env g st text ld st₂) : text ≠ [] := by
  rintro rfl
  exact hcall.interpreter rfl

/-- Nothing of the process changes up to the layout of the new vector. -/
theorem ScriptCall.sameProcess (hcall : ScriptCall env g st text ld st₂) : SameProcess st st₂ := by
  obtain ⟨exe, path, st₁, content, command, -, hfind, -, -, hid⟩ := hcall.script
  obtain ⟨hsame₁, -⟩ := findExecutableExec_ok hfind
  obtain ⟨hsame₂, -⟩ := identify_ok hid
  have hsame : SameProcess st { st with tcp := { st.tcp with pIgnores := none } } := ⟨rfl, _, rfl⟩
  exact (hsame.trans hsame₁).trans hsame₂

/-- The vector is laid out for the linker within cde-root and the tokens of the command. -/
theorem ScriptCall.beginExecve (hcall : ScriptCall env g st text ld st₂) (hshm : st.tcp.childshm ≠ 0)
    (h : beginExecve env g p st = .ok st') :
    ∃ ldLinuxFullpath e, createAbspathWithinCderoot g ld st₂.e = .ok (ldLinuxFullpath, e) ∧
      scriptArgv p st₂.tcp true ldLinuxFullpath (strtok (strRstrip text) blank) st₂.child = .ok st'.child := by
  obtain ⟨exe, path, st₁, content, command, hexe, hfind, hopen, hline, hid⟩ := hcall.script
  obtain rfl := identify_shebang hopen hline hcall.nul hcall.text_ne_nil hid
  have hshm₂ : st₂.tcp.childshm ≠ 0 := by rwa [hcall.sameProcess.childshm]
  obtain ⟨count, st₃, hbody, hsame, -⟩ := beginExecve_inv h
  unfold beginExecveBody at hbody
  simp only [hexe, hcall.execMode, if_true] at hbody
  obtain ⟨⟨executable, st₁'⟩, hfind', hbody⟩ := bind_eq_ok.1 hbody
  obtain ⟨rfl, rfl⟩ := Prod.mk.inj (Except.ok.inj (hfind.symm.trans hfind'))
  obtain ⟨⟨target, st₂'⟩, hid', hbody⟩ := bind_eq_ok.1 hbody
  obtain ⟨rfl, rfl⟩ := Prod.mk.inj (Except.ok.inj (hid.symm.trans hid'))
  simp only [executeTarget, hshm₂, if_false, hcall.execMode, if_true] at hbody
  obtain ⟨st₄, hstart, hbody⟩ := bind_eq_ok.1 hbody
  obtain ⟨rfl, rfl⟩ := Prod.mk.inj (Except.ok.inj hbody)
  obtain ⟨⟨ldLinuxFullpath, e⟩, hld, hstart⟩ := bind_eq_ok.1 hstart
  obtain ⟨st₅, hscript, hfix⟩ := bind_eq_ok.1 hstart
  obtain ⟨hargv, -, -⟩ := startScript_ok hcall.linker hscript
  have hchild : st'.child = st₅.child := (SameProcess.of_eq hsame).child.trans (fixPerceived_ok hfix).1.child
  exact ⟨ldLinuxFullpath, e, hld, by rw [hchild]; exact hargv⟩

theorem SameProcess.argvMemory (hsame : SameProcess st st₂) (h : ArgvMemory p st.tcp st.child.mem args) :
    ArgvMemory p st₂.tcp st₂.child.mem args := by
  obtain ⟨pi, hpi⟩ := hsame.tcp
  rw [hsame.child, hpi]
  exact ⟨h.attached, h.segment, h.file, h.words, h.outside⟩

/-- **What the kernel finds in the new vector.** -/
theorem ScriptCall.decodes (hcall : ScriptCall env g st text ld st₂)
    (hmem : ArgvMemory p st.tcp st.child.mem args) (h : Ptu.beginExecve env g p st = .ok st') :
    ∃ ldLinuxFullpath e, createAbspathWithinCderoot g ld st₂.e = .ok (ldLinuxFullpath, e) ∧
      Decodes p st'.child.mem (st'.child.regs (argreg p argvArg))
        (.text ldLinuxFullpath :: ((strtok (strRstrip text) blank).map .text ++
          .pointer (st.tcp.uArg fileArg) :: args.map .pointer)) := by
  obtain ⟨ldLinuxFullpath, e, hld, hargv⟩ := hcall.beginExecve hmem.attached h
  refine ⟨ldLinuxFullpath, e, hld, ?_⟩
  rw [← hcall.sameProcess.uArg]
  exact scriptArgv_decodes (hcall.sameProcess.argvMemory hmem) hargv

/-- **The vector of a script is laid out if it fits into the segment.** -/
theorem ScriptCall.startScript_total (hcall : ScriptCall env g st text ld st₂)
    (hmem : ArgvMemory p st.tcp st.child.mem args) (ldLinuxFullpath : CString)
    (htokens : (strtok (strRstrip text) blank).length ≤ 200)
    (hroom : (ldLinuxFullpath ++ [0] ++ strings (strtok (strRstrip text) blank)).length +
      ((strtok (strRstrip text) blank).length + 2 + args.length) * wordsize p + 8 ≤ sharedPageSize) :
    ∃ st', startScript env g p ldLinuxFullpath (strRstrip text) st₂ = .ok st' := by
  obtain ⟨child, hchild⟩ := scriptArgv_total (hcall.sameProcess.argvMemory hmem) htokens hroom
  unfold startScript
  simp only [hcall.linker, pure_bind]
  exact ⟨_, bind_eq_ok.2 ⟨child, hchild, rfl⟩⟩

/-- What the kernel passes for a script that is executed with `argv`, behind the linker: the words
of the first line, the script as `execve` names it, and `argv[1]`, `argv[2]`, …. -/
def kernelArgv (text ldLinuxFullpath : CString) (file : Word) (argv : List Word) : List ArgvEntry :=
  .text ldLinuxFullpath :: ((kernelWords text).map .text ++ .pointer file :: argv.tail.map .pointer)

/-- **A script is replayed with the kernel's own argument vector exactly if its first line is
plain.** `args` are the words that the tracer reads from `argv[1]` on; behind an empty `argv` these
are no arguments, but they are passed as such. -/
theorem script_argv_iff (hcall : ScriptCall env g st text ld st₂)
    (hargv : WordsAt p st.child.mem (st.tcp.uArg argvArg) argv)
    (hmem : ArgvMemory p st.tcp st.child.mem args) (h : beginExecve env g p st = .ok st') :
    ∃ ldLinuxFullpath e, createAbspathWithinCderoot g ld st₂.e = .ok (ldLinuxFullpath, e) ∧
      (argv ≠ [] → (Decodes p st'.child.mem (st'.child.regs (argreg p argvArg))
        (kernelArgv text ldLinuxFullpath (st.tcp.uArg fileArg) argv) ↔ PlainShebang text)) ∧
      (argv = [] → PlainShebang text → (Decodes p st'.child.mem (st'.child.regs (argreg p argvArg))
        (kernelArgv text ldLinuxFullpath (st.tcp.uArg fileArg) argv) ↔ args = [])) := by
  obtain ⟨ldLinuxFullpath, e, hld, hdec⟩ := hcall.decodes hmem h
  have hplain := strtok_eq_kernelWords_iff hcall.interpreter
  refine ⟨ldLinuxFullpath, e, hld, fun hne => ⟨fun hkernel => ?_, fun htext => ?_⟩,
    fun hnil htext => ⟨fun hkernel => ?_, fun hargs => ?_⟩⟩
  · -- the vector is read in one way only, so the tokens are the words of the kernel
    obtain ⟨v, vs, rfl⟩ := List.exists_cons_of_ne_nil hne
    obtain rfl := hmem.words.unique hargv.2.2
    refine hplain.1 (hdec.tokens_unique hkernel (fun t ht h0 => ?_) (fun t ht h0 => ?_))
    · obtain ⟨ws, htext, -⟩ := strRstrip_eq_append text
      apply hcall.nul
      rw [htext]
      exact List.mem_append_left _ (strtok_subset t ht h0)
    · exact hcall.nul (kernelWords_subset t ht h0)
  · obtain ⟨v, vs, rfl⟩ := List.exists_cons_of_ne_nil hne
    obtain rfl := hmem.words.unique hargv.2.2
    rwa [hplain.2 htext] at hdec
  · have hlen := hdec.length_eq hkernel
    rw [hplain.2 htext, hnil] at hlen
    simpa [kernelArgv] using hlen
  · rw [hplain.2 htext, hargs] at hdec
    rwa [hnil]

/-- A file `s` and the dynamically linked program `bin/sh` in the directory `root`. -/
def smallTree (root : List CString) (content : List Byte) : Fs :=
  Fs.ofList (root.inits.map (·, .dir) ++ [(root ++ [str "s"], .file ⟨content, 0⟩),
    (root ++ [str "bin"], .dir), (root ++ [str "bin", str "sh"], .file ⟨tinyFile, 0⟩)])

def smallEnv : ExecEnv where
  strcpyFromChild := readString 8
  printArgProv _ _ := []

/-- A native process at `execve("/s", {"/s", "x", NULL}, …)`. -/
def execveState (childshm : Word) : ExecState where
  tcp := {
    uArg := fun i => if i = fileArg then 0x1000 else if i = argvArg then 0x2000 else 0
    currentDir := str "/opt/cde-package/cde-root"
    childshm }
  child := {
    regs := Regs.set (Regs.set (fun _ => 0) .rdi 0x1000) .rsi 0x2000
    mem := ((Mem.store (fun _ => none) 0x1000 (str "/s" ++ [0])).store 0x2000
      (words .native [0x1000, 0x3000, 0])).store 0x3000 (str "x" ++ [0]) }

/-- The file in the package has this content. -/
def packageState (childshm : Word) (content : List Byte) : ExecState :=
  { execveState childshm with
    e := { fs := smallTree [str "opt", str "cde-package", str "cde-root"] content } }

theorem execveState_argvMemory :
    ArgvMemory .native (execveState 0x7000).tcp (execveState 0x7000).child.mem [0x3000] where
  attached := by decide
  segment := by decide
  file := by decide
  words := by
    refine ⟨by decide, ⟨by decide, ?_⟩, by decide, ?_⟩
    all_goals unfold Holds; decide +kernel
  outside := by unfold Outside; decide +kernel

theorem execveState_argv :
    WordsAt .native (execveState 0x7000).child.mem ((execveState 0x7000).tcp.uArg argvArg) [0x1000, 0x3000] := by
  refine ⟨by decide, ⟨by decide, ?_⟩, execveState_argvMemory.words⟩
  unfold Holds
  decide +kernel

/-- A process in the root of the package, in which `/s` has this content. -/
structure InPackage (content : List Byte) (st : ExecState) : Prop where
  e : st.e = (packageState 0 content).e
  currentDir : st.tcp.currentDir = str "/opt/cde-package/cde-root"
  pIgnores : st.tcp.pIgnores = none

theorem packageState_inPackage (childshm : Word) (content : List Byte) :
    InPackage content (packageState childshm content) := ⟨rfl, rfl, rfl⟩

/-- `/s` is executed. -/
theorem InPackage.beginExecve {target : Target} {count : ℕ} (h : InPackage content st)
    (hread : readString 8 st.child.mem (st.tcp.uArg fileArg) = some (str "/s"))
    (hid : identify smallEnv optReplay (str "/opt/cde-package/cde-root/s") st = .ok (target, st))
    (htarget : executeTarget smallEnv optReplay p (str "/s") target st = .ok (count, st''))
    (hrecord : (if count = 0 then printBeginExecveProv smallEnv st'' else .ok st'') = .ok st') :
    beginExecve smallEnv optReplay p st = .ok st' := by
  have hfind : findExecutableExec smallEnv optReplay (str "/s") { st with tcp := { st.tcp with pIgnores := none } } =
      .ok (.found (str "/opt/cde-package/cde-root/s"), st) := by
    obtain ⟨he, hdir, hpi⟩ := h
    obtain ⟨⟨uArg, currentDir, pIgnores⟩, child, e⟩ := st
    obtain rfl : e = (packageState 0 content).e := he
    obtain rfl : currentDir = str "/opt/cde-package/cde-root" := hdir
    obtain rfl : pIgnores = none := hpi
    rfl
  rw [beginExecve_found hread (fun _ => hfind) (fun haudit => by cases haudit), hid]
  refine bind_eq_ok.2 ⟨_, rfl, bind_eq_ok.2 ⟨_, htarget, ?_⟩⟩
  simpa [smallEnv, pure, Except.pure] using hrecord

/-- A script of `/bin/sh` needs the linker of the program. -/
theorem InPackage.identify_sh {scriptCommand : CString} (h : InPackage content st)
    (helf : content.take 4 ≠ elfMagic)
    (hcommand : getScriptCommand (str "/opt/cde-package/cde-root/s") content = some scriptCommand)
    (htoken : (strtok scriptCommand blank).head? = some (str "/bin/sh")) :
    identify smallEnv optReplay (str "/opt/cde-package/cde-root/s") st =
      .ok (.program (str "/lib/ld.so") (some scriptCommand), st) := by
  obtain ⟨found, hfound, hname⟩ := findElfProgramInterpreter_tinyFile smallEnv.heap
  have hopen : fopen optReplay (str "/opt/cde-package/cde-root/s") st.e = some content := by rw [h.e]; rfl
  have hsh : fopen optReplay (str "/opt/cde-package/cde-root/bin/sh") st.e = some tinyFile := by rw [h.e]; rfl
  have hinterpreter : scriptInterpreter optReplay (some (str "/bin/sh")) st =
      .ok (some (str "/opt/cde-package/cde-root/bin/sh"), st) := by
    obtain ⟨he, hdir, hpi⟩ := h
    obtain ⟨⟨uArg, currentDir, pIgnores⟩, child, e⟩ := st
    obtain rfl : e = (packageState 0 content).e := he
    obtain rfl : currentDir = str "/opt/cde-package/cde-root" := hdir
    obtain rfl : pIgnores = none := hpi
    rfl
  rw [← htoken] at hinterpreter
  exact identify_script hopen helf hcommand hinterpreter hsh hfound hname rfl

theorem script_argv_iff_option :
    ∃ st', beginExecve smallEnv optReplay .native (packageState 0x7000 (str "#!/bin/sh -e\n")) = .ok st' ∧
      Decodes .native st'.child.mem (st'.child.regs (argreg .native argvArg))
        [.text (str "/opt/cde-package/cde-root/lib/ld.so"), .text (str "/bin/sh"), .text (str "-e"),
          .pointer 0x1000, .pointer 0x3000] := by
  have hin := packageState_inPackage 0x7000 (str "#!/bin/sh -e\n")
  have hid := hin.identify_sh (by decide) rfl rfl
  have hcall : ScriptCall smallEnv optReplay (packageState 0x7000 (str "#!/bin/sh -e\n"))
      (str "/bin/sh -e") (str "/lib/ld.so") _ :=
    ⟨rfl, rfl, by decide, by decide, _, _, _, _, _, rfl, rfl, rfl, by decide, hid⟩
  obtain ⟨st', h⟩ : ∃ st', beginExecve smallEnv optReplay .native (packageState 0x7000 (str "#!/bin/sh -e\n")) =
      .ok st' := ⟨_, hin.beginExecve rfl hid rfl rfl⟩
  obtain ⟨ld, e, hld, hiff, -⟩ := script_argv_iff hcall execveState_argv execveState_argvMemory h
  obtain ⟨rfl, -⟩ := Prod.mk.inj (Except.ok.inj hld)
  exact ⟨st', h, (hiff (by simp)).2 (by decide)⟩

/-- The kernel passes `-e -x` as one argument, the tracer as two. -/
theorem script_argv_two_options :
    ∃ st', beginExecve smallEnv optReplay .native (packageState 0x7000 (str "#!/bin/sh -e -x\n")) = .ok st' ∧
      Decodes .native st'.child.mem (st'.child.regs (argreg .native argvArg))
        [.text (str "/opt/cde-package/cde-root/lib/ld.so"), .text (str "/bin/sh"), .text (str "-e"),
          .text (str "-x"), .pointer 0x1000, .pointer 0x3000] ∧
      ¬ Decodes .native st'.child.mem (st'.child.regs (argreg .native argvArg))
        [.text (str "/opt/cde-package/cde-root/lib/ld.so"), .text (str "/bin/sh"), .text (str "-e -x"),
          .pointer 0x1000, .pointer 0x3000] := by
  have hin := packageState_inPackage 0x7000 (str "#!/bin/sh -e -x\n")
  have hid := hin.identify_sh (by decide) rfl rfl
  have hcall : ScriptCall smallEnv optReplay (packageState 0x7000 (str "#!/bin/sh -e -x\n"))
      (str "/bin/sh -e -x") (str "/lib/ld.so") _ :=
    ⟨rfl, rfl, by decide, by decide, _, _, _, _, _, rfl, rfl, rfl, by decide, hid⟩
  obtain ⟨st', h⟩ : ∃ st', beginExecve smallEnv optReplay .native (packageState 0x7000 (str "#!/bin/sh -e -x\n")) =
      .ok st' := ⟨_, hin.beginExecve rfl hid rfl rfl⟩
  obtain ⟨ld, e, hld, hdec⟩ := hcall.decodes execveState_argvMemory h
  obtain ⟨rfl, -⟩ := Prod.mk.inj (Except.ok.inj hld)
  exact ⟨st', h, hdec, fun hkernel => absurd (hdec.length_eq hkernel) (by decide)⟩

end

/-! ## Records -/

/-- With one path, the segment is asked for only where the path is redirected. -/
theorem modifySyscallSingleArg_ok {tcp tcp' : ShmTcb} {child child' : Child} {e e' : Effects} {argNum : ℕ}
    {filename : CString} (h : modifySyscallSingleArg g p tcp argNum filename child e = .ok (tcp', child', e')) :
    ∃ redirected e₁, redirectFilenameIntoCderoot g filename tcp.currentDir tcp.pIgnores e =
        .ok (redirected, e₁) ∧
      if redirected.isSome ∧ tcp.childshm = 0 then tcp'.settingUpShm = true else tcp' = tcp := by
  unfold modifySyscallSingleArg at h
  cases hex : g.execMode with
  | false => simp only [hex, Bool.not_false, if_true] at h; cases h
  | true =>
    simp only [hex, Bool.not_true, Bool.false_eq_true, if_false] at h
    obtain ⟨⟨redirected, e₁⟩, hredirect, h⟩ := bind_eq_ok.1 h
    refine ⟨redirected, e₁, hredirect, ?_⟩
    cases redirected with
    | none =>
      obtain ⟨rfl, -⟩ := Prod.mk.inj (Except.ok.inj h)
      simp
    | some r =>
      by_cases hshm : tcp.childshm = 0
      · simp only [hshm, if_true] at h
        obtain ⟨⟨tcp₁, child₁⟩, hbegin, h⟩ := bind_eq_ok.1 h
        obtain ⟨rfl, -⟩ := Prod.mk.inj (Except.ok.inj h)
        simpa [hshm] using (beginSetupShmat_ok hbegin).started
      · simp only [hshm, if_false] at h
        obtain ⟨child₁, -, h⟩ := bind_eq_ok.1 h
        rw [if_neg fun hcase => hshm hcase.2]
        by_cases hone : argNum = 1
        · simp only [hone, if_true] at h
          exact (Prod.mk.inj (Except.ok.inj h)).1.symm
        · by_cases htwo : argNum = 2
          · simp only [htwo, ne_eq, not_true_eq_false, if_false] at h
            exact (Prod.mk.inj (Except.ok.inj h)).1.symm
          · simp only [hone, htwo, ne_eq, not_false_eq_true, if_true, if_false] at h
            cases h

theorem startScript_frame {ldLinuxFullpath scriptCommand : CString}
    (h : startScript env g p ldLinuxFullpath scriptCommand st = .ok st') :
    st'.tcp = st.tcp ∧ st'.log = st.log := by
  cases huse : env.useLinkerFromPackage with
  | true => exact (startScript_ok huse h).2
  | false =>
    unfold startScript at h
    cases htokens : strtok scriptCommand blank with
    | nil =>
      simp only [huse, htokens, pure_bind] at h
      obtain ⟨child, -, h⟩ := bind_eq_ok.1 h
      obtain rfl := Except.ok.inj h
      exact ⟨rfl, rfl⟩
    | cons token tokens =>
      simp only [huse, htokens] at h
      obtain ⟨⟨redirected, e⟩, -, h⟩ := bind_eq_ok.1 h
      cases redirected with
      | none => cases h
      | some redirected =>
        simp only [pure_bind] at h
        obtain ⟨child, -, h⟩ := bind_eq_ok.1 h
        obtain rfl := Except.ok.inj h
        exact ⟨rfl, rfl⟩

theorem startElf_frame {ldLinuxFullpath : CString}
    (h : startElf env g p exeFilename ldLinuxFullpath st = .ok st') (hshm : st.tcp.childshm ≠ 0) :
    st'.tcp = st.tcp ∧ st'.log = st.log := by
  unfold startElf at h
  cases hread : env.strcpyFromChild st.child.mem (st.tcp.uArg fileArg) with
  | none => simp only [hread] at h; cases h
  | some perceived =>
    simp only [hread] at h
    obtain ⟨⟨perceived', e⟩, -, h⟩ := bind_eq_ok.1 h
    obtain ⟨⟨newArgvRaw, child⟩, -, h⟩ := bind_eq_ok.1 h
    cases huse : env.useLinkerFromPackage with
    | true =>
      simp only [huse, if_true] at h
      obtain rfl := Except.ok.inj h
      exact ⟨rfl, rfl⟩
    | false =>
      simp only [huse, Bool.false_eq_true, if_false] at h
      obtain ⟨⟨tcp, child', e'⟩, hmodify, h⟩ := bind_eq_ok.1 h
      obtain rfl := Except.ok.inj h
      obtain ⟨redirected, e₁, -, hcase⟩ := modifySyscallSingleArg_ok hmodify
      rw [if_neg fun hcase => hshm hcase.2] at hcase
      exact ⟨hcase, rfl⟩

/-- What the tracer does to start a program in a process that has the segment. -/
theorem startProgram_ok {ld : CString} {command : Option CString} (hshm : st.tcp.childshm ≠ 0)
    (h : startProgram env g p exeFilename ld command st = .ok st') :
    st'.tcp.settingUpShm = st.tcp.settingUpShm ∧ st'.log = st.log := by
  obtain ⟨⟨ldLinuxFullpath, e⟩, -, h⟩ := bind_eq_ok.1 h
  obtain ⟨st₁, ⟨htcp, hlog⟩, hfix⟩ :
      ∃ st₁, (st₁.tcp = st.tcp ∧ st₁.log = st.log) ∧ fixPerceived g st₁ = .ok st' := by
    cases command with
    | some command =>
      obtain ⟨st₁, hstart, hfix⟩ := bind_eq_ok.1 h
      obtain ⟨htcp, hlog⟩ := startScript_frame hstart
      exact ⟨st₁, ⟨htcp, hlog⟩, hfix⟩
    | none =>
      obtain ⟨st₁, hstart, hfix⟩ := bind_eq_ok.1 h
      obtain ⟨htcp, hlog⟩ := startElf_frame hstart hshm
      exact ⟨st₁, ⟨htcp, hlog⟩, hfix⟩
  obtain ⟨hsame, hlog'⟩ := fixPerceived_ok hfix
  exact ⟨by rw [hsame.settingUpShm, htcp], hlog'.trans hlog⟩

theorem copyProgram_ok {ld : CString} {command : Option CString}
    (h : copyProgram g exeFilename ld command st = .ok st') : st'.tcp = st.tcp ∧ st'.log = st.log := by
  unfold copyProgram at h
  obtain ⟨e₁, -, h⟩ := bind_eq_ok.1 h
  obtain ⟨e₂, -, h⟩ := bind_eq_ok.1 h
  split at h
  · split at h
    · obtain ⟨e₃, -, h⟩ := bind_eq_ok.1 h
      obtain rfl := Except.ok.inj h
      exact ⟨rfl, rfl⟩
    · obtain rfl := Except.ok.inj h
      exact ⟨rfl, rfl⟩
  · obtain rfl := Except.ok.inj h
    exact ⟨rfl, rfl⟩

/-- A program without an interpreter, or a script of one, is executed in exec mode by a process
that has no segment yet, and its path is redirected. -/
def NeedsSegment (g : Cde) (exeFilename : CString) (target : Target) (st : ExecState) : Prop :=
  g.execMode = true ∧ st.tcp.childshm = 0 ∧ (∃ isElf, target = .static isElf) ∧
    ∃ redirected e, redirectFilenameIntoCderoot g exeFilename st.tcp.currentDir st.tcp.pIgnores st.e =
      .ok (some redirected, e)

theorem executeTarget_static {isElf : Bool} {count : ℕ}
    (h : executeTarget env g p exeFilename (.static isElf) st = .ok (count, st')) :
    count = 0 ∧ st'.log = st.log ∧
      ((NeedsSegment g exeFilename (.static isElf) st ∧ st'.tcp.settingUpShm = true) ∨
        (¬ NeedsSegment g exeFilename (.static isElf) st ∧ st'.tcp = st.tcp)) := by
  cases hex : g.execMode with
  | false =>
    have hno : ¬ NeedsSegment g exeFilename (.static isElf) st := fun hneeds => by
      rw [hneeds.1] at hex
      cases hex
    simp only [executeTarget, hex, Bool.false_eq_true, if_false] at h
    split at h
    · obtain ⟨e, -, h⟩ := bind_eq_ok.1 h
      obtain ⟨rfl, rfl⟩ := Prod.mk.inj (Except.ok.inj h)
      exact ⟨rfl, rfl, .inr ⟨hno, rfl⟩⟩
    · obtain ⟨rfl, rfl⟩ := Prod.mk.inj (Except.ok.inj h)
      exact ⟨rfl, rfl, .inr ⟨hno, rfl⟩⟩
  | true =>
    simp only [executeTarget, hex, if_true] at h
    obtain ⟨⟨tcp, child, e⟩, hmodify, h⟩ := bind_eq_ok.1 h
    obtain ⟨rfl, rfl⟩ := Prod.mk.inj (Except.ok.inj h)
    refine ⟨rfl, rfl, ?_⟩
    obtain ⟨redirected, e₁, hredirect, hcase⟩ := modifySyscallSingleArg_ok hmodify
    split at hcase
    · rename_i hneeds
      obtain ⟨r, rfl⟩ := Option.isSome_iff_exists.1 hneeds.1
      exact .inl ⟨⟨hex, hneeds.2, ⟨_, rfl⟩, r, e₁, hredirect⟩, hcase⟩
    · rename_i hno
      refine .inr ⟨?_, hcase⟩
      rintro ⟨-, hshm, -, r, e₂, hr⟩
      rw [hr] at hredirect
      obtain ⟨rfl, -⟩ := Prod.mk.inj (Except.ok.inj hredirect)
      exact hno ⟨rfl, hshm⟩

theorem executeTarget_program {ld : CString} {command : Option CString} {count : ℕ}
    (h : executeTarget env g p exeFilename (.program ld command) st = .ok (count, st')) :
    st'.log = st.log ∧
      ((st.tcp.childshm = 0 ∧ count ≠ 0 ∧ st'.tcp.settingUpShm = true) ∨
        (count = 0 ∧ st'.tcp.settingUpShm = st.tcp.settingUpShm)) := by
  by_cases hshm : st.tcp.childshm = 0
  · simp only [executeTarget, hshm, if_true] at h
    obtain ⟨⟨tcp, child⟩, hbegin, h⟩ := bind_eq_ok.1 h
    obtain ⟨rfl, rfl⟩ := Prod.mk.inj (Except.ok.inj h)
    exact ⟨rfl, .inl ⟨hshm, by decide, (beginSetupShmat_ok hbegin).started⟩⟩
  · simp only [executeTarget, hshm, if_false] at h
    cases hex : g.execMode with
    | true =>
      simp only [hex, if_true] at h
      obtain ⟨st₁, hstart, h⟩ := bind_eq_ok.1 h
      obtain ⟨rfl, rfl⟩ := Prod.mk.inj (Except.ok.inj h)
      obtain ⟨hset, hlog⟩ := startProgram_ok hshm hstart
      exact ⟨hlog, .inr ⟨rfl, hset⟩⟩
    | false =>
      simp only [hex, Bool.false_eq_true, if_false] at h
      obtain ⟨st₁, hcopy, h⟩ := bind_eq_ok.1 h
      obtain ⟨rfl, rfl⟩ := Prod.mk.inj (Except.ok.inj h)
      obtain ⟨htcp, hlog⟩ := copyProgram_ok hcopy
      exact ⟨hlog, .inr ⟨rfl, by rw [htcp]⟩⟩

/-- The call is one that is recorded twice: the file is found, it has no interpreter, and its
path is redirected before the process has a segment. -/
def StaticWithoutSegment (env : ExecEnv) (g : Cde) (st : ExecState) : Prop :=
  ∃ exeFilename path st₁ target st₂,
    env.strcpyFromChild st.child.mem (st.tcp.uArg fileArg) = some exeFilename ∧
    findExecutableExec env g exeFilename { st with tcp := { st.tcp with pIgnores := none } } =
      .ok (.found path, st₁) ∧
    identify env g path st₁ = .ok (target, st₂) ∧ NeedsSegment g exeFilename target st₂

theorem StaticWithoutSegment.execMode (h : StaticWithoutSegment env g st) : g.execMode = true := by
  obtain ⟨exe, path, st₁, target, st₂, -, -, -, hneeds⟩ := h
  exact hneeds.1

theorem StaticWithoutSegment.childshm (h : StaticWithoutSegment env g st) : st.tcp.childshm = 0 := by
  obtain ⟨exe, path, st₁, target, st₂, -, hfind, hid, hneeds⟩ := h
  have hsame := (findExecutableExec_ok hfind).1.trans (identify_ok hid).1
  exact hsame.childshm.symm.trans hneeds.2.1

/-- Which case it is has been decided when the file has been looked at. -/
theorem staticWithoutSegment_iff {target : Target}
    (hexe : env.strcpyFromChild st.child.mem (st.tcp.uArg fileArg) = some exeFilename)
    (hfind : g.execMode = true →
      findExecutableExec env g exeFilename { st with tcp := { st.tcp with pIgnores := none } } =
        .ok (.found path, st₁))
    (hid : identify env g path st₁ = .ok (target, st₂)) :
    StaticWithoutSegment env g st ↔ NeedsSegment g exeFilename target st₂ := by
  constructor
  · intro hstatic
    obtain ⟨exe', path', st₁', target', st₂', hexe', hfind', hid', hneeds⟩ := id hstatic
    obtain rfl := Option.some.inj (hexe.symm.trans hexe')
    obtain ⟨hpath, rfl⟩ := Prod.mk.inj (Except.ok.inj ((hfind hstatic.execMode).symm.trans hfind'))
    obtain rfl := Executable.found.inj hpath
    obtain ⟨rfl, rfl⟩ := Prod.mk.inj (Except.ok.inj (hid.symm.trans hid'))
    exact hneeds
  · intro hneeds
    exact ⟨exeFilename, path, st₁, target, st₂, hexe, hfind hneeds.1, hid, hneeds⟩

/-- The search of the file, in either mode. -/
theorem beginExecveBody_inv {count : ℕ} (h : beginExecveBody env g p st = .ok (count, st')) :
    ∃ exeFilename executable st₁,
      env.strcpyFromChild st.child.mem (st.tcp.uArg fileArg) = some exeFilename ∧
      (g.execMode = true →
        findExecutableExec env g exeFilename { st with tcp := { st.tcp with pIgnores := none } } =
          .ok (executable, st₁)) ∧
      SameProcess st st₁ ∧ executable.Counted env st st₁ ∧
      ((executable = .done count ∧ st' = st₁) ∨ ∃ path target st₂, executable = .found path ∧
        identify env g path st₁ = .ok (target, st₂) ∧
        executeTarget env g p exeFilename target st₂ = .ok (count, st')) := by
  unfold beginExecveBody at h
  cases hexe : env.strcpyFromChild st.child.mem (st.tcp.uArg fileArg) with
  | none => simp only [hexe] at h; cases h
  | some exeFilename =>
    simp only [hexe] at h
    have hsame : SameProcess st { st with tcp := { st.tcp with pIgnores := none } } := ⟨rfl, _, rfl⟩
    cases hex : g.execMode with
    | true =>
      simp only [hex, if_true] at h
      obtain ⟨⟨executable, st₁⟩, hfind, h⟩ := bind_eq_ok.1 h
      obtain ⟨hsame₁, hcount⟩ := findExecutableExec_ok hfind
      refine ⟨exeFilename, executable, st₁, rfl, fun _ => hfind, hsame.trans hsame₁, hcount, ?_⟩
      cases executable with
      | done count' =>
        obtain ⟨rfl, rfl⟩ := Prod.mk.inj (Except.ok.inj h)
        exact .inl ⟨rfl, rfl⟩
      | found path =>
        obtain ⟨⟨target, st₂⟩, hid, h⟩ := bind_eq_ok.1 h
        exact .inr ⟨path, target, st₂, rfl, hid, h⟩
    | false =>
      simp only [hex, Bool.false_eq_true, if_false] at h
      obtain ⟨⟨executable, st₁⟩, hfind, h⟩ := bind_eq_ok.1 h
      obtain ⟨hsame₁, hcount⟩ := findExecutableAudit_ok hfind
      refine ⟨exeFilename, executable, st₁, rfl, by simp, hsame.trans hsame₁, hcount, ?_⟩
      cases executable with
      | done count' =>
        obtain ⟨rfl, rfl⟩ := Prod.mk.inj (Except.ok.inj h)
        exact .inl ⟨rfl, rfl⟩
      | found path =>
        obtain ⟨⟨target, st₂⟩, hid, h⟩ := bind_eq_ok.1 h
        exact .inr ⟨path, target, st₂, rfl, hid, h⟩

/-- **How `CDE_begin_execve` comes to the label `done`**: with the segment asked for by
`modify_syscall_single_arg`, with the segment asked for in a pass that is not recorded, or with
nothing left to do but the record. -/
theorem beginExecveBody_cases {count : ℕ} (h : beginExecveBody env g p st = .ok (count, st')) :
    (StaticWithoutSegment env g st ∧ count = 0 ∧ st'.log = st.log ∧ st'.tcp.settingUpShm = true) ∨
    (¬ StaticWithoutSegment env g st ∧ st.tcp.childshm = 0 ∧ count ≠ 0 ∧ st'.log = st.log ∧
      st'.tcp.settingUpShm = true) ∨
    (¬ StaticWithoutSegment env g st ∧ st'.tcp.settingUpShm = st.tcp.settingUpShm ∧
      Counted env count st st') := by
  obtain ⟨exeFilename, executable, st₁, hexe, hfind, hsame, hcount, ⟨rfl, rfl⟩ | hfound⟩ := beginExecveBody_inv h
  · refine .inr (.inr ⟨fun hstatic => ?_, hsame.settingUpShm, hcount⟩)
    obtain ⟨exe', path', st₁', target', st₂', hexe', hfind', -, -⟩ := id hstatic
    obtain rfl := Option.some.inj (hexe.symm.trans hexe')
    obtain ⟨hpath, -⟩ := Prod.mk.inj (Except.ok.inj ((hfind hstatic.execMode).symm.trans hfind'))
    cases hpath
  · obtain ⟨path, target, st₂, rfl, hid, htarget⟩ := hfound
    have hiff := staticWithoutSegment_iff hexe hfind hid
    obtain ⟨hsame₂, hlog₂⟩ := identify_ok hid
    have hsame := hsame.trans hsame₂
    have hlog : st₂.log = st.log := hlog₂.trans hcount
    rw [hiff, ← hsame.childshm, ← hsame.settingUpShm]
    cases target with
    | punt =>
      obtain ⟨rfl, rfl⟩ := Prod.mk.inj (Except.ok.inj htarget)
      refine .inr (.inr ⟨?_, rfl, .inl ⟨rfl, hlog⟩⟩)
      rintro ⟨-, -, ⟨isElf, hno⟩, -⟩
      cases hno
    | static isElf =>
      obtain ⟨hzero, hlog', ⟨hneeds, hset⟩ | ⟨hno, htcp⟩⟩ := executeTarget_static htarget
      · exact .inl ⟨hneeds, hzero, hlog'.trans hlog, hset⟩
      · exact .inr (.inr ⟨hno, by rw [htcp], .inl ⟨hzero, hlog'.trans hlog⟩⟩)
    | program ld command =>
      have hno : ¬ NeedsSegment g exeFilename (.program ld command) st₂ := by
        rintro ⟨-, -, ⟨isElf, hno⟩, -⟩
        cases hno
      obtain ⟨hlog', ⟨hshm, hne, hset⟩ | ⟨hzero, hset⟩⟩ := executeTarget_program htarget
      · exact .inr (.inl ⟨hno, hshm, hne, hlog'.trans hlog, hset⟩)
      · exact .inr (.inr ⟨hno, hset, .inl ⟨hzero, hlog'.trans hlog⟩⟩)

/-- The kernel attaches the segment and the call is executed again: `st₂` is the next entry stop
of the process that was left in `st₁`. -/
def Reissued (p : Personality) (st₁ st₂ : ExecState) : Prop :=
  ∃ child₂ a tcp' child', ShmatDone p st₁.child child₂ a ∧
    finishSetupShmat p st₁.tcp child₂ = .ok (tcp', child') ∧
    st₂ = { st₁ with tcp := tcp', child := { child' with regs := sysEnter p child'.regs } }

/-- All passes of `CDE_begin_execve` for one `execve` that the process issues: a pass in which the
segment is asked for is followed by another one. -/
inductive ExecveCall (env : ExecEnv) (g : Cde) (p : Personality) : ExecState → ExecState → Prop
  | once {st st' : ExecState} (h : beginExecve env g p st = .ok st') (hset : st'.tcp.settingUpShm = false) :
    ExecveCall env g p st st'
  | again {st st₁ st₂ st' : ExecState} (h : beginExecve env g p st = .ok st₁)
    (hset : st₁.tcp.settingUpShm = true) (hreissued : Reissued p st₁ st₂)
    (hagain : ExecveCall env g p st₂ st') : ExecveCall env g p st st'

/-- A pass writes one record, except for one that asks for the segment of a program with an
interpreter. -/
theorem beginExecve_pass (hprov : env.provMode = true) (h : beginExecve env g p st = .ok st') :
    (StaticWithoutSegment env g st ∧ st'.log.length = st.log.length + 1 ∧ st'.tcp.settingUpShm = true) ∨
    (¬ StaticWithoutSegment env g st ∧ st'.log.length = st.log.length ∧ st'.tcp.settingUpShm = true) ∨
    (¬ StaticWithoutSegment env g st ∧ st'.log.length = st.log.length + 1 ∧
      st'.tcp.settingUpShm = st.tcp.settingUpShm) := by
  obtain ⟨count, st₁, hbody, hsame, hlen⟩ := beginExecve_inv h
  have hlen := hlen hprov
  rw [(SameProcess.of_eq hsame).settingUpShm]
  obtain ⟨hstatic, rfl, hlog, hset⟩ | ⟨hno, -, hne, hlog, hset⟩ | ⟨hno, hset, hcount⟩ := beginExecveBody_cases hbody
  · rw [if_pos rfl, hlog] at hlen
    exact .inl ⟨hstatic, hlen, hset⟩
  · rw [if_neg hne, hlog] at hlen
    exact .inr (.inl ⟨hno, hlen, hset⟩)
  · refine .inr (.inr ⟨hno, ?_, hset⟩)
    obtain ⟨rfl, hlog⟩ | ⟨hne, hrecord⟩ := hcount
    · rw [hlen, if_pos rfl, hlog]
    · rw [hlen, if_neg hne, hrecord hprov]

/-- The process for which the file is executed is handed to `begin_setup_shmat` as it is. -/
theorem executeTarget_setup {target : Target} {count : ℕ}
    (h : executeTarget env g p exeFilename target st = .ok (count, st')) (hoff : st.tcp.settingUpShm = false)
    (hon : st'.tcp.settingUpShm = true) : beginSetupShmat p st.tcp st.child = .ok (st'.tcp, st'.child) := by
  have hne : st'.tcp ≠ st.tcp := fun heq => by
    rw [heq, hoff] at hon
    cases hon
  cases target with
  | punt =>
    obtain ⟨-, rfl⟩ := Prod.mk.inj (Except.ok.inj h)
    exact absurd rfl hne
  | static isElf =>
    obtain ⟨-, -, ⟨hneeds, -⟩ | ⟨-, htcp⟩⟩ := executeTarget_static h
    · simp only [executeTarget, hneeds.1, if_true] at h
      obtain ⟨⟨tcp, child, e⟩, hmodify, h⟩ := bind_eq_ok.1 h
      obtain ⟨-, rfl⟩ := Prod.mk.inj (Except.ok.inj h)
      have hrun : (Modify.singleArg 0 exeFilename).run g env.strcpyFromChild p st.tcp st.child st.e =
        .ok (tcp, child, e) := hmodify
      exact (Modify.run_detached hneeds.2.1 hrun).resolve_left fun hsame => hne hsame.1
    · exact absurd htcp hne
  | program ld command =>
    obtain ⟨-, ⟨hshm, -, -⟩ | ⟨-, hset⟩⟩ := executeTarget_program h
    · simp only [executeTarget, hshm, if_true] at h
      obtain ⟨⟨tcp, child⟩, hbegin, h⟩ := bind_eq_ok.1 h
      obtain ⟨-, rfl⟩ := Prod.mk.inj (Except.ok.inj h)
      exact hbegin
    · rw [hset, hoff] at hon
      cases hon

/-- **A pass that asks for the segment calls `begin_setup_shmat`**, for the process as it was but for
`p_ignores`. -/
theorem beginExecve_setup (h : beginExecve env g p st = .ok st') (hoff : st.tcp.settingUpShm = false)
    (hon : st'.tcp.settingUpShm = true) :
    ∃ pIgnores, beginSetupShmat p { st.tcp with pIgnores } st.child = .ok (st'.tcp, st'.child) := by
  obtain ⟨count, st₁, hbody, hrecorded, -⟩ := beginExecve_inv h
  rw [(SameProcess.of_eq hrecorded).settingUpShm] at hon
  obtain ⟨exeFilename, executable, st₂, -, -, hsame, -, ⟨-, rfl⟩ | hfound⟩ := beginExecveBody_inv hbody
  · rw [hsame.settingUpShm, hoff] at hon
    cases hon
  · obtain ⟨path, target, st₃, -, hid, htarget⟩ := hfound
    have hsame := hsame.trans (identify_ok hid).1
    obtain ⟨pIgnores, hpi⟩ := hsame.tcp
    refine ⟨pIgnores, ?_⟩
    rw [← hpi, ← hsame.child, hrecorded]
    exact executeTarget_setup htarget (hsame.settingUpShm.trans hoff) hon

section

variable {σ : Type} {t : SysTable σ} {stop : Stop σ} {atExit : Stop σ → Except Fatal (Stop σ)}

/-- The function of `execve`: `view` is what it knows about the process besides, and `keep` puts it back. -/
def execveFunc (view : Stop σ → ExecState) (keep : Stop σ → ExecState → σ) (env : ExecEnv) (g : Cde) (p : Personality)
    (atExit : Stop σ → Except Fatal (Stop σ)) (st : Stop σ) : Except Fatal (Stop σ) :=
  if st.inSyscall then atExit st
  else do
    let st' ← beginExecve env g p { view st with tcp := st.tcp, child := st.child }
    return { st with tcp := st'.tcp, child := st'.child, rest := keep st st' }

/-- `execve` is a system call for which `begin_setup_shmat` is called, in a pass that sets
`setting_up_shm`. -/
theorem callsSetup_execve {view : Stop σ → ExecState} {keep : Stop σ → ExecState → σ}
    (hcall : TracedCall p t stop (execveFunc view keep env g p atExit))
    (hoff : (entered p t stop).tcp.settingUpShm = false)
    (h : beginExecve env g p
      { view (entered p t stop) with tcp := (entered p t stop).tcp, child := (entered p t stop).child } = .ok st')
    (hon : st'.tcp.settingUpShm = true) :
    CallsSetup p t stop st'.tcp st'.child (keep (entered p t stop) st') := by
  obtain ⟨pIgnores, hbegin⟩ := beginExecve_setup h hoff hon
  refine hcall.callsSetup ⟨{ (entered p t stop).tcp with pIgnores }, rfl, hbegin⟩ ?_
  simp only [execveFunc, hcall.entered_inSyscall, Bool.false_eq_true, if_false]
  rw [h]
  rfl

end

theorem finishSetupShmat_attached {tcp tcp' : ShmTcb} {child child' : Child}
    (h : finishSetupShmat p tcp child = .ok (tcp', child')) :
    tcp'.childshm ≠ 0 ∧ tcp'.settingUpShm = false := by
  unfold finishSetupShmat at h
  cases p with
  | native =>
    simp only [pure_bind] at h
    split at h
    · cases h
    · split at h
      · cases h
      · rename_i hzero
        obtain ⟨rfl, -⟩ := Prod.mk.inj (Except.ok.inj h)
        exact ⟨hzero, rfl⟩
  | emu32 =>
    simp only [pure_bind] at h
    split at h
    · cases h
    · split at h
      · cases h
      · split at h
        · cases h
        · split at h
          · cases h
          · rename_i hzero
            obtain ⟨rfl, -⟩ := Prod.mk.inj (Except.ok.inj h)
            exact ⟨hzero, rfl⟩

/-- The call that is executed again has its segment. -/
theorem Reissued.attached (h : Reissued p st₁ st₂) :
    st₂.log = st₁.log ∧ st₂.tcp.childshm ≠ 0 ∧ st₂.tcp.settingUpShm = false := by
  obtain ⟨child₂, a, tcp', child', -, hfinish, rfl⟩ := h
  exact ⟨rfl, finishSetupShmat_attached hfinish⟩

theorem ExecveCall.records (hprov : env.provMode = true) (h : ExecveCall env g p st st')
    (hset : st.tcp.settingUpShm = false) :
    (StaticWithoutSegment env g st → st'.log.length = st.log.length + 2) ∧
      (¬ StaticWithoutSegment env g st → st'.log.length = st.log.length + 1) := by
  induction h with
  | once h hdone =>
    obtain ⟨-, -, hset'⟩ | ⟨-, -, hset'⟩ | ⟨hno, hlen, -⟩ := beginExecve_pass hprov h
    · rw [hdone] at hset'
      cases hset'
    · rw [hdone] at hset'
      cases hset'
    · exact ⟨fun hstatic => absurd hstatic hno, fun _ => hlen⟩
  | @again st st₁ st₂ st' h hbegun hreissued _ ih =>
    obtain ⟨hlog, hshm, hset₂⟩ := hreissued.attached
    -- a process that has its segment is in neither of the cases that ask for it
    have hlast := (ih hset₂).2 fun hstatic => hshm hstatic.childshm
    rw [hlog] at hlast
    obtain ⟨hstatic, hlen, -⟩ | ⟨hno, hlen, -⟩ | ⟨-, -, hset'⟩ := beginExecve_pass hprov h
    · exact ⟨fun _ => by rw [hlast, hlen], fun hno => absurd hstatic hno⟩
    · exact ⟨fun hstatic => absurd hstatic hno, fun _ => by rw [hlast, hlen]⟩
    · rw [hbegun, hset] at hset'
      cases hset'

theorem ExecveCall.twice {P : ExecState → Prop}
    (h : ∃ st₁, beginExecve env g p st = .ok st₁ ∧ st₁.tcp.settingUpShm = true ∧ ∃ st₂, Reissued p st₁ st₂ ∧
      ∃ st', beginExecve env g p st₂ = .ok st' ∧ st'.tcp.settingUpShm = false ∧ P st') :
    ∃ st', ExecveCall env g p st st' ∧ P st' := by
  obtain ⟨st₁, hfirst, hset, st₂, hreissued, st', hsecond, hset', hP⟩ := h
  exact ⟨st', .again hfirst hset hreissued (.once hsecond hset'), hP⟩

/-- The same process in an audit, with the file on the host. -/
def hostState (content : List Byte) : ExecState := { execveState 0x7000 with e := { fs := smallTree [] content } }

/-- No record is written for a script whose interpreter cannot be opened. -/
theorem beginExecve_unreadable :
    beginExecve smallEnv { execMode := false } .native (hostState (str "#!/x\n")) = .error .assertion := by
  have hfind : findExecutableAudit smallEnv { execMode := false } (str "/s") (hostState (str "#!/x\n")) =
      .ok (.found (str "/s"), hostState (str "#!/x\n")) := rfl
  have hopen : fopen { execMode := false } (str "/s") (hostState (str "#!/x\n")).e = some (str "#!/x\n") := rfl
  have hinterpreter : scriptInterpreter { execMode := false } (some (str "/x")) (hostState (str "#!/x\n")) =
      .ok (some (str "/x"), hostState (str "#!/x\n")) := rfl
  have hid : identify smallEnv { execMode := false } (str "/s") (hostState (str "#!/x\n")) = .error .assertion :=
    identify_unreadable hopen (by decide) (rfl : _ = some (str "/x")) hinterpreter rfl
  rw [beginExecve_found (rfl : _ = some (str "/s")) (fun hexec => by cases hexec) (fun _ => hfind), hid]
  rfl

end Ptu
