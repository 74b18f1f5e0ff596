import Ptu.Proof.Args
import Ptu.Spec.Stops

/-!
# The injected `shmat` cannot be seen

* `beginSetupShmat_ok`, `finishSetupShmat_ok`: what the two halves of the injection do.
* `failed_shmat_iff`: **a failed `shmat` is told from an address exactly in a 32-bit process**.
* `sysEnter_backedUp`: the system call instruction, executed again, leads to the same entry stop.
* `Tracees.run_current`: `current_personality` is that of the last entry stop of any process.
* `shmat_invisible_iff`: **from the entry stop of a system call for which `begin_setup_shmat` is
  called to the next entry stop, nothing changes for the process**, and the function of the
  system call is not called at the exit stop in between, exactly if no process of the other kind
  has been the last one to enter a system call.
* `callsSetup_modify`: `begin_setup_shmat` is called by the functions `modify_syscall_…`; for
  `execve` see `callsSetup_execve`.
-/

namespace Ptu

open Memory

variable {σ : Type} {p : Personality} {tcp tcp' : ShmTcb} {child child' child₂ : Child} {a : Word}

/-! ## Attaching the segment -/

/-- The registers with which the call is executed again. -/
def backedUp (regs : Regs) : Regs := (regs.set .rax (regs .origRax)).set .rip (regs .rip - 2)

/-- **What `begin_setup_shmat` does.** -/
structure SetupBegun (p : Personality) (tcp : ShmTcb) (child : Child) (tcp' : ShmTcb) (child' : Child) :
    Prop where
  saved : tcp'.savedRegs = child.regs
  started : tcp'.settingUpShm = true
  child_eq : child' = { child with regs := shmatRegs p child.regs tcp.shmid tcp'.savedAddr }
  word : p = .emu32 → child.mem.load tcp'.savedAddr 8 = some tcp'.savedWord
  args : tcp'.uArg = tcp.uArg

theorem beginSetupShmat_ok (h : beginSetupShmat p tcp child = .ok (tcp', child')) :
    SetupBegun p tcp child tcp' child' := by
  unfold beginSetupShmat at h
  by_cases hlocal : tcp.localshm = true
  swap
  · simp only [hlocal, Bool.not_false, if_true] at h
    cases h
  by_cases hshm : tcp.childshm = 0
  swap
  · simp only [hlocal, Bool.not_true, Bool.false_eq_true, if_false, if_pos hshm] at h
    cases h
  simp only [hlocal, hshm, Bool.not_true, Bool.false_eq_true, if_false, ne_eq, not_true_eq_false] at h
  cases p with
  | native =>
    obtain ⟨rfl, rfl⟩ := Prod.mk.inj (Except.ok.inj h)
    exact ⟨rfl, rfl, rfl, by simp, rfl⟩
  | emu32 =>
    cases hload : child.mem.load (findFreeAddr child.maps 4) 8 with
    | none => simp only [hload] at h; cases h
    | some word =>
      simp only [hload] at h
      obtain ⟨rfl, rfl⟩ := Prod.mk.inj (Except.ok.inj h)
      exact ⟨rfl, rfl, rfl, fun _ => hload, rfl⟩

/-- `__NR_ipc` of a 32-bit process, `__NR_shmat` -/
def shmatNumber : Personality → Word
  | .emu32 => 117
  | .native => 30

theorem SetupBegun.number (h : SetupBegun p tcp child tcp' child') :
    child'.regs .origRax = shmatNumber p := by
  rw [h.child_eq]
  cases p <;> rfl

/-- A 32-bit process is told the address at `savedaddr`. -/
theorem SetupBegun.rsi (h : SetupBegun .emu32 tcp child tcp' child') : child'.regs .rsi = tcp'.savedAddr := by
  rw [h.child_eq]; rfl

/-- The kernel's answer, cut to the 32 bits of an address. -/
theorem littleEndian_mask {bs word : List Byte} (hlen : bs.length = 4) (ha : littleEndian bs = a.toNat)
    (hpre : bs <+: word) : BitVec.ofNat 64 (littleEndian word) &&& 0xffffffff = a := by
  obtain ⟨rest, rfl⟩ := hpre
  have hlt : littleEndian bs < 256 ^ 4 := hlen ▸ littleEndian_lt bs
  apply BitVec.eq_of_toNat_eq
  rw [littleEndian_append, hlen, BitVec.toNat_and, BitVec.toNat_ofNat]
  have hmask : (0xffffffff : Word).toNat = 2 ^ 32 - 1 := rfl
  rw [hmask, Nat.and_two_pow_sub_one_eq_mod]
  omega

/-- **What `finish_setup_shmat` does** once the kernel has attached the segment. -/
theorem finishSetupShmat_ok (h : SetupBegun p tcp child tcp' child') (hdone : ShmatDone p child' child₂ a) :
    ∃ mem, finishSetupShmat p tcp' child₂ =
        .ok ({ tcp' with childshm := a, savedRegs := backedUp child.regs, settingUpShm := false },
          { child₂ with regs := backedUp child.regs, mem }) ∧
      ∀ x, child.mem x ≠ none → mem x = child.mem x := by
  have hnumber : child₂.regs .origRax = shmatNumber p := hdone.number.trans h.number
  have hmem : child'.mem = child.mem := by rw [h.child_eq]
  cases p with
  | native =>
    refine ⟨child₂.mem, ?_, fun x hx => ?_⟩
    · simp only [finishSetupShmat, hnumber, shmatNumber, hdone.native rfl, h.saved, if_neg hdone.attached,
        ne_eq, not_true_eq_false, if_false, pure_bind]
      rfl
    · rw [hdone.mem x (hmem ▸ hx) (by simp), hmem]
  | emu32 =>
    obtain ⟨hrax, bs, hlen, ha, hbs⟩ := hdone.emu32 rfl
    rw [h.rsi] at hbs
    -- outside the four bytes with the address, the memory is what it was
    have hkeep : ∀ x, child.mem x ≠ none → 4 ≤ (x - tcp'.savedAddr).toNat → child₂.mem x = child.mem x := by
      intro x hx hoff
      rw [hdone.mem x (hmem ▸ hx) (fun _ => h.rsi ▸ hoff), hmem]
    have hword := h.word rfl
    obtain ⟨word, hload⟩ : ∃ word, child₂.mem.load tcp'.savedAddr 8 = some word := by
      refine load_total fun i hi => ?_
      by_cases hi4 : i < 4
      · rw [hbs i (by omega)]; simp
      · obtain ⟨hlen8, hholds⟩ := Holds.of_load hword
        have hold := hholds i (by omega)
        rw [hkeep _ (by rw [hold]; simp) (by rw [sub_toNat _ (by omega)]; omega), hold]
        simp
    have hshm := littleEndian_mask hlen ha (hbs.load_isPrefix hload (by omega))
    refine ⟨child₂.mem.store tcp'.savedAddr tcp'.savedWord, ?_, fun x hx => ?_⟩
    · simp only [finishSetupShmat, hnumber, shmatNumber, hrax, hload, hshm, h.saved, if_neg hdone.attached,
        ne_eq, not_true_eq_false, if_false, pure_bind]
      rfl
    · exact store_load hword fun hoff => hkeep x hx (by omega)

/-- A 32-bit process that did not get its segment stops the tracer. -/
theorem finishSetupShmat_failed_emu32 (h : SetupBegun .emu32 tcp child tcp' child') {errno : ℕ}
    (hfailed : ShmatFailed .emu32 child' child₂ errno) :
    finishSetupShmat .emu32 tcp' child₂ = .error .assertion := by
  have hnumber : child₂.regs .origRax = 117 := hfailed.number.trans h.number
  have hrax : child₂.regs .rax ≠ 0 := by
    intro hzero
    have heax := hfailed.emu32 rfl
    rw [hzero] at heax
    have hlt := hfailed.range
    bv_omega
  simp only [finishSetupShmat, hnumber, ne_eq, not_true_eq_false, if_false, if_pos hrax]
  rfl

/-- **Under the other personality `finish_setup_shmat` stops at its first assertion.** -/
theorem finishSetupShmat_other {q : Personality} (tcp : ShmTcb) (hnumber : child.regs .origRax = shmatNumber p)
    (hq : q ≠ p) : finishSetupShmat q tcp child = .error .assertion := by
  cases p with
  | native =>
    cases q with
    | native => exact absurd rfl hq
    | emu32 =>
      simp only [finishSetupShmat, hnumber, shmatNumber]
      rfl
  | emu32 =>
    cases q with
    | native =>
      simp only [finishSetupShmat, hnumber, shmatNumber]
      rfl
    | emu32 => exact absurd rfl hq

/-- A native process gets the error for its segment. -/
theorem finishSetupShmat_failed_native (h : SetupBegun .native tcp child tcp' child') {errno : ℕ}
    (hfailed : ShmatFailed .native child' child₂ errno) :
    finishSetupShmat .native tcp' child₂ =
      .ok ({ tcp' with childshm := -BitVec.ofNat 64 errno, savedRegs := backedUp child.regs, settingUpShm := false },
        { child₂ with regs := backedUp child.regs }) := by
  have hnumber : child₂.regs .origRax = 30 := hfailed.number.trans h.number
  have hne : -BitVec.ofNat 64 errno ≠ 0 := by
    have hlt := hfailed.range
    bv_omega
  simp only [finishSetupShmat, hnumber, hfailed.native rfl, h.saved, if_neg hne, ne_eq, not_true_eq_false, if_false,
    pure_bind]
  rfl

/-- **A failed `shmat` is told from an address** exactly in a 32-bit process, where the address and the error are
apart; what a native process gets is only compared with NULL. -/
theorem failed_shmat_iff {r : ShmatResult} (hbegin : beginSetupShmat p tcp child = .ok (tcp', child'))
    (hreturned : ShmatReturned p child' child₂ r) :
    (finishSetupShmat p tcp' child₂ = .error .assertion ∨
      ∃ a tcp₂ child₃, r = .attached a ∧ finishSetupShmat p tcp' child₂ = .ok (tcp₂, child₃) ∧ tcp₂.childshm = a) ↔
      p = .emu32 ∨ ∃ a, r = .attached a := by
  have hbegun := beginSetupShmat_ok hbegin
  cases r with
  | attached a =>
    obtain ⟨mem, hfinish, -⟩ := finishSetupShmat_ok hbegun hreturned
    exact iff_of_true (.inr ⟨a, _, _, rfl, hfinish, rfl⟩) (.inr ⟨a, rfl⟩)
  | failed errno =>
    cases p with
    | emu32 => exact iff_of_true (.inl (finishSetupShmat_failed_emu32 hbegun hreturned)) (.inl rfl)
    | native =>
      have hfinish := finishSetupShmat_failed_native hbegun hreturned
      refine iff_of_false ?_ ?_
      · rintro (hassert | ⟨a, _, _, ha, -⟩)
        · rw [hfinish] at hassert
          cases hassert
        · cases ha
      · rintro (hemu | ⟨a, ha⟩)
        · cases hemu
        · cases ha

/-- A kernel that attaches the segment of a native process at `0x7000`. -/
theorem shmatDone_native (child : Child) :
    ShmatDone .native child { child with regs := child.regs.set .rax 0x7000 } 0x7000 where
  attached := by decide
  number := rfl
  mem _ _ _ := rfl
  native _ := rfl
  emu32 h := by cases h

/-- A kernel that has removed the segment of a native process, or never had it: `EINVAL`. -/
theorem shmatFailed_native (child : Child) :
    ShmatFailed .native child { child with regs := child.regs.set .rax (-22) } 22 where
  range := by decide
  number := rfl
  mem _ _ := rfl
  native _ := rfl
  emu32 h := by cases h

/-- A process whose segment is not attached yet. -/
def detached : ShmTcb := { uArg := fun _ => 0, localshm := true }

def idle : Child := { regs := fun _ => 0, mem := fun _ => none, maps := [] }

theorem failed_shmat_attached :
    ∃ tcp' child' child₂, beginSetupShmat .native detached idle = .ok (tcp', child') ∧
      ShmatReturned .native child' child₂ (.attached 0x7000) ∧
      (finishSetupShmat .native tcp' child₂ = .error .assertion ∨
        ∃ a tcp₂ child₃, ShmatResult.attached 0x7000 = .attached a ∧
          finishSetupShmat .native tcp' child₂ = .ok (tcp₂, child₃) ∧ tcp₂.childshm = a) := by
  have hbegin : ∃ tcp' child', beginSetupShmat .native detached idle = .ok (tcp', child') := ⟨_, _, rfl⟩
  obtain ⟨tcp', child', hbegin⟩ := hbegin
  have hreturned : ShmatReturned .native child' _ (.attached 0x7000) := shmatDone_native child'
  exact ⟨tcp', child', _, hbegin, hreturned, (failed_shmat_iff hbegin hreturned).2 (.inr ⟨_, rfl⟩)⟩

/-- The segment of this process is taken to be at `-EINVAL`. -/
theorem failed_shmat_einval :
    ∃ tcp' child' child₂ tcp₂ child₃, beginSetupShmat .native detached idle = .ok (tcp', child') ∧
      ShmatReturned .native child' child₂ (.failed 22) ∧
      finishSetupShmat .native tcp' child₂ = .ok (tcp₂, child₃) ∧
      tcp₂.childshm = 0xffffffffffffffea ∧ tcp₂.settingUpShm = false :=
  ⟨_, _, _, _, _, rfl, shmatFailed_native _, rfl, rfl, rfl⟩

/-- **The call, executed again, leads to the entry stop at which it was replaced.** -/
theorem sysEnter_backedUp (p : Personality) (regs : Regs) :
    sysEnter p (backedUp (sysEnter p regs)) = sysEnter p regs := by
  have hrip : regs .rip + 2 - 2 + 2 = regs .rip + 2 := by rw [BitVec.add_sub_cancel]
  have hmask : regs .rax &&& 0xffffffff &&& 0xffffffff = regs .rax &&& 0xffffffff := by
    rw [BitVec.and_assoc, BitVec.and_self]
  funext r
  cases p with
  | native => cases r <;> first | rfl | exact hrip
  | emu32 => cases r <;> first | rfl | exact hrip | exact hmask

/-! ## The two stops -/

section

variable {table : Personality → SysTable σ} {t : SysTable σ} {st : Stop σ} {q : Personality}

/-- What the function of the system call gets at an entry stop. -/
def entered (p : Personality) (t : SysTable σ) (st : Stop σ) : Stop σ := syscallEnter p t (getScno st)

/-- Other functions for the system calls. -/
def withFuncs (table : Personality → SysTable σ)
    (f : Personality → ℕ → Stop σ → Except Fatal (Stop σ)) (p : Personality) : SysTable σ :=
  { table p with sysFunc := f p }

/-- At this entry stop the system call is traced and its function calls `begin_setup_shmat`. It may have
changed what else is known about the process before, as that of `execve` does with `p_ignores`. -/
structure CallsSetup (p : Personality) (t : SysTable σ) (st : Stop σ) (tcp : ShmTcb) (child : Child)
    (rest : σ) : Prop where
  entering : st.inSyscall = false
  inRange : t.inRange (entered p t st).scno = true
  traced : t.trace (entered p t st).scno.toNat = true
  raw : t.raw (entered p t st).scno.toNat = false
  setup : ∃ tcp₀ : ShmTcb, tcp₀.uArg = (entered p t st).tcp.uArg ∧
    beginSetupShmat p tcp₀ (entered p t st).child = .ok (tcp, child)
  func : t.sysFunc (entered p t st).scno.toNat (entered p t st) = .ok { entered p t st with tcp, child, rest }

/-- The system call of this entry stop is traced, and `func` is its function. -/
structure TracedCall (p : Personality) (t : SysTable σ) (st : Stop σ) (func : Stop σ → Except Fatal (Stop σ)) :
    Prop where
  entering : st.inSyscall = false
  inRange : t.inRange (entered p t st).scno = true
  traced : t.trace (entered p t st).scno.toNat = true
  raw : t.raw (entered p t st).scno.toNat = false
  func_eq : t.sysFunc (entered p t st).scno.toNat = func

theorem syscallEnter_scno (p : Personality) (t : SysTable σ) (st : Stop σ) : (syscallEnter p t st).scno = st.scno :=
  rfl

theorem getScno_child (st : Stop σ) : (getScno st).child = st.child := by
  unfold getScno
  split <;> rfl

theorem TracedCall.entered_inSyscall {func : Stop σ → Except Fatal (Stop σ)} (h : TracedCall p t st func) :
    (entered p t st).inSyscall = false := by
  change (getScno st).inSyscall = false
  simp [getScno, h.entering]

/-- What is left to show about the function of a system call that is traced. -/
theorem TracedCall.callsSetup {func : Stop σ → Except Fatal (Stop σ)} {rest : σ} (h : TracedCall p t st func)
    (hsetup : ∃ tcp₀ : ShmTcb, tcp₀.uArg = (entered p t st).tcp.uArg ∧
      beginSetupShmat p tcp₀ (entered p t st).child = .ok (tcp, child))
    (hfunc : func (entered p t st) = .ok { entered p t st with tcp, child, rest }) :
    CallsSetup p t st tcp child rest :=
  ⟨h.entering, h.inRange, h.traced, h.raw, hsetup, by rw [h.func_eq, hfunc]⟩

theorem traceSyscall_entering {rest : σ} (hfix : syscallFixup p (getScno st) = true)
    (hcall : CallsSetup p t st tcp child rest) :
    traceSyscall p t st = .ok { entered p t st with tcp, child, rest, inSyscall := true } := by
  have hrange : t.inRange (getScno st).scno = true := hcall.inRange
  have htraced : t.trace (getScno st).scno.toNat = true := hcall.traced
  have hraw : t.raw (getScno st).scno.toNat = false := hcall.raw
  have hfunc : t.sysFunc (getScno st).scno.toNat (syscallEnter p t (getScno st)) = _ := hcall.func
  simp only [traceSyscall, traceSyscallEntering, hcall.entering, hfix, syscallEnter_scno, hrange, htraced, hraw,
    Bool.not_true, Bool.and_false, Bool.false_and, Bool.or_false, Bool.false_eq_true, if_false]
  rw [hfunc]
  rfl

theorem getError_eq (p : Personality) (t : SysTable σ) (st : Stop σ) :
    ∃ uRval uError, getError p t st = { st with uRval, uError } := by
  unfold getError
  dsimp only
  split
  · exact ⟨_, _, rfl⟩
  · exact ⟨_, _, rfl⟩

/-- At the exit stop of the injected call the functions of the table are not called. -/
theorem traceSyscall_exiting (hin : st.inSyscall = true) (hrange : (table p).inRange st.scno = true)
    (htraced : (table p).trace st.scno.toNat = true) (hshm : st.tcp.settingUpShm = true)
    (hfinish : finishSetupShmat p st.tcp st.child = .ok (tcp, child))
    (f : Personality → ℕ → Stop σ → Except Fatal (Stop σ)) :
    traceSyscall p (withFuncs table f p) st =
      .ok { getError p (table p) st with tcp, child, inSyscall := false } := by
  have hget : getScno st = st := if_pos hin
  obtain ⟨uRval, uError, herror⟩ := getError_eq p (table p) st
  have herror' : getError p (withFuncs table f p) st = { st with uRval, uError } := herror
  have hrange' : (withFuncs table f p).inRange st.scno = true := hrange
  have htraced' : (withFuncs table f p).trace st.scno.toNat = true := htraced
  simp only [traceSyscall, traceSyscallExiting, hget, hin, herror, herror', hrange', htraced', hshm,
    Bool.not_true, Bool.and_false, Bool.false_eq_true, if_false, if_true, hfinish]
  rfl

/-- **At an exit stop of the injected call under the other personality the injection is not undone**: the
number is not the one that `finish_setup_shmat` asserts, or the system call is not traced in the other
table. -/
theorem traceSyscall_exiting_other {st' : Stop σ} (hin : st.inSyscall = true) (hshm : st.tcp.settingUpShm = true)
    (hnumber : st.child.regs .origRax = shmatNumber p) (hq : q ≠ p) (h : traceSyscall q t st = .ok st') :
    st'.tcp.settingUpShm = true := by
  have hget : getScno st = st := if_pos hin
  obtain ⟨uRval, uError, herror⟩ := getError_eq q t st
  have hfinish := finishSetupShmat_other st.tcp hnumber hq
  simp only [traceSyscall, traceSyscallExiting, hget, hin, herror, hshm, if_true, hfinish] at h
  split at h
  · obtain rfl := Except.ok.inj h
    exact hshm
  · cases h

/-- The process has executed the system call instruction again. -/
def reentered (p : Personality) (st : Stop σ) : Stop σ :=
  { st with child := { st.child with regs := sysEnter p st.child.regs } }

/-- What is left of an injected `shmat`: `st` and `st₁` are the entry stop and the exit stop, `st₂` is the
state after the exit stop. -/
structure Unseen (p : Personality) (t : SysTable σ) (a : Word) (st st₁ st₂ : Stop σ) : Prop where
  regs : st₂.child.regs = (st.child.regs.set .rax (st.child.regs .origRax)).set .rip (st.child.regs .rip - 2)
  mem : ∀ x, st.child.mem x ≠ none → st₂.child.mem x = st.child.mem x
  done : st₂.tcp.settingUpShm = false
  attached : st₂.tcp.childshm = a
  rest : st₂.rest = st₁.rest
  entering : st₂.inSyscall = false
  sameStop : (reentered p st₂).child.regs = st.child.regs
  samePersonality : ∀ current, detectPersonality current (reentered p st₂) = p
  sameNumber : (entered p t (reentered p st₂)).scno = (entered p t st).scno
  sameArgs : (entered p t (reentered p st₂)).tcp.uArg = (entered p t st).tcp.uArg

theorem sysEnter_cs (p : Personality) (regs : Regs) : sysEnter p regs .cs = regs .cs := by
  cases p <;> rfl

theorem fixedRax_sysEnter (p : Personality) (regs : Regs) : fixedRax p (sysEnter p regs) = enosys := by
  cases p with
  | native => rfl
  | emu32 =>
    have hrax : sysEnter .emu32 regs .rax = enosys := rfl
    rw [fixedRax, hrax]
    decide

/-- At an entry stop the personality is read from the registers. -/
theorem detectPersonality_entering {regs : Regs} (hin : st.inSyscall = false)
    (hcs : csPersonality (regs .cs) = some p) (hregs : st.child.regs = sysEnter p regs) (current : Personality) :
    detectPersonality current st = p := by
  unfold detectPersonality
  rw [hin, hregs, sysEnter_cs, hcs]
  rfl

/-- **Two entry stops with the same registers are entered alike.** -/
theorem entered_congr {st' : Stop σ} (hin : st.inSyscall = false) (hin' : st'.inSyscall = false)
    (hregs : st'.child.regs = st.child.regs) (hargs : st'.tcp.uArg = (entered p t st).tcp.uArg) :
    (entered p t st').scno = (entered p t st).scno ∧
      (entered p t st').tcp.uArg = (entered p t st).tcp.uArg := by
  unfold entered getScno at hargs ⊢
  simp only [hin, hin', Bool.false_eq_true, if_false] at hargs ⊢
  simp only [syscallEnter, hregs, hargs, true_and]
  funext i
  split_ifs <;> rfl

/-- **The stop at which `begin_setup_shmat` is called.** -/
theorem CallsSetup.traceSyscall {regs : Regs} {rest : σ} (hregs : st.child.regs = sysEnter p regs)
    (hcall : CallsSetup p t st tcp child rest) :
    Ptu.traceSyscall p t st = .ok { entered p t st with tcp, child, rest, inSyscall := true } := by
  refine traceSyscall_entering ?_ hcall
  unfold syscallFixup
  rw [getScno_child, hregs, fixedRax_sysEnter]
  rfl

theorem CallsSetup.begun {rest : σ} (hcall : CallsSetup p t st tcp child rest) :
    ∃ tcp₀, SetupBegun p tcp₀ st.child tcp child ∧ tcp.uArg = (entered p t st).tcp.uArg := by
  obtain ⟨tcp₀, hargs, hbegin⟩ := hcall.setup
  have hchild : (entered p t st).child = st.child := getScno_child st
  rw [hchild] at hbegin
  have hbegun := beginSetupShmat_ok hbegin
  exact ⟨tcp₀, hbegun, hbegun.args.trans hargs⟩

/-- **A process with the registers backed up comes to the same entry stop again.** -/
theorem unseen_of_backedUp {regs : Regs} {st₁ st₂ : Stop σ} (hcs : csPersonality (regs .cs) = some p)
    (hregs : st.child.regs = sysEnter p regs) (hin : st.inSyscall = false) (hin₂ : st₂.inSyscall = false)
    (hregs₂ : st₂.child.regs = backedUp st.child.regs)
    (hmem : ∀ x, st.child.mem x ≠ none → st₂.child.mem x = st.child.mem x) (hdone : st₂.tcp.settingUpShm = false)
    (hattached : st₂.tcp.childshm = a) (hargs : st₂.tcp.uArg = (entered p t st).tcp.uArg)
    (hrest : st₂.rest = st₁.rest) : Unseen p t a st st₁ st₂ := by
  have hsame : (reentered p st₂).child.regs = st.child.regs := by
    change sysEnter p st₂.child.regs = st.child.regs
    rw [hregs₂, hregs, sysEnter_backedUp]
  have hagain := entered_congr hin (show (reentered p st₂).inSyscall = false from hin₂) hsame hargs
  exact ⟨hregs₂, hmem, hdone, hattached, hrest, hin₂, hsame, detectPersonality_entering hin₂ hcs (hsame.trans hregs),
    hagain.1, hagain.2⟩

/-- **The exit stop under the same personality undoes the injection.** -/
theorem CallsSetup.unseen {regs : Regs} {rest : σ} {st₁ : Stop σ} (hcs : csPersonality (regs .cs) = some p)
    (hregs : st.child.regs = sysEnter p regs) (hcall : CallsSetup p (table p) st tcp child rest)
    (hdone : ShmatDone p child st₁.child a) (hin : st₁.inSyscall = true)
    (hscno : st₁.scno = (entered p (table p) st).scno) (htcp : st₁.tcp = tcp) :
    ∃ st₂, (∀ f, Ptu.traceSyscall p (withFuncs table f p) st₁ = .ok st₂) ∧ Unseen p (table p) a st st₁ st₂ := by
  obtain ⟨tcp₀, hbegun, hargs⟩ := hcall.begun
  obtain ⟨mem, hfinish, hmem⟩ := finishSetupShmat_ok hbegun hdone
  rw [← htcp] at hfinish
  refine ⟨_, traceSyscall_exiting hin (hscno ▸ hcall.inRange) (hscno ▸ hcall.traced)
    (htcp ▸ hbegun.started) hfinish, ?_⟩
  obtain ⟨uRval, uError, herror⟩ := getError_eq p (table p) st₁
  rw [herror]
  refine unseen_of_backedUp hcs hregs hcall.entering ?_ ?_ hmem ?_ ?_ ?_ ?_
  · rfl
  · rfl
  · rfl
  · rfl
  · exact htcp ▸ hargs
  · rfl

/-! ## The stops of all processes -/

variable {ts ts' ts₁ ts₂ : Tracees σ} {ev : Stopped} {evs : List Stopped} {pid : ℕ}

/-- The personality that `current_personality` is set to at a stop: at an entry stop the one that the code
segment tells. -/
def Tracees.entryKind (ts : Tracees σ) (ev : Stopped) : Option Personality :=
  if (ts.traced ev.pid).inSyscall then none else csPersonality (ev.child.regs .cs)

/-- The personalities of the entry stops of a run, in their order. -/
def entryKinds (table : Personality → SysTable σ) : Tracees σ → List Stopped → List Personality
  | _, [] => []
  | ts, ev :: evs => (ts.entryKind ev).toList ++
    match ts.step table ev with
    | .ok ts' => entryKinds table ts' evs
    | .error _ => []

theorem Tracees.step_eq_ok : ts.step table ev = .ok ts' ↔
    ∃ st, traceSyscall (detectPersonality ts.current (ts.stop ev)) (table (detectPersonality ts.current (ts.stop ev)))
        (ts.stop ev) = .ok st ∧
      ts' = ⟨Function.update ts.traced ev.pid st.toTraced, detectPersonality ts.current (ts.stop ev), st.rest⟩ := by
  unfold Tracees.step
  rw [bind_eq_ok]
  refine exists_congr fun st => and_congr_right fun _ => ?_
  exact ⟨fun h => (Except.ok.inj h).symm, fun h => congrArg Except.ok h.symm⟩

theorem Tracees.step_other (h : ts.step table ev = .ok ts') (hpid : ev.pid ≠ pid) :
    ts'.traced pid = ts.traced pid := by
  obtain ⟨st, -, rfl⟩ := Tracees.step_eq_ok.1 h
  exact Function.update_of_ne hpid.symm _ _

theorem Tracees.step_current (h : ts.step table ev = .ok ts') :
    ts'.current = (ts.entryKind ev).getD ts.current := by
  obtain ⟨st, -, rfl⟩ := Tracees.step_eq_ok.1 h
  change (if (ts.traced ev.pid).inSyscall then ts.current else _) = _
  unfold Tracees.entryKind
  split
  · rfl
  · rfl

/-- The stops of other processes leave a process alone. -/
theorem Tracees.run_other (h : ts.run table evs = .ok ts') (hpid : ∀ ev ∈ evs, ev.pid ≠ pid) :
    ts'.traced pid = ts.traced pid := by
  refine foldlM_invariant (I := fun s => s.traced pid = ts.traced pid) ?_ rfl h
  intro s ev s' hs hev hstep
  rw [Tracees.step_other hstep (hpid ev hev), hs]

/-- **`current_personality` is the personality of the last entry stop**, whichever process had it. -/
theorem Tracees.run_current (h : ts.run table evs = .ok ts') :
    ts'.current = (entryKinds table ts evs).getLast?.getD ts.current := by
  induction evs generalizing ts with
  | nil =>
    obtain rfl := Except.ok.inj h
    rfl
  | cons ev evs ih =>
    obtain ⟨ts₁, hstep, hrun⟩ := bind_eq_ok.1 h
    rw [ih hrun, Tracees.step_current hstep]
    simp only [entryKinds, hstep]
    cases ts.entryKind ev with
    | none => rfl
    | some q =>
      rw [Option.toList_some, List.singleton_append, List.getLast?_cons]
      rfl

/-- The entry stop, for the tracer. -/
theorem CallsSetup.step {regs : Regs} {rest : σ} {child₀ : Child} (hcs : csPersonality (regs .cs) = some p)
    (hregs : child₀.regs = sysEnter p regs)
    (hcall : CallsSetup p (table p) (ts.stop ⟨pid, child₀⟩) tcp child rest) :
    ∃ ts₁, ts.step table ⟨pid, child₀⟩ = .ok ts₁ ∧ ts₁.current = p ∧ (ts₁.traced pid).tcp = tcp ∧
      (ts₁.traced pid).child = child ∧ (ts₁.traced pid).inSyscall = true ∧
      (ts₁.traced pid).scno = (entered p (table p) (ts.stop ⟨pid, child₀⟩)).scno := by
  have hp : detectPersonality ts.current (ts.stop ⟨pid, child₀⟩) = p :=
    detectPersonality_entering hcall.entering hcs hregs _
  refine ⟨_, Tracees.step_eq_ok.2 ⟨_, by rw [hp]; exact hcall.traceSyscall hregs, rfl⟩, hp, ?_⟩
  simp only [Function.update_self, and_self]

/-- **The injected `shmat` cannot be seen, exactly if the last process that has come to an entry stop in
between is of the same kind.** At an entry stop for which `begin_setup_shmat` is called, the tracer
replaces the system call by `shmat`. Other processes may stop before the kernel has attached the segment.
The exit stop, whatever the functions of the table would do, undoes all of the injection, and the process
comes to the same entry stop again, unless `current_personality` has been set for another process. -/
theorem shmat_invisible_iff {regs : Regs} {rest : σ} {child₀ : Child} (hcs : csPersonality (regs .cs) = some p)
    (hregs : child₀.regs = sysEnter p regs)
    (hcall : CallsSetup p (table p) (ts.stop ⟨pid, child₀⟩) tcp child rest) :
    ∃ ts₁, ts.step table ⟨pid, child₀⟩ = .ok ts₁ ∧
      ∀ between ts₂, (∀ ev ∈ between, ev.pid ≠ pid) → ts₁.run table between = .ok ts₂ →
        ∀ child₂ a, ShmatDone p (ts₁.traced pid).child child₂ a →
          ((∃ ts₃, (∀ f, ts₂.step (withFuncs table f) ⟨pid, child₂⟩ = .ok ts₃) ∧
              Unseen p (table p) a (ts.stop ⟨pid, child₀⟩) (ts₂.stop ⟨pid, child₂⟩)
                (ts₃.stop ⟨pid, (ts₃.traced pid).child⟩)) ↔
            ∀ q ∈ (entryKinds table ts₁ between).getLast?, q = p) := by
  obtain ⟨ts₁, hstep₁, hp₁, htcp₁, hchild₁, hin₁, hscno₁⟩ := hcall.step hcs hregs
  refine ⟨ts₁, hstep₁, fun between ts₂ hbetween hrun child₂ a hdone => ?_⟩
  obtain ⟨tcp₀, hbegun, -⟩ := hcall.begun
  -- at the exit stop the process is as the entry stop has left it, but `current_personality` may not be
  have htraced := Tracees.run_other hrun hbetween
  have hcurrent := Tracees.run_current hrun
  rw [hp₁] at hcurrent
  rw [hchild₁] at hdone
  have hin : (ts₂.stop ⟨pid, child₂⟩).inSyscall = true := (congrArg Traced.inSyscall htraced).trans hin₁
  have htcp : (ts₂.stop ⟨pid, child₂⟩).tcp = tcp := (congrArg Traced.tcp htraced).trans htcp₁
  have hdetect : detectPersonality ts₂.current (ts₂.stop ⟨pid, child₂⟩) = ts₂.current := if_pos hin
  constructor
  · rintro ⟨ts₃, hstep, hunseen⟩ q hq
    rw [Option.mem_def.1 hq, Option.getD_some] at hcurrent
    by_contra hne
    obtain ⟨st₃, htrace, rfl⟩ := Tracees.step_eq_ok.1 (hstep fun p => (table p).sysFunc)
    rw [hdetect, hcurrent] at htrace
    have hleft := traceSyscall_exiting_other hin (htcp ▸ hbegun.started) (hdone.number.trans hbegun.number) hne htrace
    have hfinished := hunseen.done
    simp only [Tracees.stop, Function.update_self] at hfinished
    rw [hleft] at hfinished
    cases hfinished
  · intro hkinds
    have hp₂ : ts₂.current = p := by
      rw [hcurrent]
      cases hlast : (entryKinds table ts₁ between).getLast? with
      | none => rfl
      | some q => exact hkinds q hlast
    have hscno : (ts₂.stop ⟨pid, child₂⟩).scno = _ := (congrArg Traced.scno htraced).trans hscno₁
    obtain ⟨st₃, htrace, hunseen⟩ := hcall.unseen hcs hregs hdone hin hscno htcp
    refine ⟨_, fun f => Tracees.step_eq_ok.2 ⟨st₃, by rw [hdetect, hp₂]; exact htrace f, rfl⟩, ?_⟩
    simpa only [Tracees.stop, Function.update_self] using hunseen

end

/-! ## System calls with redirected paths -/

section

variable {g : Cde} {strcpyFromChild : StrcpyFromChild} {M : Modify} {e e' : Effects}

/-- **Without a segment the functions `modify_syscall_…` only call `begin_setup_shmat`**, if
there is something to redirect. -/
theorem Modify.run_detached (hshm : tcp.childshm = 0)
    (h : M.run g strcpyFromChild p tcp child e = .ok (tcp', child', e')) :
    tcp' = tcp ∧ child' = child ∨ beginSetupShmat p tcp child = .ok (tcp', child') := by
  by_cases hex : g.execMode = true
  swap
  · cases M <;> simp [Modify.run, modifySyscallSingleArg, modifySyscallTwoArgs,
      modifySyscallSecondAndFourthArgs, modifySyscallFirstAndThirdArgs, modifySyscallPair, hex, bind, Except.bind,
      throw, throwThe, MonadExceptOf.throw] at h
  have hpair : ∀ {a : ArgPair}, modifySyscallPair a g strcpyFromChild p tcp child e = .ok (tcp', child', e') →
      beginSetupShmat p tcp child = .ok (tcp', child') := by
    intro a ha
    simp only [modifySyscallPair, hex, hshm, Bool.not_true, Bool.false_eq_true, if_false, if_true] at ha
    obtain ⟨⟨t, c⟩, hbegin, ha⟩ := bind_eq_ok.1 ha
    obtain ⟨rfl, rfl, -⟩ : t = tcp' ∧ c = child' ∧ e = e' := by simpa [pure, Except.pure] using ha
    exact hbegin
  cases M with
  | twoArgs => exact .inr (hpair h)
  | secondAndFourthArgs => exact .inr (hpair h)
  | firstAndThirdArgs => exact .inr (hpair h)
  | singleArg arg filename =>
    simp only [Modify.run, modifySyscallSingleArg, hex, Bool.not_true, Bool.false_eq_true, if_false] at h
    obtain ⟨⟨redirected, e₁⟩, -, h⟩ := bind_eq_ok.1 h
    cases redirected with
    | none =>
      obtain ⟨rfl, rfl, -⟩ : tcp = tcp' ∧ child = child' ∧ e₁ = e' := by simpa [pure, Except.pure] using h
      exact .inl ⟨rfl, rfl⟩
    | some s =>
      simp only [hshm, if_true] at h
      obtain ⟨⟨t, c⟩, hbegin, h⟩ := bind_eq_ok.1 h
      obtain ⟨rfl, rfl, -⟩ : t = tcp' ∧ c = child' ∧ e₁ = e' := by simpa [pure, Except.pure] using h
      exact .inr hbegin

/-- The function of a system call with redirected paths. -/
def modifyFunc (M : Modify) (g : Cde) (strcpyFromChild : StrcpyFromChild) (p : Personality)
    (atExit : Stop Effects → Except Fatal (Stop Effects)) (st : Stop Effects) : Except Fatal (Stop Effects) :=
  if st.inSyscall then atExit st
  else do
    let (tcp, child, e) ← M.run g strcpyFromChild p st.tcp st.child st.rest
    return { st with tcp, child, rest := e }

variable {t : SysTable Effects} {st : Stop Effects}
variable {atExit : Stop Effects → Except Fatal (Stop Effects)}

/-- Such a system call is one for which `begin_setup_shmat` is called, whenever that sets
`setting_up_shm`. -/
theorem callsSetup_modify (hcall : TracedCall p t st (modifyFunc M g strcpyFromChild p atExit))
    (hshm : (entered p t st).tcp.childshm = 0) (hoff : (entered p t st).tcp.settingUpShm = false)
    (hrun : M.run g strcpyFromChild p (entered p t st).tcp (entered p t st).child (entered p t st).rest =
      .ok (tcp, child, e))
    (hon : tcp.settingUpShm = true) : CallsSetup p t st tcp child e := by
  have hbegin : beginSetupShmat p (entered p t st).tcp (entered p t st).child = .ok (tcp, child) := by
    rcases Modify.run_detached hshm hrun with ⟨rfl, -⟩ | hbegin
    · rw [hoff] at hon
      cases hon
    · exact hbegin
  refine hcall.callsSetup ⟨_, rfl, hbegin⟩ ?_
  simp only [modifyFunc, hcall.entered_inSyscall, Bool.false_eq_true, if_false]
  rw [hrun]
  rfl

/-- A kernel that attaches the segment of a 32-bit process at `0x500000`. -/
theorem shmatDone_emu32 (child : Child) :
    ShmatDone .emu32 child
      { child with
        regs := child.regs.set .rax 0
        mem := child.mem.store (child.regs .rsi) [0, 0, 0x50, 0] } 0x500000 where
  attached := by decide
  number := rfl
  mem x _ hoff := store_other (by simpa using hoff rfl)
  native h := by cases h
  emu32 _ := ⟨rfl, _, rfl, by decide, holds_store _ _ (by decide)⟩

/-- `lstat("/a")` and `rename("/a", "/b")` on x86-64, `rename("/a", "/b")` on i386, where 6 is `close`. -/
def pathTable (p : Personality) : SysTable Effects where
  nsyscalls := 400
  nerrnos := 133
  nargs _ := some 2
  neverFails _ := false
  trace n := match p with
    | .native => n == 6 || n == 82
    | .emu32 => n == 6 || n == 38
  raw _ := false
  isSysExit _ := false
  sysFunc n := match p with
    | .native => modifyFunc (if n = 6 then .singleArg 0 (str "/a") else .twoArgs) optReplay (readString 8) .native .ok
    | .emu32 => if n = 6 then .ok else modifyFunc .twoArgs optReplay (readString 8) .emu32 .ok

/-- The registers of a process that executes a system call. -/
def callRegs (cs number : Word) : Regs :=
  ((((Regs.set (fun _ => 0) .cs cs).set .rax number).set .rbx 0x1000).set .rcx 0x2000).set .rip 0x400

/-- A process at the entry stop of a system call. -/
def calling (p : Personality) (number : Word) : Child where
  regs := sysEnter p (callRegs (match p with | .native => 0x33 | .emu32 => 0x23) number)
  mem := Mem.store (fun _ => none) 0x8000 (List.replicate 16 7)
  maps := [⟨0x8000, 0x9000, true, true, false, true, 0, 0⟩]

/-- Processes that have no segment yet. -/
def newTracees : Tracees Effects where
  traced _ := { tcp := detached, child := idle }
  rest := {}

/-- A 32-bit process calls `rename`; before it has its segment a 64-bit process comes to the entry stop of
`getpid`, and then another 32-bit one. -/
theorem shmat_invisible_iff_rename :
    ∃ ts₁ ts₂ child₂ ts₃, newTracees.step pathTable ⟨1, calling .emu32 38⟩ = .ok ts₁ ∧
      ts₁.run pathTable [⟨2, calling .native 39⟩, ⟨3, calling .emu32 20⟩] = .ok ts₂ ∧
      ShmatDone .emu32 (ts₁.traced 1).child child₂ 0x500000 ∧ ts₂.step pathTable ⟨1, child₂⟩ = .ok ts₃ ∧
      Unseen .emu32 (pathTable .emu32) 0x500000 (newTracees.stop ⟨1, calling .emu32 38⟩) (ts₂.stop ⟨1, child₂⟩)
        (ts₃.stop ⟨1, (ts₃.traced 1).child⟩) := by
  have hcs : csPersonality (callRegs 0x23 38 .cs) = some .emu32 := rfl
  have hcall : CallsSetup .emu32 (pathTable .emu32) (newTracees.stop ⟨1, calling .emu32 38⟩) _ _ _ :=
    callsSetup_modify (M := .twoArgs) ⟨rfl, rfl, rfl, rfl, rfl⟩ rfl rfl rfl rfl
  have hrun : ∃ ts₁ ts₂, newTracees.step pathTable ⟨1, calling .emu32 38⟩ = .ok ts₁ ∧
      ts₁.run pathTable [⟨2, calling .native 39⟩, ⟨3, calling .emu32 20⟩] = .ok ts₂ ∧
      entryKinds pathTable ts₁ [⟨2, calling .native 39⟩, ⟨3, calling .emu32 20⟩] = [.native, .emu32] :=
    ⟨_, _, rfl, rfl, rfl⟩
  obtain ⟨ts₁, ts₂, h₁, h₂, hkinds⟩ := hrun
  obtain ⟨ts, h, hiff⟩ := shmat_invisible_iff hcs rfl hcall
  obtain rfl := Except.ok.inj (h₁.symm.trans h)
  have hdone := shmatDone_emu32 (ts₁.traced 1).child
  obtain ⟨ts₃, h₃, hunseen⟩ := (hiff _ ts₂ (by decide) h₂ _ _ hdone).2 (by rw [hkinds]; decide)
  exact ⟨ts₁, ts₂, _, ts₃, h₁, h₂, hdone, h₃ fun p => (pathTable p).sysFunc, hunseen⟩

/-- **A 32-bit process between the two stops of a 64-bit one.** For `lstat` the tracer stops at the assertion
of the other branch. For `rename`, which has the number of a system call that is not traced there, the
process goes on with the address for a result, without its registers, and the file is not renamed. -/
theorem shmat_seen_mixed :
    (∃ ts₁ ts₂, newTracees.step pathTable ⟨1, calling .native 6⟩ = .ok ts₁ ∧
      ts₁.run pathTable [⟨2, calling .emu32 20⟩] = .ok ts₂ ∧
      ∃ child₂, ShmatDone .native (ts₁.traced 1).child child₂ 0x7000 ∧
        ts₂.step pathTable ⟨1, child₂⟩ = .error .assertion) ∧
    ∃ ts₁ ts₂, newTracees.step pathTable ⟨1, calling .native 82⟩ = .ok ts₁ ∧
      ts₁.run pathTable [⟨2, calling .emu32 20⟩] = .ok ts₂ ∧
      ∃ child₂ ts₃, ShmatDone .native (ts₁.traced 1).child child₂ 0x7000 ∧
        ts₂.step pathTable ⟨1, child₂⟩ = .ok ts₃ ∧ (ts₃.traced 1).tcp.settingUpShm = true ∧
        (ts₃.traced 1).child.regs .rax = 0x7000 ∧ (ts₃.traced 1).child.regs .rip = 0x402 :=
  ⟨⟨_, _, rfl, rfl, _, shmatDone_native _, rfl⟩, _, _, rfl, rfl, _, _, shmatDone_native _, rfl, rfl, rfl, rfl⟩

end

end Ptu
