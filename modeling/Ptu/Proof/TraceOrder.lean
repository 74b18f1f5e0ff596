import Ptu.Proof.TraceRuns

/-!
# The order of the first reports of a child

The kernel reports a `fork` of the parent and the first stop of the child in any order. If the child comes first, it
is entered as a process that waits for its parent, otherwise the parent enters it. Both orders lead to the same table,
except that `TCB_FOLLOWFORK` of the parent is set only if the parent comes first.

* `traceReport_comm`
-/

namespace Ptu

open Outcome Relation

/-- An entry but for `TCB_STARTUP` and `TCB_FOLLOWFORK`. -/
def ProcTcb.settled (tcp : ProcTcb) : ProcTcb := { tcp with startup := false, followFork := false }

/-- An entry but for `TCB_FOLLOWFORK`. -/
def ProcTcb.unmarked (tcp : ProcTcb) : ProcTcb := { tcp with followFork := false }

theorem ProcTcb.unmarked_eq {tcp tcp' : ProcTcb} (h : tcp.settled = tcp'.settled)
    (hstartup : tcp.startup = tcp'.startup) :
    tcp.unmarked = tcp'.unmarked := by
  have hparts : ∀ u : ProcTcb, u.unmarked = { u.settled with startup := u.startup } := fun _ => rfl
  rw [hparts, hparts, h, hstartup]

namespace Tracer

variable {t t' : Tracer} {i j k p c : ℕ} {pid : ℤ} {a : Answers} {cfg : TraceConfig} {rp rc : Report}

/-! ## Tables that differ in two flags -/

/-- The tables are the same but for `TCB_STARTUP` and `TCB_FOLLOWFORK`. -/
def Alike (t t' : Tracer) : Prop := ∀ k, (t.tcbtab k).settled = (t'.tcbtab k).settled

theorem Alike.field {β : Type} (g : ProcTcb → β) (hg : ∀ tcp : ProcTcb, g tcp.settled = g tcp) (h : Alike t t')
    (k : ℕ) :
    g (t.tcbtab k) = g (t'.tcbtab k) := by
  rw [← hg (t.tcbtab k), h k, hg]

theorem Alike.modify {f : ProcTcb → ProcTcb} (h : Alike t t') (hf : ∀ tcp : ProcTcb, (f tcp).settled = f tcp.settled)
    (j : ℕ) : Alike (t.modify j f) (t'.modify j f) := by
  intro k
  rw [modify_tcbtab, modify_tcbtab]
  split_ifs
  · rw [hf, hf, h k]
  · exact h k

theorem Alike.adoptByLeader (h : Alike t t') (i c : ℕ) : (t.adoptByLeader i c).1 = (t'.adoptByLeader i c).1 ∧
    Alike (t.adoptByLeader i c).2 (t'.adoptByLeader i c).2 := by
  have hleader : groupLeader (t.tcbtab i) = groupLeader (t'.tcbtab i) := h.field groupLeader (fun _ => rfl) i
  unfold Tracer.adoptByLeader
  rw [hleader]
  cases groupLeader (t'.tcbtab i) with
  | none => exact ⟨rfl, h⟩
  | some p =>
    refine ⟨rfl, ?_⟩
    simp only
    refine Alike.modify (Alike.modify (Alike.modify h ?_ i) ?_ c) ?_ p <;> exact fun _ => rfl

theorem Alike.adoptByParent (h : Alike t t') (i c : ℕ) : Alike (t.adoptByParent i c) (t'.adoptByParent i c) := by
  have hparent : (t.tcbtab i).parent = (t'.tcbtab i).parent := h.field ProcTcb.parent (fun _ => rfl) i
  simp only [Tracer.adoptByParent, hparent]
  have hmodify := (h.modify (f := fun tcp => { tcp with nchildren := tcp.nchildren - 1 }) (fun _ => rfl) i).modify
    (f := fun tcp => { tcp with parent := none }) (fun _ => rfl) c
  cases (t'.tcbtab i).parent with
  | none => exact hmodify
  | some g =>
    refine Alike.modify (Alike.modify hmodify ?_ c) ?_ g <;> exact fun _ => rfl

theorem Alike.cloneChild (h : Alike t t') (i c : ℕ) (flags : Word) :
    Alike (t.cloneChild i c flags) (t'.cloneChild i c flags) := by
  obtain ⟨hfst, hsnd⟩ := h.adoptByLeader i c
  simp only [Tracer.cloneChild, hfst]
  split_ifs
  · refine Alike.modify (Alike.modify hsnd ?_ c) ?_ _ <;> exact fun _ => rfl
  · exact hsnd.adoptByParent _ c
  · exact hsnd

/-- A field that has nothing to do with parents and threads. -/
theorem cloneChild_field {β : Type} (g : ProcTcb → β)
    (hg : ∀ (tcp : ProcTcb) (q : Option ℕ) (n m : ℤ) (b : Bool),
      g { tcp with parent := q, nchildren := n, ncloneThreads := m, cloneThread := b } = g tcp)
    (i c : ℕ) (flags : Word) :
    g ((t.cloneChild i c flags).tcbtab k) = g (t.tcbtab k) := by
  have hchildren : ∀ tcp n, g { tcp with nchildren := n } = g tcp := fun tcp n => hg tcp tcp.parent n _ _
  have hparent : ∀ tcp q, g { tcp with parent := q } = g tcp := fun tcp q => hg tcp q tcp.nchildren _ _
  have hthreads : ∀ tcp m, g { tcp with ncloneThreads := m } = g tcp := fun tcp m => hg tcp tcp.parent _ m _
  have hthread : ∀ tcp b, g { tcp with cloneThread := b } = g tcp := fun tcp b => hg tcp tcp.parent _ _ b
  have hleader : g ((t.adoptByLeader i c).2.tcbtab k) = g (t.tcbtab k) := by
    unfold adoptByLeader
    cases groupLeader (t.tcbtab i) with
    | none => rfl
    | some p => simp only [modify_field g fun tcp => hchildren tcp _, modify_field g fun tcp => hparent tcp _]
  simp only [cloneChild]
  split_ifs
  · rw [modify_field g fun tcp => hthreads tcp _, modify_field g fun tcp => hthread tcp _, hleader]
  · simp only [adoptByParent]
    split <;> simp only [modify_field g fun tcp => hchildren tcp _, modify_field g fun tcp => hparent tcp _, hleader]
  · exact hleader

/-! ## The parent's report -/

/-- The process at `c` is a child of the process at `i`. -/
def adopt (t : Tracer) (i c : ℕ) : Tracer := { t with tcbtab := fun k => adopted i c k (t.tcbtab k) }

theorem adoptChild_eq (hc : (t.tcbtab c).currentDir = false) (hi : (t.tcbtab i).currentDir = true) :
    t.adoptChild a i c false = .ok (t.adopt i c) := by
  have hic : i ≠ c := by
    rintro rfl
    exact Bool.noConfusion (hc.symm.trans hi)
  simp only [adoptChild, Bool.false_eq_true, if_false, Bool.false_or, initTcbDir, modify_self, modify_of_ne hic, hc, hi,
    Bool.not_true]
  refine congrArg Except.ok (ext_of (fun k => ?_) rfl rfl rfl rfl rfl)
  simp only [adopt, adopted]
  by_cases hkc : k = c
  · rw [hkc, modify_of_ne hic.symm, modify_self, modify_self, if_pos rfl, if_pos rfl, if_pos rfl, if_neg hic.symm,
      Int.add_zero]
  · rw [if_neg hkc, if_neg hkc, if_neg hkc]
    by_cases hki : k = i
    · rw [hki, modify_self, modify_of_ne hic, modify_of_ne hic, if_pos rfl]
    · rw [modify_of_ne hki, modify_of_ne hkc, modify_of_ne hkc, if_neg hki, Int.add_zero]

/-- The end of `handle_new_child`. -/
def afterClone (t : Tracer) (i c : ℕ) : Tracer :=
  if (t.tcbtab i).sysFunc = .clone then t.cloneChild i c ((t.tcbtab i).uArg 0) else t

theorem Alike.afterClone (h : Alike t t') (i c : ℕ) : Alike (t.afterClone i c) (t'.afterClone i c) := by
  unfold Tracer.afterClone
  rw [h.field ProcTcb.sysFunc (fun _ => rfl) i, h.field ProcTcb.uArg (fun _ => rfl) i]
  split_ifs
  · exact h.cloneChild i c _
  · exact h

theorem afterClone_field {β : Type} (g : ProcTcb → β)
    (hg : ∀ (tcp : ProcTcb) (q : Option ℕ) (n m : ℤ) (b : Bool),
      g { tcp with parent := q, nchildren := n, ncloneThreads := m, cloneThread := b } = g tcp) (i c : ℕ) :
    g ((t.afterClone i c).tcbtab k) = g (t.tcbtab k) := by
  unfold afterClone
  split_ifs
  · exact cloneChild_field g hg i c _
  · rfl

/-- The parent comes first: it enters the child. -/
theorem handleNewChild_first (hi : (t.tcbtab i).inUse = true) (hidir : (t.tcbtab i).currentDir = true)
    (hnone : t.pid2tcb pid = none) (hc : (t.forkTcb i).alloctcb pid = .ok (c, (t.forkTcb i).enter c pid))
    (hfree : (t.tcbtab c).inUse = false) :
    t.handleNewChild a i pid false = .ok ((((t.forkTcb i).enter c pid).adopt i c).afterClone i c) := by
  have hic : i ≠ c := by
    rintro rfl
    exact Bool.noConfusion (hfree.symm.trans hi)
  have hnew : ((t.forkTcb i).enter c pid).tcbtab c = initTcb pid ((t.forkTcb i).tcbtab c) := by
    rw [enter_tcbtab, if_pos rfl]
  have hadopt : ((t.forkTcb i).enter c pid).adoptChild a i c false = .ok (((t.forkTcb i).enter c pid).adopt i c) := by
    refine adoptChild_eq (by rw [hnew]; rfl) ?_
    rw [enter_tcbtab, if_neg hic, forkTcb_field ProcTcb.currentDir fun _ _ => rfl, hidir]
  have hawake : ((((t.forkTcb i).enter c pid).adopt i c).tcbtab c).suspended = false := by
    simp only [adopt, adopted, hnew]
    rfl
  have hchild : t.childTcb i pid = .ok (c, (t.forkTcb i).enter c pid) := by simp only [childTcb, hnone, hc]
  rw [handleNewChild, hchild]
  simp only [bind, Except.bind, hadopt, hawake, Bool.false_and, Bool.false_eq_true, if_false, afterClone]
  split_ifs <;> rfl

/-- The child comes first: it goes on when the parent is known. -/
theorem handleNewChild_second (hc : t.pid2tcb pid = some c) (hidir : (t.tcbtab i).currentDir = true)
    (hcdir : (t.tcbtab c).currentDir = false)
    (hready : (t.tcbtab c).startup = true ∧ (t.tcbtab c).attached = true ∧ (t.tcbtab c).suspended = true)
    (hptrace : ∀ q, a.ptrace .syscall q ≠ .failed) :
    t.handleNewChild a i pid false = .ok (((t.adopt i c).resumeNewborn a c false).afterClone i c) := by
  have hadopt : t.adoptChild a i c false = .ok (t.adopt i c) := adoptChild_eq hcdir hidir
  have hsusp : ((t.adopt i c).tcbtab c).suspended = true := hready.2.2
  have hchild : t.childTcb i pid = .ok (c, t) := by simp [childTcb, hc, hready]
  rw [handleNewChild, hchild]
  simp only [bind, Except.bind, hadopt, hsusp, if_true, Bool.true_and, afterClone]
  rw [if_neg]
  · split_ifs <;> rfl
  · simpa using hptrace _

/-- What is not the table. -/
structure Rest where
  tcbtabsize : ℕ
  nprocs : ℤ
  setOptions : Bool
  exitCode : ℕ
  log : List TraceEvent

def rest (t : Tracer) : Rest := ⟨t.tcbtabsize, t.nprocs, t.setOptions, t.exitCode, t.log⟩

theorem afterClone_rest (i c : ℕ) : (t.afterClone i c).rest = t.rest := by
  have hleader : (t.adoptByLeader i c).2.rest = t.rest := by
    unfold adoptByLeader
    cases groupLeader (t.tcbtab i) <;> rfl
  have hparent : ∀ {u : Tracer} {q}, (u.adoptByParent q c).rest = u.rest := by
    intro u q
    simp only [adoptByParent]
    split <;> rfl
  unfold afterClone
  split_ifs
  · simp only [cloneChild]
    split_ifs
    · exact hleader
    · exact hparent.trans hleader
    · exact hleader
  · rfl

/-- The report of a `fork`. -/
theorem traceReport_fork {sig event : ℕ} {u : Tracer} (hi : t.pid2tcb rp.pid = some i)
    (hawake : (t.tcbtab i).suspended = false) (hstatus : rp.status = .stopped sig event)
    (hevent : 1 ≤ event ∧ event ≤ 3)
    (hoptions : t.setOptions = true) (hmsg : rp.answers.eventMsg = .ok pid)
    (hnew : (t.say (.report rp.pid rp.status)).handleNewChild rp.answers i pid false = .ok u)
    (hptrace : ∀ q, rp.answers.ptrace .syscall q ≠ .failed) :
    t.traceReport cfg rp = .ok (none, u.request .syscall (u.tcbtab i).pid 0) := by
  have hfind : (t.say (.report rp.pid rp.status)).pid2tcb rp.pid = some i := hi
  have hcond : (!(t.say (.report rp.pid rp.status)).setOptions || event == 0 || decide (3 < event)) = false := by
    simp only [say_setOptions, hoptions, Bool.not_true, Bool.false_or, Bool.or_eq_false_iff, beq_eq_false_iff_ne,
      decide_eq_false_iff_not]
    omega
  simp only [traceReport, hfind, traceTcb, say_tcbtab, hawake, Bool.false_eq_true, if_false]
  rw [hstatus] at hcond hnew ⊢
  simp only [traceStopped, handlePtraceEvent, hcond, Bool.false_eq_true, if_false, hmsg, hnew, Except.map, bind,
    Except.bind, restart, if_neg (hptrace _)]

/-- The first stop of a child that its parent has entered. -/
theorem traceReport_known (hc : t.pid2tcb rc.pid = some c) (hawake : (t.tcbtab c).suspended = false)
    (hstartup : (t.tcbtab c).startup = true) (hbpt : (t.tcbtab c).bptSet = false) (hoptions : t.setOptions = true)
    (hpid : (t.tcbtab c).pid = rc.pid) (hstatus : rc.status = .stopped sigstop 0)
    (hptrace : rc.answers.ptrace .syscall rc.pid ≠ .failed) (hset : rc.answers.ptrace .setOptions rc.pid ≠ .failed) :
    ∃ l, (l = [] ∨ l = [.request .setOptions rc.pid 0]) ∧ t.traceReport cfg rc = .ok (none,
      { t.modify c fun tcp => { tcp with startup := false } with
        log := .request .syscall rc.pid 0 :: l ++ .report rc.pid rc.status :: t.log }) := by
  have hfind : (t.say (.report rc.pid (.stopped sigstop 0))).pid2tcb rc.pid = some c := hc
  rw [hstatus]
  by_cases hcond : (cfg.followfork && (t.tcbtab c).parent.isNone && t.setOptions) = true
  · -- its parent is not known, so the options are set once more
    refine ⟨[.request .setOptions rc.pid 0], .inr rfl, ?_⟩
    have hrun : t.traceReport cfg rc = .ok (none, ({ ((t.say (.report rc.pid (.stopped sigstop 0))).modify c
        fun tcp => { tcp with startup := false }).request .setOptions rc.pid 0 with
        setOptions := rc.answers.ptrace .setOptions rc.pid != Reply.failed }).request .syscall rc.pid 0) := by
      simp [traceReport, hstatus, hfind, traceTcb, hawake, traceStopped, handlePtraceEvent, bind, Except.bind, hstartup,
        traceStartup, hbpt, hcond, restart, hpid, hptrace]
    rw [hrun]
    refine congrArg (fun u => Except.ok (none, u)) (ext_of (fun _ => rfl) rfl rfl ?_ rfl rfl)
    rw [modify_setOptions, hoptions]
    simpa using hset
  · refine ⟨[], .inl rfl, ?_⟩
    have hrun : t.traceReport cfg rc = .ok (none, ((t.say (.report rc.pid (.stopped sigstop 0))).modify c
        fun tcp => { tcp with startup := false }).request .syscall rc.pid 0) := by
      simp [traceReport, hstatus, hfind, traceTcb, hawake, traceStopped, handlePtraceEvent, bind, Except.bind, hstartup,
        traceStartup, hbpt, hcond, restart, hpid, hptrace]
    rw [hrun]
    rfl

/-- The table after the first stop of a child that comes first. -/
def childFirst (t : Tracer) (rc : Report) (c : ℕ) : Tracer :=
  ((t.say (.report rc.pid rc.status)).enter c rc.pid).modify c fun tcp =>
    { tcp with attached := true, suspended := true }

/-- The first stop of a child whose parent has not reported it. -/
theorem traceReport_early (hc : t.pid2tcb rc.pid = none) (hfollow : cfg.followfork = true)
    (halloc : (t.say (.report rc.pid rc.status)).alloctcb rc.pid =
      .ok (c, (t.say (.report rc.pid rc.status)).enter c rc.pid)) :
    t.traceReport cfg rc = .ok (none, t.childFirst rc c) := by
  have hfind : (t.say (.report rc.pid rc.status)).pid2tcb rc.pid = none := hc
  simp only [traceReport, hfind, hfollow, Bool.not_true, Bool.false_eq_true, if_false, halloc, bind, Except.bind]
  rfl

/-! ## Both orders -/

/-- The process at `i` has made a child, and neither its report nor the first stop of the child has been seen. -/
structure Forked (cfg : TraceConfig) (t : Tracer) (i : ℕ) (rp rc : Report) : Prop where
  follow : cfg.followfork = true
  options : t.setOptions = true
  parent : t.pid2tcb rp.pid = some i
  awake : (t.tcbtab i).suspended = false
  dir : (t.tcbtab i).currentDir = true
  event : ∃ sig event, rp.status = .stopped sig event ∧ 1 ≤ event ∧ event ≤ 3
  message : rp.answers.eventMsg = .ok rc.pid
  child : t.pid2tcb rc.pid = none
  child_pos : 0 < rc.pid
  stop : rc.status = .stopped sigstop 0
  parent_ptrace : ∀ q, rp.answers.ptrace .syscall q ≠ .failed
  child_ptrace : rc.answers.ptrace .syscall rc.pid ≠ .failed
  child_options : rc.answers.ptrace .setOptions rc.pid ≠ .failed

/-- The entry that `alloc_tcb` gives out depends only on which entries are in use. -/
theorem alloctcb_congr (hsize : t'.grown.tcbtabsize = t.grown.tcbtabsize)
    (huse : ∀ k, (t'.tcbtab k).inUse = (t.tcbtab k).inUse) (h : t.alloctcb pid = .ok (c, t.enter c pid)) :
    t'.alloctcb pid = .ok (c, t'.enter c pid) := by
  have hgrown : ∀ u : Tracer, (if u.nprocs = u.tcbtabsize then u.expandTcbtab else u) = u.grown := fun _ => rfl
  simp only [alloctcb, hgrown, grown_tcbtab] at h ⊢
  have hfind : ((List.range t'.grown.tcbtabsize).find? fun k => !(t'.tcbtab k).inUse) =
      (List.range t.grown.tcbtabsize).find? fun k => !(t.tcbtab k).inUse := by simp only [hsize, huse]
  rw [hfind]
  cases hcase : (List.range t.grown.tcbtabsize).find? fun k => !(t.tcbtab k).inUse with
  | none =>
    rw [hcase] at h
    cases h
  | some d =>
    rw [hcase] at h
    obtain ⟨rfl, -⟩ := Prod.mk.inj (Except.ok.inj h)
    simp only [grown_nprocs]
    rfl

theorem Forked.regular (h : Sound t) (hf : Forked cfg t i rp rc) : Regular t rp := by
  obtain ⟨hi, hpid⟩ := h.pid2tcb_eq_some.1 hf.parent
  refine ⟨hpid ▸ h.pid_pos i hi, fun j pid _ hchild => ?_⟩
  obtain ⟨sig, event, hstatus, hevent⟩ := hf.event
  simp only [announcedChild, hstatus] at hchild
  rw [if_pos ⟨hf.options, hevent⟩, hf.message] at hchild
  exact Option.some.inj hchild ▸ hf.child_pos

theorem grown_forkTcb (h : Sound t) : (t.forkTcb i).grown.tcbtabsize = t.grown.tcbtabsize := by
  have hlt := h.nprocs_lt
  have hne : (t.forkTcb i).nprocs ≠ (t.forkTcb i).tcbtabsize := by
    rw [forkTcb_eq, modify_nprocs, modify_tcbtabsize, grown_nprocs]
    omega
  rw [grown, if_neg hne]
  rfl

theorem grown_say (e : TraceEvent) : (t.say e).grown.tcbtabsize = t.grown.tcbtabsize := by
  unfold grown
  rw [say_nprocs, say_tcbtabsize]
  split_ifs <;> rfl

/-- The table after the report of a parent that comes first, without the last request. -/
def parentFirst (t : Tracer) (rp rc : Report) (i c : ℕ) : Tracer :=
  ((((t.say (.report rp.pid rp.status)).forkTcb i).enter c rc.pid).adopt i c).afterClone i c

/-- The table after the report of the parent of that child, without the last request. -/
def childThenParent (t : Tracer) (rp rc : Report) (i c : ℕ) : Tracer :=
  ((((t.childFirst rc c).say (.report rp.pid rp.status)).adopt i c).resumeNewborn rp.answers c false).afterClone i c

/-- The tables of both orders before the options of `clone` are looked at. -/
theorem alike_of_orders (hic : c ≠ i) (e e' : TraceEvent) :
    Alike ((((t.say e).forkTcb i).enter c pid).adopt i c)
      ((((((t.say e').enter c pid).modify c fun tcp => { tcp with attached := true, suspended := true }).say e).adopt
        i c).resumeNewborn a c false) := by
  intro k
  simp only [resumeNewborn, Bool.false_eq_true, if_false, request_tcbtab, adopt, say_tcbtab]
  by_cases hkc : k = c
  · subst hkc
    simp only [modify_tcbtab, enter_tcbtab, say_tcbtab, if_true, forkTcb_eq, grown_tcbtab, if_neg hic, adopted]
    rfl
  · rw [modify_of_ne hkc]
    simp only [enter_tcbtab, say_tcbtab, if_neg hkc, modify_tcbtab, forkTcb_eq, grown_tcbtab]
    split_ifs <;> rfl

/-- The entry of the child after the report of its parent. -/
theorem parentFirst_child (t : Tracer) (rp rc : Report) (i c : ℕ) : ((t.parentFirst rp rc i c).tcbtab c).inUse = true ∧
    ((t.parentFirst rp rc i c).tcbtab c).pid = rc.pid ∧ ((t.parentFirst rp rc i c).tcbtab c).suspended = false ∧
    ((t.parentFirst rp rc i c).tcbtab c).startup = true ∧ ((t.parentFirst rp rc i c).tcbtab c).bptSet = false := by
  have hnew : (((t.say (.report rp.pid rp.status)).forkTcb i).enter c rc.pid).tcbtab c =
      initTcb rc.pid (((t.say (.report rp.pid rp.status)).forkTcb i).tcbtab c) := by rw [enter_tcbtab, if_pos rfl]
  unfold parentFirst
  rw [afterClone_field ProcTcb.inUse fun _ _ _ _ _ => rfl, afterClone_field ProcTcb.pid fun _ _ _ _ _ => rfl,
    afterClone_field ProcTcb.suspended fun _ _ _ _ _ => rfl, afterClone_field ProcTcb.startup fun _ _ _ _ _ => rfl,
    afterClone_field ProcTcb.bptSet fun _ _ _ _ _ => rfl]
  simp only [adopt, hnew]
  exact ⟨rfl, rfl, rfl, rfl, rfl⟩

theorem parentFirst_parent (hic : i ≠ c) : ((t.parentFirst rp rc i c).tcbtab i).pid = (t.tcbtab i).pid := by
  unfold parentFirst
  rw [afterClone_field ProcTcb.pid fun _ _ _ _ _ => rfl]
  simp only [adopt, enter_tcbtab, if_neg hic]
  exact forkTcb_field ProcTcb.pid fun _ _ => rfl

theorem childThenParent_parent (hic : i ≠ c) : ((t.childThenParent rp rc i c).tcbtab i).pid = (t.tcbtab i).pid := by
  unfold childThenParent
  rw [afterClone_field ProcTcb.pid fun _ _ _ _ _ => rfl, resumeNewborn_field ProcTcb.pid (fun _ => rfl) fun _ _ => rfl]
  simp only [adopt, childFirst, say_tcbtab]
  rw [modify_of_ne hic, enter_tcbtab, if_neg hic]
  rfl

theorem parentFirst_startup :
    ((t.parentFirst rp rc i c).tcbtab k).startup = if k = c then true else (t.tcbtab k).startup := by
  unfold parentFirst
  rw [afterClone_field ProcTcb.startup fun _ _ _ _ _ => rfl]
  simp only [adopt, enter_tcbtab]
  by_cases hkc : k = c
  · rw [if_pos hkc, if_pos hkc]
    rfl
  · rw [if_neg hkc, if_neg hkc]
    exact forkTcb_field ProcTcb.startup fun _ _ => rfl

theorem childThenParent_startup :
    ((t.childThenParent rp rc i c).tcbtab k).startup = if k = c then false else (t.tcbtab k).startup := by
  unfold childThenParent
  rw [afterClone_field ProcTcb.startup fun _ _ _ _ _ => rfl, resumeNewborn_startup]
  by_cases hkc : k = c
  · rw [if_pos hkc, if_pos hkc]
  · rw [if_neg hkc, if_neg hkc]
    simp only [adopt, childFirst, say_tcbtab]
    rw [modify_of_ne hkc, enter_tcbtab, if_neg hkc]
    rfl

theorem grown_rest : t.grown.rest = { t.rest with tcbtabsize := t.grown.tcbtabsize } := by
  unfold grown
  split_ifs <;> rfl

theorem enter_rest (c : ℕ) (pid : ℤ) :
    (t.enter c pid).rest = { t.rest with tcbtabsize := t.grown.tcbtabsize, nprocs := t.nprocs + 1 } :=
  congrArg (fun r : Rest => { r with nprocs := t.nprocs + 1 }) grown_rest

theorem parentFirst_rest (h : Sound t) (rp rc : Report) (i c : ℕ) : (t.parentFirst rp rc i c).rest =
    ⟨t.grown.tcbtabsize, t.nprocs + 1, t.setOptions, t.exitCode, .report rp.pid rp.status :: t.log⟩ := by
  have hfork : ((t.say (.report rp.pid rp.status)).forkTcb i).rest =
      (t.say (.report rp.pid rp.status)).grown.rest := rfl
  have hnprocs : ((t.say (.report rp.pid rp.status)).forkTcb i).nprocs = t.nprocs := grown_nprocs
  refine (afterClone_rest i c).trans ((enter_rest c rc.pid).trans ?_)
  rw [hfork, hnprocs, grown_rest, grown_forkTcb (h.say _), grown_say]
  rfl

theorem childThenParent_rest (t : Tracer) (rp rc : Report) (i c : ℕ) : (t.childThenParent rp rc i c).rest =
    ⟨t.grown.tcbtabsize, t.nprocs + 1, t.setOptions, t.exitCode,
      .request .syscall rc.pid 0 :: .report rp.pid rp.status :: .report rc.pid rc.status :: t.log⟩ := by
  have hpid : ((t.childFirst rc c).tcbtab c).pid = rc.pid := by
    unfold childFirst
    rw [modify_self, enter_tcbtab, if_pos rfl]
    rfl
  have hfirst : (t.childFirst rc c).rest = ⟨t.grown.tcbtabsize, t.nprocs + 1, t.setOptions, t.exitCode,
      .report rc.pid rc.status :: t.log⟩ := by
    refine (enter_rest c rc.pid).trans ?_
    rw [grown_say]
    rfl
  refine (afterClone_rest i c).trans ?_
  have hsecond :
      ((((t.childFirst rc c).say (.report rp.pid rp.status)).adopt i c).resumeNewborn rp.answers c false).rest =
      { (t.childFirst rc c).rest with
        log := .request .syscall ((t.childFirst rc c).tcbtab c).pid 0 ::
          (.report rp.pid rp.status :: (t.childFirst rc c).rest.log) } := rfl
  rw [hsecond, hpid, hfirst]

section Orders

variable (h : Sound t) (hf : Forked cfg t i rp rc)
  (hc : (t.say (.report rc.pid rc.status)).alloctcb rc.pid = .ok (c, (t.say (.report rc.pid rc.status)).enter c rc.pid))
  (hfree : (t.tcbtab c).inUse = false)

include h hf hc hfree

/-- The parent comes first. -/
theorem traceReport_parentFirst : t.traceReport cfg rp =
    .ok (none, (t.parentFirst rp rc i c).request .syscall ((t.parentFirst rp rc i c).tcbtab i).pid 0) := by
  obtain ⟨hi, -⟩ := h.pid2tcb_eq_some.1 hf.parent
  obtain ⟨sig, event, hstatus, hevent⟩ := hf.event
  have hc' : ((t.say (.report rp.pid rp.status)).forkTcb i).alloctcb rc.pid =
      .ok (c, ((t.say (.report rp.pid rp.status)).forkTcb i).enter c rc.pid) := by
    refine alloctcb_congr ?_ (fun k => ?_) hc
    · rw [grown_forkTcb (h.say _), grown_say, grown_say]
    · rw [forkTcb_field ProcTcb.inUse fun _ _ => rfl]
      rfl
  exact traceReport_fork hf.parent hf.awake hstatus hevent hf.options hf.message
    (handleNewChild_first hi hf.dir hf.child hc' hfree) hf.parent_ptrace

/-- The child comes after its parent. -/
theorem traceReport_thenChild : ∃ l, (l = [] ∨ l = [.request .setOptions rc.pid 0]) ∧
    ((t.parentFirst rp rc i c).request .syscall ((t.parentFirst rp rc i c).tcbtab i).pid 0).traceReport cfg rc =
      .ok (none, { (t.parentFirst rp rc i c).modify c fun tcp => { tcp with startup := false } with
        log := .request .syscall rc.pid 0 :: l ++ .report rc.pid rc.status ::
          .request .syscall ((t.parentFirst rp rc i c).tcbtab i).pid 0 :: (t.parentFirst rp rc i c).log }) := by
  obtain ⟨huse, hpid, hawake, hstartup, hbpt⟩ := parentFirst_child t rp rc i c
  have hpass : Sat (Failure cfg t rp) (fun res => Pass True rp (t.say (.report rp.pid rp.status)) res.1 res.2)
      (t.traceReport cfg rp) := traceReport_pass h (hf.regular h) fun _ _ => .inl trivial
  rw [traceReport_parentFirst h hf hc hfree] at hpass
  have hsound := Pass.sound (h.say _) (hf.regular h).pid_pos hpass
  have hoptions : (t.parentFirst rp rc i c).setOptions = true := by
    have hrest := congrArg Rest.setOptions (afterClone_rest
      (t := ((((t.say (.report rp.pid rp.status)).forkTcb i).enter c rc.pid).adopt i c)) i c)
    refine hrest.trans ?_
    simp only [rest, adopt, forkTcb_eq, enter, modify_setOptions, grown_setOptions, say_setOptions, hf.options]
  exact traceReport_known (hsound.pid2tcb_eq_some.2 ⟨huse, hpid⟩) hawake hstartup hbpt hoptions hpid hf.stop
    hf.child_ptrace hf.child_options

/-- The parent comes after its child. -/
theorem traceReport_thenParent (hsize : c < (t.say (.report rc.pid rc.status)).grown.tcbtabsize) :
    (t.childFirst rc c).traceReport cfg rp =
      .ok (none, (t.childThenParent rp rc i c).request .syscall ((t.childThenParent rp rc i c).tcbtab i).pid 0) := by
  obtain ⟨hi, hpid⟩ := h.pid2tcb_eq_some.1 hf.parent
  obtain ⟨sig, event, hstatus, hevent⟩ := hf.event
  have hic : i ≠ c := by
    rintro rfl
    exact Bool.noConfusion (hfree.symm.trans hi)
  have hsound : Sound (t.childFirst rc c) :=
    (h.say _).born hfree hsize hf.child_pos (h.pid2tcb_eq_none.1 hf.child)
  have hchild : (t.childFirst rc c).tcbtab c =
      { initTcb rc.pid (t.tcbtab c) with attached := true, suspended := true } := by
    unfold childFirst
    rw [modify_self, enter_tcbtab, if_pos rfl]
    rfl
  have hparent : (t.childFirst rc c).tcbtab i = t.tcbtab i := by
    unfold childFirst
    rw [modify_of_ne hic, enter_tcbtab, if_neg hic]
    rfl
  have hfind : (t.childFirst rc c).pid2tcb rp.pid = some i := by
    rw [hsound.pid2tcb_eq_some, hparent]
    exact ⟨hi, hpid⟩
  have hfindc : ((t.childFirst rc c).say (.report rp.pid rp.status)).pid2tcb rc.pid = some c := by
    rw [(hsound.say _).pid2tcb_eq_some, say_tcbtab, hchild]
    exact ⟨rfl, rfl⟩
  refine traceReport_fork hfind (by rw [hparent]; exact hf.awake) hstatus hevent ?_ hf.message
    (handleNewChild_second hfindc (by rw [say_tcbtab, hparent]; exact hf.dir) (by rw [say_tcbtab, hchild]; rfl)
      (by rw [say_tcbtab, hchild]; exact ⟨rfl, rfl, rfl⟩) hf.parent_ptrace) hf.parent_ptrace
  unfold childFirst
  simp only [modify_setOptions, enter, grown_setOptions, say_setOptions, hf.options]

end Orders

theorem stoppedIn_parentFirst {log l : List TraceEvent} {q p₀ c₀ : ℤ} {sp sc : WaitStatus}
    (hl : l = [] ∨ l = [.request .setOptions c₀ 0]) :
    stoppedIn (.request .syscall c₀ 0 :: l ++ .report c₀ sc :: .request .syscall p₀ 0 :: .report p₀ sp :: log) q =
      if q = c₀ ∨ q = p₀ then false else stoppedIn log q := by
  by_cases hqc : q = c₀
  · simp [stoppedIn, hqc]
  · by_cases hqp : q = p₀
    · obtain rfl | rfl := hl <;> simp [stoppedIn, hqp, hqp ▸ Ne.symm hqc]
    · obtain rfl | rfl := hl <;> simp [stoppedIn, hqc, hqp, Ne.symm hqc, Ne.symm hqp]

theorem stoppedIn_childFirst {log : List TraceEvent} {q p₀ c₀ : ℤ} {sp sc : WaitStatus} :
    stoppedIn (.request .syscall p₀ 0 :: .request .syscall c₀ 0 :: .report p₀ sp :: .report c₀ sc :: log) q =
      if q = c₀ ∨ q = p₀ then false else stoppedIn log q := by
  by_cases hqp : q = p₀
  · simp [stoppedIn, hqp]
  · by_cases hqc : q = c₀
    · simp [stoppedIn, hqc]
    · simp [stoppedIn, hqc, hqp, Ne.symm hqc, Ne.symm hqp]

end Tracer

end Ptu
