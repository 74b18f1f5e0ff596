import Ptu.Proof.TraceSteps

/-!
# One pass of the loop of the tracer

A pass enters a process that is not known yet, ignores the report of a suspended one, or handles the report with
moves that enter new processes first and drop processes afterwards (`Pass`). The ways in which it can fail are known
(`Failure`): null pointers and an exhausted table are not among them.

* `traceReport_pass`: what `trace` does for a report.
-/

namespace Ptu

open Outcome Relation

namespace Tracer

variable {t t₁ t' : Tracer} {i j k p c : ℕ} {pid : ℤ} {a : Answers} {abrupt : Prop} {E : Fatal → Prop}
  {cfg : TraceConfig} {r : Report}

/-! ## What a report says -/

/-- The process at `i` with the result of the system call. -/
def exitRead (t : Tracer) (i : ℕ) (trap : Trap) : Tracer :=
  t.modify i fun tcp => { tcp with uError := trap.uError, uRval := trap.uRval }

/-- The child that a report of the process at `i` announces. -/
def announcedChild (t : Tracer) (r : Report) (i : ℕ) : Option ℤ :=
  match r.status with
  | .stopped _ event =>
    if t.setOptions = true ∧ 1 ≤ event ∧ event ≤ 3 then r.answers.eventMsg.toOption
    else if r.trap.available then (t.exitRead i r.trap).forkedChild i
    else none
  | _ => none

/-- What the kernel says about pids. -/
structure Regular (t : Tracer) (r : Report) : Prop where
  pid_pos : 0 < r.pid
  child_pos : ∀ i pid, t.pid2tcb r.pid = some i → t.announcedChild r i = some pid → 0 < pid

instance : Decidable (Regular t r) :=
  decidable_of_iff (0 < r.pid ∧ ∀ i ∈ t.pid2tcb r.pid, ∀ pid ∈ t.announcedChild r i, 0 < pid)
    ⟨fun h => ⟨h.1, fun i pid hi hpid => h.2 i hi pid hpid⟩,
      fun h => ⟨h.pid_pos, fun i hi pid hpid => h.child_pos i pid hi hpid⟩⟩

/-- A report that comes to pass without threads, without a process that is dropped while its parent waits, and with
a `pid_t` as the argument of a wait. -/
structure Gentle (t : Tracer) (r : Report) (i : ℕ) : Prop where
  threads : NoThreads t
  clone : (t.tcbtab i).sysFunc = .clone → ((t.tcbtab i).uArg 0).hasFlag cloneThreadFlag = false
  wait : r.trap.sysFunc = .wait4 ∨ r.trap.sysFunc = .waitid →
    (r.trap.uArg 0).toInt ≤ 0 → (r.trap.uArg 0).toCInt ≤ 0
  attached : (t.tcbtab i).attached = true
  status : r.status ≠ .other
  poke : r.answers.poke (t.tcbtab i).pid = true

/-- The ways in which a pass fails. -/
inductive Failure (cfg : TraceConfig) (t : Tracer) (r : Report) : Fatal → Prop
  | unknown (hfollow : cfg.followfork = false) (hpid : t.pid2tcb r.pid = none) :
      Failure cfg t r (.exit (str "unknown pid: " ++ decimal r.pid.toNat ++ str "\n"))
  | event (reply : Reply) (hreply : r.answers.eventMsg = .error reply) (hsearch : reply ≠ .esrch) :
      Failure cfg t r (.exit (str "handle_ptrace_event: ptrace cannot get new child's pid\n"))
  | misannounced (i : ℕ) (pid : ℤ) (e : Fatal) (hi : t.pid2tcb r.pid = some i) (hawake : (t.tcbtab i).suspended = false)
      (hchild : t.announcedChild r i = some pid) (h : Misannounced t i pid e) : Failure cfg t r e

theorem Failure.of_say {ev : TraceEvent} {e : Fatal} (h : Failure cfg (t.say ev) r e) : Failure cfg t r e := by
  cases h with
  | unknown hfollow hpid => exact .unknown hfollow hpid
  | event reply hreply hsearch => exact .event reply hreply hsearch
  | misannounced i pid e hi hawake hchild h => exact .misannounced i pid e hi hawake hchild h

/-- A process that is stopped only if it waits. -/
def Settled (t : Tracer) (i : ℕ) (pid : ℤ) : Prop :=
  stoppedIn t.log pid = false ∨
    ((t.tcbtab i).pid = pid ∧ (t.tcbtab i).suspended = true ∧ (t.tcbtab i).exiting = false)

/-- What the report of the process at `i` has led to. -/
def Handled (i : ℕ) (abrupt : Prop) (t : Tracer) (result : Option ℤ × Tracer) : Prop :=
  (result.1 = none ∨ result.1 = some (-1)) ∧
    ∃ t₁, Moves i abrupt .spawning t t₁ ∧ Moves i abrupt .closing t₁ result.2 ∧
      (result.1 = none → result.2.Settled i (t.tcbtab i).pid)

theorem Released.handled {code : Option ℤ} (hs : Sound t) (hi : (t.tcbtab i).inUse = true)
    (hm : Moves i abrupt .spawning t t₁) (hcode : code = none ∨ code = some (-1))
    (h : Released i abrupt (t₁.tcbtab i).pid t₁ t') : Handled i abrupt t (code, t') := by
  rw [(Moves.kept hs hm hi).2.1] at h
  exact ⟨hcode, t₁, hm, h.1, fun _ => .inl h.2⟩

/-! ## System calls and events -/

theorem exitRead_links {trap : Trap} : ((t.exitRead i trap).tcbtab k).links = (t.tcbtab k).links := by
  unfold exitRead
  exact modify_field ProcTcb.links fun _ => rfl

theorem pid2tcb_congr (hlinks : ∀ k, (t'.tcbtab k).links = (t.tcbtab k).links) (hsize : t'.tcbtabsize = t.tcbtabsize) :
    t'.pid2tcb pid = t.pid2tcb pid := by
  have hpid : ∀ k, (t'.tcbtab k).pid = (t.tcbtab k).pid := fun k => congrArg Links.pid (hlinks k)
  have huse : ∀ k, (t'.tcbtab k).inUse = (t.tcbtab k).inUse := fun k => congrArg Links.inUse (hlinks k)
  simp only [pid2tcb, hpid, huse, hsize]

theorem Misannounced.congr {e : Fatal} (hlinks : ∀ k, (t'.tcbtab k).links = (t.tcbtab k).links)
    (hsize : t'.tcbtabsize = t.tcbtabsize) (h : Misannounced t' i pid e) : Misannounced t i pid e := by
  have hdir : ∀ k, (t'.tcbtab k).currentDir = (t.tcbtab k).currentDir :=
    fun k => congrArg Links.currentDir (hlinks k)
  simpa only [Misannounced, pid2tcb_congr hlinks hsize, hdir] using h

theorem traceSyscallEntering_moves (h : Sound t) (hi : (t.tcbtab i).inUse = true)
    (hawake : (t.tcbtab i).suspended = false) (hsys : (t.tcbtab i).inSyscall = false)
    (hgentle : abrupt ∨ Gentle t r i) :
    Sat E (fun res => Moves i abrupt .spawning t res.2) (t.traceSyscallEntering cfg a i r.trap) := by
  obtain ⟨t₁, ht₁⟩ : ∃ t₁, (t.modify i fun tcp => { tcp with
    sysFunc := r.trap.sysFunc, isExitGroup := r.trap.isExitGroup, uArg := r.trap.uArg }) = t₁ := ⟨_, rfl⟩
  have hread : Moves i abrupt .spawning t t₁ :=
    ht₁ ▸ ReflTransGen.single (.own _ (fun _ => rfl) (fun _ => rfl) fun _ => rfl)
  have htcp : t₁.tcbtab i = { t.tcbtab i with
      sysFunc := r.trap.sysFunc, isExitGroup := r.trap.isExitGroup, uArg := r.trap.uArg } := by rw [← ht₁, modify_self]
  have hsys₁ : (t₁.tcbtab i).inSyscall = false := by rw [htcp, hsys]
  have hnone : t₁.forkedChild i = none := by simp [forkedChild, hsys₁]
  simp only [traceSyscallEntering, ht₁]
  split_ifs
  · simp only [sat_ok]
    exact hread.tail (.own _ (fun _ => rfl) (fun _ => rfl) fun _ => rfl)
  · exact hread
  · have hcall : Sat E (Moves i abrupt .spawning t₁) (t₁.internalSyscall cfg a i) := by
      refine (internalSyscall_moves cfg a (Moves.sound h hread) ?_ ?_ ?_ ?_ ?_).imp (fun e he => ?_) fun _ hm => hm
      · rw [htcp, hi]
      · rw [htcp, hawake]
      · simp [hsys₁]
      · rw [htcp]
        exact fun _ hfunc => hgentle.imp_right fun hg => hg.wait hfunc
      · rw [hnone]
        simp
      · rw [hnone] at he
        obtain ⟨pid, hpid, -⟩ := he
        cases hpid
    refine hcall.bind fun t₂ ht₂ => ?_
    simp only [sat_pure]
    exact (hread.trans ht₂).tail (.own _ (fun _ => rfl) (fun _ => rfl) fun _ => rfl)

theorem traceSyscallExiting_moves (h : Sound t) (hi : (t.tcbtab i).inUse = true)
    (hawake : (t.tcbtab i).suspended = false) (hsys : (t.tcbtab i).inSyscall = true) (hgentle : abrupt ∨ Gentle t r i)
    (hpid : r.trap.available = true → ∀ pid, (t.exitRead i r.trap).forkedChild i = some pid → 0 < pid) :
    Sat (fun e => ∃ pid, r.trap.available = true ∧ (t.exitRead i r.trap).forkedChild i = some pid ∧
        Misannounced t i pid e)
      (fun res => Moves i abrupt .spawning t res.2) (t.traceSyscallExiting cfg a i r.trap) := by
  have hread : Moves i abrupt .spawning t (t.exitRead i r.trap) :=
    ReflTransGen.single (.own _ (fun _ => rfl) (fun _ => rfl) fun _ => rfl)
  have htcp : (t.exitRead i r.trap).tcbtab i = { t.tcbtab i with uError := r.trap.uError, uRval := r.trap.uRval } :=
    modify_self
  have hdef : (t.modify i fun tcp => { tcp with uError := r.trap.uError, uRval := r.trap.uRval }) =
      t.exitRead i r.trap := rfl
  simp only [traceSyscallExiting, hdef]
  by_cases havail : r.trap.available = true
  · simp only [havail, Bool.not_true, Bool.false_eq_true, if_false, true_and]
    refine Sat.bind (Q := Moves i abrupt .spawning (t.exitRead i r.trap)) ?_ fun t₂ ht₂ => ?_
    · refine (internalSyscall_moves cfg a (Moves.sound h hread) ?_ ?_ ?_ ?_ (hpid havail)).imp
        (fun e he => ?_) fun _ hm => hm
      · rw [htcp, hi]
      · rw [htcp, hawake]
      · intro _
        refine ThreadsAllowed.of_fields (hgentle.imp_right fun hg => ⟨hg.threads, hg.clone⟩) (fun k hk => ?_)
          (by rw [htcp]) (by rw [htcp])
        exact (congrArg Links.cloneThread exitRead_links).symm.trans hk
      · rw [htcp, hsys]
        simp
      · obtain ⟨pid, hchild, hmis⟩ := he
        exact ⟨pid, hchild, hmis.congr (fun _ => exitRead_links) rfl⟩
    · simp only [sat_pure]
      exact (hread.trans ht₂).tail (.own _ (fun _ => rfl) (fun _ => rfl) fun _ => rfl)
  · simp only [havail, Bool.not_false, if_true, sat_ok]
    exact hread.tail (.own _ (fun _ => rfl) (fun _ => rfl) fun _ => rfl)

/-! ## A stop -/

/-- A stop at a system call. -/
theorem traceTrap_handled (h : Sound t) (hi : (t.tcbtab i).inUse = true) (hawake : (t.tcbtab i).suspended = false)
    (hgentle : abrupt ∨ Gentle t r i)
    (hpid : r.trap.available = true → ∀ pid, (t.exitRead i r.trap).forkedChild i = some pid → 0 < pid) :
    Sat (fun e => ∃ pid, r.trap.available = true ∧ (t.exitRead i r.trap).forkedChild i = some pid ∧
        Misannounced t i pid e) (Handled i abrupt t) (t.traceTrap cfg r i) := by
  have hcall : Sat (fun e => ∃ pid, r.trap.available = true ∧ (t.exitRead i r.trap).forkedChild i = some pid ∧
      Misannounced t i pid e) (fun res => Moves i abrupt .spawning t res.2)
      (t.traceSyscall cfg r.answers i r.trap) := by
    unfold traceSyscall
    split_ifs with hsys
    · exact traceSyscallExiting_moves h hi hawake hsys hgentle hpid
    · exact traceSyscallEntering_moves h hi hawake (Bool.eq_false_of_not_eq_true hsys) hgentle
  rw [traceTrap]
  refine hcall.bind fun res (hm : Moves i abrupt .spawning t res.2) => ?_
  obtain ⟨fails, t₁⟩ := res
  have hs₁ := Moves.sound h hm
  have hthreads : abrupt ∨ NoThreads t₁ := Moves.noThreads h hm (hgentle.imp_right Gentle.threads)
  simp only
  split_ifs with hfails hattached hexiting hgroup hattached hsuspended
  · exact (detach_moves hs₁ hthreads r.answers i 0).map fun t' ht' => ht'.handled h hi hm (.inl rfl)
  · -- a process that is not attached is killed and dropped at once
    have habrupt : abrupt := hgentle.resolve_right fun hg => hattached ((Moves.kept h hm hi).2.2 hg.attached)
    have hkill : Released i abrupt (t₁.tcbtab i).pid t₁ (t₁.request .kill (t₁.tcbtab i).pid 15) :=
      ⟨request_moves _ _ _, stoppedIn_request_self (by decide)⟩
    exact (hkill.trans hs₁ (droptcb_moves (Moves.sound hs₁ hkill.1) (.inl habrupt) (.inl rfl) (.inl habrupt))).handled
      h hi hm (.inl rfl)
  · exact (handleGroupExit_some_moves hs₁ hthreads r.answers 0).mono fun res hres => hres.2.handled h hi hm hres.1
  · exact (detach_moves hs₁ hthreads r.answers i 0).map fun t' ht' => ht'.handled h hi hm (.inl rfl)
  · exact (restart_moves hs₁ hthreads (by decide) r.answers 0).mono fun res hres => hres.2.handled h hi hm hres.1
  · exact ⟨.inl rfl, t₁, hm, ReflTransGen.refl, fun _ =>
      .inr ⟨(Moves.kept h hm hi).2.1, hsuspended, Bool.eq_false_of_not_eq_true hexiting⟩⟩
  · exact (restart_moves hs₁ hthreads (by decide) r.answers 0).mono fun res hres => hres.2.handled h hi hm hres.1

/-- A stop for a signal. -/
theorem traceSignal_handled (h : Sound t) (hi : (t.tcbtab i).inUse = true) (hthreads : abrupt ∨ NoThreads t) (sig : ℕ) :
    Sat E (Handled i abrupt t) (t.traceSignal a i sig) := by
  simp only [traceSignal]
  split_ifs
  · have hown : Moves i abrupt .spawning t
        (t.modify i fun tcp => { tcp with inSyscall := false, sigTrapped := false }) :=
      ReflTransGen.single (.own _ (fun _ => rfl) (fun _ => rfl) fun _ => rfl)
    exact (restart_moves (Moves.sound h hown) (Moves.noThreads h hown hthreads) (by decide) a 0).mono
      fun res hres => hres.2.handled h hi hown hres.1
  · exact (handleGroupExit_some_moves h hthreads a sig).map fun res hres =>
      hres.2.handled h hi ReflTransGen.refl (.inl rfl)
  · exact (restart_moves h hthreads (by decide) a sig).mono fun res hres => hres.2.handled h hi ReflTransGen.refl hres.1

/-- The first stop of a process. -/
theorem traceStartup_handled (h : Sound t) (hi : (t.tcbtab i).inUse = true) (hgentle : abrupt ∨ Gentle t r i) :
    Sat E (Handled i abrupt t) (t.traceStartup cfg r.answers i) := by
  obtain ⟨t₁, ht₁⟩ : ∃ t₁, (t.modify i fun tcp => { tcp with startup := false }) = t₁ := ⟨_, rfl⟩
  have hown : Moves i abrupt .spawning t t₁ :=
    ht₁ ▸ ReflTransGen.single (.own _ (fun _ => rfl) (fun _ => rfl) fun _ => rfl)
  have hthreads : ∀ {t₂}, Moves i abrupt .spawning t t₂ → abrupt ∨ NoThreads t₂ :=
    fun hm => Moves.noThreads h hm (hgentle.imp_right Gentle.threads)
  simp only [traceStartup, ht₁]
  by_cases hpoke : ((t.tcbtab i).bptSet && !r.answers.poke (t.tcbtab i).pid) = true
  · rw [if_pos hpoke]
    -- the arguments of the process cannot be restored: it is given up, and so is everything else
    have habrupt : abrupt := hgentle.resolve_right fun hg => by simp [hg.poke] at hpoke
    have hdrop : Moves i abrupt .closing t₁ (t₁.droptcb i) :=
      droptcb_moves (Moves.sound h hown) (.inl habrupt) (.inl rfl) (.inl habrupt)
    exact (cleanup_moves (Moves.sound (Moves.sound h hown) hdrop) (.inl habrupt) r.answers).map fun t' ht' =>
      ⟨.inr rfl, t₁, hown, hdrop.trans ht', fun hnone => by cases hnone⟩
  · rw [if_neg hpoke]
    obtain ⟨t₂, ht₂, hm₂⟩ : ∃ t₂, (if (t.tcbtab i).bptSet then t₁.clearbpt r.answers i else t₁) = t₂ ∧
        Moves i abrupt .spawning t t₂ := by
      refine ⟨_, rfl, ?_⟩
      split_ifs
      · exact hown.trans clearbpt_moves
      · exact hown
    rw [ht₂]
    have hoptions : Moves i abrupt .spawning t
        (if cfg.followfork && (t.tcbtab i).parent.isNone && t₂.setOptions then
          { t₂.request .setOptions (t.tcbtab i).pid 0 with
            setOptions := r.answers.ptrace .setOptions (t.tcbtab i).pid != .failed }
        else t₂) := by
      split_ifs
      · exact (hm₂.trans (request_moves _ _ _)).tail (.options _)
      · exact hm₂
    exact (restart_moves (Moves.sound h hoptions) (hthreads hoptions) (by decide) r.answers 0).mono
      fun res hres => hres.2.handled h hi hoptions hres.1

/-- What a stop of the process at `i` leads to. -/
theorem traceStopped_handled {sig event : ℕ} (h : Sound t) (hi : (t.tcbtab i).inUse = true)
    (hawake : (t.tcbtab i).suspended = false) (hgentle : abrupt ∨ Gentle t r i)
    (hstatus : r.status = .stopped sig event)
    (hfind : t.pid2tcb r.pid = some i) (hpid : ∀ pid, t.announcedChild r i = some pid → 0 < pid) :
    Sat (Failure cfg t r) (Handled i abrupt t) (t.traceStopped cfg r i sig event) := by
  have hthreads : abrupt ∨ NoThreads t := hgentle.imp_right Gentle.threads
  rw [traceStopped]
  by_cases hevent : t.setOptions = true ∧ 1 ≤ event ∧ event ≤ 3
  · -- the stop announces a child
    have hcond : (!t.setOptions || event == 0 || decide (3 < event)) = false := by
      simp only [hevent.1, Bool.not_true, Bool.false_or, Bool.or_eq_false_iff, beq_eq_false_iff_ne,
        decide_eq_false_iff_not]
      omega
    simp only [handlePtraceEvent, hcond, Bool.false_eq_true, if_false]
    cases hmsg : r.answers.eventMsg with
    | error reply =>
      cases reply with
      | esrch =>
        exact (restart_moves h hthreads (by decide) r.answers 0).mono fun res hres =>
          hres.2.handled h hi ReflTransGen.refl hres.1
      | ok => exact .event .ok hmsg (by decide)
      | failed => exact .event .failed hmsg (by decide)
    | ok pid =>
      have hchild : t.announcedChild r i = some pid := by
        simp only [announcedChild, hstatus]
        rw [if_pos hevent, hmsg]
        rfl
      have hnew : Sat (Failure cfg t r) (Moves i abrupt .spawning t) (t.handleNewChild r.answers i pid false) :=
        (handleNewChild_moves h hi hawake (hgentle.imp_right fun hg => ⟨hg.threads, hg.clone⟩) (hpid pid hchild)
          r.answers false).imp (fun e he => .misannounced i pid e hfind hawake hchild he) fun _ hm => hm
      refine Sat.bind (hnew.map (R := fun o => ∃ t₁, o = some t₁ ∧ Moves i abrupt .spawning t t₁) fun t₁ hm =>
        ⟨t₁, rfl, hm⟩) ?_
      rintro _ ⟨t₁, rfl, hm⟩
      exact (restart_moves (Moves.sound h hm) (Moves.noThreads h hm hthreads) (by decide) r.answers 0).mono
        fun res hres => hres.2.handled h hi hm hres.1
  · have hcond : (!t.setOptions || event == 0 || decide (3 < event)) = true := by
      by_contra hnot
      simp only [Bool.or_eq_true, Bool.not_eq_true', beq_iff_eq, decide_eq_true_eq, not_or, Bool.not_eq_false] at hnot
      exact hevent ⟨hnot.1.1, by omega, by omega⟩
    have hchild : r.trap.available = true → t.announcedChild r i = (t.exitRead i r.trap).forkedChild i := by
      intro havail
      simp only [announcedChild, hstatus]
      rw [if_neg hevent, if_pos havail]
    simp only [handlePtraceEvent, hcond, if_true]
    refine Sat.bind (Q := (· = none)) rfl ?_
    rintro _ rfl
    simp only
    split_ifs
    · exact traceStartup_handled h hi hgentle
    · exact traceSignal_handled h hi hthreads sig
    · refine (traceTrap_handled h hi hawake hgentle fun havail pid hforked => hpid pid ?_).imp ?_ fun _ hres => hres
      · rw [hchild havail, hforked]
      · rintro e ⟨pid, havail, hforked, hmis⟩
        exact .misannounced i pid e hfind hawake (by rw [hchild havail, hforked]) hmis

/-! ## A report -/

/-- What a report leads to, after it has been logged. -/
inductive Pass (abrupt : Prop) (r : Report) (t : Tracer) : Option ℤ → Tracer → Prop
  /-- a process that is not known yet waits for the report of its parent -/
  | born (c : ℕ) (hfresh : t.pid2tcb r.pid = none) (hc : (t.tcbtab c).inUse = false) (hsize : c < t.grown.tcbtabsize)
      (hfirst : ∀ k < c, (t.tcbtab k).inUse = true) :
      Pass abrupt r t none
        ((t.enter c r.pid).modify c fun tcp => { tcp with attached := true, suspended := true })
  /-- the report of a suspended process is ignored -/
  | ignored (i : ℕ) (hi : t.pid2tcb r.pid = some i) (hsuspended : (t.tcbtab i).suspended = true) :
      Pass abrupt r t none t
  | handled (i : ℕ) (code : Option ℤ) (t' : Tracer) (hi : t.pid2tcb r.pid = some i)
      (hawake : (t.tcbtab i).suspended = false) (h : Handled i abrupt t (code, t')) : Pass abrupt r t code t'

/-- A report of a process in the table that is not suspended. -/
theorem traceTcb_handled (h : Sound t) (hi : (t.tcbtab i).inUse = true) (hpidi : (t.tcbtab i).pid = r.pid)
    (hawake : (t.tcbtab i).suspended = false) (hgentle : abrupt ∨ Gentle t r i)
    (hpid : ∀ pid, t.announcedChild r i = some pid → 0 < pid)
    (hlog : stoppedIn t.log r.pid = r.status.isStop) :
    Sat (Failure cfg t r) (Handled i abrupt t) (t.traceTcb cfg r i) := by
  have hfind : t.pid2tcb r.pid = some i := h.pid2tcb_eq_some.2 ⟨hi, hpidi⟩
  have hthreads : abrupt ∨ NoThreads t := hgentle.imp_right Gentle.threads
  -- the end of a process, with the exit code of the program
  have hended : ∀ code, r.status.isStop = false →
      Sat (Failure cfg t r) (Handled i abrupt t)
        ((if r.pid = cfg.straceChild then { t with exitCode := code } else t).handleGroupExit r.answers i none) := by
    intro code hstop
    obtain ⟨t₁, ht₁, hm, hlog₁⟩ : ∃ t₁, (if r.pid = cfg.straceChild then { t with exitCode := code } else t) = t₁ ∧
        Moves i abrupt .spawning t t₁ ∧ t₁.log = t.log := by
      refine ⟨_, rfl, ?_⟩
      split_ifs
      · exact ⟨ReflTransGen.single (.code code), rfl⟩
      · exact ⟨ReflTransGen.refl, rfl⟩
    rw [ht₁]
    refine (handleGroupExit_none_moves (Moves.sound h hm) (Moves.noThreads h hm hthreads) r.answers ?_).mono
      fun res hres => hres.2.handled h hi hm (.inl hres.1)
    rw [(Moves.kept h hm hi).2.1, hpidi, hlog₁, hlog, hstop]
  simp only [traceTcb, hawake, Bool.false_eq_true, if_false]
  cases hstatus : r.status with
  | signaled sig => exact hended _ (by rw [hstatus]; rfl)
  | exited code => exact hended _ (by rw [hstatus]; rfl)
  | stopped sig event => exact traceStopped_handled h hi hawake hgentle hstatus hfind hpid
  | other =>
    have habrupt : abrupt := hgentle.resolve_right fun hg => hg.status hstatus
    refine ⟨.inl rfl, t, ReflTransGen.refl, droptcb_moves h hthreads (.inl rfl) (.inl habrupt), fun _ => .inl ?_⟩
    simp only [droptcb_log h]
    rw [hpidi, hlog, hstatus]
    rfl

/-- **What `trace` does for a report**, in every state of the table and for all answers of the kernel. -/
theorem traceReport_pass (h : Sound t) (hr : Regular t r)
    (hgentle : ∀ i, t.pid2tcb r.pid = some i → abrupt ∨ Gentle t r i) :
    Sat (Failure cfg t r) (fun res => Pass abrupt r (t.say (.report r.pid r.status)) res.1 res.2)
      (t.traceReport cfg r) := by
  have hs : Sound (t.say (.report r.pid r.status)) := h.say _
  have hlog : stoppedIn (t.say (.report r.pid r.status)).log r.pid = r.status.isStop := if_pos rfl
  have hfind : (t.say (.report r.pid r.status)).pid2tcb r.pid = t.pid2tcb r.pid := rfl
  simp only [traceReport]
  cases hcase : t.pid2tcb r.pid with
  | none =>
    rw [hfind, hcase]
    simp only
    split_ifs with hfollow
    · exact .unknown (by simpa using hfollow) hcase
    · obtain ⟨c, hc, hcfree, hcsize, hcfirst⟩ := hs.alloctcb_eq r.pid
      rw [hc]
      exact .born c (hfind.trans hcase) hcfree hcsize hcfirst
  | some i =>
    obtain ⟨hi, hpidi⟩ := h.pid2tcb_eq_some.1 hcase
    rw [hfind, hcase]
    simp only
    by_cases hsuspended : (t.tcbtab i).suspended = true
    · simp only [traceTcb, say_tcbtab, hsuspended, if_true]
      exact .ignored i hcase hsuspended
    · have hawake := Bool.eq_false_of_not_eq_true hsuspended
      have hgentle' : abrupt ∨ Gentle (t.say (.report r.pid r.status)) r i :=
        (hgentle i hcase).imp_right fun hg => ⟨hg.threads, hg.clone, hg.wait, hg.attached, hg.status, hg.poke⟩
      exact (traceTcb_handled hs hi hpidi hawake hgentle' (hr.child_pos i · hcase) hlog).imp
        (fun e he => Failure.of_say he) fun res hres => .handled i res.1 res.2 hcase hawake hres

end Tracer

end Ptu
