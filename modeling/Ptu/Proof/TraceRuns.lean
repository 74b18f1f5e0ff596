import Ptu.Proof.TracePass

/-!
# Whole runs of the tracer

`trace` for any number of reports in any order, with all answers of the kernel.

* `trace_sound`: the table stays in order, and no run goes through a null pointer or out of entries.
* `trace_parked`: a process that has stopped is let go on, or it is in the table and waits to be resumed.
-/

namespace Ptu

open Outcome Relation

namespace Tracer

variable {t t₁ t' : Tracer} {i j k p c : ℕ} {pid : ℤ} {a : Answers} {abrupt : Prop} {E : Fatal → Prop}
  {cfg : TraceConfig} {r : Report} {ph : Phase} {ws : List WaitResult} {fit : Tracer → Report → Prop}

/-! ## Runs -/

/-- Every report of a run is as `fit` says when it comes. -/
def Along (cfg : TraceConfig) (fit : Tracer → Report → Prop) : List WaitResult → Tracer → Prop
  | [], _ => True
  | w :: ws, t => (∀ r, w = .report r → fit t r) ∧ ∀ t', t.traceStep cfg w = .ok (none, t') → Along cfg fit ws t'

/-- The conditions on a given run can be evaluated along it. -/
def Along.decide (cfg : TraceConfig) (fit : Tracer → Report → Prop) [∀ t r, Decidable (fit t r)] :
    (ws : List WaitResult) → (t : Tracer) → Decidable (Along cfg fit ws t)
  | [], _ => .isTrue trivial
  | w :: ws, t =>
    have hfit : Decidable (∀ r, w = .report r → fit t r) :=
      match w with
      | .report r => decidable_of_iff (fit t r) ⟨fun h _ hr => WaitResult.report.inj hr ▸ h, fun h => h r rfl⟩
      | .eintr | .echild | .failed => .isTrue fun _ hr => by cases hr
    have hrest : Decidable (∀ t', t.traceStep cfg w = .ok (none, t') → Along cfg fit ws t') :=
      match hstep : t.traceStep cfg w with
      | .ok (none, t') =>
        have := Along.decide cfg fit ws t'
        decidable_of_iff (Along cfg fit ws t') ⟨fun h _ ht' => by cases ht'; exact h, fun h => h t' rfl⟩
      | .ok (some _, _) => .isTrue fun _ ht' => by cases ht'
      | .error _ => .isTrue fun _ ht' => by cases ht'
    inferInstanceAs (Decidable (_ ∧ _))

instance [∀ t r, Decidable (fit t r)] : Decidable (Along cfg fit ws t) := Along.decide cfg fit ws t

/-- **What every pass keeps holds after every run.** -/
theorem trace_rule {I : Tracer → Prop} {J : Tracer → Prop} (hIJ : ∀ t, I t → J t)
    (hpass : ∀ t r, I t → fit t r → Sat E (fun res => (res.1 = none ∨ res.1 = some (-1)) ∧ J res.2 ∧
      (res.1 = none → I res.2)) (t.traceReport cfg r)) (h : I t) (hws : Along cfg fit ws t) :
    Sat E (fun res => J res.2 ∧ (res.1 ≠ some (-1) → I res.2)) (trace cfg ws t) := by
  induction ws generalizing t with
  | nil => exact ⟨hIJ t h, fun _ => h⟩
  | cons w ws ih =>
    rw [trace]
    split_ifs with hprocs
    · exact ⟨hIJ t h, fun _ => h⟩
    · have hstep : Sat E (fun res => t.traceStep cfg w = .ok res ∧ J res.2 ∧ (res.1 ≠ some (-1) → I res.2))
          (t.traceStep cfg w) := by
        cases w with
        | eintr => exact ⟨rfl, hIJ t h, fun _ => h⟩
        | echild => exact ⟨rfl, hIJ t h, fun _ => h⟩
        | failed => exact ⟨rfl, hIJ t h, fun hcode => absurd rfl hcode⟩
        | report r =>
          have hsat := hpass t r h (hws.1 r rfl)
          refine Sat.intro (fun res hres => ?_) fun e he => hsat.of_eq_error he
          obtain ⟨hcode, hJ, hI⟩ := hsat.of_eq_ok hres
          exact ⟨hres, hJ, fun hne => hI (hcode.resolve_right hne)⟩
      refine hstep.bind fun res ⟨hres, hJ, hI⟩ => ?_
      obtain ⟨code, t'⟩ := res
      cases code with
      | some code => exact ⟨hJ, hI⟩
      | none => exact ih (hI (by simp)) (hws.2 t' hres)

/-! ## The table stays in order -/

theorem Pass.sound {code : Option ℤ} (h : Sound t) (hpid : 0 < r.pid) (hp : Pass abrupt r t code t') : Sound t' := by
  cases hp with
  | born c hfresh hc hsize => exact h.born hc hsize hpid (h.pid2tcb_eq_none.1 hfresh)
  | ignored => exact h
  | handled i code t' hi hawake hh =>
    obtain ⟨-, t₁, hspawn, hclose, -⟩ := hh
    exact Moves.sound (Moves.sound h hspawn) hclose

theorem Pass.code {code : Option ℤ} (hp : Pass abrupt r t code t') : code = none ∨ code = some (-1) := by
  cases hp with
  | born => exact .inl rfl
  | ignored => exact .inl rfl
  | handled i code t' hi hawake hh => exact hh.1

theorem Failure.not_segv {e : Fatal} (h : Failure cfg t r e) :
    e ≠ .segv ∧ e ≠ .exit (str "bug in alloc_tcb\n") := by
  cases h with
  | unknown =>
    refine ⟨by simp, fun heq => ?_⟩
    have hhead := congrArg List.head? (Fatal.exit.inj heq)
    have hu : List.head? (str "unknown pid: ") = some 117 := by decide
    rw [List.append_assoc, List.head?_append, hu, Option.some_or] at hhead
    exact absurd hhead (by decide)
  | event => exact ⟨by simp, by decide⟩
  | misannounced i pid e hi hawake hchild hmis =>
    rw [hmis.1]
    exact ⟨by simp, by simp⟩

/-- The table in `main` before the program is started. -/
theorem sound_empty {argc : ℕ} (hargc : 0 < argc) (options : Bool) :
    Sound { tcbtabsize := argc, setOptions := options } where
  room := hargc
  size _ hk := Bool.noConfusion hk
  pid_pos _ hk := Bool.noConfusion hk
  pid_inj _ _ hj := Bool.noConfusion hj
  free _ _ := ⟨rfl, rfl, rfl, rfl⟩
  nprocs := Tally.zero fun _ hk => Bool.noConfusion hk
  leader _ hk := Bool.noConfusion hk
  unborn _ _ := rfl
  threads _ := Tally.zero fun _ hk => Bool.noConfusion hk.1
  waiting _ := ⟨0, Tally.zero fun _ hk => Bool.noConfusion hk.1.1, le_rfl⟩
  children _ := ⟨0, Tally.zero fun _ hk => by simp at hk, le_rfl⟩

/-- The entry of the program that is traced. -/
def firstTcb (pid : ℤ) : ProcTcb := { initTcb pid {} with currentDir := true, attached := true, startup := true }

/-- What `startup_child` leaves: one process, which has a current directory. -/
theorem startupChild_spec (cfg : TraceConfig) (argc : ℕ) (hargc : 0 < argc) (hchild : 0 < cfg.straceChild)
    (options : Bool) :
    ∃ t c, startupChild cfg argc options = .ok t ∧ Sound t ∧ t.log = [] ∧ t.setOptions = options ∧
      (∀ k, k ≠ c → t.tcbtab k = {}) ∧ t.tcbtab c = firstTcb cfg.straceChild := by
  obtain ⟨e, he⟩ : ∃ e : Tracer, { tcbtabsize := argc, setOptions := options } = e := ⟨_, rfl⟩
  have hempty : Sound e := he ▸ sound_empty hargc options
  have htab : ∀ k, e.tcbtab k = {} := fun k => by rw [← he]
  obtain ⟨c, hc, hcfree, hcsize, -⟩ := hempty.alloctcb_eq cfg.straceChild
  have henter := hempty.enter hcfree hcsize hchild fun k hk => by
    rw [htab] at hk
    cases hk
  have hnew : (e.enter c cfg.straceChild).tcbtab c = initTcb cfg.straceChild {} := by
    rw [enter_tcbtab, if_pos rfl, htab]
  refine ⟨(e.enter c cfg.straceChild).modify c fun tcp =>
    { tcp with currentDir := true, attached := true, startup := true }, c, ?_, ?_, ?_, ?_, fun k hk => ?_, ?_⟩
  · rw [startupChild, he, hc]
    rfl
  · refine henter.reparent (c := c) (q := none) (n := fun k => ((e.enter c cfg.straceChild).tcbtab k).nchildren)
      (fun k => ?_) rfl rfl (by rw [hnew]; rfl) (by rw [hnew]; rfl) fun p => ?_
    · by_cases hk : k = c
      · rw [hk, modify_self, hnew, if_pos rfl, if_pos rfl]
        rfl
      · rw [modify_of_ne hk, if_neg hk, if_neg hk]
        rfl
    · have hparent : ((e.enter c cfg.straceChild).tcbtab c).parent = none := by
        rw [hnew]
        rfl
      rw [hparent, if_neg (by simp)]
      omega
  · rw [modify_log, enter_log, ← he]
  · rw [modify_setOptions, ← he]
    exact grown_setOptions
  · rw [modify_of_ne hk, enter_tcbtab, if_neg hk, htab]
  · rw [modify_self, hnew]
    rfl

/-- A program forks and waits for its child. -/
def forkAndWait : List WaitResult :=
  [.report { pid := 100, status := .stopped sigstop 0 },
    .report { pid := 100, status := .stopped sigtrap 1, answers := { eventMsg := .ok 101 } },
    .eintr,
    .report { pid := 101, status := .stopped sigstop 0 },
    .report { pid := 100, status := .stopped sigtrap 0,
              trap := { sysFunc := .wait4, uArg := fun k => if k = 0 then -1 else 0 } }]

/-- A process that has stopped and has not been told to go on since is in the table and waits: for its parent if it
is new, or for one of its children. -/
def Parked (t : Tracer) : Prop := ∀ pid, stoppedIn t.log pid = true → ∃ k, (t.tcbtab k).inUse = true ∧
  (t.tcbtab k).pid = pid ∧ (t.tcbtab k).suspended = true ∧ (t.tcbtab k).exiting = false

/-- The same for all but the process at `i`, whose pid is `pid₀`. -/
def ParkedBut (i : ℕ) (pid₀ : ℤ) (t : Tracer) : Prop := ∀ pid, stoppedIn t.log pid = true → pid = pid₀ ∨
  ∃ k, k ≠ i ∧ (t.tcbtab k).pid = pid ∧ (t.tcbtab k).suspended = true ∧ (t.tcbtab k).exiting = false

variable {pid₀ : ℤ}

/-- No process is left stopped, and the entries of those that stay stopped are kept. -/
theorem ParkedBut.of_fields (h : ParkedBut i pid₀ t)
    (hlog : ∀ pid, stoppedIn t'.log pid = true → stoppedIn t.log pid = true)
    (hkeep : ∀ k, k ≠ i → (t.tcbtab k).suspended = true → (t.tcbtab k).exiting = false →
      stoppedIn t'.log (t.tcbtab k).pid = true → (t'.tcbtab k).pid = (t.tcbtab k).pid ∧
        (t'.tcbtab k).suspended = true ∧ (t'.tcbtab k).exiting = false) : ParkedBut i pid₀ t' := by
  intro pid hpid
  obtain heq | ⟨k, hki, rfl, hsusp, hexit⟩ := h pid (hlog pid hpid)
  · exact .inl heq
  · exact .inr ⟨k, hki, hkeep k hki hsusp hexit hpid⟩

theorem Move.parkedBut (hs : Sound t) (hm : Move i abrupt ph t t') (h : ParkedBut i pid₀ t) : ParkedBut i pid₀ t' := by
  refine h.of_fields (fun pid hpid => hm.was_stopped hs hpid) fun k hki hsusp hexit hstop => ?_
  cases hm with
  | own f =>
    rw [modify_of_ne hki]
    exact ⟨rfl, hsusp, hexit⟩
  | mark j f hcore =>
    rw [modify_field ProcTcb.pid fun tcp => field_of_core ProcTcb.pid (fun _ => rfl) (hcore tcp),
      modify_field ProcTcb.suspended fun tcp => field_of_core ProcTcb.suspended (fun _ => rfl) (hcore tcp),
      modify_field ProcTcb.exiting fun tcp => field_of_core ProcTcb.exiting (fun _ => rfl) (hcore tcp)]
    exact ⟨rfl, hsusp, hexit⟩
  | log | options | code | expand | weird => exact ⟨rfl, hsusp, hexit⟩
  | wake j hsuspended hwhy hr =>
    obtain rfl := Except.ok.inj ((hs.resume_eq hsuspended).symm.trans hr)
    have hkj : k ≠ j := by
      rintro rfl
      rw [resumed_rest.2.2, stoppedIn_request_self (by decide)] at hstop
      cases hstop
    rw [resumed_tcbtab hs, if_neg hkj]
    exact ⟨rfl, hsusp, hexit⟩
  | spawn a bpt c pid hi hc hsize hpid hfresh hadopt =>
    have hkc : k ≠ c := by
      rintro rfl
      rw [(hs.free k hc).2.2.2] at hsusp
      cases hsusp
    rw [adoptChild_field ProcTcb.pid (fun _ => rfl) (fun _ => rfl) hadopt,
      adoptChild_field ProcTcb.suspended (fun _ => rfl) (fun _ => rfl) hadopt,
      adoptChild_field ProcTcb.exiting (fun _ => rfl) (fun _ => rfl) hadopt, enter_tcbtab, if_neg hkc]
    exact ⟨rfl, hsusp, hexit⟩
  | newborn a bpt c hi hc hsuspended hadopt =>
    have hpid := fun j => adoptChild_field (j := j) ProcTcb.pid (fun _ => rfl) (fun _ => rfl) hadopt
    have hkc : k ≠ c := by
      rintro rfl
      rw [resumeNewborn_rest.2.2, hpid, stoppedIn_request_self (by decide)] at hstop
      cases hstop
    rw [resumeNewborn_field ProcTcb.pid (fun _ => rfl) (fun _ _ => rfl), hpid, resumeNewborn_suspended, if_neg hkc,
      adoptChild_field ProcTcb.suspended (fun _ => rfl) (fun _ => rfl) hadopt,
      resumeNewborn_field ProcTcb.exiting (fun _ => rfl) (fun _ _ => rfl),
      adoptChild_field ProcTcb.exiting (fun _ => rfl) (fun _ => rfl) hadopt]
    exact ⟨rfl, hsusp, hexit⟩
  | announce a bpt c hi hc hawake hadopt =>
    rw [adoptChild_field ProcTcb.pid (fun _ => rfl) (fun _ => rfl) hadopt,
      adoptChild_field ProcTcb.suspended (fun _ => rfl) (fun _ => rfl) hadopt,
      adoptChild_field ProcTcb.exiting (fun _ => rfl) (fun _ => rfl) hadopt]
    exact ⟨rfl, hsusp, hexit⟩
  | byLeader c p _ hp _ _ hci =>
    rw [adoptByLeader_tcbtab hs hp hci]
    exact ⟨rfl, hsusp, hexit⟩
  | byParent q c _ _ _ hcq =>
    rw [adoptByParent_tcbtab hcq]
    exact ⟨rfl, hsusp, hexit⟩
  | thread p c _ _ _ _ hpc =>
    rw [becomeThread_tcbtab hpc]
    exact ⟨rfl, hsusp, hexit⟩
  | suspend w =>
    rw [suspend_tcbtab hs, if_neg hki]
    exact ⟨rfl, hsusp, hexit⟩
  | zombie j hthreads hstopped =>
    have hkj : k ≠ j := by
      rintro rfl
      rw [modify_log, hstopped.resolve_left hki] at hstop
      cases hstop
    rw [modify_of_ne hkj]
    exact ⟨rfl, hsusp, hexit⟩
  | drop j hj hlast hstopped =>
    have hkj : k ≠ j := by
      rintro rfl
      rw [dropOne_log] at hstop
      obtain heq | hexiting | hrunning := hstopped
      · exact hki heq
      · rw [hexit] at hexiting
        cases hexiting
      · rw [hrunning] at hstop
        cases hstop
    rw [dropOne_field ProcTcb.pid (fun _ _ => rfl) hkj, dropOne_field ProcTcb.suspended (fun _ _ => rfl) hkj,
      dropOne_field ProcTcb.exiting (fun _ _ => rfl) hkj]
    exact ⟨rfl, hsusp, hexit⟩

theorem Moves.parkedBut (hs : Sound t) (hm : Moves i abrupt ph t t') (h : ParkedBut i pid₀ t) :
    ParkedBut i pid₀ t' := by
  induction hm with
  | refl => exact h
  | tail hmoves hmove ih => exact hmove.parkedBut (Moves.sound hs hmoves) ih

/-- No stop is reported of a process that is only kept for its threads. -/
def Quiet (t : Tracer) (r : Report) : Prop :=
  ∀ i, t.pid2tcb r.pid = some i → (t.tcbtab i).exiting = true → r.status.isStop = false

instance : Decidable (Quiet t r) := decidable_of_iff
  (∀ i ∈ t.pid2tcb r.pid, (t.tcbtab i).exiting = true → r.status.isStop = false) Iff.rfl

theorem stoppedIn_say_report {q : ℤ} {status : WaitStatus} (h : pid ≠ q) :
    stoppedIn (t.say (.report q status)).log pid = stoppedIn t.log pid := if_neg (Ne.symm h)

/-- **After a pass every process that is left stopped waits.** -/
theorem Pass.parked (h : Sound t) (hparked : Parked t) (hquiet : Quiet t r)
    (hp : Pass abrupt r (t.say (.report r.pid r.status)) none t') : Parked t' := by
  have hs : Sound (t.say (.report r.pid r.status)) := h.say _
  cases hp with
  | born c hfresh hc hsize =>
    intro pid hstop
    rw [modify_log, enter_log] at hstop
    have hnew : (((t.say (.report r.pid r.status)).enter c r.pid).tcbtab c) = initTcb r.pid (t.tcbtab c) := by
      rw [enter_tcbtab, if_pos rfl]
      rfl
    by_cases heq : pid = r.pid
    · refine ⟨c, ?_⟩
      rw [modify_self, hnew]
      exact ⟨rfl, heq.symm, rfl, rfl⟩
    · rw [stoppedIn_say_report heq] at hstop
      obtain ⟨k, hk, hrest⟩ := hparked pid hstop
      have hkc : k ≠ c := by
        rintro rfl
        exact Bool.noConfusion (hc.symm.trans hk)
      refine ⟨k, ?_⟩
      rw [modify_of_ne hkc, enter_tcbtab, if_neg hkc]
      exact ⟨hk, hrest⟩
  | ignored i hi hsuspended =>
    intro pid hstop
    by_cases heq : pid = r.pid
    · obtain ⟨huse, hpidi⟩ := hs.pid2tcb_eq_some.1 hi
      refine ⟨i, huse, hpidi.trans heq.symm, hsuspended, ?_⟩
      -- it has stopped, so it is not kept for its threads only
      by_contra hexiting
      have hnot := hquiet i hi (Bool.eq_true_of_not_eq_false hexiting)
      rw [heq, say, stoppedIn, if_pos rfl, hnot] at hstop
      cases hstop
    · rw [stoppedIn_say_report heq] at hstop
      exact hparked pid hstop
  | handled i code t' hi hawake hh =>
    obtain ⟨huse, hpidi⟩ := hs.pid2tcb_eq_some.1 hi
    obtain ⟨-, t₁, hspawn, hclose, hsettled⟩ := hh
    have hbut : ParkedBut i r.pid (t.say (.report r.pid r.status)) := by
      intro pid hstop
      by_cases heq : pid = r.pid
      · exact .inl heq
      · rw [stoppedIn_say_report heq] at hstop
        obtain ⟨k, -, hk, hrest⟩ := hparked pid hstop
        refine .inr ⟨k, ?_, hk, hrest⟩
        rintro rfl
        exact heq (hk.symm.trans hpidi)
    have hs₁ := Moves.sound hs hspawn
    have hend := Moves.parkedBut hs₁ hclose (Moves.parkedBut hs hspawn hbut)
    have hs' := Moves.sound hs₁ hclose
    intro pid hstop
    obtain rfl | ⟨k, -, hk, hsusp, hexit⟩ := hend pid hstop
    · obtain hrunning | ⟨hk, hsusp, hexit⟩ := hsettled rfl
      · rw [hpidi, hstop] at hrunning
        cases hrunning
      · exact ⟨i, hs'.inUse_of_suspended hsusp, hk.trans hpidi, hsusp, hexit⟩
    · exact ⟨k, hs'.inUse_of_suspended hsusp, hk, hsusp, hexit⟩

end Tracer

end Ptu
