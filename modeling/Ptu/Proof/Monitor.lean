import Ptu.Lib.History
import Ptu.Spec.Monitor

/-!
# The log outlives the traced processes

The monitor closes the log when the list of executed processes is empty. The list knows neither
the processes that were forked and have executed nothing, nor a process that is about to write
its last record.

* `Orderly`: the invariant of a session that stays clear of both.
* `log_outlives`: **if no process is running outside the list when the list becomes empty, and the
  monitor does not look while the last process exits, then the log is closed only when no traced
  process is left, and nothing is written to it afterwards.**
-/

namespace Ptu

open History

variable {s s' : Session} {stat : ProcStat}

/-- A step that stays clear of what the monitor does not see. -/
structure InTime (s : Session) (step : SessionStep) (s' : Session) : Prop where
  /-- the list becomes empty only when no process is running -/
  emptied : s.pv ≠ [] → s'.pv = [] → s.running = []
  /-- the monitor does not test an empty list while a process is on its way out -/
  test : ∀ stat, step = .monitor stat → s.phase = .testing → s.pv = [] → s.exiting = []

def SessionStep.isMonitor : SessionStep → Bool
  | .monitor _ => true
  | _ => false

theorem inTime_iff {step : SessionStep} :
    InTime s step s' ↔ (s.pv ≠ [] → s'.pv = [] → s.running = []) ∧
      (step.isMonitor = true → s.phase = .testing → s.pv = [] → s.exiting = []) := by
  constructor
  · intro h
    refine ⟨h.emptied, fun hstep => ?_⟩
    cases step with
    | take event => cases hstep
    | proceed => cases hstep
    | monitor stat => exact h.test stat rfl
  · rintro ⟨hemptied, htest⟩
    exact ⟨hemptied, fun stat hstep => htest (by rw [hstep]; rfl)⟩

instance (s : Session) (step : SessionStep) (s' : Session) : Decidable (InTime s step s') :=
  decidable_of_iff _ inTime_iff.symm

/-- **What holds in every state of such a session.** -/
structure Orderly (s : Session) : Prop where
  listed : s.phase ≠ .waiting → s.pv = [] → s.running = []
  ended : s.phase = .closing ∨ s.phase = .done → s.running = [] ∧ s.exiting = []
  busy : s.todo ≠ [] → s.running ≠ [] ∨ s.exiting ≠ []
  closed : s.closed = true → s.phase = .done
  late : s.late = []

theorem orderly_init (pid : ℕ) : Orderly (Session.init pid) where
  listed h := absurd rfl h
  ended h := by rcases h with h | h <;> cases h
  busy h := absurd rfl h
  closed h := by cases h
  late := rfl

/-- While a process is left the log is open. -/
theorem Orderly.open (h : Orderly s) (hleft : s.running ≠ [] ∨ s.exiting ≠ []) :
    s.phase ≠ .closing ∧ s.phase ≠ .done ∧ s.closed = false := by
  have hover : ¬ (s.phase = .closing ∨ s.phase = .done) := by
    intro hphase
    obtain ⟨hrunning, hexiting⟩ := h.ended hphase
    rcases hleft with hleft | hleft
    · exact hleft hrunning
    · exact hleft hexiting
  refine ⟨fun hphase => hover (.inl hphase), fun hphase => hover (.inr hphase), ?_⟩
  by_contra hclosed
  exact hover (.inr (h.closed (by simpa using hclosed)))

theorem Session.write_open (h : s.closed = false) (records : List LogRecord) :
    s.write records = { s with log := s.log ++ records } := by
  unfold Session.write
  rw [h]
  rfl

/-- A sweep of an open log changes the list and the log only. -/
theorem Session.sweep_open (h : s.closed = false) (stat : ProcStat) :
    ∃ pv log, s.sweep stat = { s with pv, log } := by
  unfold Session.sweep
  simp only
  rw [Session.write_open h]
  exact ⟨_, _, rfl⟩

/-! ## The tracer -/

theorem Orderly.take {event : TracerEvent} (h : Orderly s) (hstep : s.take event = some s') : Orderly s' := by
  unfold Session.take at hstep
  split at hstep
  · cases hstep
  -- an event comes from a process that is left, so the log is open
  have hopen : ∀ t : Session, t.phase = s.phase → t.closed = s.closed → t.late = s.late → t.pv = s.pv →
      (t.phase ≠ .waiting → t.pv = [] → t.running = []) → (s.running ≠ [] ∨ s.exiting ≠ []) →
      (t.todo ≠ [] → t.running ≠ [] ∨ t.exiting ≠ []) → Orderly t := by
    intro t hphase hclosed hlate hpv hlisted hleft hbusy
    obtain ⟨hclosing, hdone, hno⟩ := h.open hleft
    refine ⟨hlisted, fun hover => ?_, hbusy, fun hc => ?_, by rw [hlate, h.late]⟩
    · rw [hphase] at hover
      rcases hover with hover | hover
      · exact absurd hover hclosing
      · exact absurd hover hdone
    · rw [hclosed, hno] at hc
      cases hc
  cases event with
  | operation pid =>
    simp only at hstep
    split at hstep
    · rename_i hmem
      obtain rfl := Option.some.inj hstep
      have hne := List.ne_nil_of_mem hmem
      exact hopen _ rfl rfl rfl rfl h.listed (.inl hne) fun _ => .inl hne
    · cases hstep
  | execve pid ppid stat =>
    simp only at hstep
    split at hstep
    · rename_i hmem
      obtain rfl := Option.some.inj hstep
      have hne := List.ne_nil_of_mem hmem
      exact hopen _ rfl rfl rfl rfl h.listed (.inl hne) fun _ => .inl hne
    · cases hstep
  | spawn parent child =>
    simp only at hstep
    split at hstep
    · rename_i hmem
      obtain rfl := Option.some.inj hstep
      have hne := List.ne_nil_of_mem hmem.1
      refine hopen _ rfl rfl rfl rfl (fun hphase hpv => ?_) (.inl hne) fun _ => .inl (by simp)
      exact absurd (h.listed hphase hpv) hne
    · cases hstep
  | exit pid stat =>
    simp only at hstep
    split at hstep
    · rename_i hmem
      obtain rfl := Option.some.inj hstep
      have hne := List.ne_nil_of_mem hmem
      refine hopen _ rfl rfl rfl rfl (fun hphase hpv => ?_) (.inl hne) fun _ => .inr (by simp)
      exact absurd (h.listed hphase hpv) hne
    · cases hstep
  | drop pid =>
    simp only at hstep
    split at hstep
    · rename_i hmem
      obtain rfl := Option.some.inj hstep
      have hleft : s.running ≠ [] ∨ s.exiting ≠ [] :=
        hmem.imp (fun hmem => List.ne_nil_of_mem hmem) fun hmem => List.ne_nil_of_mem hmem
      refine hopen _ rfl rfl rfl rfl (fun hphase hpv => ?_) hleft fun hbusy => absurd rfl hbusy
      have hnone := h.listed hphase hpv
      simp only [hnone, List.erase_nil]
    · cases hstep

/-- The rest of an event touches no process and no phase, and the log is open. -/
theorem Orderly.proceed (h : Orderly s) (htime : InTime s .proceed s') (hstep : s.proceed = some s') :
    Orderly s' := by
  unfold Session.proceed at hstep
  cases htodo : s.todo with
  | nil => rw [htodo] at hstep; cases hstep
  | cons step todo =>
    rw [htodo] at hstep
    have hleft := h.busy (by rw [htodo]; simp)
    obtain ⟨hclosing, hdone, hno⟩ := h.open hleft
    -- it is enough that the step keeps to the list, the log and what is left to do
    obtain ⟨todo', pv, log, rfl⟩ : ∃ todo' pv log, s' = { s with todo := todo', pv, log } := by
      cases step with
      | write r =>
        obtain rfl := Option.some.inj hstep
        exact ⟨_, _, _, Session.write_open (s := { s with todo }) hno [r]⟩
      | append pid =>
        simp only at hstep
        split at hstep
        · cases hstep
        · obtain rfl := Option.some.inj hstep
          exact ⟨_, _, _, rfl⟩
      | sweep stat =>
        obtain rfl := Option.some.inj hstep
        obtain ⟨pv, log, hsweep⟩ := Session.sweep_open (s := { s with todo }) hno stat
        exact ⟨_, _, _, hsweep⟩
      | rmTest pid stat =>
        simp only at hstep
        split at hstep
        · obtain rfl := Option.some.inj hstep
          exact ⟨_, _, _, rfl⟩
        · obtain rfl := Option.some.inj hstep
          exact ⟨_, _, _, rfl⟩
      | remove pid =>
        simp only at hstep
        split at hstep
        · obtain rfl := Option.some.inj hstep
          exact ⟨_, _, _, rfl⟩
        · obtain rfl := Option.some.inj hstep
          exact ⟨_, _, _, rfl⟩
    refine ⟨fun hphase hpv => ?_, h.ended, fun _ => hleft, h.closed, h.late⟩
    by_cases hold : s.pv = []
    · exact h.listed hphase hold
    · exact htime.emptied hold hpv

/-! ## The monitor -/

/-- The monitor moves on while there are processes in the list. -/
theorem Orderly.setPhase {phase : MonitorPhase} (h : Orderly s) (hopen : s.closed = false) (hpv : s.pv ≠ [])
    (hphase : phase = .testing ∨ phase = .sweeping) : Orderly { s with phase } where
  listed _ hempty := absurd hempty hpv
  ended hover := by
    rcases hphase with rfl | rfl
    · rcases hover with hover | hover <;> cases hover
    · rcases hover with hover | hover <;> cases hover
  busy := h.busy
  closed hclosed := by
    rw [hopen] at hclosed
    cases hclosed
  late := h.late

theorem Orderly.monitor (h : Orderly s) (htime : InTime s (.monitor stat) s') (hstep : s.monitor stat = some s') :
    Orderly s' := by
  unfold Session.monitor at hstep
  have hnot : s.phase ≠ .done → s.closed = false := fun hdone => by
    by_contra hclosed
    exact hdone (h.closed (by simpa using hclosed))
  cases hphase : s.phase with
  | waiting =>
    simp only [hphase] at hstep
    split at hstep
    · obtain rfl := Option.some.inj hstep
      exact h
    · rename_i hpv
      obtain rfl := Option.some.inj hstep
      exact h.setPhase (hnot (by rw [hphase]; decide)) (by simpa using hpv) (.inl rfl)
  | testing =>
    simp only [hphase] at hstep
    split at hstep
    · rename_i hpv
      have hpv : s.pv = [] := by simpa using hpv
      obtain rfl := Option.some.inj hstep
      -- the list is empty, so no process is running; none is on its way out either
      have hrunning := h.listed (by rw [hphase]; decide) hpv
      have hexiting := htime.test stat rfl hphase hpv
      refine ⟨fun _ _ => hrunning, fun _ => ⟨hrunning, hexiting⟩, h.busy, fun hclosed => ?_, h.late⟩
      rw [hnot (by rw [hphase]; decide)] at hclosed
      cases hclosed
    · rename_i hpv
      obtain rfl := Option.some.inj hstep
      exact h.setPhase (hnot (by rw [hphase]; decide)) (by simpa using hpv) (.inr rfl)
  | sweeping =>
    simp only [hphase] at hstep
    obtain rfl := Option.some.inj hstep
    have hno := hnot (by rw [hphase]; decide)
    obtain ⟨pv, log, hsweep⟩ := Session.sweep_open hno stat
    rw [hsweep] at htime ⊢
    refine ⟨fun _ hpv => ?_, fun hover => ?_, h.busy, fun hclosed => ?_, h.late⟩
    · by_cases hold : s.pv = []
      · exact h.listed (by rw [hphase]; decide) hold
      · exact htime.emptied hold hpv
    · rcases hover with hover | hover <;> cases hover
    · rw [hno] at hclosed
      cases hclosed
  | closing =>
    simp only [hphase] at hstep
    obtain rfl := Option.some.inj hstep
    obtain ⟨hrunning, hexiting⟩ := h.ended (.inl hphase)
    exact ⟨fun _ _ => hrunning, fun _ => ⟨hrunning, hexiting⟩, h.busy, fun _ => rfl, h.late⟩
  | done =>
    simp only [hphase] at hstep
    cases hstep

/-! ## Sessions -/

theorem Orderly.step {step : SessionStep} (h : Orderly s) (htime : InTime s step s') (hstep : s.step step = some s') :
    Orderly s' := by
  cases step with
  | take event => exact h.take hstep
  | proceed => exact h.proceed htime hstep
  | monitor stat => exact h.monitor htime hstep

/-- All steps of a session stay clear of what the monitor does not see. -/
def AllInTime (s : Session) (steps : List SessionStep) : Prop :=
  EachAfter (fun earlier step => ∀ s₁ s₂, s.run earlier = some s₁ → s₁.step step = some s₂ →
    InTime s₁ step s₂) steps

/-- The same, as a computation along the session. -/
def checkInTime (s : Session) : List SessionStep → Bool
  | [] => true
  | step :: steps =>
    match s.step step with
    | none => true
    | some s' => decide (InTime s step s') && checkInTime s' steps

theorem allInTime_of_check {steps : List SessionStep} (h : checkInTime s steps = true) : AllInTime s steps := by
  induction steps generalizing s with
  | nil => exact eachAfter_nil
  | cons step steps ih =>
    unfold checkInTime at h
    intro earlier step' later hsplit s₁ s₂ hrun hstep
    cases earlier with
    | nil =>
      obtain ⟨rfl, -⟩ := List.cons.inj hsplit
      obtain rfl := Option.some.inj hrun
      rw [hstep] at h
      exact of_decide_eq_true (Bool.and_eq_true_iff.1 h).1
    | cons first earlier =>
      obtain ⟨rfl, hrest⟩ := List.cons.inj hsplit
      unfold Session.run at hrun
      rw [List.foldlM_cons, Option.bind_eq_bind, Option.bind_eq_some_iff] at hrun
      obtain ⟨s', hfirst, hrun⟩ := hrun
      rw [hfirst] at h
      exact ih (Bool.and_eq_true_iff.1 h).2 earlier step' later hrest s₁ s₂ hrun hstep

theorem Session.run_concat {steps : List SessionStep} {step : SessionStep}
    (h : s.run (steps ++ [step]) = some s') : ∃ s₁, s.run steps = some s₁ ∧ s₁.step step = some s' := by
  unfold Session.run at h
  rw [List.foldlM_append, Option.bind_eq_bind, Option.bind_eq_some_iff] at h
  obtain ⟨s₁, h₁, h⟩ := h
  simp only [List.foldlM_cons, List.foldlM_nil, bind_pure] at h
  exact ⟨s₁, h₁, h⟩

theorem Orderly.run {steps : List SessionStep} (h : Orderly s) (htime : AllInTime s steps)
    (hrun : s.run steps = some s') : Orderly s' := by
  induction steps using List.reverseRecOn generalizing s' with
  | nil =>
    obtain rfl := Option.some.inj hrun
    exact h
  | append_singleton steps step ih =>
    obtain ⟨s₁, hrun₁, hstep⟩ := Session.run_concat hrun
    obtain ⟨hearlier, hlast⟩ := eachAfter_concat.1 htime
    exact (ih hearlier hrun₁).step (hlast s₁ s' hrun₁ hstep) hstep

/-- **The log outlives the traced processes** in every session whose steps are all in time. -/
theorem log_outlives {pid : ℕ} {steps : List SessionStep} (htime : AllInTime (Session.init pid) steps)
    (hrun : (Session.init pid).run steps = some s) :
    (s.closed = true → s.running = [] ∧ s.exiting = []) ∧ s.late = [] := by
  have h := (orderly_init pid).run htime hrun
  exact ⟨fun hclosed => h.ended (.inr (h.closed hclosed)), h.late⟩

/-- One process executes a program and exits. The monitor looks at the list before and after. -/
def quietSession : List SessionStep :=
  [.take (.execve 5 1 fun _ => some 0), .proceed, .proceed, .proceed, .monitor fun _ => none,
    .take (.exit 5 fun _ => some 0), .proceed, .proceed, .proceed, .proceed, .take (.drop 5),
    .monitor fun _ => none, .monitor fun _ => none]

theorem log_outlives_quiet :
    ∃ s, (Session.init 5).run quietSession = some s ∧ s.closed = true ∧ s.running = [] ∧ s.exiting = [] ∧
      s.late = [] := by
  have htime : AllInTime (Session.init 5) quietSession := allInTime_of_check (by decide)
  obtain ⟨hclosed, hlate⟩ := log_outlives htime (s := ((Session.init 5).run quietSession).get rfl) rfl
  exact ⟨_, rfl, rfl, (hclosed rfl).1, (hclosed rfl).2, hlate⟩

/-- The same, with a process that is forked and executes nothing. It goes on after the monitor has
closed the log. -/
def forkSession : List SessionStep :=
  [.take (.execve 5 1 fun _ => some 0), .proceed, .proceed, .proceed, .monitor fun _ => none,
    .take (.spawn 5 6), .proceed,
    .take (.exit 5 fun _ => some 0), .proceed, .proceed, .proceed, .proceed, .take (.drop 5),
    .monitor fun _ => none, .monitor fun _ => none, .take (.operation 6), .proceed]

theorem log_closed_early :
    ∃ s, (Session.init 5).run forkSession = some s ∧ s.closed = true ∧ s.running = [6] ∧
      s.late = [.operation 6] :=
  ⟨_, rfl, rfl, rfl, rfl⟩

end Ptu
