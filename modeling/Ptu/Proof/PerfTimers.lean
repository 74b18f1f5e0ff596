import Mathlib.Tactic.Ring
import Ptu.Lib.History
import Ptu.Spec.PerfTimers

/-!
# What the performance timers add up

* `exec_cases`: what a call can do, in five cases.
* `tracks_run`: **after any calls, the accumulated time is that of the pairs of a start and a stop since the last
  enable, and of the interval in which that enable lies**.
* `total_time_iff`: so it is that of the pairs alone exactly if there is no such interval, or it is empty.
* `totals_normalised_iff`: the nanoseconds stay below a second exactly as long as no interval makes a sum of whole
  seconds.
-/

namespace Ptu

variable {st : Timers} {pt : PerfTimer} {now : Timespec} {calls : List TimerCall} {call : TimerCall}

/-! ## Times -/

/-- The nanoseconds of a time. -/
def Timespec.value (t : Timespec) : ℤ := t.sec * nsecPerSec + t.nsec

/-- `tv_nsec` is less than a second. -/
def Timespec.Normalised (t : Timespec) : Prop := 0 ≤ t.nsec ∧ t.nsec < nsecPerSec

instance (t : Timespec) : Decidable t.Normalised := inferInstanceAs (Decidable (_ ∧ _))

theorem value_subTs (a b : Timespec) : (subTs a b).value = a.value - b.value := by
  simp only [subTs, Timespec.value]
  split_ifs <;> simp only <;> ring

theorem value_addTs (a b : Timespec) : (addTs a b).value = a.value + b.value := by
  simp only [addTs, Timespec.value]
  split_ifs <;> simp only <;> ring

theorem normalised_subTs {a b : Timespec} (ha : a.Normalised) (hb : b.Normalised) : (subTs a b).Normalised := by
  simp only [Timespec.Normalised, subTs, nsecPerSec] at *
  split_ifs <;> simp only <;> omega

/-- The carry is missed for a sum of exactly one second. -/
theorem normalised_addTs_iff {a b : Timespec} (ha : a.Normalised) (hb : b.Normalised) :
    (addTs a b).Normalised ↔ a.nsec + b.nsec ≠ nsecPerSec := by
  obtain ⟨ha₀, ha₁⟩ := ha
  obtain ⟨hb₀, hb₁⟩ := hb
  by_cases hcarry : a.nsec + b.nsec > nsecPerSec
  · simp only [Timespec.Normalised, addTs, if_pos hcarry]
    omega
  · simp only [Timespec.Normalised, addTs, if_neg hcarry]
    omega

/-- In terms of the times alone: the sum is a number of whole seconds, and the second time is not. -/
theorem nsec_add_eq_iff {a b : Timespec} (ha : a.Normalised) (hb : b.Normalised) :
    a.nsec + b.nsec = nsecPerSec ↔ nsecPerSec ∣ a.value + b.value ∧ ¬ nsecPerSec ∣ b.value := by
  simp only [Timespec.Normalised, Timespec.value, nsecPerSec] at *
  omega

/-! ## The flags -/

@[simp] theorem PerfTimer.flag_ne_zero (pt : PerfTimer) : pt.flag ≠ 0#32 := by
  cases pt
  decide

theorem PerfTimer.eq (pt pt' : PerfTimer) : pt = pt' := by
  cases pt
  cases pt'
  rfl

/-- The only index of the arrays, which have `NUM_TIMERS` entries. -/
theorem getIndex_eq (pt : PerfTimer) : getIndex pt = 0 := by
  cases pt
  decide

theorem or_and_self (w f : BitVec 32) : (w ||| f) &&& f = f := by
  ext i hi
  simpa using Or.inr

theorem and_not_and_self (w f : BitVec 32) : (w &&& ~~~f) &&& f = 0 := by
  ext i hi
  simp

namespace Timers

@[simp] theorem isStarted_setStarted (st : Timers) (pt : PerfTimer) : (st.setStarted pt).isStarted pt = true := by
  simp [isStarted, setStarted, or_and_self]

@[simp] theorem isStarted_setStopped (st : Timers) (pt : PerfTimer) : (st.setStopped pt).isStarted pt = false := by
  simp [isStarted, setStopped, and_not_and_self]

@[simp] theorem isStarted_setTotalTime (st : Timers) (pt : PerfTimer) (t : Timespec) :
    (st.setTotalTime pt t).isStarted pt = st.isStarted pt := rfl

@[simp] theorem isStarted_setEnabled (st : Timers) (pt : PerfTimer) :
    (st.setEnabled pt).isStarted pt = st.isStarted pt := rfl

@[simp] theorem isStarted_setDisabled (st : Timers) (pt : PerfTimer) :
    (st.setDisabled pt).isStarted pt = st.isStarted pt := rfl

end Timers

/-! ## What a call can do -/

/-- A call that succeeded, with the time it was made at. -/
inductive TimerEvent where
  | enabled
  | disabled
  | started (t : ℤ)
  | stopped (t : ℤ)
  deriving DecidableEq, Repr

/-- What a call that returned `act` did. -/
def TimerCall.event (act : TimerAction) : TimerCall → Option TimerEvent
  | .setPerfTimer _ .enabled => if act = .successTimerEnabled then some .enabled else none
  | .setPerfTimer _ .disabled => if act = .successTimerDisabled then some .disabled else none
  | .startPerfTimer _ now => if act = .successTimerStarted then some (.started now.value) else none
  | .stopPerfTimer _ now => if act = .successTimerStopped then some (.stopped now.value) else none
  | .getTotalPerfTime _ => none

/-- What a call does in the state `st`. -/
def TimerCall.eventIn (st : Timers) (call : TimerCall) : Option TimerEvent := call.event (call.exec st).1

/-- The variables after a stop. -/
def Timers.stopped (st : Timers) (pt : PerfTimer) (now : Timespec) : Timers :=
  (st.setTotalTime pt (addTs (st.totalTimes (getIndex pt)) (subTs now (st.startTimes (getIndex pt))))).setStopped pt

/-- **A call fails and changes nothing, or it enables, disables, starts or stops the timer.** -/
theorem exec_cases (st : Timers) (pt : PerfTimer) (call : TimerCall) :
    (call.eventIn st = none ∧ (call.exec st).2 = st) ∨
    (call.eventIn st = some .enabled ∧ (call.exec st).2 = (st.setTotalTime pt ⟨0, 0⟩).setEnabled pt) ∨
    (call.eventIn st = some .disabled ∧ (call.exec st).2 = st.setDisabled pt) ∨
    (∃ now, call = .startPerfTimer pt now ∧ call.eventIn st = some (.started now.value) ∧ st.isStarted pt = false ∧
      (call.exec st).2 = (st.setStartTime pt now).setStarted pt) ∨
    (∃ now, call = .stopPerfTimer pt now ∧ call.eventIn st = some (.stopped now.value) ∧ st.isStarted pt = true ∧
      (call.exec st).2 = st.stopped pt now) := by
  cases call with
  | setPerfTimer pt' statReq =>
    obtain rfl := pt'.eq pt
    cases hon : st.isEnabled pt' <;> cases statReq <;>
      simp [TimerCall.eventIn, TimerCall.event, TimerCall.exec, setTimer, hon]
  | startPerfTimer pt' now =>
    obtain rfl := pt'.eq pt
    cases hon : st.isEnabled pt' <;> cases hrun : st.isStarted pt' <;>
      simp [TimerCall.eventIn, TimerCall.event, TimerCall.exec, startTimer, hon, hrun]
  | stopPerfTimer pt' now =>
    obtain rfl := pt'.eq pt
    cases hon : st.isEnabled pt' <;> cases hrun : st.isStarted pt' <;>
      simp [TimerCall.eventIn, TimerCall.event, TimerCall.exec, stopTimer, hon, hrun, Timers.stopped]
  | getTotalPerfTime pt' => exact .inl ⟨rfl, rfl⟩

/-! ## The ledger -/

/-- What is known of a timer from the calls that succeeded. -/
structure Ledger where
  /-- the timer is running, since then -/
  since : Option ℤ := none
  /-- it has been running since before the last enable -/
  early : Bool := false
  /-- the sum of stop minus start over the pairs that were both made after the last enable -/
  pairs : ℤ := 0
  /-- the start and the stop between which the last enable lies -/
  straddle : Option (ℤ × ℤ) := none
  deriving DecidableEq, Repr

def Ledger.record (l : Ledger) : TimerEvent → Ledger
  | .enabled => ⟨l.since, l.since.isSome, 0, none⟩
  | .disabled => l
  | .started t => { l with since := some t, early := false }
  | .stopped t =>
    match l.since with
    | none => l
    | some start =>
      if l.early then { l with since := none, early := false, straddle := some (start, t) }
      else { l with since := none, pairs := l.pairs + (t - start) }

/-- The length of an interval, if there is one. -/
def intervalLength (i : Option (ℤ × ℤ)) : ℤ := i.elim 0 fun i => i.2 - i.1

/-- The calls that succeed, from the state `st` on. -/
def timerEvents (st : Timers) : List TimerCall → List TimerEvent
  | [] => []
  | call :: calls => (call.eventIn st).toList ++ timerEvents (call.exec st).2 calls

/-- The ledger of a run. -/
def ledger (calls : List TimerCall) : Ledger := (timerEvents {} calls).foldl Ledger.record {}

theorem runTimers_concat (calls : List TimerCall) (call : TimerCall) :
    runTimers (calls ++ [call]) = (call.exec (runTimers calls)).2 := by
  simp [runTimers]

theorem timerEvents_concat (calls : List TimerCall) (call : TimerCall) (st : Timers) :
    timerEvents st (calls ++ [call]) =
      timerEvents st calls ++ (call.eventIn (calls.foldl (fun st call => (call.exec st).2) st)).toList := by
  induction calls generalizing st with
  | nil => simp [timerEvents]
  | cons first calls ih => rw [List.cons_append, timerEvents, timerEvents, ih, List.append_assoc, List.foldl_cons]

theorem ledger_concat (calls : List TimerCall) (call : TimerCall) :
    ledger (calls ++ [call]) = (call.eventIn (runTimers calls)).elim (ledger calls) (ledger calls).record := by
  rw [ledger, timerEvents_concat, List.foldl_append]
  change ((call.eventIn (runTimers calls)).toList).foldl Ledger.record (ledger calls) = _
  cases call.eventIn (runTimers calls) <;> rfl

/-- **The variables are as the ledger says.** -/
structure Timers.Tracks (pt : PerfTimer) (st : Timers) (l : Ledger) : Prop where
  running : st.isStarted pt = l.since.isSome
  start : ∀ t, l.since = some t → (st.startTimes (getIndex pt)).value = t
  total : (st.totalTimes (getIndex pt)).value = l.pairs + intervalLength l.straddle
  early : l.early = true → l.straddle = none

/-- A call keeps the ledger. -/
theorem tracks_exec {l : Ledger} (h : st.Tracks pt l) (call : TimerCall) :
    (call.exec st).2.Tracks pt ((call.eventIn st).elim l l.record) := by
  obtain ⟨he, hst⟩ | ⟨he, hst⟩ | ⟨he, hst⟩ | ⟨now, -, he, hrun, hst⟩ | ⟨now, -, he, hrun, hst⟩ :=
    exec_cases st pt call <;> rw [he, hst]
  · exact h
  · -- the running interval, if there is one, now began before the last enable
    exact ⟨h.running, h.start, by simp [Timers.setEnabled, Timers.setTotalTime, Timespec.value, Ledger.record,
      intervalLength], fun _ => rfl⟩
  · exact ⟨h.running, h.start, h.total, h.early⟩
  · refine ⟨by simp [Ledger.record], fun t ht => ?_, h.total, fun hearly => by cases hearly⟩
    obtain rfl : now.value = t := Option.some.inj ht
    simp [Timers.setStarted, Timers.setStartTime]
  · obtain ⟨start, hsince⟩ := Option.isSome_iff_exists.1 (h.running.symm.trans hrun)
    have htotal : ((st.stopped pt now).totalTimes (getIndex pt)).value =
        l.pairs + intervalLength l.straddle + (now.value - start) := by
      simp only [Timers.stopped, Timers.setStopped, Timers.setTotalTime, Function.update_self]
      rw [value_addTs, value_subTs, h.total, h.start start hsince]
    have hstopped : (st.stopped pt now).isStarted pt = false := Timers.isStarted_setStopped _ pt
    simp only [Option.elim_some, Ledger.record, hsince]
    cases hearly : l.early with
    | true =>
      rw [h.early hearly] at htotal
      refine ⟨hstopped, by simp, ?_, by simp⟩
      simpa [intervalLength] using htotal
    | false =>
      refine ⟨hstopped, by simp, ?_, by simp⟩
      simp only [Bool.false_eq_true, if_false]
      rw [htotal]
      ring

/-- **After any calls the variables are as the ledger says.** -/
theorem tracks_run (pt : PerfTimer) (calls : List TimerCall) : (runTimers calls).Tracks pt (ledger calls) := by
  induction calls using List.reverseRecOn with
  | nil =>
    refine ⟨?_, fun t ht => ?_, rfl, fun _ => rfl⟩
    · cases pt
      rfl
    · cases ht
  | append_singleton calls call ih =>
    rw [runTimers_concat, ledger_concat]
    exact tracks_exec ih call

/-! ## The total -/

/-- **The total is that of the pairs since the last enable** exactly if the timer was not running then, or the clock
showed the same when it was stopped. -/
theorem total_time_iff {total : Timespec}
    (h : getTotalTime (runTimers calls) pt = (.successTimerTotalReturned, some total)) :
    total.value = (ledger calls).pairs ↔ ∀ i, (ledger calls).straddle = some i → i.1 = i.2 := by
  have htotal : total.value = (ledger calls).pairs + intervalLength (ledger calls).straddle := by
    have hentry : (runTimers calls).totalTimes (getIndex pt) = total := by
      unfold getTotalTime at h
      split_ifs at h
      · cases h
      · cases h
      · exact Option.some.inj (Prod.mk.inj h).2
    rw [← hentry]
    exact (tracks_run pt calls).total
  rw [htotal]
  cases (ledger calls).straddle with
  | none => simp [intervalLength]
  | some i =>
    simp only [intervalLength, Option.elim_some, Option.some.injEq, forall_eq']
    omega

/-- A timer that runs from one second to three. -/
def twoSeconds : List TimerCall :=
  [.setPerfTimer .auditFileCopying .enabled, .startPerfTimer .auditFileCopying ⟨1, 0⟩,
    .stopPerfTimer .auditFileCopying ⟨3, 0⟩]

theorem total_time_two_seconds :
    getTotalTime (runTimers twoSeconds) .auditFileCopying = (.successTimerTotalReturned, some ⟨2, 0⟩) ∧
      Timespec.value ⟨2, 0⟩ = (ledger twoSeconds).pairs := by
  have hget : getTotalTime (runTimers twoSeconds) .auditFileCopying = (.successTimerTotalReturned, some ⟨2, 0⟩) := by
    decide
  exact ⟨hget, (total_time_iff hget).2 (by decide)⟩

/-- A timer that is disabled and enabled again while it runs. -/
def reenabled : List TimerCall :=
  [.setPerfTimer .auditFileCopying .enabled, .startPerfTimer .auditFileCopying ⟨1, 0⟩,
    .setPerfTimer .auditFileCopying .disabled, .setPerfTimer .auditFileCopying .enabled,
    .stopPerfTimer .auditFileCopying ⟨3, 0⟩]

/-- Its total is two seconds, and there is no pair since it was enabled. -/
theorem total_time_reenabled :
    getTotalTime (runTimers reenabled) .auditFileCopying = (.successTimerTotalReturned, some ⟨2, 0⟩) ∧
      timerEvents {} reenabled = [.enabled, .started 1000000000, .disabled, .enabled, .stopped 3000000000] ∧
      (ledger reenabled).pairs = 0 := by
  decide

/-! ## Normalised times -/

/-- The clock is read only as POSIX allows. -/
def TimerCall.Normalised : TimerCall → Prop
  | .startPerfTimer _ now => now.Normalised
  | .stopPerfTimer _ now => now.Normalised
  | _ => True

instance : ∀ call : TimerCall, Decidable call.Normalised
  | .setPerfTimer _ _ => inferInstanceAs (Decidable True)
  | .startPerfTimer _ now => inferInstanceAs (Decidable now.Normalised)
  | .stopPerfTimer _ now => inferInstanceAs (Decidable now.Normalised)
  | .getTotalPerfTime _ => inferInstanceAs (Decidable True)

theorem startTimes_normalised (h : ∀ call ∈ calls, call.Normalised) (i : ℕ) :
    ((runTimers calls).startTimes i).Normalised := by
  induction calls using List.reverseRecOn with
  | nil => exact ⟨le_rfl, (by decide : 0 < nsecPerSec)⟩
  | append_singleton calls call ih =>
    have ih := ih fun c hc => h c (List.mem_append_left _ hc)
    rw [runTimers_concat]
    obtain ⟨-, hst⟩ | ⟨-, hst⟩ | ⟨-, hst⟩ | ⟨now, rfl, -, -, hst⟩ | ⟨now, -, -, -, hst⟩ :=
      exec_cases (runTimers calls) .auditFileCopying call <;> rw [hst]
    · exact ih
    · exact ih
    · exact ih
    · have hnow : now.Normalised := h (.startPerfTimer .auditFileCopying now) (by simp)
      by_cases hi : i = getIndex .auditFileCopying
      · simpa [Timers.setStarted, Timers.setStartTime, hi] using hnow
      · simpa [Timers.setStarted, Timers.setStartTime, hi] using ih
    · exact ih

/-- With this stop, made after `calls`, the total becomes a number of whole seconds, though the interval is not one. -/
def WholeSeconds (calls : List TimerCall) (call : TimerCall) : Prop :=
  ∃ t start, call.eventIn (runTimers calls) = some (.stopped t) ∧ (ledger calls).since = some start ∧
    nsecPerSec ∣ (ledger calls).pairs + intervalLength (ledger calls).straddle + (t - start) ∧
    ¬ nsecPerSec ∣ t - start

/-- The entries of `total_times` after some calls. -/
def TotalsNormalised (calls : List TimerCall) : Prop :=
  ∀ i < numTimers, ((runTimers calls).totalTimes i).Normalised

theorem totalsNormalised_iff : TotalsNormalised calls ↔ ((runTimers calls).totalTimes 0).Normalised := by
  simp [TotalsNormalised, numTimers]

/-- **One more call** keeps the times normalised, unless it is such a stop. -/
theorem totalsNormalised_concat (h : ∀ call ∈ calls, call.Normalised) (hcall : call.Normalised)
    (hnorm : TotalsNormalised calls) : TotalsNormalised (calls ++ [call]) ↔ ¬ WholeSeconds calls call := by
  have htrack := tracks_run .auditFileCopying calls
  have hindex := getIndex_eq .auditFileCopying
  have htotal := totalsNormalised_iff.1 hnorm
  rw [totalsNormalised_iff, runTimers_concat, WholeSeconds]
  obtain ⟨he, hst⟩ | ⟨he, hst⟩ | ⟨he, hst⟩ | ⟨now, -, he, -, hst⟩ | ⟨now, rfl, he, hrun, hst⟩ :=
    exec_cases (runTimers calls) .auditFileCopying call <;> rw [he, hst]
  · simpa using htotal
  · have hzero : Timespec.Normalised ⟨0, 0⟩ := ⟨le_rfl, (by decide : 0 < nsecPerSec)⟩
    simpa [Timers.setEnabled, Timers.setTotalTime, hindex] using hzero
  · simpa [Timers.setDisabled] using htotal
  · simpa [Timers.setStarted, Timers.setStartTime] using htotal
  · obtain ⟨start, hsince⟩ := Option.isSome_iff_exists.1 (htrack.running.symm.trans hrun)
    have hnow : now.Normalised := hcall
    have hsub := normalised_subTs hnow (startTimes_normalised h 0)
    have hstop : ((runTimers calls).stopped .auditFileCopying now).totalTimes 0 =
        addTs ((runTimers calls).totalTimes 0) (subTs now ((runTimers calls).startTimes 0)) := by
      simp [Timers.stopped, Timers.setStopped, Timers.setTotalTime, hindex]
    have hvalue := htrack.total
    have hstart := htrack.start start hsince
    rw [hindex] at hvalue hstart
    rw [hstop, normalised_addTs_iff htotal hsub, ne_eq, nsec_add_eq_iff htotal hsub, value_subTs, hvalue, hstart,
      hsince]
    simp

/-- **The accumulated times stay normalised** exactly if no stop makes the total a number of whole seconds with an
interval that is not one: `add_ts` carries only above `NSEC_PER_SEC`. -/
theorem totals_normalised_iff (h : ∀ call ∈ calls, call.Normalised) :
    History.Throughout TotalsNormalised calls ↔
      History.EachAfter (fun earlier call => ¬ WholeSeconds earlier call) calls :=
  History.throughout_iff_eachAfter_of h (fun i _ => ⟨le_rfl, (by decide : 0 < nsecPerSec)⟩)
    fun _ _ hbefore hcall => totalsNormalised_concat hbefore hcall

theorem totals_normalised_two_seconds : History.Throughout TotalsNormalised twoSeconds := by
  refine (totals_normalised_iff (by decide)).2 ?_
  -- the only stop ends an interval of two seconds
  have hstop : ¬ WholeSeconds (twoSeconds.take 2) (.stopPerfTimer .auditFileCopying ⟨3, 0⟩) := by
    rintro ⟨t, start, he, hsince, -, hnot⟩
    obtain rfl : 3000000000 = t := TimerEvent.stopped.inj (Option.some.inj he)
    obtain rfl : 1000000000 = start := Option.some.inj hsince
    exact hnot (by decide)
  refine History.eachAfter_concat.2 ⟨History.eachAfter_concat.2 ⟨History.eachAfter_concat.2
    ⟨History.eachAfter_nil, ?_⟩, ?_⟩, hstop⟩
  · rintro ⟨t, start, he, -⟩
    cases he
  · rintro ⟨t, start, he, -⟩
    cases he

/-- Six tenths of a second, and then four. -/
def tenths : List TimerCall :=
  [.setPerfTimer .auditFileCopying .enabled,
    .startPerfTimer .auditFileCopying ⟨0, 0⟩, .stopPerfTimer .auditFileCopying ⟨0, 600000000⟩,
    .startPerfTimer .auditFileCopying ⟨1, 0⟩, .stopPerfTimer .auditFileCopying ⟨1, 400000000⟩]

theorem totals_tenths :
    (∀ call ∈ tenths, call.Normalised) ∧ (runTimers tenths).totalTimes 0 = ⟨0, 1000000000⟩ ∧
      ¬ History.Throughout TotalsNormalised tenths := by
  have htotal : (runTimers tenths).totalTimes 0 = ⟨0, 1000000000⟩ := by decide
  refine ⟨by decide, htotal, fun h => ?_⟩
  have hnorm := totalsNormalised_iff.1 (h tenths (List.prefix_refl _))
  rw [htotal] at hnorm
  exact absurd hnorm (by decide)

end Ptu
