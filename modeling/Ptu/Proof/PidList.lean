import Ptu.Lib.History
import Ptu.Spec.PidList

/-!
# The list of executed processes

* `sweepLoop_listed`: a sweep keeps the list and the log in step.
* `sweepLoop_mem`: **a process that stands in the list twice survives a sweep**, for the sweep
  does not look at the entry that it moves.
* `pid_list_iff`: **the list holds the executed processes that have not been reported as gone
  exactly if no process executes another program while it is in the list**, and there are never
  too many.
-/

namespace Ptu

open History Unordered

variable {st st' : PidState} {stat : ProcStat} {pid q : ℕ}

/-! ## What the log says -/

/-- The record that `pid` has executed a program. -/
def PidRecord.executes (pid : ℕ) (r : PidRecord) : Prop := ∃ ppid, r = .execve2 pid ppid

/-- The record is about `pid`, and more than its use of memory. -/
def PidRecord.concerns (pid : ℕ) : PidRecord → Prop
  | .execve2 pid' _ => pid' = pid
  | .mem _ _ => False
  | .lexit pid' => pid' = pid
  | .exit pid' => pid' = pid

/-- **By the log, `pid` has executed a program and has not been reported EXIT or LEXIT since.** -/
def LiveExecuted (log : List PidRecord) (pid : ℕ) : Prop :=
  LatestIs (PidRecord.executes pid) (PidRecord.concerns pid) log

theorem liveExecuted_execve2 {log : List PidRecord} {ppid : ℤ} :
    LiveExecuted (log ++ [.execve2 q ppid]) pid ↔ q = pid ∨ LiveExecuted log pid := by
  unfold LiveExecuted
  rw [latestIs_concat]
  constructor
  · rintro (⟨ppid', h⟩ | ⟨-, h⟩)
    · injection h with hq
      exact .inl hq
    · exact .inr h
  · rintro (rfl | h)
    · exact .inl ⟨ppid, rfl⟩
    · by_cases hq : q = pid
      · exact .inl ⟨ppid, by rw [hq]⟩
      · exact .inr ⟨hq, h⟩

theorem liveExecuted_mem {log : List PidRecord} {rss : ℕ} :
    LiveExecuted (log ++ [.mem q rss]) pid ↔ LiveExecuted log pid := by
  unfold LiveExecuted
  rw [latestIs_concat]
  constructor
  · rintro (⟨ppid, h⟩ | ⟨-, h⟩)
    · cases h
    · exact h
  · intro h
    exact .inr ⟨id, h⟩

/-- A record that a process is gone. -/
def PidRecord.isGone (q : ℕ) (r : PidRecord) : Prop := r = .lexit q ∨ r = .exit q

theorem liveExecuted_gone {log : List PidRecord} {r : PidRecord} (hr : r.isGone q) :
    LiveExecuted (log ++ [r]) pid ↔ q ≠ pid ∧ LiveExecuted log pid := by
  have hno : ¬ r.executes pid := by
    rintro ⟨ppid, rfl⟩
    rcases hr with hr | hr <;> cases hr
  have hconcerns : r.concerns pid ↔ q = pid := by
    rcases hr with rfl | rfl <;> exact Iff.rfl
  unfold LiveExecuted
  rw [latestIs_concat, hconcerns]
  exact or_iff_right hno

/-- **The list holds each live executed process once, and nothing else.** -/
def Listed (st : PidState) : Prop :=
  ∀ pid, (LiveExecuted st.log pid → st.pv.count pid = 1) ∧ (¬ LiveExecuted st.log pid → st.pv.count pid = 0)

theorem Listed.count_le (h : Listed st) (pid : ℕ) : st.pv.count pid ≤ 1 := by
  by_cases hlive : LiveExecuted st.log pid
  · exact ((h pid).1 hlive).le
  · rw [(h pid).2 hlive]
    omega

theorem listed_init : Listed {} := fun _ => ⟨fun h => absurd h not_latestIs_nil, fun _ => rfl⟩

/-- A process that stands in the list is taken out, and the log says so. -/
theorem Listed.remove {i : ℕ} {r : PidRecord} (h : Listed st) (hi : st.pv[i]? = some q) (hr : r.isGone q) :
    Listed { pv := swapRemove st.pv i, log := st.log ++ [r] } := by
  intro pid
  have hperm := (swapRemove_perm hi).count_eq pid
  rw [List.count_cons] at hperm
  simp only [liveExecuted_gone hr]
  by_cases hq : q = pid
  · subst hq
    have hone := h.count_le q
    simp only [beq_self_eq_true, if_true] at hperm
    exact ⟨fun hlive => absurd rfl hlive.1, fun _ => by omega⟩
  · have hbeq : (q == pid) = false := by simpa using hq
    simp only [hbeq, Bool.false_eq_true, if_false, Nat.add_zero] at hperm
    rw [← hperm]
    exact ⟨fun hlive => (h pid).1 hlive.2, fun hno => (h pid).2 fun hlive => hno ⟨hq, hlive⟩⟩

/-! ## A sweep -/

/-- **A sweep keeps the list and the log in step.** -/
theorem sweepLoop_listed {n i : ℕ} (h : Listed st) : Listed (sweepLoop stat n i st) := by
  induction n generalizing i st with
  | zero => exact h
  | succ n ih =>
    unfold sweepLoop
    cases hi : st.pv[i]? with
    | none => exact h
    | some q =>
      simp only
      cases hstat : stat q with
      | none => exact ih (h.remove hi (.inl rfl))
      | some rss =>
        refine ih fun pid => ?_
        simp only [liveExecuted_mem]
        exact h pid

/-- What a sweep takes out it reports, and it reports nothing else. -/
theorem sweepLoop_count {n i : ℕ} (stat : ProcStat) (st : PidState) (pid : ℕ) :
    ∃ records, (sweepLoop stat n i st).log = st.log ++ records ∧ (∀ r ∈ records, ¬ r.executes pid) ∧
      (.lexit pid ∈ records → stat pid = none) ∧
      st.pv.count pid = (sweepLoop stat n i st).pv.count pid + records.count (.lexit pid) := by
  induction n generalizing i st with
  | zero => exact ⟨[], by simp [sweepLoop], by simp, by simp, by simp [sweepLoop]⟩
  | succ n ih =>
    unfold sweepLoop
    cases hi : st.pv[i]? with
    | none => exact ⟨[], by simp, by simp, by simp, by simp⟩
    | some q =>
      simp only
      cases hstat : stat q with
      | none =>
        obtain ⟨records, hlog, hno, hgone, hcount⟩ :=
          ih (i := i + 1) { pv := swapRemove st.pv i, log := st.log ++ [.lexit q] }
        refine ⟨.lexit q :: records, by rw [hlog]; simp, ?_, ?_, ?_⟩
        · intro r hr
          rcases List.mem_cons.1 hr with rfl | hr
          · rintro ⟨ppid, h⟩
            cases h
          · exact hno r hr
        · intro hr
          rcases List.mem_cons.1 hr with hr | hr
          · injection hr with hr
            rw [hr, hstat]
          · exact hgone hr
        · have hperm := (swapRemove_perm hi).count_eq pid
          rw [List.count_cons] at hperm ⊢
          have hbeq : (PidRecord.lexit q == PidRecord.lexit pid) = (q == pid) := by
            rw [Bool.eq_iff_iff]
            simp
          simp only at hcount ⊢
          rw [hperm, hbeq, hcount]
          omega
      | some rss =>
        obtain ⟨records, hlog, hno, hgone, hcount⟩ := ih (i := i + 1) { st with log := st.log ++ [.mem q rss] }
        refine ⟨.mem q rss :: records, by rw [hlog]; simp, ?_, fun hr => hgone (by simpa using hr), ?_⟩
        · intro r hr
          rcases List.mem_cons.1 hr with rfl | hr
          · rintro ⟨ppid, h⟩
            cases h
          · exact hno r hr
        · rw [List.count_cons_of_ne (by simp)]
          exact hcount

/-- The entries in front of the index are not touched any more. -/
theorem sweepLoop_take {n i : ℕ} (st : PidState) :
    st.pv.take i <+: (sweepLoop stat n i st).pv := by
  induction n generalizing i st with
  | zero => exact List.take_prefix i st.pv
  | succ n ih =>
    unfold sweepLoop
    cases hentry : st.pv[i]? with
    | none => exact List.take_prefix i st.pv
    | some q =>
      have hlt := (List.getElem?_eq_some_iff.1 hentry).1
      simp only
      cases hstat : stat q with
      | none =>
        have hshort : (swapRemove st.pv i).take i <+: (swapRemove st.pv i).take (i + 1) :=
          List.take_prefix_take_left (by omega)
        rw [take_swapRemove hlt] at hshort
        exact hshort.trans (ih (i := i + 1) { pv := swapRemove st.pv i, log := st.log ++ [.lexit q] })
      | some rss =>
        have hshort : st.pv.take i <+: st.pv.take (i + 1) := List.take_prefix_take_left (by omega)
        exact hshort.trans (ih (i := i + 1) { st with log := st.log ++ [.mem q rss] })

/-- **A process that stands in the list twice, the second time at its end, survives a sweep.** The
first process that is taken out is followed in its place by the last one, which the sweep then
passes over. -/
theorem sweepLoop_mem {n i k : ℕ} (st : PidState) (hn : st.pv.length ≤ n + i) (hlast : st.pv.getLast? = some pid)
    (hik : i ≤ k) (hk : st.pv[k]? = some pid) (hkl : k + 1 < st.pv.length) (hgone : stat pid = none) :
    pid ∈ (sweepLoop stat n i st).pv := by
  induction n generalizing i st with
  | zero => omega
  | succ n ih =>
    unfold sweepLoop
    have hlt : i < st.pv.length := by omega
    rw [List.getElem?_eq_getElem hlt]
    simp only
    cases hstat : stat st.pv[i] with
    | none =>
      have hplace := swapRemove_getElem? (i := i) (by omega) hlast
      have hmem : pid ∈ (swapRemove st.pv i).take (i + 1) := by
        refine List.mem_of_getElem? (i := i) ?_
        rw [List.getElem?_take_of_lt (by omega), hplace]
      have hkeep : (swapRemove st.pv i).take (i + 1) <+:
          (sweepLoop stat n (i + 1) { pv := swapRemove st.pv i, log := st.log ++ [.lexit st.pv[i]] }).pv :=
        sweepLoop_take { pv := swapRemove st.pv i, log := st.log ++ [.lexit st.pv[i]] }
      exact hkeep.subset hmem
    | some rss =>
      -- this is not the process, so the process stands behind
      have hne : i ≠ k := by
        rintro rfl
        rw [List.getElem?_eq_getElem hlt] at hk
        rw [Option.some.inj hk, hgone] at hstat
        cases hstat
      exact ih { st with log := st.log ++ [.mem st.pv[i] rss] } (by simp only; omega) hlast (by omega) hk hkl

/-! ## Events -/

theorem Listed.printCurrProv (h : Listed st) : Listed (printCurrProv stat st) := sweepLoop_listed h

/-- A process that is not in the list is appended. -/
theorem Listed.append {ppid : ℤ} (h : Listed st) (hno : ¬ LiveExecuted st.log pid) :
    Listed { pv := st.pv ++ [pid], log := st.log ++ [.execve2 pid ppid] } := by
  intro q
  simp only [liveExecuted_execve2, List.count_append, List.count_singleton]
  by_cases hq : pid = q
  · subst hq
    have hzero := (h pid).2 hno
    simp only [beq_self_eq_true, if_true, true_or, not_true_eq_false]
    exact ⟨fun _ => by omega, fun hfalse => hfalse.elim⟩
  · have hbeq : (pid == q) = false := by simpa using hq
    simp only [hq, hbeq, Bool.false_eq_true, if_false, false_or, Nat.add_zero]
    exact h q

theorem Listed.printExitProv (h : Listed st) : Listed (printExitProv true stat pid st) := by
  -- a process that is not in the list is reported all the same
  have hskip : ∀ st : PidState, Listed st → pid ∉ st.pv → Listed { st with log := st.log ++ [.exit pid] } := by
    intro st h hmem q
    have hexit : (PidRecord.exit pid).isGone pid := .inr rfl
    simp only [liveExecuted_gone hexit]
    refine ⟨fun hlive => (h q).1 hlive.2, fun hno => ?_⟩
    by_cases hq : pid = q
    · rw [← hq]
      exact List.count_eq_zero.2 hmem
    · exact (h q).2 fun hlive => hno ⟨hq, hlive⟩
  unfold Ptu.printExitProv rmPidProv
  simp only [if_true]
  by_cases hlen : st.pv.length = 0
  · rw [if_pos hlen]
    refine hskip st h ?_
    rw [List.length_eq_zero_iff.1 hlen]
    exact List.not_mem_nil
  · rw [if_neg hlen]
    have hsweep : Listed (Ptu.printCurrProv stat st) := h.printCurrProv
    cases hidx : (Ptu.printCurrProv stat st).pv.findIdx? (· == pid) with
    | none =>
      refine hskip _ hsweep fun hmem => ?_
      have := List.findIdx?_eq_none_iff.1 hidx pid hmem
      simp at this
    | some i =>
      obtain ⟨hlt, hq, -⟩ := List.findIdx?_eq_some_iff_getElem.1 hidx
      have hentry : (Ptu.printCurrProv stat st).pv[i]? = some pid := by
        rw [List.getElem?_eq_getElem hlt, beq_iff_eq.1 hq]
      exact hsweep.remove hentry (.inr rfl)

/-- **An event keeps the list right**, if it is no `execve` of a process that is in the list
already. -/
theorem PidEvent.run_listed {event : PidEvent} (h : Listed st)
    (hfresh : ∀ pid ppid stat, event = .execve pid ppid stat →
      ¬ LiveExecuted st.log pid ∧ st.pv.length < maxPids) :
    ∃ st', event.run true st = .ok st' ∧ Listed st' := by
  cases event with
  | execve pid ppid stat =>
    obtain ⟨hno, hroom⟩ := hfresh pid ppid stat rfl
    have hlisted : Listed (Ptu.printCurrProv stat
        { pv := st.pv ++ [pid], log := st.log ++ [.execve2 pid ppid] }) := (h.append hno).printCurrProv
    refine ⟨_, ?_, hlisted⟩
    simp only [PidEvent.run, printEndExecveProv, addPidProv, if_true]
    rw [if_neg (by omega)]
  | exit pid stat => exact ⟨_, rfl, h.printExitProv⟩
  | sweep stat => exact ⟨_, rfl, h.printCurrProv⟩

/-- **A second `execve` spoils the list.** -/
theorem execve_not_listed {ppid : ℤ} (h : Listed st) (hlive : LiveExecuted st.log pid)
    (hrun : (PidEvent.execve pid ppid stat).run true st = .ok st') : ¬ Listed st' := by
  simp only [PidEvent.run, printEndExecveProv, addPidProv, if_true] at hrun
  split at hrun
  · cases hrun
  obtain rfl := Except.ok.inj hrun
  have hone := (h pid).1 hlive
  set st₁ : PidState := { pv := st.pv ++ [pid], log := st.log ++ [.execve2 pid ppid] } with hst₁
  obtain ⟨records, hlog, hno, hgone, hcount⟩ := sweepLoop_count (n := st₁.pv.length) (i := 0) stat st₁ pid
  have htwo : st₁.pv.count pid = 2 := by
    simp only [hst₁, List.count_append, List.count_singleton_self, hone]
  intro hlisted
  have hle : (sweepLoop stat st₁.pv.length 0 st₁).pv.count pid ≤ 1 := hlisted.count_le pid
  -- it has been taken out once, so it has been reported as gone
  have hreported : .lexit pid ∈ records := List.count_pos_iff.1 (by omega)
  have hdead : ¬ LiveExecuted (st₁.log ++ records) pid := not_latestIs_append hno ⟨_, hreported, rfl⟩
  have hzero : (sweepLoop stat st₁.pv.length 0 st₁).pv.count pid = 0 := (hlisted pid).2 (by
    change ¬ LiveExecuted (sweepLoop stat st₁.pv.length 0 st₁).log pid
    rwa [hlog])
  -- but it is still there
  obtain ⟨k, hk⟩ := List.mem_iff_getElem?.1 (List.count_pos_iff.1 (by omega : 0 < st.pv.count pid))
  have hklt := (List.getElem?_eq_some_iff.1 hk).1
  have hmem : pid ∈ (sweepLoop stat st₁.pv.length 0 st₁).pv := by
    refine sweepLoop_mem st₁ (by omega) (by simp [hst₁]) (Nat.zero_le k) ?_ ?_ (hgone hreported)
    · rw [hst₁, List.getElem?_append_left hklt, hk]
    · simp only [hst₁, List.length_append, List.length_singleton]
      omega
  exact List.count_eq_zero.1 hzero hmem

/-! ## Runs -/

/-- **In every state of the run the list is right.** The tracer gets that far: it does not write
beyond the end of the array. -/
def EveryStateListed (provMode : Bool) (events : List PidEvent) : Prop :=
  ∀ earlier later, events = earlier ++ later → ∃ st, runPids provMode earlier {} = .ok st ∧ Listed st

/-- No process executes another program while it counts as an executed process, and there is room
in the list for every one that executes a program. -/
def ExecutesOnce (events : List PidEvent) : Prop :=
  EachAfter (fun earlier event => ∀ st pid ppid stat, runPids true earlier {} = .ok st →
    event = .execve pid ppid stat → ¬ LiveExecuted st.log pid ∧ st.pv.length < maxPids) events

theorem runPids_concat {provMode : Bool} {events : List PidEvent} {event : PidEvent} {st₀ : PidState}
    (h : runPids provMode events st₀ = .ok st) :
    runPids provMode (events ++ [event]) st₀ = event.run provMode st := by
  unfold runPids at h ⊢
  rw [List.foldlM_append, h]
  simp only [List.foldlM_cons, List.foldlM_nil, bind_pure]
  rfl

theorem ExecutesOnce.run_listed {events : List PidEvent} (h : ExecutesOnce events) :
    ∃ st, runPids true events {} = .ok st ∧ Listed st := by
  induction events using List.reverseRecOn with
  | nil => exact ⟨{}, rfl, listed_init⟩
  | append_singleton events event ih =>
    obtain ⟨hearlier, hevent⟩ := eachAfter_concat.1 h
    obtain ⟨st, hrun, hlisted⟩ := ih hearlier
    rw [runPids_concat hrun]
    exact PidEvent.run_listed hlisted fun pid ppid stat => hevent st pid ppid stat hrun

/-- Without provenance mode there is no list. -/
theorem runPids_off (events : List PidEvent) : runPids false events {} = .ok {} := by
  induction events using List.reverseRecOn with
  | nil => rfl
  | append_singleton events event ih =>
    rw [runPids_concat ih]
    cases event <;> rfl

/-- **The list is the set of live executed processes exactly if no process executes another program
while it is one of them**, and there are never more of them than the array has room for. -/
theorem pid_list_iff (provMode : Bool) (events : List PidEvent) :
    EveryStateListed provMode events ↔ (provMode = true → ExecutesOnce events) := by
  constructor
  · rintro h rfl earlier event later rfl st pid ppid stat hrun rfl
    obtain ⟨st₀, hrun₀, hlisted⟩ := h earlier _ rfl
    obtain rfl := Except.ok.inj (hrun₀.symm.trans hrun)
    obtain ⟨st', hrun', hlisted'⟩ := h (earlier ++ [.execve pid ppid stat]) later (by simp)
    rw [runPids_concat hrun] at hrun'
    refine ⟨fun hlive => execve_not_listed hlisted hlive hrun' hlisted', ?_⟩
    by_contra hfull
    simp only [PidEvent.run, printEndExecveProv, addPidProv, if_true] at hrun'
    rw [if_pos (by omega)] at hrun'
    cases hrun'
  · intro h earlier later hevents
    cases provMode with
    | false => exact ⟨{}, runPids_off earlier, listed_init⟩
    | true =>
      refine ExecutesOnce.run_listed fun earlier' event later' hearlier => ?_
      exact h rfl earlier' event (later' ++ later) (by rw [hevents, hearlier]; simp)

/-- A process that executes two programs stands in the list twice, and is left there when it
exits. -/
theorem pid_list_exec_twice :
    runPids true [.execve 5 1 fun _ => some 0, .execve 5 1 fun _ => some 0, .exit 5 fun _ => some 0] {} =
      .ok { pv := [5]
            log := [.execve2 5 1, .mem 5 0, .execve2 5 1, .mem 5 0, .mem 5 0, .mem 5 0, .mem 5 0, .exit 5] } ∧
    ¬ EveryStateListed true
      [.execve 5 1 fun _ => some 0, .execve 5 1 fun _ => some 0, .exit 5 fun _ => some 0] := by
  refine ⟨rfl, fun h => ?_⟩
  obtain ⟨st, hrun, hlisted⟩ := h [.execve 5 1 fun _ => some 0, .execve 5 1 fun _ => some 0] [.exit 5 _] rfl
  obtain rfl := Except.ok.inj hrun
  exact absurd (hlisted.count_le 5) (by decide)

end Ptu
