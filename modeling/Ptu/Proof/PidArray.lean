import Ptu.Proof.Monitor
import Ptu.Spec.PidArray

/-!
# The array of processes is not left

* `sweepIndices_lt`: a sweep stays in the part of the array that is used.
* `searchIndices_lt_iff`: the search for a process reads one entry more if it does not find it.
* `pid_array_iff`: **all indices are in the array exactly if there is room for every process that
  is appended, and for one more whenever a process that is not listed is searched for**.
-/

namespace Ptu

open History Unordered

variable {s s' : Session} {stat : ProcStat}

/-! ## The indices of one step -/

theorem length_swapRemove_le (pv : List ℕ) (i : ℕ) : (swapRemove pv i).length ≤ pv.length := by
  unfold swapRemove
  cases pv.getLast? with
  | none => exact Nat.le_refl _
  | some last =>
    simp only [List.length_dropLast, List.length_set]
    omega

theorem sweepIndices_lt {n i : ℕ} {pv : List ℕ} : ∀ k ∈ sweepIndices stat n i pv, 0 ≤ k ∧ k < pv.length := by
  induction n generalizing i pv with
  | zero => exact fun k hk => absurd hk List.not_mem_nil
  | succ n ih =>
    unfold sweepIndices
    cases hentry : pv[i]? with
    | none => exact fun k hk => absurd hk List.not_mem_nil
    | some pid =>
      have hlt := (List.getElem?_eq_some_iff.1 hentry).1
      simp only
      cases stat pid with
      | none =>
        have hshort := length_swapRemove_le pv i
        intro k hk
        rcases List.mem_cons.1 hk with rfl | hk
        · omega
        · rcases List.mem_cons.1 hk with rfl | hk
          · omega
          · have hrest := ih k hk
            omega
      | some rss =>
        intro k hk
        rcases List.mem_cons.1 hk with rfl | hk
        · omega
        · exact ih k hk

/-- The search reads the entry behind the last one if it finds nothing. -/
theorem searchIndices_lt_iff {pid i n : ℕ} {pv : List ℕ} (hn : i + pv.length ≤ n) :
    (∀ k ∈ searchIndices pid i pv, 0 ≤ k ∧ k < n) ↔ (pid ∉ pv → i + pv.length < n) := by
  induction pv generalizing i with
  | nil => simp [searchIndices]
  | cons entry pv ih =>
    rw [List.length_cons] at hn ⊢
    unfold searchIndices
    by_cases hentry : entry = pid
    · subst hentry
      rw [if_pos rfl]
      refine iff_of_true (fun k hk => ?_) fun hno => absurd List.mem_cons_self hno
      obtain rfl := List.mem_singleton.1 hk
      omega
    · have hmem : pid ∈ entry :: pv ↔ pid ∈ pv := by
        rw [List.mem_cons]
        exact or_iff_right fun h => hentry h.symm
      rw [if_neg hentry, List.forall_mem_cons, ih (by omega), hmem]
      constructor
      · rintro ⟨-, h⟩ hno
        have := h hno
        omega
      · intro h
        refine ⟨by omega, fun hno => ?_⟩
        have := h hno
        omega

theorem removeIndices_lt_iff {pid n : ℕ} {pv : List ℕ} (hn : pv.length ≤ n) :
    (∀ k ∈ removeIndices pid pv, 0 ≤ k ∧ k < n) ↔ (pid ∉ pv → pv.length < n) := by
  unfold removeIndices
  rw [List.forall_mem_append, searchIndices_lt_iff (by omega : 0 + pv.length ≤ n), Nat.zero_add]
  refine and_iff_left ?_
  split_ifs with hmem
  · have hpos := List.length_pos_of_mem hmem
    intro k hk
    obtain rfl := List.mem_singleton.1 hk
    omega
  · exact fun k hk => absurd hk List.not_mem_nil

/-- There is room where a step of the tracer goes behind the last process: where it appends one, and
where it looks for one that is not listed. -/
def TracerStep.HasRoom (pv : List ℕ) : TracerStep → Prop
  | .append _ => pv.length < maxPids
  | .remove pid => pid ∉ pv → pv.length < maxPids
  | .write _ | .sweep _ | .rmTest _ _ => True

theorem TracerStep.indices_iff {pv : List ℕ} (step : TracerStep) (hlen : pv.length ≤ maxPids) :
    (∀ k ∈ step.indices pv, 0 ≤ k ∧ k < maxPids) ↔ step.HasRoom pv := by
  cases step with
  | write r => exact iff_of_true (fun k hk => absurd hk List.not_mem_nil) trivial
  | append pid => simp [TracerStep.indices, TracerStep.HasRoom]
  | sweep stat =>
    refine iff_of_true (fun k hk => ?_) trivial
    have := sweepIndices_lt k hk
    omega
  | rmTest pid stat => exact iff_of_true (fun k hk => absurd hk List.not_mem_nil) trivial
  | remove pid => exact removeIndices_lt_iff hlen

/-- All indices of the step are in the array. -/
def Session.InArray (s : Session) (step : SessionStep) : Prop := ∀ k ∈ s.indices step, 0 ≤ k ∧ k < maxPids

/-- The next step of the tracer, if it is its turn, has room. -/
def Session.HasRoom (s : Session) : SessionStep → Prop
  | .proceed => ∀ next ∈ s.todo.head?, next.HasRoom s.pv
  | .take _ | .monitor _ => True

/-- **The indices of one step are in the array exactly if there is room.** -/
theorem Session.inArray_iff (step : SessionStep) (hlen : s.pv.length ≤ maxPids) :
    s.InArray step ↔ s.HasRoom step := by
  unfold Session.InArray Session.indices Session.HasRoom
  cases step with
  | take event => exact iff_of_true (fun k hk => absurd hk List.not_mem_nil) trivial
  | proceed =>
    cases htodo : s.todo with
    | nil => simp
    | cons next todo =>
      simp only [List.head?_cons, Option.mem_def, Option.some.injEq, forall_eq']
      exact next.indices_iff hlen
  | monitor stat =>
    refine iff_of_true ?_ trivial
    cases s.phase with
    | sweeping => exact ((TracerStep.sweep stat).indices_iff hlen).2 trivial
    | waiting | testing | closing | done => exact fun k hk => absurd hk List.not_mem_nil

/-! ## The length of the list -/

theorem length_sweepLoop_le {n i : ℕ} (st : PidState) : (sweepLoop stat n i st).pv.length ≤ st.pv.length := by
  induction n generalizing i st with
  | zero => exact Nat.le_refl _
  | succ n ih =>
    unfold sweepLoop
    cases st.pv[i]? with
    | none => exact Nat.le_refl _
    | some q =>
      simp only
      cases stat q with
      | none => exact (ih _).trans (length_swapRemove_le st.pv i)
      | some rss => exact ih _

/-- A sweep over live processes changes nothing. -/
theorem sweepLoop_pv_of_live {n i : ℕ} (st : PidState) (hlive : ∀ q, stat q ≠ none) :
    (sweepLoop stat n i st).pv = st.pv := by
  induction n generalizing i st with
  | zero => rfl
  | succ n ih =>
    unfold sweepLoop
    cases st.pv[i]? with
    | none => rfl
    | some q =>
      simp only
      cases hstat : stat q with
      | none => exact absurd hstat (hlive q)
      | some rss => exact ih _

theorem Session.write_pv (s : Session) (records : List LogRecord) : (s.write records).pv = s.pv := by
  unfold Session.write
  split_ifs <;> rfl

theorem Session.length_sweep_le (s : Session) (stat : ProcStat) : (s.sweep stat).pv.length ≤ s.pv.length :=
  length_sweepLoop_le { pv := s.pv }

theorem Session.take_pv {event : TracerEvent} (h : s.take event = some s') : s'.pv = s.pv := by
  unfold Session.take at h
  split at h
  · cases h
  · cases event <;> simp only at h <;> split at h <;> cases h <;> rfl

theorem Session.length_proceed_le (h : s.proceed = some s') (hlen : s.pv.length ≤ maxPids) :
    s'.pv.length ≤ maxPids := by
  unfold Session.proceed at h
  cases htodo : s.todo with
  | nil =>
    rw [htodo] at h
    cases h
  | cons next todo =>
    rw [htodo] at h
    cases next with
    | write r =>
      obtain rfl := Option.some.inj h
      rw [Session.write_pv]
      exact hlen
    | append pid =>
      simp only at h
      split at h
      · cases h
      · obtain rfl := Option.some.inj h
        simp only [List.length_append, List.length_singleton]
        omega
    | sweep stat =>
      obtain rfl := Option.some.inj h
      exact (Session.length_sweep_le { s with todo } stat).trans hlen
    | rmTest pid stat =>
      simp only at h
      split at h <;> obtain rfl := Option.some.inj h <;> exact hlen
    | remove pid =>
      simp only at h
      split at h
      · obtain rfl := Option.some.inj h
        exact (length_swapRemove_le s.pv _).trans hlen
      · obtain rfl := Option.some.inj h
        exact hlen

theorem Session.length_monitor_le (h : s.monitor stat = some s') : s'.pv.length ≤ s.pv.length := by
  unfold Session.monitor at h
  cases hphase : s.phase with
  | waiting | testing =>
    rw [hphase] at h
    simp only at h
    split at h <;> obtain rfl := Option.some.inj h <;> exact Nat.le_refl _
  | sweeping =>
    rw [hphase] at h
    obtain rfl := Option.some.inj h
    exact s.length_sweep_le stat
  | closing =>
    rw [hphase] at h
    obtain rfl := Option.some.inj h
    exact Nat.le_refl _
  | done =>
    rw [hphase] at h
    cases h

theorem Session.length_run_le {pid : ℕ} {steps : List SessionStep} (h : (Session.init pid).run steps = some s) :
    s.pv.length ≤ maxPids := by
  induction steps using List.reverseRecOn generalizing s with
  | nil =>
    obtain rfl := Option.some.inj h
    exact Nat.zero_le _
  | append_singleton steps step ih =>
    obtain ⟨s₁, hrun, hstep⟩ := Session.run_concat h
    have hlen := ih hrun
    cases step with
    | take event => rwa [Session.take_pv hstep]
    | proceed => exact Session.length_proceed_le hstep hlen
    | monitor stat => exact (Session.length_monitor_le hstep).trans hlen

/-! ## Sessions -/

/-- **No step of a session uses an index outside the array exactly if each step has room**: fewer
than `maxPids` processes are listed whenever one is appended, and whenever one that is not listed is
to be removed. -/
theorem pid_array_iff (pid : ℕ) (steps : List SessionStep) :
    EachAfter (fun earlier step => ∀ s, (Session.init pid).run earlier = some s → s.InArray step) steps ↔
      EachAfter (fun earlier step => ∀ s, (Session.init pid).run earlier = some s → s.HasRoom step) steps := by
  constructor
  · intro h earlier step later hsteps s hrun
    exact (s.inArray_iff step (Session.length_run_le hrun)).1 (h earlier step later hsteps s hrun)
  · intro h earlier step later hsteps s hrun
    exact (s.inArray_iff step (Session.length_run_le hrun)).2 (h earlier step later hsteps s hrun)

/-- Every process has an entry in `/proc`. -/
def allLive : ProcStat := fun _ => some 0

/-- The tracer handles one successful `execve`. -/
def execveSteps (pid : ℕ) : List SessionStep := [.take (.execve pid 1 allLive), .proceed, .proceed, .proceed]

theorem Session.run_append (s : Session) (earlier later : List SessionStep) :
    s.run (earlier ++ later) = (s.run earlier).bind fun s' => s'.run later :=
  List.foldlM_append

theorem Session.write_eq (s : Session) (records : List LogRecord) :
    ∃ log late, s.write records = { s with log, late } := by
  unfold Session.write
  split_ifs
  · exact ⟨s.log, s.late ++ records, rfl⟩
  · exact ⟨s.log ++ records, s.late, rfl⟩

/-- Behind the record of an `execve` the process is to be appended. -/
theorem Session.run_execve2 {pid : ℕ} (hrunning : pid ∈ s.running) (htodo : s.todo = []) :
    ∃ s', s.run [.take (.execve pid 1 allLive), .proceed] = some s' ∧ s'.running = s.running ∧
      s'.pv = s.pv ∧ s'.todo = [.append pid, .sweep allLive] := by
  have htake : s.step (.take (.execve pid 1 allLive)) =
      some { s with todo := [.write (.listed (.execve2 pid 1)), .append pid, .sweep allLive] } := by
    simp only [Session.step, Session.take, htodo, TracerEvent.steps, hrunning]
    rfl
  obtain ⟨log, late, hwrite⟩ := Session.write_eq
    { s with todo := [.append pid, .sweep allLive] } [.listed (.execve2 pid 1)]
  refine ⟨{ s with todo := [.append pid, .sweep allLive], log, late }, ?_, rfl, rfl, rfl⟩
  unfold Session.run
  rw [List.foldlM_cons, htake]
  exact congrArg some hwrite

theorem Session.run_append_sweep {pid : ℕ} (htodo : s.todo = [.append pid, .sweep allLive])
    (hlen : s.pv.length < maxPids) :
    ∃ s', s.run [.proceed, .proceed] = some s' ∧ s'.running = s.running ∧ s'.pv = s.pv ++ [pid] ∧ s'.todo = [] := by
  have happend : s.step .proceed = some { s with todo := [.sweep allLive], pv := s.pv ++ [pid] } := by
    simp only [Session.step, Session.proceed, htodo]
    rw [if_neg (by omega)]
  have hlive : (printCurrProv allLive { pv := s.pv ++ [pid] }).pv = s.pv ++ [pid] :=
    sweepLoop_pv_of_live _ fun q => Option.some_ne_none 0
  obtain ⟨log, late, hwrite⟩ := Session.write_eq { s with todo := [], pv := s.pv ++ [pid] }
    ((printCurrProv allLive { pv := s.pv ++ [pid] }).log.map .listed)
  refine ⟨{ s with todo := [], pv := s.pv ++ [pid], log, late }, ?_, rfl, rfl, rfl⟩
  have hsweep : ({ s with todo := [.sweep allLive], pv := s.pv ++ [pid] } : Session).step .proceed =
      some (Session.sweep { s with todo := [], pv := s.pv ++ [pid] } allLive) := rfl
  unfold Session.run
  rw [List.foldlM_cons, happend, Option.bind_eq_bind, Option.bind_some, List.foldlM_cons, hsweep, Session.sweep]
  simp only [hlive, hwrite]
  rfl

/-- A process that executes one program after the other stands in the list once for each. -/
theorem Session.run_execves (pid : ℕ) {n : ℕ} (hn : n ≤ maxPids) :
    ∃ s, (Session.init pid).run (List.replicate n (execveSteps pid)).flatten = some s ∧
      s.running = [pid] ∧ s.pv.length = n ∧ s.todo = [] := by
  induction n with
  | zero => exact ⟨_, rfl, rfl, rfl, rfl⟩
  | succ n ih =>
    obtain ⟨s, hrun, hrunning, hlen, htodo⟩ := ih (by omega)
    have hmem : pid ∈ s.running := by
      rw [hrunning]
      exact List.mem_singleton_self pid
    obtain ⟨s₁, hrun₁, hrunning₁, hpv₁, htodo₁⟩ := Session.run_execve2 hmem htodo
    obtain ⟨s₂, hrun₂, hrunning₂, hpv₂, htodo₂⟩ := Session.run_append_sweep htodo₁ (by rw [hpv₁]; omega)
    have hexecve : s.run (execveSteps pid) = some s₂ := by
      have hsplit : execveSteps pid = [.take (.execve pid 1 allLive), .proceed] ++ [.proceed, .proceed] := rfl
      rw [hsplit, Session.run_append, hrun₁, Option.bind_some, hrun₂]
    refine ⟨s₂, ?_, by rw [hrunning₂, hrunning₁, hrunning], ?_, htodo₂⟩
    · rw [List.replicate_succ', List.flatten_append, List.flatten_singleton, Session.run_append, hrun, Option.bind_some,
        hexecve]
    · rw [hpv₂, hpv₁, List.length_append, hlen, List.length_singleton]

/-- A process that executes a program for the 1001st time is written behind the array. -/
theorem pid_array_overflow :
    ¬ EachAfter (fun earlier step => ∀ s, (Session.init 5).run earlier = some s → s.InArray step)
      (List.replicate (maxPids + 1) (execveSteps 5)).flatten := by
  intro h
  obtain ⟨s, hrun, hrunning, hlen, htodo⟩ := Session.run_execves 5 (Nat.le_refl maxPids)
  have hmem : 5 ∈ s.running := by
    rw [hrunning]
    exact List.mem_singleton_self 5
  obtain ⟨s₁, hrun₁, -, hpv₁, htodo₁⟩ := Session.run_execve2 hmem htodo
  have hin := h ((List.replicate maxPids (execveSteps 5)).flatten ++ [.take (.execve 5 1 allLive), .proceed])
    .proceed [.proceed] (by
      rw [List.replicate_succ', List.flatten_append, List.flatten_singleton, List.append_assoc]
      rfl)
    s₁ (by rw [Session.run_append, hrun, Option.bind_some, hrun₁])
  have hroom : s₁.HasRoom .proceed := (s₁.inArray_iff .proceed (by rw [hpv₁, hlen])).1 hin
  have hlt : s₁.pv.length < maxPids := hroom (.append 5) (by rw [htodo₁]; rfl)
  rw [hpv₁, hlen] at hlt
  exact Nat.lt_irrefl _ hlt

end Ptu
