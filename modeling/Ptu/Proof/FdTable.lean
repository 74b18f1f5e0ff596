import Ptu.Proof.Prov
import Ptu.Spec.FdTable

/-!
# Descriptors in the table of opened files

* `Call.record_ok_iff`: a call that uses the table is recorded exactly if its index is in the table.
* `recordAll_length`: the table keeps its size.
* `fd_table_iff`: **every index is in the table exactly if the traced program closes no descriptor
  outside of it, and is given none**.
-/

namespace Ptu

open History Memory

variable {env : ProvEnv} {c : Call} {calls : List Call} {st st' : ProvState}

/-! ## One call -/

/-- The index is in the table. -/
def InTable (st : ProvState) (i : ℤ) : Prop := 0 ≤ i ∧ i.toNat < st.openedFilePaths.length

theorem openIndex_eq_some {syscall : Syscall} {s : ProvStop} {i : ℤ} :
    openIndex env syscall s = some i ↔ env.provMode = true ∧ 0 ≤ i ∧ s.uRval = i ∧
      ∃ k path, syscall.pathIndex = some k ∧ openedPath env s k = .ok path := by
  unfold openIndex
  cases hk : syscall.pathIndex with
  | none => simp
  | some k =>
    cases hpath : openedPath env s k with
    | error e => simp [hpath]
    | ok path =>
      simp only [hpath, Option.some.injEq]
      by_cases hgo : (env.provMode && decide (0 ≤ s.uRval)) = true
      · rw [if_pos hgo]
        simp only [Bool.and_eq_true, decide_eq_true_eq] at hgo
        constructor
        · intro h
          obtain rfl := Option.some.inj h
          exact ⟨hgo.1, hgo.2, rfl, k, path, rfl, hpath⟩
        · rintro ⟨-, -, rfl, -⟩
          rfl
      · rw [if_neg hgo]
        refine iff_of_false (by simp) ?_
        rintro ⟨hprov, hi, rfl, -⟩
        exact hgo (by simp [hprov, hi])

/-- `print_io_prov` reads the path once more. -/
theorem printIoProv_of_openedPath {s : ProvStop} {k : ℕ} {path : CString} {action : ProvVerb}
    (h : openedPath env s k = .ok path) :
    printIoProv env s (k - 1) action st = .ok { st with log := st.log ++ [⟨st.pid, action, path⟩] } := by
  unfold openedPath at h
  unfold printIoProv
  simp only [h]
  rfl

theorem printOpenProv_eq {syscall : Syscall} {s : ProvStop} {k : ℕ} {path : CString} (hprov : env.provMode = true)
    (hrval : 0 ≤ s.uRval) (hk : syscall.pathIndex = some k) (hpath : openedPath env s k = .ok path) :
    printOpenProv env syscall s st =
      if st.openedFilePaths.length ≤ s.uRval.toNat then .error .segv
      else .ok { st with
        log := st.log ++ [⟨st.pid, openAction (s.uArg k), path⟩]
        openedFilePaths := st.openedFilePaths.set s.uRval.toNat (some path) } := by
  have hgo : (!env.provMode || decide (s.uRval < 0)) = false := by simp [hprov, hrval]
  unfold printOpenProv
  simp only [hk, hpath, hgo, printIoProv_of_openedPath hpath]
  rfl

theorem printCloseProv_segv {s : ProvStop} (hprov : env.provMode = true) (h : ¬ InTable st s.closefd) :
    printCloseProv env s st = .error .segv := by
  unfold printCloseProv
  simp only [hprov, Bool.not_true, Bool.false_eq_true, if_false]
  by_cases hneg : s.closefd < 0
  · simp only [hneg, if_true]
    rfl
  · have hnone : st.openedFilePaths[s.closefd.toNat]? = none :=
      List.getElem?_eq_none_iff.2 (Nat.not_lt.1 fun hlt => h ⟨Int.not_lt.1 hneg, hlt⟩)
    simp only [hneg, if_false, hnone]
    rfl

theorem printCloseProv_inTable {s : ProvStop} (hprov : env.provMode = true) (h : InTable st s.closefd) :
    ∃ st', printCloseProv env s st = .ok st' := by
  obtain ⟨hnonneg, hlt⟩ := h
  unfold printCloseProv
  simp only [hprov, Bool.not_true, Bool.false_eq_true, if_false, Int.not_lt.2 hnonneg, List.getElem?_eq_getElem hlt]
  cases st.openedFilePaths[s.closefd.toNat] with
  | none => exact ⟨st, rfl⟩
  | some openpath => exact ⟨_, rfl⟩

/-- **A call that uses the table is recorded exactly if its index is in the table.** -/
theorem Call.record_ok_iff {i : ℤ} (h : c.tableIndex env = some i) :
    (∃ st', c.record env st = .ok st') ↔ InTable st i := by
  have hopen : openIndex env c.syscall c.stop = some i →
      ((∃ st', printOpenProv env c.syscall c.stop st = .ok st') ↔ InTable st i) := by
    intro hi
    obtain ⟨hprov, hnonneg, rfl, k, path, hk, hpath⟩ := openIndex_eq_some.1 hi
    rw [printOpenProv_eq hprov hnonneg hk hpath]
    constructor
    · rintro ⟨st', hrecord⟩
      split at hrecord
      · cases hrecord
      · exact ⟨hnonneg, by omega⟩
    · rintro ⟨-, hlen⟩
      exact ⟨_, if_neg (by omega)⟩
  unfold Call.tableIndex at h
  unfold Call.record
  cases hc : c.syscall with
  | sysOpen | sysOpenat =>
    rw [hc] at h hopen
    exact hopen h
  | sysCreat | other =>
    rw [hc] at h
    cases h
  | sysClose =>
    rw [hc] at h
    simp only at h ⊢
    split at h
    · rename_i hprov
      obtain rfl := Option.some.inj h
      refine ⟨fun ⟨st', hrecord⟩ => ?_, printCloseProv_inTable hprov⟩
      by_contra hout
      rw [printCloseProv_segv hprov hout] at hrecord
      cases hrecord
    · cases h

/-! ## Runs -/

theorem Call.record_length (h : c.record env st = .ok st') :
    st'.openedFilePaths.length = st.openedFilePaths.length := by
  cases hprov : env.provMode with
  | true =>
    cases Call.record_effect hprov h with
    | opened fd path _ _ _ _ htable => rw [htable, List.length_set]
    | closed entry _ _ _ _ htable => rw [htable]
    | neither _ _ _ htable => rw [htable]
  | false => rw [Call.record_off hprov h]

theorem recordAll_length (h : recordAll env calls st = .ok st') :
    st'.openedFilePaths.length = st.openedFilePaths.length := by
  induction calls using List.reverseRecOn generalizing st' with
  | nil =>
    obtain rfl := Except.ok.inj h
    rfl
  | append_singleton calls c ih =>
    obtain ⟨st₁, h₁, hstep⟩ := recordAll_concat h
    rw [Call.record_length hstep, ih h₁]

/-- **The traced program stays below `limit`**: what it passes to `close`, of which the tracer takes the
lower 32 bits as an `int`, and what it gets from `open` and `openat`, unless the tracer stops at the
path. -/
structure Call.FdBelow (env : ProvEnv) (limit : ℤ) (c : Call) : Prop where
  close : c.syscall = .sysClose → (c.stop.uArg 0).toNat % 2 ^ 32 < 2 ^ 31 ∧ ((c.stop.uArg 0).toNat % 2 ^ 32 : ℕ) < limit
  opened : ∀ k path, c.syscall.pathIndex = some k → openedPath env c.stop k = .ok path → 0 ≤ c.stop.uRval →
    c.stop.uRval < limit

theorem closefd_inRange_iff {s : ProvStop} {limit : ℤ} : (0 ≤ s.closefd ∧ s.closefd < limit) ↔
    (s.uArg 0).toNat % 2 ^ 32 < 2 ^ 31 ∧ ((s.uArg 0).toNat % 2 ^ 32 : ℕ) < limit := by
  have hvalue : s.closefd = if 2 * ((s.uArg 0).toNat % 2 ^ 32) < 2 ^ 32 then (((s.uArg 0).toNat % 2 ^ 32 : ℕ) : ℤ)
      else ((s.uArg 0).toNat % 2 ^ 32 : ℕ) - ((2 ^ 32 : ℕ) : ℤ) := by
    rw [ProvStop.closefd, BitVec.toInt, BitVec.toNat_setWidth]
  rw [hvalue]
  split_ifs with h <;> omega

/-- **The index of a call is below the limit exactly if its descriptor is.** -/
theorem Call.tableIndex_iff {limit : ℤ} (hprov : env.provMode = true) :
    (∀ i ∈ c.tableIndex env, 0 ≤ i ∧ i < limit) ↔ c.FdBelow env limit := by
  have hopen : (∀ i ∈ openIndex env c.syscall c.stop, 0 ≤ i ∧ i < limit) ↔
      ∀ k path, c.syscall.pathIndex = some k → openedPath env c.stop k = .ok path → 0 ≤ c.stop.uRval →
        c.stop.uRval < limit := by
    constructor
    · intro h k path hk hpath hrval
      exact (h _ (openIndex_eq_some.2 ⟨hprov, hrval, rfl, k, path, hk, hpath⟩)).2
    · intro h i hi
      obtain ⟨-, hnonneg, rfl, k, path, hk, hpath⟩ := openIndex_eq_some.1 hi
      exact ⟨hnonneg, h k path hk hpath hnonneg⟩
  unfold Call.tableIndex
  cases hc : c.syscall with
  | sysOpen | sysOpenat =>
    rw [hc] at hopen
    simp only
    rw [hopen]
    exact ⟨fun h => ⟨fun hclose => (by rw [hc] at hclose; cases hclose), hc ▸ h⟩, fun h => hc ▸ h.opened⟩
  | sysCreat | other =>
    refine iff_of_true (fun i hi => by cases hi) ⟨fun hclose => ?_, fun k path hk => ?_⟩
    · rw [hc] at hclose
      cases hclose
    · rw [hc] at hk
      cases hk
  | sysClose =>
    simp only [hprov, if_true, Option.mem_def, Option.some.injEq, forall_eq']
    rw [closefd_inRange_iff]
    refine ⟨fun h => ⟨fun _ => h, fun k path hk => ?_⟩, fun h => h.close hc⟩
    rw [hc] at hk
    cases hk

theorem Call.tableIndex_off (hprov : env.provMode = false) : c.tableIndex env = none := by
  have hopen : openIndex env c.syscall c.stop = none := by
    rw [Option.eq_none_iff_forall_ne_some]
    intro i hi
    have hon := (openIndex_eq_some.1 hi).1
    rw [hprov] at hon
    cases hon
  unfold Call.tableIndex
  cases hc : c.syscall with
  | sysOpen | sysOpenat => rwa [hc] at hopen
  | sysClose => simp only [hprov, Bool.false_eq_true, if_false]
  | sysCreat | other => rfl

/-- **Every index into the table is in the table exactly if the traced program stays below
`max_open_files()`**, at each of its calls that the tracer gets to. -/
theorem fd_table_iff (sysconf : Sysconf) (maxOpen : ℤ) (pid : ℕ) (env : ProvEnv) (calls : List Call) :
    EachAfter (fun earlier c => ∀ st, recordAll env earlier (allocOpenedFilePaths sysconf maxOpen pid) = .ok st →
      ∀ i ∈ c.tableIndex env, (0 ≤ i ∧ i < maxOpenFiles sysconf maxOpen) ∧ InTable st i) calls ↔
    (env.provMode = true → EachAfter (fun earlier c => ∀ st,
      recordAll env earlier (allocOpenedFilePaths sysconf maxOpen pid) = .ok st →
        c.FdBelow env (maxOpenFiles sysconf maxOpen)) calls) := by
  cases hprov : env.provMode with
  | false =>
    refine iff_of_true (fun earlier c later hcalls st hrun i hi => ?_) fun h => (by cases h)
    rw [Call.tableIndex_off hprov] at hi
    cases hi
  | true =>
    constructor
    · intro h _ earlier c later hcalls st hrun
      exact (Call.tableIndex_iff hprov).1 fun i hi => (h earlier c later hcalls st hrun i hi).1
    · intro h earlier c later hcalls st hrun i hi
      have hrange := (Call.tableIndex_iff hprov).2 (h rfl earlier c later hcalls st hrun) i hi
      have hsize : st.openedFilePaths.length = (maxOpenFiles sysconf maxOpen).toNat := by
        rw [recordAll_length hrun, allocOpenedFilePaths, ProvState.init, List.length_replicate]
      exact ⟨hrange, hrange.1, by omega⟩

/-- Two programs under a limit of 1024 descriptors: one closes the descriptor -1, the other one is
given the descriptor 1024 after it has raised its own limit. -/
theorem fd_table_outside :
    recordAll aEnv [closeCall (-1)] (allocOpenedFilePaths ⟨1024, 0⟩ 0 7) = .error .segv ∧
    recordAll aEnv [openCall 1024] (allocOpenedFilePaths ⟨1024, 0⟩ 0 7) = .error .segv ∧
    ∀ c ∈ [closeCall (-1), openCall 1024],
      ¬ EachAfter (fun earlier c => ∀ st, recordAll aEnv earlier (allocOpenedFilePaths ⟨1024, 0⟩ 0 7) = .ok st →
        ∀ i ∈ c.tableIndex aEnv, (0 ≤ i ∧ i < maxOpenFiles ⟨1024, 0⟩ 0) ∧ InTable st i) [c] := by
  have hclose : (closeCall (-1)).tableIndex aEnv = some (-1) := by decide +kernel
  have hopen : (openCall 1024).tableIndex aEnv = some 1024 := by decide +kernel
  have hlimit : maxOpenFiles ⟨1024, 0⟩ 0 = 1024 := rfl
  refine ⟨by decide +kernel, by decide +kernel, fun c hc h => ?_⟩
  have hall := h [] c [] rfl _ rfl
  rcases List.mem_cons.1 hc with rfl | hc
  · exact absurd (hall (-1) hclose).1.1 (by decide)
  · obtain rfl := List.mem_singleton.1 hc
    have hlt := (hall 1024 hopen).1.2
    rw [hlimit] at hlt
    exact absurd hlt (by decide)

end Ptu
