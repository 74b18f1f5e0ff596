import Ptu.Lib.Outcome
import Ptu.Lib.Tally
import Ptu.Spec.Tracer

/-!
# The table of processes is kept in order

`Sound`: what is true of the table between any two reports. Entries in use have different pids and are as many as
`nprocs` says; the leader of a thread is in the table; `nclone_threads` counts the threads of a process exactly, and
`nclone_waiting` and `nchildren` bound what they are to count. The latter is only a bound because an entry is given
out again while its old children still point at it.

* `Sound.alloctcb`, `Sound.dropOne`, `Sound.adoptChild`, `Sound.cloneChild`, `Sound.suspend`, `Sound.resume`: what
  is done to the table keeps it so.
* `droptcb_eq`: what `droptcb` does, which nests at most once.
-/

namespace Ptu

open Outcome

namespace Tracer

variable {t t' : Tracer} {i j k p c : ℕ} {pid : ℤ} {a : Answers} {f : ProcTcb → ProcTcb}

/-! ## One entry and the log -/

@[simp] theorem modify_tcbtab : (t.modify i f).tcbtab k = if k = i then f (t.tcbtab k) else t.tcbtab k := rfl

theorem modify_self : (t.modify i f).tcbtab i = f (t.tcbtab i) := if_pos rfl

theorem modify_of_ne (h : k ≠ i) : (t.modify i f).tcbtab k = t.tcbtab k := if_neg h

@[simp] theorem modify_tcbtabsize : (t.modify i f).tcbtabsize = t.tcbtabsize := rfl

@[simp] theorem modify_nprocs : (t.modify i f).nprocs = t.nprocs := rfl

@[simp] theorem modify_log : (t.modify i f).log = t.log := rfl

@[simp] theorem modify_setOptions : (t.modify i f).setOptions = t.setOptions := rfl

@[simp] theorem modify_exitCode : (t.modify i f).exitCode = t.exitCode := rfl

@[simp] theorem say_tcbtab {e : TraceEvent} : (t.say e).tcbtab = t.tcbtab := rfl

@[simp] theorem say_tcbtabsize {e : TraceEvent} : (t.say e).tcbtabsize = t.tcbtabsize := rfl

@[simp] theorem say_nprocs {e : TraceEvent} : (t.say e).nprocs = t.nprocs := rfl

@[simp] theorem say_setOptions {e : TraceEvent} : (t.say e).setOptions = t.setOptions := rfl

@[simp] theorem request_tcbtab {op : PtraceOp} {sig : ℕ} : (t.request op pid sig).tcbtab = t.tcbtab := rfl

@[simp] theorem request_tcbtabsize {op : PtraceOp} {sig : ℕ} :
    (t.request op pid sig).tcbtabsize = t.tcbtabsize := rfl

@[simp] theorem request_nprocs {op : PtraceOp} {sig : ℕ} : (t.request op pid sig).nprocs = t.nprocs := rfl

@[simp] theorem request_setOptions {op : PtraceOp} {sig : ℕ} :
    (t.request op pid sig).setOptions = t.setOptions := rfl

/-- A field that a change of one entry keeps is the same in the whole table. -/
theorem modify_field {β : Type} (g : ProcTcb → β) (h : ∀ tcp, g (f tcp) = g tcp) :
    g ((t.modify i f).tcbtab k) = g (t.tcbtab k) := by
  rw [modify_tcbtab]
  split_ifs
  · exact h _
  · rfl

/-! ## The invariant -/

/-- What an entry is to the others. -/
structure Links where
  pid : ℤ
  inUse : Bool
  suspended : Bool
  cloneThread : Bool
  currentDir : Bool
  parent : Option ℕ
  nchildren : ℤ
  ncloneThreads : ℤ
  ncloneWaiting : ℤ

end Tracer

def ProcTcb.links (tcp : ProcTcb) : Tracer.Links :=
  ⟨tcp.pid, tcp.inUse, tcp.suspended, tcp.cloneThread, tcp.currentDir, tcp.parent, tcp.nchildren, tcp.ncloneThreads,
    tcp.ncloneWaiting⟩

namespace Tracer

variable {t t' : Tracer} {i j k p c : ℕ} {pid : ℤ} {a : Answers} {f : ProcTcb → ProcTcb}

/-- A thread of the process at `p`. -/
def IsThread (t : Tracer) (p k : ℕ) : Prop := (t.tcbtab k).cloneThread = true ∧ (t.tcbtab k).parent = some p

instance : Decidable (t.IsThread p k) := inferInstanceAs (Decidable (_ ∧ _))

/-- **The table of processes is in order.** -/
structure Sound (t : Tracer) : Prop where
  room : 0 < t.tcbtabsize
  size : ∀ k, (t.tcbtab k).inUse = true → k < t.tcbtabsize
  pid_pos : ∀ k, (t.tcbtab k).inUse = true → 0 < (t.tcbtab k).pid
  pid_inj : ∀ j k, (t.tcbtab j).inUse = true → (t.tcbtab k).inUse = true →
    (t.tcbtab j).pid = (t.tcbtab k).pid → j = k
  /-- nothing is left of a process that has been dropped but its counts -/
  free : ∀ k, (t.tcbtab k).inUse = false →
    (t.tcbtab k).pid = 0 ∧ (t.tcbtab k).cloneThread = false ∧ (t.tcbtab k).parent = none ∧
      (t.tcbtab k).suspended = false
  nprocs : Tally (fun k => (t.tcbtab k).inUse = true) t.nprocs
  /-- a thread belongs to a process that is in the table and is not a thread -/
  leader : ∀ k, (t.tcbtab k).cloneThread = true → ∃ p, (t.tcbtab k).parent = some p ∧
    (t.tcbtab p).inUse = true ∧ (t.tcbtab p).cloneThread = false ∧ (t.tcbtab p).currentDir = true
  /-- a process whose parent has not been heard of is nobody's child yet -/
  unborn : ∀ k, (t.tcbtab k).currentDir = false → (t.tcbtab k).parent = none
  threads : ∀ p, Tally (t.IsThread p) (t.tcbtab p).ncloneThreads
  waiting : ∀ p, ∃ n, Tally (fun k => t.IsThread p k ∧ (t.tcbtab k).suspended = true) n ∧
    n ≤ (t.tcbtab p).ncloneWaiting
  children : ∀ p, ∃ n, Tally (fun k => (t.tcbtab k).parent = some p) n ∧ (t.tcbtab p).nchildren ≤ n

theorem Sound.inUse_of_parent (h : Sound t) (hp : (t.tcbtab k).parent = some p) : (t.tcbtab k).inUse = true := by
  by_contra hfree
  rw [(h.free k (Bool.eq_false_of_not_eq_true hfree)).2.2.1] at hp
  cases hp

theorem Sound.inUse_of_cloneThread (h : Sound t) (hk : (t.tcbtab k).cloneThread = true) :
    (t.tcbtab k).inUse = true := by
  obtain ⟨p, hp, -⟩ := h.leader k hk
  exact h.inUse_of_parent hp

theorem Sound.inUse_iff (h : Sound t) : (t.tcbtab k).inUse = true ↔ (t.tcbtab k).pid ≠ 0 := by
  constructor
  · intro hk
    exact (h.pid_pos k hk).ne'
  · intro hpid
    by_contra hfree
    exact hpid (h.free k (Bool.eq_false_of_not_eq_true hfree)).1

/-- The processes in the table stay the same, and what their entries say about each other is in order again. -/
theorem Sound.relink (h : Sound t) (hsize : t.tcbtabsize ≤ t'.tcbtabsize) (hnprocs : t'.nprocs = t.nprocs)
    (hpid : ∀ k, (t'.tcbtab k).pid = (t.tcbtab k).pid) (huse : ∀ k, (t'.tcbtab k).inUse = (t.tcbtab k).inUse)
    (hfree : ∀ k, (t.tcbtab k).inUse = false →
      (t'.tcbtab k).cloneThread = false ∧ (t'.tcbtab k).parent = none ∧ (t'.tcbtab k).suspended = false)
    (hleader : ∀ k, (t'.tcbtab k).cloneThread = true → ∃ p, (t'.tcbtab k).parent = some p ∧
      (t.tcbtab p).inUse = true ∧ (t'.tcbtab p).cloneThread = false ∧ (t'.tcbtab p).currentDir = true)
    (hunborn : ∀ k, (t'.tcbtab k).currentDir = false → (t'.tcbtab k).parent = none)
    (hthreads : ∀ p, Tally (t'.IsThread p) (t'.tcbtab p).ncloneThreads)
    (hwaiting : ∀ p, ∃ n, Tally (fun k => t'.IsThread p k ∧ (t'.tcbtab k).suspended = true) n ∧
      n ≤ (t'.tcbtab p).ncloneWaiting)
    (hchildren : ∀ p, ∃ n, Tally (fun k => (t'.tcbtab k).parent = some p) n ∧ (t'.tcbtab p).nchildren ≤ n) :
    Sound t' where
  room := lt_of_lt_of_le h.room hsize
  size k hk := lt_of_lt_of_le (h.size k (huse k ▸ hk)) hsize
  pid_pos k hk := by
    rw [hpid]
    exact h.pid_pos k (huse k ▸ hk)
  pid_inj j k hj hk hjk := by
    rw [hpid, hpid] at hjk
    exact h.pid_inj j k (huse j ▸ hj) (huse k ▸ hk) hjk
  free k hk := by
    rw [huse] at hk
    rw [hpid]
    exact ⟨(h.free k hk).1, hfree k hk⟩
  nprocs := by
    rw [hnprocs]
    exact h.nprocs.congr fun k => by rw [huse]
  leader k hk := by
    obtain ⟨p, hp, hpuse, hrest⟩ := hleader k hk
    exact ⟨p, hp, (huse p).trans hpuse, hrest⟩
  unborn := hunborn
  threads := hthreads
  waiting := hwaiting
  children := hchildren

/-- What is not about other processes may change. -/
theorem Sound.of_links (h : Sound t) (hlinks : ∀ k, (t'.tcbtab k).links = (t.tcbtab k).links)
    (hsize : t.tcbtabsize ≤ t'.tcbtabsize) (hnprocs : t'.nprocs = t.nprocs) : Sound t' := by
  have hpid : ∀ k, (t'.tcbtab k).pid = (t.tcbtab k).pid := fun k => congrArg Links.pid (hlinks k)
  have huse : ∀ k, (t'.tcbtab k).inUse = (t.tcbtab k).inUse := fun k => congrArg Links.inUse (hlinks k)
  have hsusp : ∀ k, (t'.tcbtab k).suspended = (t.tcbtab k).suspended := fun k => congrArg Links.suspended (hlinks k)
  have hthr : ∀ k, (t'.tcbtab k).cloneThread = (t.tcbtab k).cloneThread :=
    fun k => congrArg Links.cloneThread (hlinks k)
  have hdir : ∀ k, (t'.tcbtab k).currentDir = (t.tcbtab k).currentDir :=
    fun k => congrArg Links.currentDir (hlinks k)
  have hpar : ∀ k, (t'.tcbtab k).parent = (t.tcbtab k).parent := fun k => congrArg Links.parent (hlinks k)
  have hchild : ∀ k, (t'.tcbtab k).nchildren = (t.tcbtab k).nchildren := fun k => congrArg Links.nchildren (hlinks k)
  have hnthr : ∀ k, (t'.tcbtab k).ncloneThreads = (t.tcbtab k).ncloneThreads :=
    fun k => congrArg Links.ncloneThreads (hlinks k)
  have hnwait : ∀ k, (t'.tcbtab k).ncloneWaiting = (t.tcbtab k).ncloneWaiting :=
    fun k => congrArg Links.ncloneWaiting (hlinks k)
  have hisThread : ∀ p k, t'.IsThread p k ↔ t.IsThread p k := fun p k => by rw [IsThread, hthr, hpar]; rfl
  refine h.relink hsize hnprocs hpid huse ?_ ?_ ?_ ?_ ?_ ?_
  · intro k hk
    rw [hthr, hpar, hsusp]
    exact (h.free k hk).2
  · intro k hk
    obtain ⟨p, hp⟩ := h.leader k (hthr k ▸ hk)
    refine ⟨p, ?_⟩
    rw [hpar, hthr, hdir]
    exact hp
  · intro k hk
    rw [hpar]
    exact h.unborn k (hdir k ▸ hk)
  · intro p
    rw [hnthr]
    exact (h.threads p).congr (hisThread p)
  · intro p
    obtain ⟨n, hn, hle⟩ := h.waiting p
    refine ⟨n, hn.congr fun k => ?_, ?_⟩
    · rw [hisThread, hsusp]
    · rw [hnwait]
      exact hle
  · intro p
    obtain ⟨n, hn, hle⟩ := h.children p
    refine ⟨n, hn.congr fun k => ?_, ?_⟩
    · rw [hpar]
    · rw [hchild]
      exact hle

theorem Sound.modify (h : Sound t) (hf : ∀ tcp, (f tcp).links = tcp.links) : Sound (t.modify i f) :=
  h.of_links (fun _ => modify_field ProcTcb.links hf) le_rfl rfl

theorem Sound.say (h : Sound t) (e : TraceEvent) : Sound (t.say e) := h.of_links (fun _ => rfl) le_rfl rfl

theorem Sound.expandTcbtab (h : Sound t) : Sound t.expandTcbtab :=
  h.of_links (fun _ => rfl) (by simp only [Tracer.expandTcbtab]; omega) rfl

/-! ## Finding an entry -/

theorem Sound.pid2tcb_eq_some (h : Sound t) :
    t.pid2tcb pid = some k ↔ (t.tcbtab k).inUse = true ∧ (t.tcbtab k).pid = pid := by
  unfold pid2tcb
  split_ifs with hpid
  · refine iff_of_false (by simp) ?_
    rintro ⟨hk, rfl⟩
    exact absurd (h.pid_pos k hk) (not_lt.2 hpid)
  · constructor
    · intro hfind
      have hmatch := List.find?_some hfind
      rw [Bool.and_eq_true, beq_iff_eq] at hmatch
      exact ⟨hmatch.2, hmatch.1⟩
    · rintro ⟨hk, rfl⟩
      -- the entry that is found first is the only one with this pid
      cases hfind : (List.range t.tcbtabsize).find? fun j =>
          (t.tcbtab j).pid == (t.tcbtab k).pid && (t.tcbtab j).inUse with
      | none =>
        have hnone := List.find?_eq_none.1 hfind k (List.mem_range.2 (h.size k hk))
        simp [hk] at hnone
      | some j =>
        have hmatch := List.find?_some hfind
        rw [Bool.and_eq_true, beq_iff_eq] at hmatch
        rw [h.pid_inj j k hmatch.2 hk hmatch.1]

theorem Sound.pid2tcb_eq_none (h : Sound t) :
    t.pid2tcb pid = none ↔ ∀ k, (t.tcbtab k).inUse = true → (t.tcbtab k).pid ≠ pid := by
  rw [Option.eq_none_iff_forall_not_mem]
  constructor
  · intro hnone k hk hpid
    exact hnone k (h.pid2tcb_eq_some.2 ⟨hk, hpid⟩)
  · intro hnone k hk
    obtain ⟨huse, hpid⟩ := h.pid2tcb_eq_some.1 hk
    exact hnone k huse hpid

/-! ## A new entry -/

/-- The table in which `alloc_tcb` looks for an entry. -/
def grown (t : Tracer) : Tracer := if t.nprocs = t.tcbtabsize then t.expandTcbtab else t

@[simp] theorem grown_tcbtab : t.grown.tcbtab = t.tcbtab := by
  unfold grown
  split_ifs <;> rfl

@[simp] theorem grown_nprocs : t.grown.nprocs = t.nprocs := by
  unfold grown
  split_ifs <;> rfl

@[simp] theorem grown_log : t.grown.log = t.log := by
  unfold grown
  split_ifs <;> rfl

@[simp] theorem grown_setOptions : t.grown.setOptions = t.setOptions := by
  unfold grown
  split_ifs <;> rfl

theorem Sound.grown (h : Sound t) : Sound t.grown := by
  unfold Tracer.grown
  split_ifs
  · exact h.expandTcbtab
  · exact h

theorem Sound.nprocs_lt (h : Sound t) : t.nprocs < t.grown.tcbtabsize := by
  have hrange : Tally (fun k => k < t.tcbtabsize) (t.tcbtabsize : ℤ) :=
    ⟨Finset.range t.tcbtabsize, fun _ => Finset.mem_range, by rw [Finset.card_range]⟩
  have hle : t.nprocs ≤ t.tcbtabsize := h.nprocs.le hrange h.size
  have hroom := h.room
  unfold Tracer.grown
  split_ifs with hfull
  · simp only [Tracer.expandTcbtab]
    omega
  · omega

theorem Sound.exists_free (h : Sound t) : ∃ k, k < t.grown.tcbtabsize ∧ (t.tcbtab k).inUse = false := by
  have hrange : Tally (fun k => k < t.grown.tcbtabsize) (t.grown.tcbtabsize : ℤ) :=
    ⟨Finset.range _, fun _ => Finset.mem_range, by rw [Finset.card_range]⟩
  obtain ⟨k, hk, hfree⟩ := h.nprocs.exists_of_lt hrange h.nprocs_lt
  exact ⟨k, hk, Bool.eq_false_of_not_eq_true hfree⟩

/-- The table with a new process. -/
def enter (t : Tracer) (c : ℕ) (pid : ℤ) : Tracer :=
  { t.grown.modify c (initTcb pid) with nprocs := t.nprocs + 1 }

@[simp] theorem enter_tcbtab : (t.enter c pid).tcbtab k = if k = c then initTcb pid (t.tcbtab k) else t.tcbtab k := by
  simp only [enter, modify_tcbtab, grown_tcbtab]

@[simp] theorem enter_log : (t.enter c pid).log = t.log := grown_log

/-- `alloc_tcb` always finds an entry, and it is the first one that is free. -/
theorem Sound.alloctcb_eq (h : Sound t) (pid : ℤ) : ∃ c, t.alloctcb pid = .ok (c, t.enter c pid) ∧
    (t.tcbtab c).inUse = false ∧ c < t.grown.tcbtabsize ∧ ∀ k < c, (t.tcbtab k).inUse = true := by
  obtain ⟨k, hk, hfree⟩ := h.exists_free
  have hsome : ((List.range t.grown.tcbtabsize).find? fun i => !(t.grown.tcbtab i).inUse).isSome = true := by
    rw [List.find?_isSome]
    exact ⟨k, List.mem_range.2 hk, by rw [grown_tcbtab, hfree]; rfl⟩
  obtain ⟨c, hc⟩ := Option.isSome_iff_exists.1 hsome
  refine ⟨c, ?_, ?_, List.mem_range.1 (List.mem_of_find?_eq_some hc), fun k hk => ?_⟩
  · have hgrown : (if t.nprocs = t.tcbtabsize then t.expandTcbtab else t) = t.grown := rfl
    simp only [alloctcb, hgrown, hc, grown_nprocs]
    rfl
  · have hnot := List.find?_some hc
    rw [grown_tcbtab, Bool.not_eq_true'] at hnot
    exact hnot
  · have hbefore := (List.find?_range_eq_some.1 hc).2.2 k hk
    rw [grown_tcbtab, Bool.not_not] at hbefore
    exact hbefore

theorem Sound.enter (h : Sound t) (hc : (t.tcbtab c).inUse = false) (hsize : c < t.grown.tcbtabsize) (hpid : 0 < pid)
    (hfresh : ∀ k, (t.tcbtab k).inUse = true → (t.tcbtab k).pid ≠ pid) : Sound (t.enter c pid) := by
  obtain ⟨-, hcthread, hcparent, hcsusp⟩ := h.free c hc
  have hkeep : ∀ k, k ≠ c → (t.enter c pid).tcbtab k = t.tcbtab k := fun k hk => by rw [enter_tcbtab, if_neg hk]
  have hnew : (t.enter c pid).tcbtab c = initTcb pid (t.tcbtab c) := by rw [enter_tcbtab, if_pos rfl]
  have hparent : ∀ k, ((t.enter c pid).tcbtab k).parent = (t.tcbtab k).parent := fun k => by
    by_cases hk : k = c
    · subst hk
      rw [hnew, hcparent]
      rfl
    · rw [hkeep k hk]
  have hthread : ∀ k, ((t.enter c pid).tcbtab k).cloneThread = (t.tcbtab k).cloneThread := fun k => by
    by_cases hk : k = c
    · subst hk
      rw [hnew, hcthread]
      rfl
    · rw [hkeep k hk]
  have hsusp : ∀ k, ((t.enter c pid).tcbtab k).suspended = (t.tcbtab k).suspended := fun k => by
    by_cases hk : k = c
    · subst hk
      rw [hnew, hcsusp]
      rfl
    · rw [hkeep k hk]
  have hisThread : ∀ p k, (t.enter c pid).IsThread p k ↔ t.IsThread p k := fun p k => by
    rw [IsThread, hthread, hparent]
    rfl
  -- the old children of the entry may still point at it, but no thread does
  have hnoThread : ∀ k, ¬ t.IsThread c k := by
    rintro k ⟨hthr, hpar⟩
    obtain ⟨p, hp, huse, -⟩ := h.leader k hthr
    rw [hpar] at hp
    obtain rfl := Option.some.inj hp
    rw [hc] at huse
    cases huse
  have huse : ∀ k, ((t.enter c pid).tcbtab k).inUse = true ↔ k = c ∨ (t.tcbtab k).inUse = true := fun k => by
    by_cases hk : k = c
    · subst hk
      rw [hnew]
      exact iff_of_true rfl (.inl rfl)
    · rw [hkeep k hk]
      simp [hk]
  constructor
  · exact lt_of_le_of_lt (Nat.zero_le c) hsize
  · intro k hk
    rcases (huse k).1 hk with rfl | hk
    · exact hsize
    · exact h.grown.size k (by rw [grown_tcbtab]; exact hk)
  · intro k hk
    by_cases hkc : k = c
    · subst hkc
      rw [hnew]
      exact hpid
    · rw [hkeep k hkc] at hk ⊢
      exact h.pid_pos k hk
  · intro j k hj hk hjk
    by_cases hjc : j = c
    · by_cases hkc : k = c
      · rw [hjc, hkc]
      · rw [hkeep k hkc] at hk hjk
        rw [hjc, hnew] at hjk
        exact absurd hjk.symm (hfresh k hk)
    · rw [hkeep j hjc] at hj hjk
      by_cases hkc : k = c
      · rw [hkc, hnew] at hjk
        exact absurd hjk (hfresh j hj)
      · rw [hkeep k hkc] at hk hjk
        exact h.pid_inj j k hj hk hjk
  · intro k hk
    have hkc : k ≠ c := by
      rintro rfl
      rw [hnew] at hk
      cases hk
    rw [hkeep k hkc] at hk ⊢
    exact h.free k hk
  · exact h.nprocs.add (by rw [hc]; exact Bool.false_ne_true) huse
  · intro k hk
    rw [hthread] at hk
    obtain ⟨p, hp, hpuse, hpthr, hpdir⟩ := h.leader k hk
    have hpc : p ≠ c := by
      rintro rfl
      rw [hc] at hpuse
      cases hpuse
    refine ⟨p, ?_, ?_⟩
    · rw [hparent]
      exact hp
    · rw [hkeep p hpc]
      exact ⟨hpuse, hpthr, hpdir⟩
  · intro k hk
    rw [hparent]
    by_cases hkc : k = c
    · rw [hkc]
      exact hcparent
    · rw [hkeep k hkc] at hk
      exact h.unborn k hk
  · intro p
    by_cases hpc : p = c
    · subst hpc
      rw [hnew]
      exact Tally.zero fun k hk => hnoThread k ((hisThread p k).1 hk)
    · rw [hkeep p hpc]
      exact (h.threads p).congr (hisThread p)
  · intro p
    by_cases hpc : p = c
    · subst hpc
      rw [hnew]
      exact ⟨0, Tally.zero fun k hk => hnoThread k ((hisThread p k).1 hk.1), le_rfl⟩
    · obtain ⟨n, hn, hle⟩ := h.waiting p
      rw [hkeep p hpc]
      exact ⟨n, hn.congr fun k => by rw [hisThread, hsusp], hle⟩
  · intro p
    obtain ⟨n, hn, hle⟩ := h.children p
    refine ⟨n, hn.congr fun k => by rw [hparent], ?_⟩
    by_cases hpc : p = c
    · subst hpc
      rw [hnew]
      exact hn.nonneg
    · rw [hkeep p hpc]
      exact hle

/-! ## Parents and children -/

/-- The process at `c` gets another parent, or its first one. -/
theorem Sound.reparent (h : Sound t) {q : Option ℕ} {n : ℕ → ℤ}
    (hlinks : ∀ k, (t'.tcbtab k).links = { (t.tcbtab k).links with
      parent := if k = c then q else (t.tcbtab k).parent
      currentDir := if k = c then true else (t.tcbtab k).currentDir
      nchildren := n k })
    (hsize : t'.tcbtabsize = t.tcbtabsize) (hnprocs : t'.nprocs = t.nprocs) (hc : (t.tcbtab c).inUse = true)
    (hthread : (t.tcbtab c).cloneThread = false)
    (hn : ∀ p, n p ≤ (t.tcbtab p).nchildren - (if (t.tcbtab c).parent = some p then 1 else 0) +
      (if q = some p then 1 else 0)) : Sound t' := by
  have hpid : ∀ k, (t'.tcbtab k).pid = (t.tcbtab k).pid := fun k => congrArg Links.pid (hlinks k)
  have huse : ∀ k, (t'.tcbtab k).inUse = (t.tcbtab k).inUse := fun k => congrArg Links.inUse (hlinks k)
  have hsusp : ∀ k, (t'.tcbtab k).suspended = (t.tcbtab k).suspended := fun k => congrArg Links.suspended (hlinks k)
  have hthr : ∀ k, (t'.tcbtab k).cloneThread = (t.tcbtab k).cloneThread :=
    fun k => congrArg Links.cloneThread (hlinks k)
  have hdir : ∀ k, (t'.tcbtab k).currentDir = if k = c then true else (t.tcbtab k).currentDir :=
    fun k => congrArg Links.currentDir (hlinks k)
  have hpar : ∀ k, (t'.tcbtab k).parent = if k = c then q else (t.tcbtab k).parent :=
    fun k => congrArg Links.parent (hlinks k)
  have hchild : ∀ k, (t'.tcbtab k).nchildren = n k := fun k => congrArg Links.nchildren (hlinks k)
  have hnthr : ∀ k, (t'.tcbtab k).ncloneThreads = (t.tcbtab k).ncloneThreads :=
    fun k => congrArg Links.ncloneThreads (hlinks k)
  have hnwait : ∀ k, (t'.tcbtab k).ncloneWaiting = (t.tcbtab k).ncloneWaiting :=
    fun k => congrArg Links.ncloneWaiting (hlinks k)
  have hne : ∀ k, (t.tcbtab k).cloneThread = true → k ≠ c := by
    rintro k hk rfl
    rw [hthread] at hk
    cases hk
  have hisThread : ∀ p k, t'.IsThread p k ↔ t.IsThread p k := fun p k => by
    rw [IsThread, hthr, hpar]
    constructor
    · rintro ⟨hk, hp⟩
      rw [if_neg (hne k hk)] at hp
      exact ⟨hk, hp⟩
    · rintro ⟨hk, hp⟩
      rw [if_neg (hne k hk)]
      exact ⟨hk, hp⟩
  refine h.relink hsize.ge hnprocs hpid huse ?_ ?_ ?_ ?_ ?_ ?_
  · intro k hk
    have hkc : k ≠ c := by
      rintro rfl
      rw [hc] at hk
      cases hk
    rw [hthr, hpar, hsusp, if_neg hkc]
    exact (h.free k hk).2
  · intro k hk
    rw [hthr] at hk
    obtain ⟨p, hp, hpuse, hpthr, hpdir⟩ := h.leader k hk
    refine ⟨p, ?_, hpuse, ?_, ?_⟩
    · rw [hpar, if_neg (hne k hk)]
      exact hp
    · rw [hthr]
      exact hpthr
    · rw [hdir]
      split_ifs
      · rfl
      · exact hpdir
  · intro k hk
    rw [hdir] at hk
    rw [hpar]
    split_ifs at hk ⊢ with hkc
    exact h.unborn k hk
  · intro p
    rw [hnthr]
    exact (h.threads p).congr (hisThread p)
  · intro p
    obtain ⟨m, hm, hle⟩ := h.waiting p
    refine ⟨m, hm.congr fun k => ?_, ?_⟩
    · rw [hisThread, hsusp]
    · rw [hnwait]
      exact hle
  · intro p
    obtain ⟨m, hm, hle⟩ := h.children p
    have hupdate := hm.update (Q := fun k => (t'.tcbtab k).parent = some p) (i := c) fun k hk => by
      rw [hpar, if_neg hk]
    refine ⟨_, hupdate, ?_⟩
    have hcpar : (t'.tcbtab c).parent = q := by rw [hpar, if_pos rfl]
    have hbound := hn p
    rw [hchild]
    simp only [hcpar]
    omega

/-- The process at `c` becomes a thread of its parent, which counts it. -/
theorem Sound.becomeThread (h : Sound t)
    (hlinks : ∀ k, (t'.tcbtab k).links = { (t.tcbtab k).links with
      cloneThread := if k = c then true else (t.tcbtab k).cloneThread
      ncloneThreads := if k = p then (t.tcbtab k).ncloneThreads + 1 else (t.tcbtab k).ncloneThreads })
    (hsize : t'.tcbtabsize = t.tcbtabsize) (hnprocs : t'.nprocs = t.nprocs) (hparent : (t.tcbtab c).parent = some p)
    (hthread : (t.tcbtab c).cloneThread = false) (hawake : (t.tcbtab c).suspended = false) (hpc : p ≠ c)
    (hpuse : (t.tcbtab p).inUse = true) (hpthread : (t.tcbtab p).cloneThread = false)
    (hpdir : (t.tcbtab p).currentDir = true) (hnone : ∀ k, ¬ t.IsThread c k) : Sound t' := by
  have hpid : ∀ k, (t'.tcbtab k).pid = (t.tcbtab k).pid := fun k => congrArg Links.pid (hlinks k)
  have huse : ∀ k, (t'.tcbtab k).inUse = (t.tcbtab k).inUse := fun k => congrArg Links.inUse (hlinks k)
  have hsusp : ∀ k, (t'.tcbtab k).suspended = (t.tcbtab k).suspended := fun k => congrArg Links.suspended (hlinks k)
  have hthr : ∀ k, (t'.tcbtab k).cloneThread = if k = c then true else (t.tcbtab k).cloneThread :=
    fun k => congrArg Links.cloneThread (hlinks k)
  have hdir : ∀ k, (t'.tcbtab k).currentDir = (t.tcbtab k).currentDir :=
    fun k => congrArg Links.currentDir (hlinks k)
  have hpar : ∀ k, (t'.tcbtab k).parent = (t.tcbtab k).parent := fun k => congrArg Links.parent (hlinks k)
  have hchild : ∀ k, (t'.tcbtab k).nchildren = (t.tcbtab k).nchildren := fun k => congrArg Links.nchildren (hlinks k)
  have hnthr : ∀ k, (t'.tcbtab k).ncloneThreads =
      if k = p then (t.tcbtab k).ncloneThreads + 1 else (t.tcbtab k).ncloneThreads :=
    fun k => congrArg Links.ncloneThreads (hlinks k)
  have hnwait : ∀ k, (t'.tcbtab k).ncloneWaiting = (t.tcbtab k).ncloneWaiting :=
    fun k => congrArg Links.ncloneWaiting (hlinks k)
  have hcuse : (t.tcbtab c).inUse = true := h.inUse_of_parent hparent
  have hisThread : ∀ q k, t'.IsThread q k ↔ (q = p ∧ k = c) ∨ t.IsThread q k := fun q k => by
    rw [IsThread, IsThread, hthr, hpar]
    by_cases hk : k = c
    · subst hk
      rw [if_pos rfl, hparent, hthread]
      simp [eq_comm]
    · rw [if_neg hk]
      simp [hk]
  refine h.relink hsize.ge hnprocs hpid huse ?_ ?_ ?_ ?_ ?_ ?_
  · intro k hk
    have hkc : k ≠ c := by
      rintro rfl
      rw [hcuse] at hk
      cases hk
    rw [hthr, hpar, hsusp, if_neg hkc]
    exact (h.free k hk).2
  · intro k hk
    rw [hthr] at hk
    by_cases hkc : k = c
    · refine ⟨p, ?_⟩
      rw [hkc, hpar, hthr, hdir, if_neg hpc]
      exact ⟨hparent, hpuse, hpthread, hpdir⟩
    · rw [if_neg hkc] at hk
      obtain ⟨q, hq, hquse, hqthr, hqdir⟩ := h.leader k hk
      have hqc : q ≠ c := by
        rintro rfl
        exact hnone k ⟨hk, hq⟩
      refine ⟨q, ?_⟩
      rw [hpar, hthr, hdir, if_neg hqc]
      exact ⟨hq, hquse, hqthr, hqdir⟩
  · intro k hk
    rw [hpar]
    exact h.unborn k (hdir k ▸ hk)
  · intro q
    rw [hnthr]
    split_ifs with hq
    · subst hq
      exact (h.threads q).add (fun hc => by rw [hc.1] at hthread; cases hthread) fun k => by
        rw [hisThread, and_iff_right rfl]
    · exact (h.threads q).congr fun k => by rw [hisThread]; simp [hq]
  · intro q
    obtain ⟨m, hm, hle⟩ := h.waiting q
    refine ⟨m, hm.congr fun k => ?_, ?_⟩
    · rw [hisThread, hsusp]
      constructor
      · rintro ⟨⟨-, rfl⟩ | hthr', hk⟩
        · rw [hawake] at hk
          cases hk
        · exact ⟨hthr', hk⟩
      · rintro ⟨hthr', hk⟩
        exact ⟨.inr hthr', hk⟩
    · rw [hnwait]
      exact hle
  · intro q
    obtain ⟨m, hm, hle⟩ := h.children q
    refine ⟨m, hm.congr fun k => ?_, ?_⟩
    · rw [hpar]
    · rw [hchild]
      exact hle

/-! ## Suspended processes -/

/-- The process at `c` is suspended or resumed, and its leader counts it. -/
theorem Sound.resuspend (h : Sound t) {b : Bool} {n : ℕ → ℤ}
    (hlinks : ∀ k, (t'.tcbtab k).links = { (t.tcbtab k).links with
      suspended := if k = c then b else (t.tcbtab k).suspended
      ncloneWaiting := n k })
    (hsize : t'.tcbtabsize = t.tcbtabsize) (hnprocs : t'.nprocs = t.nprocs) (hc : (t.tcbtab c).inUse = true)
    (hn : ∀ p, (t.tcbtab p).ncloneWaiting -
        (if t.IsThread p c ∧ (t.tcbtab c).suspended = true then 1 else 0) +
        (if t.IsThread p c ∧ b = true then 1 else 0) ≤ n p) : Sound t' := by
  have hpid : ∀ k, (t'.tcbtab k).pid = (t.tcbtab k).pid := fun k => congrArg Links.pid (hlinks k)
  have huse : ∀ k, (t'.tcbtab k).inUse = (t.tcbtab k).inUse := fun k => congrArg Links.inUse (hlinks k)
  have hsusp : ∀ k, (t'.tcbtab k).suspended = if k = c then b else (t.tcbtab k).suspended :=
    fun k => congrArg Links.suspended (hlinks k)
  have hthr : ∀ k, (t'.tcbtab k).cloneThread = (t.tcbtab k).cloneThread :=
    fun k => congrArg Links.cloneThread (hlinks k)
  have hdir : ∀ k, (t'.tcbtab k).currentDir = (t.tcbtab k).currentDir :=
    fun k => congrArg Links.currentDir (hlinks k)
  have hpar : ∀ k, (t'.tcbtab k).parent = (t.tcbtab k).parent := fun k => congrArg Links.parent (hlinks k)
  have hchild : ∀ k, (t'.tcbtab k).nchildren = (t.tcbtab k).nchildren := fun k => congrArg Links.nchildren (hlinks k)
  have hnthr : ∀ k, (t'.tcbtab k).ncloneThreads = (t.tcbtab k).ncloneThreads :=
    fun k => congrArg Links.ncloneThreads (hlinks k)
  have hnwait : ∀ k, (t'.tcbtab k).ncloneWaiting = n k := fun k => congrArg Links.ncloneWaiting (hlinks k)
  have hisThread : ∀ p k, t'.IsThread p k ↔ t.IsThread p k := fun p k => by rw [IsThread, hthr, hpar]; rfl
  refine h.relink hsize.ge hnprocs hpid huse ?_ ?_ ?_ ?_ ?_ ?_
  · intro k hk
    have hkc : k ≠ c := by
      rintro rfl
      rw [hc] at hk
      cases hk
    rw [hthr, hpar, hsusp, if_neg hkc]
    exact (h.free k hk).2
  · intro k hk
    obtain ⟨p, hp⟩ := h.leader k (hthr k ▸ hk)
    refine ⟨p, ?_⟩
    rw [hpar, hthr, hdir]
    exact hp
  · intro k hk
    rw [hpar]
    exact h.unborn k (hdir k ▸ hk)
  · intro p
    rw [hnthr]
    exact (h.threads p).congr (hisThread p)
  · intro p
    obtain ⟨m, hm, hle⟩ := h.waiting p
    have hupdate := hm.update (Q := fun k => t'.IsThread p k ∧ (t'.tcbtab k).suspended = true) (i := c) fun k hk => by
      rw [hisThread, hsusp, if_neg hk]
    refine ⟨_, hupdate, ?_⟩
    have hcsusp : (t'.tcbtab c).suspended = b := by rw [hsusp, if_pos rfl]
    have hbound := hn p
    rw [hnwait]
    simp only [hcsusp, hisThread]
    refine le_trans ?_ hbound
    split_ifs <;> omega
  · intro p
    obtain ⟨m, hm, hle⟩ := h.children p
    refine ⟨m, hm.congr fun k => ?_, ?_⟩
    · rw [hpar]
    · rw [hchild]
      exact hle

/-! ## Dropping an entry -/

/-- The parent of the process at `i` loses a child. -/
def leaveParent (t : Tracer) (i : ℕ) : Tracer :=
  match (t.tcbtab i).parent with
  | none => t
  | some p => t.modify p (loseChild (t.tcbtab i).cloneThread)

theorem leaveParent_tcbtab : (t.leaveParent i).tcbtab k =
    if (t.tcbtab i).parent = some k then loseChild (t.tcbtab i).cloneThread (t.tcbtab k) else t.tcbtab k := by
  unfold leaveParent
  cases hparent : (t.tcbtab i).parent with
  | none => simp
  | some p =>
    rw [modify_tcbtab]
    simp only [Option.some.injEq, eq_comm]

@[simp] theorem leaveParent_tcbtabsize : (t.leaveParent i).tcbtabsize = t.tcbtabsize := by
  unfold leaveParent
  cases (t.tcbtab i).parent <;> rfl

@[simp] theorem leaveParent_log : (t.leaveParent i).log = t.log := by
  unfold leaveParent
  cases (t.tcbtab i).parent <;> rfl

/-- The table without the process at `i`. -/
def dropOne (t : Tracer) (i : ℕ) : Tracer :=
  { (t.leaveParent i).modify i clearTcb with nprocs := t.nprocs - 1 }

@[simp] theorem dropOne_log : (t.dropOne i).log = t.log := leaveParent_log

theorem dropOne_self : (t.dropOne i).tcbtab i = clearTcb ((t.leaveParent i).tcbtab i) := modify_self

theorem dropOne_of_ne (h : k ≠ i) : (t.dropOne i).tcbtab k = (t.leaveParent i).tcbtab k := modify_of_ne h

/-- A field that `loseChild` keeps. -/
theorem dropOne_field {β : Type} (g : ProcTcb → β) (hg : ∀ b tcp, g (loseChild b tcp) = g tcp) (h : k ≠ i) :
    g ((t.dropOne i).tcbtab k) = g (t.tcbtab k) := by
  rw [dropOne_of_ne h, leaveParent_tcbtab]
  split_ifs
  · exact hg _ _
  · rfl

theorem dropOne_parent : ((t.dropOne i).tcbtab k).parent = if k = i then none else (t.tcbtab k).parent := by
  split_ifs with hk
  · rw [hk, dropOne_self]
    rfl
  · exact dropOne_field ProcTcb.parent (fun _ _ => rfl) hk

theorem dropOne_inUse : ((t.dropOne i).tcbtab k).inUse = if k = i then false else (t.tcbtab k).inUse := by
  split_ifs with hk
  · rw [hk, dropOne_self]
    rfl
  · exact dropOne_field ProcTcb.inUse (fun _ _ => rfl) hk

theorem dropOne_cloneThread :
    ((t.dropOne i).tcbtab k).cloneThread = if k = i then false else (t.tcbtab k).cloneThread := by
  split_ifs with hk
  · rw [hk, dropOne_self]
    rfl
  · exact dropOne_field ProcTcb.cloneThread (fun _ _ => rfl) hk

theorem dropOne_suspended :
    ((t.dropOne i).tcbtab k).suspended = if k = i then false else (t.tcbtab k).suspended := by
  split_ifs with hk
  · rw [hk, dropOne_self]
    rfl
  · exact dropOne_field ProcTcb.suspended (fun _ _ => rfl) hk

theorem dropOne_nchildren : ((t.dropOne i).tcbtab k).nchildren =
    (t.tcbtab k).nchildren - if (t.tcbtab i).parent = some k then 1 else 0 := by
  have hleave : ((t.leaveParent i).tcbtab k).nchildren =
      (t.tcbtab k).nchildren - if (t.tcbtab i).parent = some k then 1 else 0 := by
    rw [leaveParent_tcbtab]
    split_ifs
    · rfl
    · rw [Int.sub_zero]
  rw [← hleave]
  exact modify_field ProcTcb.nchildren fun _ => rfl

theorem dropOne_ncloneThreads : ((t.dropOne i).tcbtab k).ncloneThreads =
    (t.tcbtab k).ncloneThreads - if t.IsThread k i then 1 else 0 := by
  have hleave : ((t.leaveParent i).tcbtab k).ncloneThreads =
      (t.tcbtab k).ncloneThreads - if t.IsThread k i then 1 else 0 := by
    rw [leaveParent_tcbtab]
    by_cases hparent : (t.tcbtab i).parent = some k
    · by_cases hthread : (t.tcbtab i).cloneThread = true
      · rw [if_pos hparent, if_pos ⟨hthread, hparent⟩]
        simp only [loseChild, hthread, if_true]
      · rw [if_pos hparent, if_neg fun h => hthread h.1, Int.sub_zero]
        simp only [loseChild, hthread, if_false, Bool.false_eq_true]
    · rw [if_neg hparent, if_neg fun h => hparent h.2, Int.sub_zero]
  rw [← hleave]
  exact modify_field ProcTcb.ncloneThreads fun _ => rfl

theorem dropOne_ncloneWaiting : ((t.dropOne i).tcbtab k).ncloneWaiting = (t.tcbtab k).ncloneWaiting := by
  have hleave : ((t.leaveParent i).tcbtab k).ncloneWaiting = (t.tcbtab k).ncloneWaiting := by
    rw [leaveParent_tcbtab]
    split_ifs <;> rfl
  rw [← hleave]
  exact modify_field ProcTcb.ncloneWaiting fun _ => rfl

theorem Sound.dropOne (h : Sound t) (hi : (t.tcbtab i).inUse = true) (hlast : (t.tcbtab i).ncloneThreads ≤ 0) :
    Sound (t.dropOne i) := by
  have hnoThread : ∀ k, ¬ t.IsThread i k := fun k hk => absurd ((h.threads i).pos hk) (not_lt.2 hlast)
  have hisThread : ∀ p k, (t.dropOne i).IsThread p k ↔ k ≠ i ∧ t.IsThread p k := fun p k => by
    rw [IsThread, dropOne_cloneThread, dropOne_parent]
    split_ifs with hk
    · simp [hk]
    · simp [hk, IsThread]
  constructor
  · simp only [Tracer.dropOne, modify_tcbtabsize, leaveParent_tcbtabsize]
    exact h.room
  · intro k hk
    rw [dropOne_inUse] at hk
    split_ifs at hk
    simp only [Tracer.dropOne, modify_tcbtabsize, leaveParent_tcbtabsize]
    exact h.size k hk
  · intro k hk
    rw [dropOne_inUse] at hk
    split_ifs at hk with hki
    rw [dropOne_field ProcTcb.pid (fun _ _ => rfl) hki]
    exact h.pid_pos k hk
  · intro j k hj hk hjk
    rw [dropOne_inUse] at hj hk
    split_ifs at hj hk with hji hki
    rw [dropOne_field ProcTcb.pid (fun _ _ => rfl) hji, dropOne_field ProcTcb.pid (fun _ _ => rfl) hki] at hjk
    exact h.pid_inj j k hj hk hjk
  · intro k hk
    rw [dropOne_inUse] at hk
    by_cases hki : k = i
    · rw [hki, dropOne_self]
      exact ⟨rfl, rfl, rfl, rfl⟩
    · rw [if_neg hki] at hk
      rw [dropOne_field ProcTcb.pid (fun _ _ => rfl) hki, dropOne_cloneThread, dropOne_parent, dropOne_suspended,
        if_neg hki, if_neg hki, if_neg hki]
      exact h.free k hk
  · refine h.nprocs.remove hi fun k => ?_
    rw [dropOne_inUse]
    split_ifs with hki
    · simp [hki]
    · simp [hki]
  · intro k hk
    rw [dropOne_cloneThread] at hk
    split_ifs at hk with hki
    obtain ⟨p, hp, hpuse, hpthr, hpdir⟩ := h.leader k hk
    have hpi : p ≠ i := by
      rintro rfl
      exact hnoThread k ⟨hk, hp⟩
    refine ⟨p, ?_⟩
    rw [dropOne_parent, dropOne_inUse, dropOne_cloneThread, dropOne_field ProcTcb.currentDir (fun _ _ => rfl) hpi,
      if_neg hki, if_neg hpi, if_neg hpi]
    exact ⟨hp, hpuse, hpthr, hpdir⟩
  · intro k hk
    rw [dropOne_parent]
    split_ifs with hki
    · rfl
    · rw [dropOne_field ProcTcb.currentDir (fun _ _ => rfl) hki] at hk
      exact h.unborn k hk
  · intro p
    have hupdate := (h.threads p).update (Q := (t.dropOne i).IsThread p) (i := i) fun k hk => by
      rw [hisThread, and_iff_right hk]
    rw [if_neg (c := (t.dropOne i).IsThread p i) fun hthr => ((hisThread p i).1 hthr).1 rfl, Int.add_zero] at hupdate
    rw [dropOne_ncloneThreads]
    exact hupdate
  · intro p
    obtain ⟨n, hn, hle⟩ := h.waiting p
    have hupdate := hn.update (i := i)
      (Q := fun k => (t.dropOne i).IsThread p k ∧ ((t.dropOne i).tcbtab k).suspended = true) fun k hk => by
        rw [hisThread, and_iff_right hk, dropOne_suspended, if_neg hk]
    refine ⟨_, hupdate, ?_⟩
    rw [if_neg (c := (t.dropOne i).IsThread p i ∧ _) fun hthr => ((hisThread p i).1 hthr.1).1 rfl,
      dropOne_ncloneWaiting]
    split_ifs <;> omega
  · intro p
    obtain ⟨n, hn, hle⟩ := h.children p
    have hupdate := hn.update (i := i) (Q := fun k => ((t.dropOne i).tcbtab k).parent = some p) fun k hk => by
      rw [dropOne_parent, if_neg hk]
    refine ⟨_, hupdate, ?_⟩
    rw [dropOne_nchildren, if_neg (c := ((t.dropOne i).tcbtab i).parent = some p)
      (by simp [dropOne_parent])]
    omega

/-- The last thread of a process that has ended takes it along. -/
def lastThreadOf (t : Tracer) (i : ℕ) : Option ℕ :=
  match groupLeader (t.tcbtab i) with
  | none => none
  | some p => if (t.tcbtab p).ncloneThreads = 1 ∧ (t.tcbtab p).exiting then some p else none

theorem lastThreadOf_eq_some : t.lastThreadOf i = some p ↔
    t.IsThread p i ∧ (t.tcbtab p).ncloneThreads = 1 ∧ (t.tcbtab p).exiting = true := by
  unfold lastThreadOf groupLeader IsThread
  by_cases hthread : (t.tcbtab i).cloneThread = true
  · rw [if_pos hthread]
    cases hparent : (t.tcbtab i).parent with
    | none => simp
    | some q =>
      simp only [hthread, Option.some.injEq, true_and]
      split_ifs with hlast
      · constructor
        · intro hq
          obtain rfl := Option.some.inj hq
          exact ⟨rfl, hlast⟩
        · rintro ⟨rfl, -⟩
          rfl
      · refine iff_of_false (by simp) ?_
        rintro ⟨rfl, hp⟩
        exact hlast hp
  · rw [if_neg hthread]
    simp [hthread]

theorem ext_of (htcbtab : ∀ k, t.tcbtab k = t'.tcbtab k) (hsize : t.tcbtabsize = t'.tcbtabsize)
    (hnprocs : t.nprocs = t'.nprocs) (hoptions : t.setOptions = t'.setOptions) (hcode : t.exitCode = t'.exitCode)
    (hlog : t.log = t'.log) : t = t' := by
  cases t
  cases t'
  obtain rfl := funext htcbtab
  cases hsize
  cases hnprocs
  cases hoptions
  cases hcode
  cases hlog
  rfl

/-- The table while `droptcb` works on the entry at `i`. -/
def leaving (t : Tracer) (i : ℕ) : Tracer :=
  { t.modify i (fun tcp => { tcp with pid := 0 }) with nprocs := t.nprocs - 1 }

/-- What `droptcb` does when it does not nest. -/
theorem leaving_dropOne : ((t.leaving i).leaveParent i).modify i clearTcb = t.dropOne i := by
  refine ext_of (fun k => ?_) ?_ ?_ ?_ ?_ ?_
  · rw [dropOne, modify_tcbtab, leaveParent_tcbtab]
    simp only [leaving, modify_tcbtab, leaveParent_tcbtab, if_true]
    split_ifs <;> rfl
  all_goals
    unfold dropOne leaveParent leaving
    cases hparent : (t.tcbtab i).parent <;> simp [hparent]

theorem leaving_field {β : Type} (g : ProcTcb → β) (hg : ∀ tcp : ProcTcb, g { tcp with pid := 0 } = g tcp) :
    g ((t.leaving i).tcbtab k) = g (t.tcbtab k) :=
  modify_field (t := t) (i := i) g hg

theorem leaving_parent : ((t.leaving i).tcbtab k).parent = (t.tcbtab k).parent :=
  leaving_field ProcTcb.parent fun _ => rfl

theorem leaving_cloneThread : ((t.leaving i).tcbtab k).cloneThread = (t.tcbtab k).cloneThread :=
  leaving_field ProcTcb.cloneThread fun _ => rfl

/-- `droptcb` nests for the last thread of a process that has ended. -/
theorem droptcbNested_succ (fuel : ℕ) (hpid : (t.tcbtab i).pid ≠ 0) (hlast : (t.tcbtab i).ncloneThreads ≤ 0) :
    droptcbNested (fuel + 1) i t =
      ((t.lastThreadOf i).elim ((t.leaving i).leaveParent i)
        fun p => droptcbNested fuel p ((t.leaving i).leaveParent i)).modify i clearTcb := by
  rw [droptcbNested, if_neg hpid, if_neg (not_lt.2 hlast)]
  cases hparent : (t.tcbtab i).parent with
  | none =>
    have hleave : (t.leaving i).leaveParent i = t.leaving i := by rw [leaveParent, leaving_parent, hparent]
    have hnone : t.lastThreadOf i = none := by
      rw [Option.eq_none_iff_forall_not_mem]
      intro p hp
      obtain ⟨⟨-, hp⟩, -⟩ := lastThreadOf_eq_some.1 hp
      rw [hparent] at hp
      cases hp
    rw [hnone, hleave]
    rfl
  | some p =>
    have hleave : (t.leaving i).leaveParent i = (t.leaving i).modify p (loseChild (t.tcbtab i).cloneThread) := by
      rw [leaveParent, leaving_parent, leaving_cloneThread, hparent]
    have hthreads : (((t.leaving i).modify p (loseChild (t.tcbtab i).cloneThread)).tcbtab p).ncloneThreads =
        if (t.tcbtab i).cloneThread then (t.tcbtab p).ncloneThreads - 1 else (t.tcbtab p).ncloneThreads := by
      rw [modify_self]
      simp only [loseChild, leaving_field ProcTcb.ncloneThreads fun _ => rfl]
    have hexiting : (((t.leaving i).modify p (loseChild (t.tcbtab i).cloneThread)).tcbtab p).exiting =
        (t.tcbtab p).exiting := by
      rw [modify_self]
      exact leaving_field ProcTcb.exiting fun _ => rfl
    rw [hleave]
    simp only
    rw [← leaving, hthreads, hexiting]
    cases hzombie : t.lastThreadOf i with
    | none =>
      have hcond : ((t.tcbtab i).cloneThread && (if (t.tcbtab i).cloneThread then (t.tcbtab p).ncloneThreads - 1
          else (t.tcbtab p).ncloneThreads) == 0 && (t.tcbtab p).exiting) = false := by
        rw [Bool.eq_false_iff]
        intro hcond
        rw [Bool.and_eq_true, Bool.and_eq_true, beq_iff_eq] at hcond
        obtain ⟨⟨hthread, hcount⟩, hexit⟩ := hcond
        rw [if_pos hthread] at hcount
        have hsome : t.lastThreadOf i = some p :=
          lastThreadOf_eq_some.2 ⟨⟨hthread, hparent⟩, by omega, hexit⟩
        rw [hzombie] at hsome
        cases hsome
      rw [hcond]
      rfl
    | some q =>
      obtain ⟨⟨hthread, hq⟩, hcount, hexit⟩ := lastThreadOf_eq_some.1 hzombie
      rw [hparent] at hq
      obtain rfl := Option.some.inj hq
      simp only [hthread, hcount, hexit, if_true, Int.sub_self, beq_self_eq_true, Bool.and_self, Option.elim_some]

theorem dropOne_modify_clearTcb (hpi : p ≠ i) :
    (t.dropOne p).modify i clearTcb = (t.modify i clearTcb).dropOne p := by
  have hp : (t.modify i clearTcb).tcbtab p = t.tcbtab p := modify_of_ne hpi
  refine ext_of (fun k => ?_) ?_ ?_ ?_ ?_ ?_
  · simp only [dropOne, modify_tcbtab, leaveParent_tcbtab, if_neg hpi]
    split_ifs <;> rfl
  all_goals
    simp only [dropOne, leaveParent, hp]
    cases (t.tcbtab p).parent <;> rfl

/-- **What `droptcb` does.** A process that has threads left stays as a zombie, and the last thread of such a
process takes it along. -/
theorem Sound.droptcb_eq (h : Sound t) (hi : (t.tcbtab i).inUse = true) :
    t.droptcb i = if 0 < (t.tcbtab i).ncloneThreads then t.modify i fun tcp => { tcp with exiting := true }
      else (t.lastThreadOf i).elim (t.dropOne i) fun p => (t.dropOne i).dropOne p := by
  have hpid : (t.tcbtab i).pid ≠ 0 := h.inUse_iff.1 hi
  obtain ⟨n, hn⟩ := Nat.exists_eq_succ_of_ne_zero h.room.ne'
  rw [droptcb, hn]
  split_ifs with hthreads
  · rw [droptcbNested, if_neg hpid, if_pos hthreads]
  · rw [droptcbNested_succ _ hpid (not_lt.1 hthreads)]
    cases hzombie : t.lastThreadOf i with
    | none => exact leaving_dropOne
    | some p =>
      obtain ⟨hthread, hcount, -⟩ := lastThreadOf_eq_some.1 hzombie
      obtain ⟨q, hq, hpuse, hpthread, -⟩ := h.leader i hthread.1
      rw [hthread.2] at hq
      obtain rfl := Option.some.inj hq
      have hpi : p ≠ i := by
        rintro rfl
        rw [hthread.1] at hpthread
        cases hpthread
      have hzombie' : ((t.leaving i).leaveParent i).tcbtab p = loseChild true (t.tcbtab p) := by
        rw [leaveParent_tcbtab, leaving_parent, if_pos hthread.2, leaving_cloneThread, hthread.1]
        simp only [leaving, modify_of_ne hpi]
      -- the process is not a thread itself, so the nested call does not nest
      have hnone : ((t.leaving i).leaveParent i).lastThreadOf p = none := by
        rw [lastThreadOf, groupLeader, hzombie']
        simp only [loseChild, hpthread, Bool.false_eq_true, if_false]
      simp only [Option.elim_some]
      rw [droptcbNested_succ, hnone, Option.elim_none, leaving_dropOne, dropOne_modify_clearTcb hpi, leaving_dropOne]
      · rw [hzombie']
        exact h.inUse_iff.1 hpuse
      · rw [hzombie']
        simp only [loseChild, if_true]
        omega

end Tracer

end Ptu
