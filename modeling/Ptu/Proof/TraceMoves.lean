import Mathlib.Logic.Relation
import Ptu.Proof.ProcTable

/-!
# What one pass of the tracer can do

Everything that happens to the table and the log while one report is handled is a sequence of a few kinds of moves
(`Move`). First come those that enter a new process, if the report is of a `fork`; an entry is dropped only after
that, in the closing phase. What every move keeps therefore holds throughout every run.

* `Move.sound`: every move keeps the table in order.
* `Move.was_stopped`: no move leaves a process stopped that was not.
-/

namespace Ptu

open Outcome Relation

/-- An entry but for the two flags that are set by other processes than its own. -/
def ProcTcb.core (tcp : ProcTcb) : ProcTcb := { tcp with bptSet := false, groupExiting := false }

namespace Tracer

variable {t t' : Tracer} {i j k p c : ℕ} {pid : ℤ} {a : Answers} {f : ProcTcb → ProcTcb} {abrupt : Prop}

/-- A new process may be entered, or a process may be dropped. -/
inductive Phase where
  | spawning
  | closing

/-- A move while a report of the process at `i` is handled. Unless it is `abrupt`, there are no threads, no process
is dropped while its parent waits for it, and what a process waits for is a `pid_t`. -/
inductive Move (i : ℕ) (abrupt : Prop) : Phase → Tracer → Tracer → Prop
  /-- fields of the process itself -/
  | own {ph : Phase} {t : Tracer} (f : ProcTcb → ProcTcb) (hlinks : ∀ tcp, (f tcp).links = tcp.links)
      (hwaitpid : ∀ tcp, (f tcp).waitpid = tcp.waitpid) (hattached : ∀ tcp, (f tcp).attached = tcp.attached) :
      Move i abrupt ph t (t.modify i f)
  | mark {ph : Phase} {t : Tracer} (k : ℕ) (f : ProcTcb → ProcTcb) (hcore : ∀ tcp, (f tcp).core = tcp.core) :
      Move i abrupt ph t (t.modify k f)
  /-- the log, if no process is left stopped -/
  | log {ph : Phase} {t : Tracer} (l : List TraceEvent)
      (hstopped : ∀ pid, stoppedIn l pid = true → stoppedIn t.log pid = true)
      (hweird : ∀ child parent, .weird child parent ∈ l → .weird child parent ∈ t.log) :
      Move i abrupt ph t { t with log := l }
  | options {ph : Phase} {t : Tracer} (b : Bool) : Move i abrupt ph t { t with setOptions := b }
  | code {ph : Phase} {t : Tracer} (n : ℕ) : Move i abrupt ph t { t with exitCode := n }
  | expand {t : Tracer} : Move i abrupt .spawning t t.expandTcbtab
  /-- a process is resumed when a child of it ends, or as a thread that waits -/
  | wake {ph : Phase} {t t' : Tracer} (k : ℕ) (hsuspended : (t.tcbtab k).suspended = true)
      (hwhy : (∃ c, (t.tcbtab c).parent = some k) ∨ (t.tcbtab k).cloneThread = true) (h : t.resume k = .ok t') :
      Move i abrupt ph t t'
  /-- a child that has not reported yet -/
  | spawn {t t' : Tracer} (a : Answers) (bpt : Bool) (c : ℕ) (pid : ℤ) (hi : (t.tcbtab i).inUse = true)
      (hc : (t.tcbtab c).inUse = false) (hsize : c < t.grown.tcbtabsize) (hpid : 0 < pid)
      (hfresh : ∀ k, (t.tcbtab k).inUse = true → (t.tcbtab k).pid ≠ pid)
      (h : (t.enter c pid).adoptChild a i c bpt = .ok t') (hfirst : ∀ k < c, (t.tcbtab k).inUse = true) :
      Move i abrupt .spawning t t'
  /-- a child that has reported already and is suspended since then -/
  | newborn {t t' : Tracer} (a : Answers) (bpt : Bool) (c : ℕ) (hi : (t.tcbtab i).inUse = true)
      (hc : (t.tcbtab c).inUse = true) (hsuspended : (t.tcbtab c).suspended = true)
      (h : t.adoptChild a i c bpt = .ok t') : Move i abrupt .spawning t (t'.resumeNewborn a c bpt)
  /-- a child that is not suspended -/
  | announce {t t' : Tracer} (a : Answers) (bpt : Bool) (c : ℕ) (hi : (t.tcbtab i).inUse = true)
      (hc : (t.tcbtab c).inUse = true) (hawake : (t.tcbtab c).suspended = false)
      (h : t.adoptChild a i c bpt = .ok t') : Move i abrupt .spawning t t'
  | weird {t : Tracer} (c : ℕ) (hc : (t.tcbtab c).inUse = true) (hdir : (t.tcbtab c).currentDir = false)
      (hweird : ¬ ((t.tcbtab c).startup = true ∧ (t.tcbtab c).attached = true ∧ (t.tcbtab c).suspended = true)) :
      Move i abrupt .spawning t (t.say (.weird (t.tcbtab c).pid (t.tcbtab i).pid))
  | byLeader {t : Tracer} (c p : ℕ) (habrupt : abrupt) (hp : t.IsThread p i) (hparent : (t.tcbtab c).parent = some i)
      (hthread : (t.tcbtab c).cloneThread = false) (hci : c ≠ i) : Move i abrupt .spawning t (t.adoptByLeader i c).2
  | byParent {t : Tracer} (q c : ℕ) (hq : (t.tcbtab q).inUse = true) (hparent : (t.tcbtab c).parent = some q)
      (hthread : (t.tcbtab c).cloneThread = false) (hcq : c ≠ q)
      (hawake : abrupt ∨ (t.tcbtab q).suspended = false) : Move i abrupt .spawning t (t.adoptByParent q c)
  | thread {t : Tracer} (p c : ℕ) (habrupt : abrupt) (hparent : (t.tcbtab c).parent = some p)
      (hthread : (t.tcbtab c).cloneThread = false) (hawake : (t.tcbtab c).suspended = false) (hpc : p ≠ c)
      (hpuse : (t.tcbtab p).inUse = true) (hpthread : (t.tcbtab p).cloneThread = false)
      (hpdir : (t.tcbtab p).currentDir = true) (hnone : ∀ k, ¬ t.IsThread c k) :
      Move i abrupt .spawning t ((t.modify c fun tcp => { tcp with cloneThread := true }).modify p
        fun tcp => { tcp with ncloneThreads := tcp.ncloneThreads + 1 })
  /-- the process waits for its children -/
  | suspend {t : Tracer} (w : ℕ) (hw : t.waiter i = .ok w)
      (hkids : (t.tcbtab w).ncloneThreads < (t.tcbtab w).nchildren) (hblock : t.mustBlock i w = true)
      (hi : (t.tcbtab i).inUse = true)
      (harg : abrupt ∨ (((t.tcbtab i).uArg 0).toInt ≤ 0 → ((t.tcbtab i).uArg 0).toCInt ≤ 0)) :
      Move i abrupt .spawning t (t.suspend i)
  /-- a process that has threads left ends -/
  | zombie {t : Tracer} (k : ℕ) (hthreads : 0 < (t.tcbtab k).ncloneThreads)
      (hstopped : k = i ∨ stoppedIn t.log (t.tcbtab k).pid = false) :
      Move i abrupt .closing t (t.modify k fun tcp => { tcp with exiting := true })
  | drop {t : Tracer} (k : ℕ) (hk : (t.tcbtab k).inUse = true) (hlast : (t.tcbtab k).ncloneThreads ≤ 0)
      (hstopped : k = i ∨ (t.tcbtab k).exiting = true ∨ stoppedIn t.log (t.tcbtab k).pid = false)
      (hparent : abrupt ∨ ∀ j, (t.tcbtab k).parent = some j → t.parentAwaits k j = false) :
      Move i abrupt .closing t (t.dropOne k)

/-- A sequence of moves of one phase. -/
def Moves (i : ℕ) (abrupt : Prop) (ph : Phase) : Tracer → Tracer → Prop := ReflTransGen (Move i abrupt ph)

/-! ## Every move keeps the table in order -/

/-- A field that is not one of the two flags. -/
theorem field_of_core {β : Type} (g : ProcTcb → β) (hg : ∀ tcp : ProcTcb, g tcp.core = g tcp) {tcp tcp' : ProcTcb}
    (h : tcp'.core = tcp.core) : g tcp' = g tcp := by
  rw [← hg tcp', h, hg]

theorem links_of_core {tcp tcp' : ProcTcb} (h : tcp'.core = tcp.core) : tcp'.links = tcp.links :=
  field_of_core ProcTcb.links (fun _ => rfl) h

theorem Sound.inUse_of_suspended (h : Sound t) (hk : (t.tcbtab k).suspended = true) : (t.tcbtab k).inUse = true := by
  by_contra hfree
  rw [(h.free k (Bool.eq_false_of_not_eq_true hfree)).2.2.2] at hk
  cases hk

/-- The entries after `resume`. -/
def resumed (t : Tracer) (k : ℕ) : Tracer :=
  let awake := t.modify k fun tcp => { tcp with suspended := false }
  (match groupLeader (t.tcbtab k) with
    | none => awake
    | some p => awake.modify p fun q => { q with ncloneWaiting := q.ncloneWaiting - 1 }).request .syscall
      (t.tcbtab k).pid 0

/-- A thread has a parent, so `resume` never goes through NULL. -/
theorem Sound.resume_eq (h : Sound t) (hk : (t.tcbtab k).suspended = true) : t.resume k = .ok (t.resumed k) := by
  unfold resume resumed groupLeader
  by_cases hthread : (t.tcbtab k).cloneThread = true
  · obtain ⟨p, hp, -⟩ := h.leader k hthread
    simp only [hk, hthread, hp, Bool.not_true, Bool.false_eq_true, if_false, if_true]
  · simp only [hk, hthread, Bool.not_true, Bool.false_eq_true, if_false]

theorem resumed_tcbtab (h : Sound t) : (t.resumed k).tcbtab j =
    { t.tcbtab j with
      suspended := if j = k then false else (t.tcbtab j).suspended
      ncloneWaiting := (t.tcbtab j).ncloneWaiting - if t.IsThread j k then 1 else 0 } := by
  unfold resumed groupLeader
  by_cases hthread : (t.tcbtab k).cloneThread = true
  · obtain ⟨p, hp, -, hpthread, -⟩ := h.leader k hthread
    have hpk : p ≠ k := by
      rintro rfl
      rw [hthread] at hpthread
      cases hpthread
    simp only [hthread, hp, if_true, request_tcbtab]
    by_cases hjp : j = p
    · subst hjp
      rw [modify_self, modify_of_ne hpk, if_neg hpk, if_pos ⟨hthread, hp⟩]
    · have hnot : ¬ t.IsThread j k := fun hj => hjp (Option.some.inj (hj.2.symm.trans hp))
      rw [modify_of_ne hjp, if_neg hnot, Int.sub_zero]
      by_cases hjk : j = k
      · rw [hjk, modify_self, if_pos rfl]
      · rw [modify_of_ne hjk, if_neg hjk]
  · have hnot : ¬ t.IsThread j k := fun hj => hthread hj.1
    simp only [hthread, if_false, request_tcbtab, Bool.false_eq_true]
    rw [if_neg hnot, Int.sub_zero]
    by_cases hjk : j = k
    · rw [hjk, modify_self, if_pos rfl]
    · rw [modify_of_ne hjk, if_neg hjk]

theorem resumed_rest : (t.resumed k).tcbtabsize = t.tcbtabsize ∧ (t.resumed k).nprocs = t.nprocs ∧
    (t.resumed k).log = .request .syscall (t.tcbtab k).pid 0 :: t.log := by
  unfold resumed
  cases groupLeader (t.tcbtab k) <;> exact ⟨rfl, rfl, rfl⟩

theorem Sound.resumed (h : Sound t) (hk : (t.tcbtab k).suspended = true) : Sound (t.resumed k) := by
  refine h.resuspend (c := k) (b := false) (n := fun j => (t.tcbtab j).ncloneWaiting - if t.IsThread j k then 1 else 0)
    (fun j => by rw [resumed_tcbtab h]; rfl) resumed_rest.1 resumed_rest.2.1 (h.inUse_of_suspended hk) fun p => ?_
  simp [hk]

theorem suspend_tcbtab (h : Sound t) : (t.suspend i).tcbtab j =
    { t.tcbtab j with
      suspended := if j = i then true else (t.tcbtab j).suspended
      waitpid := if j = i then ((t.tcbtab j).uArg 0).toCInt else (t.tcbtab j).waitpid
      ncloneWaiting := (t.tcbtab j).ncloneWaiting + if t.IsThread j i then 1 else 0 } := by
  unfold suspend groupLeader
  simp only [modify_self]
  by_cases hthread : (t.tcbtab i).cloneThread = true
  · obtain ⟨p, hp, -, hpthread, -⟩ := h.leader i hthread
    have hpi : p ≠ i := by
      rintro rfl
      rw [hthread] at hpthread
      cases hpthread
    simp only [hthread, hp, if_true]
    by_cases hjp : j = p
    · subst hjp
      rw [modify_self, modify_of_ne hpi, if_neg hpi, if_neg hpi, if_pos ⟨hthread, hp⟩]
    · have hnot : ¬ t.IsThread j i := fun hj => hjp (Option.some.inj (hj.2.symm.trans hp))
      rw [modify_of_ne hjp, if_neg hnot, Int.add_zero]
      by_cases hji : j = i
      · rw [hji, modify_self, if_pos rfl, if_pos rfl]
      · rw [modify_of_ne hji, if_neg hji, if_neg hji]
  · have hnot : ¬ t.IsThread j i := fun hj => hthread hj.1
    simp only [hthread, if_false, Bool.false_eq_true]
    rw [if_neg hnot, Int.add_zero]
    by_cases hji : j = i
    · rw [hji, modify_self, if_pos rfl, if_pos rfl]
    · rw [modify_of_ne hji, if_neg hji, if_neg hji]

theorem suspend_rest : (t.suspend i).tcbtabsize = t.tcbtabsize ∧ (t.suspend i).nprocs = t.nprocs ∧
    (t.suspend i).log = t.log := by
  simp only [Tracer.suspend]
  split <;> exact ⟨rfl, rfl, rfl⟩

theorem Sound.suspend (h : Sound t) (hi : (t.tcbtab i).inUse = true) : Sound (t.suspend i) := by
  refine h.resuspend (c := i) (b := true)
    (n := fun j => (t.tcbtab j).ncloneWaiting + if t.IsThread j i then 1 else 0)
    (fun j => by rw [suspend_tcbtab h]; rfl) suspend_rest.1 suspend_rest.2.1 hi fun p => ?_
  simp only [and_true]
  split_ifs <;> omega

theorem clearbpt_core : ((t.clearbpt a i).tcbtab j).core = (t.tcbtab j).core := by
  unfold clearbpt
  split_ifs
  · exact modify_field ProcTcb.core fun _ => rfl
  · rfl

theorem clearbpt_rest : (t.clearbpt a i).tcbtabsize = t.tcbtabsize ∧ (t.clearbpt a i).nprocs = t.nprocs ∧
    (t.clearbpt a i).log = t.log := by
  unfold clearbpt
  split_ifs <;> exact ⟨rfl, rfl, rfl⟩

/-- The entry at `j` when the process at `c` has become a child of the process at `i`. -/
def adopted (i c j : ℕ) (tcp : ProcTcb) : ProcTcb :=
  { tcp with
    attached := if j = c then true else tcp.attached
    parent := if j = c then some i else tcp.parent
    currentDir := if j = c then true else tcp.currentDir
    nchildren := tcp.nchildren + if j = i then 1 else 0 }

/-- What `handle_new_child` does to make a process the child of another one. -/
theorem adoptChild_spec {bpt : Bool} (h : t.adoptChild a i c bpt = .ok t') :
    (t.tcbtab c).currentDir = false ∧ (t.tcbtab i).currentDir = true ∧
    (∀ j, (t'.tcbtab j).core = (adopted i c j (t.tcbtab j)).core) ∧
    t'.tcbtabsize = t.tcbtabsize ∧ t'.nprocs = t.nprocs ∧ t'.log = t.log := by
  obtain ⟨t₁, ht₁, hcore, hsize, hnprocs, hlog⟩ : ∃ t₁, (if bpt then t.clearbpt a i else t) = t₁ ∧
      (∀ j, (t₁.tcbtab j).core = (t.tcbtab j).core) ∧ t₁.tcbtabsize = t.tcbtabsize ∧ t₁.nprocs = t.nprocs ∧
      t₁.log = t.log := by
    refine ⟨_, rfl, ?_⟩
    split_ifs
    · exact ⟨fun _ => clearbpt_core, clearbpt_rest⟩
    · exact ⟨fun _ => rfl, rfl, rfl, rfl⟩
  have hdir : ∀ j, (t₁.tcbtab j).currentDir = (t.tcbtab j).currentDir :=
    fun j => field_of_core ProcTcb.currentDir (fun _ => rfl) (hcore j)
  simp only [adoptChild, ht₁] at h
  obtain ⟨t₂, hinit, hret⟩ := bind_eq_ok.1 h
  obtain rfl := Except.ok.inj hret
  unfold initTcbDir at hinit
  split_ifs at hinit with hc hi
  obtain rfl := Except.ok.inj hinit
  have hcdir : (t.tcbtab c).currentDir = false := by
    rw [modify_self, Bool.not_eq_true] at hc
    rw [← hdir]
    exact hc
  have hidir : (t.tcbtab i).currentDir = true := by
    simp only [modify_tcbtab, apply_ite ProcTcb.currentDir, ite_self, Bool.not_eq_true, Bool.not_eq_false'] at hi
    rw [← hdir]
    exact hi
  have hic : i ≠ c := by
    rintro rfl
    rw [hcdir] at hidir
    cases hidir
  refine ⟨hcdir, hidir, fun j => ?_, hsize, hnprocs, hlog⟩
  have hadopted : (adopted i c j (t.tcbtab j)).core = (adopted i c j (t₁.tcbtab j)).core := by
    have hswap : ∀ tcp, (adopted i c j tcp).core = adopted i c j tcp.core := fun _ => rfl
    rw [hswap, hswap, hcore]
  rw [hadopted, adopted]
  by_cases hjc : j = c
  · subst hjc
    rw [modify_of_ne hic.symm, modify_self, modify_self, if_pos rfl, if_pos rfl, if_pos rfl, if_neg hic.symm,
      Int.add_zero]
    rfl
  · rw [if_neg hjc, if_neg hjc, if_neg hjc]
    by_cases hji : j = i
    · subst hji
      rw [modify_self, modify_of_ne hic, modify_of_ne hic, if_pos rfl]
    · rw [modify_of_ne hji, modify_of_ne hjc, modify_of_ne hjc, if_neg hji, Int.add_zero]

theorem adoptChild_field {β : Type} {bpt : Bool} (g : ProcTcb → β) (hcore : ∀ tcp : ProcTcb, g tcp.core = g tcp)
    (hg : ∀ tcp, g (adopted i c j tcp) = g tcp) (h : t.adoptChild a i c bpt = .ok t') :
    g (t'.tcbtab j) = g (t.tcbtab j) := by
  obtain ⟨-, -, htcbtab, -⟩ := adoptChild_spec h
  rw [field_of_core g hcore (htcbtab j), hg]

/-- A process that has not been made a child of another one is not a thread. -/
theorem Sound.cloneThread_of_unborn (h : Sound t) (hc : (t.tcbtab c).currentDir = false) :
    (t.tcbtab c).cloneThread = false := by
  by_contra hthread
  obtain ⟨p, hp, -⟩ := h.leader c (Bool.eq_true_of_not_eq_false hthread)
  rw [h.unborn c hc] at hp
  cases hp

theorem Sound.adoptChild (h : Sound t) {bpt : Bool} (hc : (t.tcbtab c).inUse = true)
    (ht' : t.adoptChild a i c bpt = .ok t') : Sound t' := by
  obtain ⟨hcdir, -, hcore, hsize, hnprocs, -⟩ := adoptChild_spec ht'
  refine h.reparent (c := c) (q := some i) (n := fun j => (t.tcbtab j).nchildren + if j = i then 1 else 0)
    (fun j => links_of_core (hcore j)) hsize hnprocs hc (h.cloneThread_of_unborn hcdir) fun p => ?_
  rw [h.unborn c hcdir]
  simp [eq_comm]

/-! ## A child that goes on, and its parents -/

theorem resumeNewborn_core {bpt : Bool} : ((t.resumeNewborn a c bpt).tcbtab j).core =
    { (t.tcbtab j).core with
      suspended := if j = c then false else (t.tcbtab j).core.suspended
      startup := if j = c then false else (t.tcbtab j).core.startup } := by
  have hcore : ((if bpt then t.clearbpt a c else t).tcbtab j).core = (t.tcbtab j).core := by
    split_ifs
    · exact clearbpt_core
    · rfl
  rw [← hcore]
  simp only [resumeNewborn, request_tcbtab]
  by_cases hjc : j = c
  · subst hjc
    rw [modify_self, if_pos rfl, if_pos rfl]
    rfl
  · rw [modify_of_ne hjc, if_neg hjc, if_neg hjc]

theorem resumeNewborn_field {β : Type} {bpt : Bool} (g : ProcTcb → β) (hcore : ∀ tcp : ProcTcb, g tcp.core = g tcp)
    (hg : ∀ (tcp : ProcTcb) (s : Bool × Bool), g { tcp with suspended := s.1, startup := s.2 } = g tcp) :
    g ((t.resumeNewborn a c bpt).tcbtab j) = g (t.tcbtab j) := by
  rw [← hcore, resumeNewborn_core, hg _ (_, _), hcore]

theorem resumeNewborn_suspended {bpt : Bool} :
    ((t.resumeNewborn a c bpt).tcbtab j).suspended = if j = c then false else (t.tcbtab j).suspended := by
  have hcore : ((t.resumeNewborn a c bpt).tcbtab j).core.suspended =
      if j = c then false else (t.tcbtab j).core.suspended := by rw [resumeNewborn_core]
  exact hcore

theorem resumeNewborn_startup {bpt : Bool} :
    ((t.resumeNewborn a c bpt).tcbtab j).startup = if j = c then false else (t.tcbtab j).startup := by
  have hcore : ((t.resumeNewborn a c bpt).tcbtab j).core.startup =
      if j = c then false else (t.tcbtab j).core.startup := by rw [resumeNewborn_core]
  exact hcore

theorem resumeNewborn_rest {bpt : Bool} : (t.resumeNewborn a c bpt).tcbtabsize = t.tcbtabsize ∧
    (t.resumeNewborn a c bpt).nprocs = t.nprocs ∧
    (t.resumeNewborn a c bpt).log = .request .syscall (t.tcbtab c).pid 0 :: t.log := by
  have hpid : ((if bpt then t.clearbpt a c else t).tcbtab c).pid = (t.tcbtab c).pid := by
    split_ifs
    · exact field_of_core ProcTcb.pid (fun _ => rfl) clearbpt_core
    · rfl
  simp only [resumeNewborn, request, say, hpid]
  split_ifs
  · exact ⟨clearbpt_rest.1, clearbpt_rest.2.1, congrArg _ clearbpt_rest.2.2⟩
  · exact ⟨rfl, rfl, rfl⟩

theorem Sound.resumeNewborn (h : Sound t) {bpt : Bool} (hc : (t.tcbtab c).inUse = true)
    (hthread : (t.tcbtab c).cloneThread = false) : Sound (t.resumeNewborn a c bpt) := by
  refine h.resuspend (c := c) (b := false) (n := fun j => (t.tcbtab j).ncloneWaiting)
    (fun j => ?_) resumeNewborn_rest.1 resumeNewborn_rest.2.1 hc fun p => ?_
  · have hlinks : ∀ tcp : ProcTcb, tcp.core.links = tcp.links := fun _ => rfl
    rw [← hlinks, resumeNewborn_core]
    rfl
  · have hnot : ¬ t.IsThread p c := fun hp => by
      rw [hp.1] at hthread
      cases hthread
    simp [hnot]

theorem Sound.newborn (h : Sound t) {bpt : Bool} (hc : (t.tcbtab c).inUse = true)
    (ht' : t.adoptChild a i c bpt = .ok t') : Sound (t'.resumeNewborn a c bpt) := by
  obtain ⟨hcdir, -⟩ := adoptChild_spec ht'
  refine (h.adoptChild hc ht').resumeNewborn ?_ ?_
  · rw [adoptChild_field ProcTcb.inUse (fun _ => rfl) (fun _ => rfl) ht']
    exact hc
  · rw [adoptChild_field ProcTcb.cloneThread (fun _ => rfl) (fun _ => rfl) ht']
    exact h.cloneThread_of_unborn hcdir

theorem Sound.dir_of_parent (h : Sound t) (hp : (t.tcbtab c).parent = some p) : (t.tcbtab c).currentDir = true := by
  by_contra hdir
  rw [h.unborn c (Bool.eq_false_of_not_eq_true hdir)] at hp
  cases hp

theorem Sound.leader_ne (h : Sound t) (hp : t.IsThread p i) : p ≠ i := by
  obtain ⟨q, hq, -, hthread, -⟩ := h.leader i hp.1
  rw [hp.2] at hq
  obtain rfl := Option.some.inj hq
  rintro rfl
  rw [hp.1] at hthread
  cases hthread

theorem adoptByLeader_eq (hp : t.IsThread p i) : t.adoptByLeader i c =
    (p, ((t.modify i fun tcp => { tcp with nchildren := tcp.nchildren - 1 }).modify c
      fun tcp => { tcp with parent := some p }).modify p fun tcp => { tcp with nchildren := tcp.nchildren + 1 }) := by
  simp only [adoptByLeader, groupLeader, hp.1, hp.2, if_true]

theorem adoptByLeader_tcbtab (h : Sound t) (hp : t.IsThread p i) (hci : c ≠ i) :
    (t.adoptByLeader i c).2.tcbtab j =
      { t.tcbtab j with
        parent := if j = c then some p else (t.tcbtab j).parent
        nchildren := (t.tcbtab j).nchildren - (if j = i then 1 else 0) + if j = p then 1 else 0 } := by
  have hpi := h.leader_ne hp
  rw [adoptByLeader_eq hp]
  by_cases hjp : j = p
  · subst hjp
    rw [modify_self, if_pos rfl, if_neg hpi, Int.sub_zero]
    by_cases hjc : j = c
    · subst hjc
      rw [modify_self, modify_of_ne hci, if_pos rfl]
    · rw [modify_of_ne hjc, modify_of_ne hpi, if_neg hjc]
  · rw [modify_of_ne hjp, if_neg hjp, Int.add_zero]
    by_cases hjc : j = c
    · subst hjc
      rw [modify_self, modify_of_ne hci, if_pos rfl, if_neg hci, Int.sub_zero]
    · rw [modify_of_ne hjc, if_neg hjc]
      by_cases hji : j = i
      · rw [hji, modify_self, if_pos rfl]
      · rw [modify_of_ne hji, if_neg hji, Int.sub_zero]

theorem Sound.adoptByLeader (h : Sound t) (hp : t.IsThread p i) (hparent : (t.tcbtab c).parent = some i)
    (hthread : (t.tcbtab c).cloneThread = false) (hci : c ≠ i) : Sound (t.adoptByLeader i c).2 := by
  refine h.reparent (c := c) (q := some p)
    (n := fun j => (t.tcbtab j).nchildren - (if j = i then 1 else 0) + if j = p then 1 else 0)
    (fun j => ?_) (by rw [adoptByLeader_eq hp]; rfl) (by rw [adoptByLeader_eq hp]; rfl)
    (h.inUse_of_parent hparent) hthread fun q => ?_
  · have hdir : (if j = c then true else (t.tcbtab j).currentDir) = (t.tcbtab j).currentDir := by
      split_ifs with hjc
      · rw [hjc, h.dir_of_parent hparent]
      · rfl
    rw [adoptByLeader_tcbtab h hp hci, hdir]
    rfl
  · simp [hparent, eq_comm]

theorem adoptByParent_tcbtab {q : ℕ} (hcq : c ≠ q) : (t.adoptByParent q c).tcbtab j =
    { t.tcbtab j with
      parent := if j = c then (t.tcbtab q).parent else (t.tcbtab j).parent
      nchildren := (t.tcbtab j).nchildren - (if j = q then 1 else 0) +
        if (t.tcbtab q).parent = some j then 1 else 0 } := by
  simp only [adoptByParent]
  cases hg : (t.tcbtab q).parent with
  | none =>
    simp only [reduceCtorEq, if_false, Int.add_zero]
    by_cases hjc : j = c
    · subst hjc
      rw [modify_self, modify_of_ne hcq, if_pos rfl, if_neg hcq, Int.sub_zero]
    · rw [modify_of_ne hjc, if_neg hjc]
      by_cases hjq : j = q
      · rw [hjq, modify_self, if_pos rfl]
      · rw [modify_of_ne hjq, if_neg hjq, Int.sub_zero]
  | some g =>
    -- the two changes of the parent are one
    have hinner : ∀ j, (((t.modify q fun tcp => { tcp with nchildren := tcp.nchildren - 1 }).modify c
        fun tcp => { tcp with parent := none }).modify c fun tcp => { tcp with parent := some g }).tcbtab j =
        { t.tcbtab j with
          parent := if j = c then some g else (t.tcbtab j).parent
          nchildren := (t.tcbtab j).nchildren - if j = q then 1 else 0 } := by
      intro j
      by_cases hjc : j = c
      · subst hjc
        rw [modify_self, modify_self, modify_of_ne hcq, if_pos rfl, if_neg hcq, Int.sub_zero]
      · rw [modify_of_ne hjc, modify_of_ne hjc, if_neg hjc]
        by_cases hjq : j = q
        · rw [hjq, modify_self, if_pos rfl]
        · rw [modify_of_ne hjq, if_neg hjq, Int.sub_zero]
    simp only [Option.some.injEq]
    by_cases hjg : j = g
    · subst hjg
      rw [modify_self, hinner, if_pos rfl]
    · rw [modify_of_ne hjg, hinner, if_neg (Ne.symm hjg), Int.add_zero]

theorem adoptByParent_rest {q : ℕ} : (t.adoptByParent q c).tcbtabsize = t.tcbtabsize ∧
    (t.adoptByParent q c).nprocs = t.nprocs ∧ (t.adoptByParent q c).log = t.log := by
  simp only [adoptByParent]
  split <;> exact ⟨rfl, rfl, rfl⟩

theorem Sound.adoptByParent (h : Sound t) {q : ℕ} (hparent : (t.tcbtab c).parent = some q)
    (hthread : (t.tcbtab c).cloneThread = false) (hcq : c ≠ q) : Sound (t.adoptByParent q c) := by
  refine h.reparent (c := c) (q := (t.tcbtab q).parent)
    (n := fun j => (t.tcbtab j).nchildren - (if j = q then 1 else 0) + if (t.tcbtab q).parent = some j then 1 else 0)
    (fun j => ?_) adoptByParent_rest.1 adoptByParent_rest.2.1 (h.inUse_of_parent hparent) hthread fun p => ?_
  · have hdir : (if j = c then true else (t.tcbtab j).currentDir) = (t.tcbtab j).currentDir := by
      split_ifs with hjc
      · rw [hjc, h.dir_of_parent hparent]
      · rfl
    rw [adoptByParent_tcbtab hcq, hdir]
    rfl
  · simp [hparent, eq_comm]

theorem becomeThread_tcbtab (hpc : p ≠ c) : ((t.modify c fun tcp => { tcp with cloneThread := true }).modify p
    fun tcp => { tcp with ncloneThreads := tcp.ncloneThreads + 1 }).tcbtab j =
      { t.tcbtab j with
        cloneThread := if j = c then true else (t.tcbtab j).cloneThread
        ncloneThreads := if j = p then (t.tcbtab j).ncloneThreads + 1 else (t.tcbtab j).ncloneThreads } := by
  by_cases hjp : j = p
  · subst hjp
    rw [modify_self, modify_of_ne hpc, if_neg hpc, if_pos rfl]
  · rw [modify_of_ne hjp, if_neg hjp]
    by_cases hjc : j = c
    · rw [hjc, modify_self, if_pos rfl]
    · rw [modify_of_ne hjc, if_neg hjc]

theorem Sound.born (h : Sound t) (hc : (t.tcbtab c).inUse = false) (hsize : c < t.grown.tcbtabsize) (hpid : 0 < pid)
    (hfresh : ∀ k, (t.tcbtab k).inUse = true → (t.tcbtab k).pid ≠ pid) :
    Sound ((t.enter c pid).modify c fun tcp => { tcp with attached := true, suspended := true }) := by
  have hnew : (t.enter c pid).tcbtab c = initTcb pid (t.tcbtab c) := by rw [enter_tcbtab, if_pos rfl]
  refine (h.enter hc hsize hpid hfresh).resuspend (c := c) (b := true)
    (n := fun j => ((t.enter c pid).tcbtab j).ncloneWaiting) (fun j => ?_) rfl rfl (by rw [hnew]; rfl) fun p => ?_
  · by_cases hjc : j = c
    · rw [hjc, modify_self, if_pos rfl]
      rfl
    · rw [modify_of_ne hjc, if_neg hjc]
      rfl
  · have hnot : ¬ (t.enter c pid).IsThread p c := fun hthread => by
      have hfalse := hthread.1
      rw [hnew] at hfalse
      cases hfalse
    simp [hnot]

/-- **Every move keeps the table in order.** -/
theorem Move.sound {ph : Phase} (h : Sound t) (hm : Move i abrupt ph t t') : Sound t' := by
  cases hm with
  | own f hlinks => exact h.modify hlinks
  | mark k f hcore => exact h.modify fun tcp => links_of_core (hcore tcp)
  | log | options | code => exact h.of_links (fun _ => rfl) le_rfl rfl
  | expand => exact h.expandTcbtab
  | wake k hsuspended hwhy hr =>
    obtain rfl := Except.ok.inj ((h.resume_eq hsuspended).symm.trans hr)
    exact h.resumed hsuspended
  | spawn a bpt c pid hi hc hsize hpid hfresh hadopt =>
    refine (h.enter hc hsize hpid hfresh).adoptChild ?_ hadopt
    rw [enter_tcbtab, if_pos rfl]
    rfl
  | newborn a bpt c hi hc hsuspended hadopt => exact h.newborn hc hadopt
  | announce a bpt c hi hc hawake hadopt => exact h.adoptChild hc hadopt
  | weird c => exact h.say _
  | byLeader c p _ hp hparent hthread hci => exact h.adoptByLeader hp hparent hthread hci
  | byParent q c hq hparent hthread hcq => exact h.adoptByParent hparent hthread hcq
  | thread p c _ hparent hthread hawake hpc hpuse hpthread hpdir hnone =>
    exact h.becomeThread (fun j => by rw [becomeThread_tcbtab hpc]; rfl) rfl rfl hparent hthread hawake hpc hpuse
      hpthread hpdir hnone
  | suspend w hw hkids hblock hi => exact h.suspend hi
  | zombie k => exact h.modify fun _ => rfl
  | drop k hk hlast => exact h.dropOne hk hlast

theorem Moves.sound {ph : Phase} (h : Sound t) (hm : Moves i abrupt ph t t') : Sound t' := by
  induction hm with
  | refl => exact h
  | tail _ hmove ih => exact hmove.sound ih

/-! ## No move leaves a process stopped -/

theorem stoppedIn_request_self {op : PtraceOp} {sig : ℕ} {log : List TraceEvent} (hop : op ≠ .setOptions) :
    stoppedIn (.request op pid sig :: log) pid = false := if_pos ⟨rfl, hop⟩

theorem stoppedIn_of_request {op : PtraceOp} {pid' : ℤ} {sig : ℕ} {log : List TraceEvent}
    (h : stoppedIn (.request op pid' sig :: log) pid = true) : stoppedIn log pid = true := by
  rw [stoppedIn] at h
  split_ifs at h
  exact h

theorem Move.was_stopped {ph : Phase} (hs : Sound t) (hm : Move i abrupt ph t t') (h : stoppedIn t'.log pid = true) :
    stoppedIn t.log pid = true := by
  cases hm with
  | own | mark | options | code | expand | weird | thread | zombie => exact h
  | log l hstopped => exact hstopped pid h
  | wake k hsuspended hwhy hr =>
    obtain rfl := Except.ok.inj ((hs.resume_eq hsuspended).symm.trans hr)
    rw [resumed_rest.2.2] at h
    exact stoppedIn_of_request h
  | spawn a bpt c pid hi hc hsize hpid hfresh hadopt =>
    obtain ⟨-, -, -, -, -, hlog⟩ := adoptChild_spec hadopt
    rwa [hlog, enter_log] at h
  | newborn a bpt c hi hc hsuspended hadopt =>
    obtain ⟨-, -, -, -, -, hlog⟩ := adoptChild_spec hadopt
    rw [resumeNewborn_rest.2.2, hlog] at h
    exact stoppedIn_of_request h
  | announce a bpt c hi hc hawake hadopt =>
    obtain ⟨-, -, -, -, -, hlog⟩ := adoptChild_spec hadopt
    rwa [hlog] at h
  | byLeader c p _ hp =>
    rw [adoptByLeader_eq hp] at h
    exact h
  | byParent q c => rwa [adoptByParent_rest.2.2] at h
  | suspend w => rwa [suspend_rest.2.2] at h
  | drop k => rwa [dropOne_log] at h

theorem Moves.was_stopped {ph : Phase} (hs : Sound t) (hm : Moves i abrupt ph t t') (h : stoppedIn t'.log pid = true) :
    stoppedIn t.log pid = true := by
  induction hm with
  | refl => exact h
  | tail hmoves hmove ih => exact ih (hmove.was_stopped (Moves.sound hs hmoves) h)

theorem Moves.stoppedIn_eq_false {ph : Phase} (hs : Sound t) (hm : Moves i abrupt ph t t')
    (h : stoppedIn t.log pid = false) : stoppedIn t'.log pid = false := by
  by_contra hnot
  rw [hm.was_stopped hs (Bool.eq_true_of_not_eq_false hnot)] at h
  cases h

end Tracer

end Ptu
