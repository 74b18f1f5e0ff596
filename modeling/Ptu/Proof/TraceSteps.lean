import Ptu.Proof.TraceMoves

/-!
# The functions of the tracer as moves

Each function that changes the table is a sequence of moves, and none of them goes through a null pointer.

* `resumeFromTcp_moves`, `droptcb_moves`, `detach_moves`, `handleGroupExit_some_moves`: how a process leaves the table.
* `handleNewChild_moves`, `internalSyscall_moves`: how a process enters it, and how it comes to wait.
-/

namespace Ptu

open Outcome Relation

namespace Tracer

variable {t t' t'' : Tracer} {i j k p c : ℕ} {pid : ℤ} {a : Answers} {f : ProcTcb → ProcTcb} {abrupt : Prop}
  {ph : Phase}
  {E : Fatal → Prop}

/-! ## Processes that are resumed -/

/-- All that has changed is that some processes are not suspended any more. -/
structure Awoken (t t' : Tracer) : Prop where
  tcbtab : ∀ j, ∃ s n, t'.tcbtab j = { t.tcbtab j with suspended := s, ncloneWaiting := n } ∧
    (s = true → (t.tcbtab j).suspended = true)
  tcbtabsize : t'.tcbtabsize = t.tcbtabsize
  log : t.log <:+ t'.log

theorem Awoken.refl : Awoken t t :=
  ⟨fun j => ⟨(t.tcbtab j).suspended, (t.tcbtab j).ncloneWaiting, rfl, id⟩, rfl, List.suffix_rfl⟩

theorem Awoken.trans (h : Awoken t t') (h' : Awoken t' t'') : Awoken t t'' := by
  refine ⟨fun j => ?_, h'.tcbtabsize.trans h.tcbtabsize, h.log.trans h'.log⟩
  obtain ⟨s, n, heq, hs⟩ := h.tcbtab j
  obtain ⟨s', n', heq', hs'⟩ := h'.tcbtab j
  refine ⟨s', n', ?_, fun hs'' => hs ?_⟩
  · rw [heq', heq]
  · have hsusp := hs' hs''
    rw [heq] at hsusp
    exact hsusp

theorem Awoken.field {β : Type} (g : ProcTcb → β)
    (hg : ∀ (tcp : ProcTcb) (s : Bool) (n : ℤ), g { tcp with suspended := s, ncloneWaiting := n } = g tcp)
    (h : Awoken t t') (j : ℕ) : g (t'.tcbtab j) = g (t.tcbtab j) := by
  obtain ⟨s, n, heq, -⟩ := h.tcbtab j
  rw [heq, hg]

theorem Awoken.suspended (h : Awoken t t') (hj : (t.tcbtab j).suspended = false) :
    (t'.tcbtab j).suspended = false := by
  obtain ⟨s, n, heq, hs⟩ := h.tcbtab j
  rw [heq]
  by_contra hnot
  rw [hs (Bool.eq_true_of_not_eq_false hnot)] at hj
  cases hj

theorem Sound.awoken_resumed (h : Sound t) : Awoken t (t.resumed k) := by
  refine ⟨fun j => ⟨_, _, resumed_tcbtab h, ?_⟩, resumed_rest.1, ?_⟩
  · split_ifs
    · simp
    · exact id
  · rw [resumed_rest.2.2]
    exact List.suffix_cons _ _

/-- `resume` does nothing to a process that is not suspended. -/
theorem resume_moves (h : Sound t)
    (hwhy : (∃ c, (t.tcbtab c).parent = some k) ∨ (t.tcbtab k).cloneThread = true) :
    Sat E (fun t' => Moves i abrupt ph t t' ∧ Awoken t t' ∧ (t'.tcbtab k).suspended = false) (t.resume k) := by
  by_cases hk : (t.tcbtab k).suspended = true
  · rw [h.resume_eq hk]
    refine ⟨ReflTransGen.single (.wake k hk hwhy (h.resume_eq hk)), h.awoken_resumed, ?_⟩
    rw [resumed_tcbtab h, if_pos rfl]
  · have hresume : t.resume k = .ok t := by simp only [resume, hk, Bool.not_false, if_true]
    rw [hresume]
    exact ⟨ReflTransGen.refl, Awoken.refl, Bool.eq_false_of_not_eq_true hk⟩

theorem isWaitingThread_iff : t.isWaitingThread i p k = true ↔
    t.IsThread p k ∧ k ≠ i ∧ (t.tcbtab k).suspended = true := by
  simp only [isWaitingThread, Bool.and_eq_true, beq_iff_eq, bne_iff_ne, IsThread]
  tauto

theorem resumeThreads_moves (h : Sound t) (k p : ℕ) (done : Bool) :
    Sat E (fun t' => Moves i abrupt ph t t' ∧ Awoken t t') (t.resumeThreads k p done) := by
  simp only [resumeThreads]
  split_ifs with hcond
  · cases hfind : (List.range t.tcbtabsize).find? _ with
    | none => exact ⟨ReflTransGen.refl, Awoken.refl⟩
    | some j =>
      have hj := List.find?_some hfind
      rw [Bool.and_eq_true, isWaitingThread_iff] at hj
      exact (resume_moves h (.inr hj.1.1.1)).mono fun t' ht' => ⟨ht'.1, ht'.2.1⟩
  · refine Sat.foldlM (I := fun t' => Moves i abrupt ph t t' ∧ Awoken t t') ⟨ReflTransGen.refl, Awoken.refl⟩ ?_
    rintro t₁ j hj ⟨hmoves, hawoken⟩
    have hthread := (List.mem_filter.1 hj).2
    rw [Bool.and_eq_true, isWaitingThread_iff] at hthread
    -- a thread stays one while others are resumed
    have hwhy : (t₁.tcbtab j).cloneThread = true := by
      rw [hawoken.field ProcTcb.cloneThread fun _ _ _ => rfl]
      exact hthread.1.1.1
    refine Sat.mono (resume_moves (Moves.sound h hmoves) (.inr hwhy)) fun t₂ (ht₂ : Moves i abrupt ph _ _ ∧ _ ∧ _) => ?_
    exact ⟨hmoves.trans ht₂.1, hawoken.trans ht₂.2.1⟩

theorem parentAwaits_eq_false (h : (t.tcbtab p).suspended = false) : t.parentAwaits k p = false := by
  rw [parentAwaits, h, Bool.false_and]

theorem Awoken.parentAwaits (h : Awoken t t') (hk : t.parentAwaits k p = false) : t'.parentAwaits k p = false := by
  by_cases hp : (t.tcbtab p).suspended = true
  · rw [Tracer.parentAwaits, hp, Bool.true_and] at hk
    rw [Tracer.parentAwaits, h.field ProcTcb.waitpid (fun _ _ _ => rfl), h.field ProcTcb.pid (fun _ _ _ => rfl), hk,
      Bool.and_false]
  · exact parentAwaits_eq_false (h.suspended (Bool.eq_false_of_not_eq_true hp))

theorem resumeFromTcp_eq (hp : (t.tcbtab k).parent = some p) : t.resumeFromTcp k =
    (if t.parentAwaits k p then t.resume p else .ok t) >>= fun t₁ =>
      if 0 < (t₁.tcbtab p).ncloneWaiting then t₁.resumeThreads k p (t.parentAwaits k p) else .ok t₁ := by
  simp only [resumeFromTcp, hp]
  split_ifs <;> rfl

/-- **`resume_from_tcp` resumes a parent that waits for the process.** -/
theorem resumeFromTcp_moves (h : Sound t) (k : ℕ) :
    Sat E (fun t' => Moves i abrupt ph t t' ∧ Awoken t t' ∧
      ∀ p, (t'.tcbtab k).parent = some p → t'.parentAwaits k p = false) (t.resumeFromTcp k) := by
  cases hparent : (t.tcbtab k).parent with
  | none =>
    simp only [resumeFromTcp, hparent]
    refine ⟨ReflTransGen.refl, Awoken.refl, fun p hp => ?_⟩
    rw [hparent] at hp
    cases hp
  | some p =>
    have hresumed : Sat E (fun t₁ => Moves i abrupt ph t t₁ ∧ Awoken t t₁ ∧ t₁.parentAwaits k p = false)
        (if t.parentAwaits k p then t.resume p else .ok t) := by
      split_ifs with hawaits
      · exact (resume_moves h (.inl ⟨k, hparent⟩)).mono fun t₁ ht₁ => ⟨ht₁.1, ht₁.2.1, parentAwaits_eq_false ht₁.2.2⟩
      · exact ⟨ReflTransGen.refl, Awoken.refl, Bool.eq_false_of_not_eq_true hawaits⟩
    rw [resumeFromTcp_eq hparent]
    refine hresumed.bind fun t₁ ⟨hmoves, hawoken, hawaits⟩ => ?_
    have hpost : Sat E (fun t₂ => Moves i abrupt ph t t₂ ∧ Awoken t t₂ ∧ t₂.parentAwaits k p = false)
        (if 0 < (t₁.tcbtab p).ncloneWaiting then t₁.resumeThreads k p (t.parentAwaits k p) else .ok t₁) := by
      split_ifs with hwaiting
      · exact (resumeThreads_moves (Moves.sound h hmoves) k p _).mono fun t₂ ht₂ =>
          ⟨hmoves.trans ht₂.1, hawoken.trans ht₂.2, ht₂.2.parentAwaits hawaits⟩
      · exact ⟨hmoves, hawoken, hawaits⟩
    refine hpost.mono fun t₂ ⟨hmoves₂, hawoken₂, hawaits₂⟩ => ⟨hmoves₂, hawoken₂, fun q hq => ?_⟩
    rw [hawoken₂.field ProcTcb.parent (fun _ _ _ => rfl), hparent] at hq
    rwa [← Option.some.inj hq]

theorem clearbpt_moves : Moves i abrupt ph t (t.clearbpt a k) := by
  unfold clearbpt
  split_ifs
  · exact ReflTransGen.single (.mark k _ fun _ => rfl)
  · exact ReflTransGen.refl

/-! ## Processes that leave the table -/

def NoThreads (t : Tracer) : Prop := ∀ k, (t.tcbtab k).cloneThread = false

theorem NoThreads.of_field (h : abrupt ∨ NoThreads t)
    (hfield : ∀ k, (t'.tcbtab k).cloneThread = true → (t.tcbtab k).cloneThread = true) : abrupt ∨ NoThreads t' := by
  refine h.imp_right fun hnone k => ?_
  by_contra hthread
  have hk := hfield k (Bool.eq_true_of_not_eq_false hthread)
  rw [hnone k] at hk
  cases hk

theorem Move.noThreads (hs : Sound t) (hm : Move i abrupt ph t t') (h : abrupt ∨ NoThreads t) :
    abrupt ∨ NoThreads t' := by
  cases hm with
  | own f hlinks =>
    refine NoThreads.of_field h fun k hk => ?_
    rwa [modify_field ProcTcb.cloneThread fun tcp => congrArg Links.cloneThread (hlinks tcp)] at hk
  | mark k f hcore =>
    refine NoThreads.of_field h fun k hk => ?_
    rwa [modify_field ProcTcb.cloneThread fun tcp => field_of_core ProcTcb.cloneThread (fun _ => rfl) (hcore tcp)] at hk
  | log | options | code | expand | weird => exact h
  | wake k hsuspended hwhy hr =>
    obtain rfl := Except.ok.inj ((hs.resume_eq hsuspended).symm.trans hr)
    refine NoThreads.of_field h fun k hk => ?_
    rwa [resumed_tcbtab hs] at hk
  | spawn a bpt c pid hi hc hsize hpid hfresh hadopt =>
    refine NoThreads.of_field h fun k hk => ?_
    rw [adoptChild_field ProcTcb.cloneThread (fun _ => rfl) (fun _ => rfl) hadopt, enter_tcbtab] at hk
    split_ifs at hk
    · cases hk
    · exact hk
  | newborn a bpt c hi hc hsuspended hadopt =>
    refine NoThreads.of_field h fun k hk => ?_
    rwa [resumeNewborn_field ProcTcb.cloneThread (fun _ => rfl) (fun _ _ => rfl),
      adoptChild_field ProcTcb.cloneThread (fun _ => rfl) (fun _ => rfl) hadopt] at hk
  | announce a bpt c hi hc hawake hadopt =>
    refine NoThreads.of_field h fun k hk => ?_
    rwa [adoptChild_field ProcTcb.cloneThread (fun _ => rfl) (fun _ => rfl) hadopt] at hk
  | byLeader c p habrupt => exact .inl habrupt
  | byParent q c hq hparent hthread hcq =>
    refine NoThreads.of_field h fun k hk => ?_
    rwa [adoptByParent_tcbtab hcq] at hk
  | thread p c habrupt => exact .inl habrupt
  | suspend w =>
    refine NoThreads.of_field h fun k hk => ?_
    rwa [suspend_tcbtab hs] at hk
  | zombie k =>
    refine NoThreads.of_field h fun k hk => ?_
    simpa only [modify_tcbtab, apply_ite ProcTcb.cloneThread, ite_self] using hk
  | drop k =>
    refine NoThreads.of_field h fun k hk => ?_
    rw [dropOne_cloneThread] at hk
    split_ifs at hk
    exact hk

theorem Moves.noThreads (hs : Sound t) (hm : Moves i abrupt ph t t') (h : abrupt ∨ NoThreads t) :
    abrupt ∨ NoThreads t' := by
  induction hm with
  | refl => exact h
  | tail hmoves hmove ih => exact hmove.noThreads (Moves.sound hs hmoves) ih

theorem abrupt_of_thread (h : abrupt ∨ NoThreads t) (hk : (t.tcbtab k).cloneThread = true) : abrupt := by
  refine h.resolve_right fun hnone => ?_
  rw [hnone k] at hk
  cases hk

theorem droptcb_of_free (hk : (t.tcbtab k).pid = 0) : t.droptcb k = t := by
  rw [droptcb, droptcbNested, if_pos hk]

@[simp] theorem droptcb_log (h : Sound t) : (t.droptcb k).log = t.log := by
  by_cases hk : (t.tcbtab k).inUse = true
  · rw [h.droptcb_eq hk]
    split_ifs
    · rfl
    · cases t.lastThreadOf k with
      | none => exact dropOne_log
      | some p => exact dropOne_log.trans dropOne_log
  · rw [droptcb_of_free (h.free k (Bool.eq_false_of_not_eq_true hk)).1]

/-- **`droptcb` is one or two moves.** -/
theorem droptcb_moves (h : Sound t) (hthreads : abrupt ∨ NoThreads t)
    (hstopped : k = i ∨ stoppedIn t.log (t.tcbtab k).pid = false)
    (hparent : abrupt ∨ ∀ j, (t.tcbtab k).parent = some j → t.parentAwaits k j = false) :
    Moves i abrupt .closing t (t.droptcb k) := by
  by_cases hk : (t.tcbtab k).inUse = true
  · rw [h.droptcb_eq hk]
    split_ifs with hcount
    · exact ReflTransGen.single (.zombie k hcount hstopped)
    · have hdrop : Move i abrupt .closing t (t.dropOne k) :=
        .drop k hk (not_lt.1 hcount) (hstopped.imp_right .inr) hparent
      cases hlast : t.lastThreadOf k with
      | none => exact ReflTransGen.single hdrop
      | some p =>
        -- the leader of the last thread, which has ended before
        obtain ⟨hthread, hone, hexiting⟩ := lastThreadOf_eq_some.1 hlast
        have hpk : p ≠ k := h.leader_ne hthread
        obtain ⟨q, hq, hquse, -⟩ := h.leader k hthread.1
        obtain rfl : p = q := Option.some.inj (hthread.2.symm.trans hq)
        refine (ReflTransGen.single hdrop).tail (.drop p ?_ ?_ (.inr (.inl ?_))
          (.inl (abrupt_of_thread hthreads hthread.1)))
        · rw [dropOne_inUse, if_neg hpk]
          exact hquse
        · rw [dropOne_ncloneThreads, if_pos hthread, hone]
          rfl
        · rw [dropOne_field ProcTcb.exiting (fun _ _ => rfl) hpk]
          exact hexiting
  · rw [droptcb_of_free (h.free k (Bool.eq_false_of_not_eq_true hk)).1]
    exact ReflTransGen.refl

/-- A thread has no threads. -/
theorem Sound.not_pos_of_thread (h : Sound t) (hk : t.IsThread p k) : ¬ 0 < (t.tcbtab k).ncloneThreads := by
  intro hpos
  obtain ⟨j, hj⟩ := (h.threads k).exists_of_pos hpos
  obtain ⟨q, hq, -, hthread, -⟩ := h.leader j hj.1
  rw [← Option.some.inj (hj.2.symm.trans hq), hk.1] at hthread
  cases hthread

/-- The loop of `detach` only talks about its own process and does not leave it stopped. -/
theorem detachWaits_spec (a : Answers) (sig : ℕ) (ws : List WaitStatus) (hpid : stoppedIn t.log pid = false) :
    ∃ l, detachWaits a pid sig ws t = { t with log := l } ∧ t.log <:+ l ∧ stoppedIn l pid = false ∧
      (∀ q, stoppedIn l q = true → stoppedIn t.log q = true) ∧
      ∀ child parent, .weird child parent ∈ l → .weird child parent ∈ t.log := by
  induction ws generalizing t with
  | nil => exact ⟨t.log, rfl, List.suffix_rfl, hpid, fun _ hq => hq, fun _ _ hmem => hmem⟩
  | cons status ws ih =>
    -- a report and a request
    have hround : ∀ op s, op ≠ PtraceOp.setOptions →
        t.log <:+ .request op pid s :: .report pid status :: t.log ∧
        stoppedIn (.request op pid s :: .report pid status :: t.log) pid = false ∧
        (∀ q, stoppedIn (.request op pid s :: .report pid status :: t.log) q = true → stoppedIn t.log q = true) ∧
        ∀ child parent, .weird child parent ∈ TraceEvent.request op pid s :: .report pid status :: t.log →
          .weird child parent ∈ t.log := by
      intro op s hop
      refine ⟨⟨[_, _], rfl⟩, stoppedIn_request_self hop, fun q hq => ?_, fun child parent hmem => by simpa using hmem⟩
      by_cases hqpid : q = pid
      · subst hqpid
        rw [stoppedIn_request_self hop] at hq
        cases hq
      · have hreport := stoppedIn_of_request hq
        rwa [stoppedIn, if_neg (Ne.symm hqpid)] at hreport
    have hend : status.isStop = false → t.log <:+ .report pid status :: t.log ∧
        stoppedIn (.report pid status :: t.log) pid = false ∧
        (∀ q, stoppedIn (.report pid status :: t.log) q = true → stoppedIn t.log q = true) ∧
        ∀ child parent, .weird child parent ∈ TraceEvent.report pid status :: t.log →
          .weird child parent ∈ t.log := by
      intro hstop
      have hself : stoppedIn (.report pid status :: t.log) pid = false := by rw [stoppedIn, if_pos rfl, hstop]
      refine ⟨List.suffix_cons _ _, hself, fun q hq => ?_, fun child parent hmem => by simpa using hmem⟩
      by_cases hqpid : q = pid
      · subst hqpid
        rw [hself] at hq
        cases hq
      · rwa [stoppedIn, if_neg (Ne.symm hqpid)] at hq
    cases status with
    | stopped s event =>
      simp only [detachWaits]
      by_cases hsig : s = sigstop
      · rw [if_pos hsig]
        exact ⟨_, rfl, hround .detach sig (by decide)⟩
      · rw [if_neg hsig]
        obtain ⟨hsuffix, hself, hothers, hweird⟩ := hround .cont (if s = sigtrap then 0 else s) (by decide)
        by_cases hfailed : a.ptrace .cont pid = .failed
        · rw [if_pos hfailed]
          exact ⟨_, rfl, hsuffix, hself, hothers, hweird⟩
        · rw [if_neg hfailed]
          obtain ⟨l, hl, hlsuffix, hlself, hlothers, hlweird⟩ :=
            ih (t := (t.say (.report pid (.stopped s event))).request .cont pid (if s = sigtrap then 0 else s)) hself
          exact ⟨l, hl, hsuffix.trans hlsuffix, hlself, fun q hq => hothers q (hlothers q hq), fun child parent hmem =>
            hweird child parent (hlweird child parent hmem)⟩
    | signaled s => exact ⟨_, rfl, hend rfl⟩
    | exited s => exact ⟨_, rfl, hend rfl⟩
    | other => exact ⟨_, rfl, hend rfl⟩

/-- What `detach` does before it looks at the table. -/
theorem release_moves (a : Answers) (k sig : ℕ) :
    Moves i abrupt ph t (t.release a k sig) ∧ stoppedIn (t.release a k sig).log (t.tcbtab k).pid = false ∧
    (.request .detach (t.tcbtab k).pid sig :: t.log) <:+ (t.release a k sig).log ∧
    ∀ j, ((t.release a k sig).tcbtab j).core = (t.tcbtab j).core := by
  obtain ⟨t₁, ht₁, hmoves₁, hcore₁, hlog₁⟩ : ∃ t₁, (if (t.tcbtab k).bptSet then t.clearbpt a k else t) = t₁ ∧
      Moves i abrupt ph t t₁ ∧ (∀ j, (t₁.tcbtab j).core = (t.tcbtab j).core) ∧ t₁.log = t.log := by
    refine ⟨_, rfl, ?_⟩
    split_ifs
    · exact ⟨clearbpt_moves, fun _ => clearbpt_core, clearbpt_rest.2.2⟩
    · exact ⟨ReflTransGen.refl, fun _ => rfl, rfl⟩
  have hdetach : stoppedIn (t₁.request .detach (t.tcbtab k).pid sig).log (t.tcbtab k).pid = false :=
    stoppedIn_request_self (by decide)
  have hlog : (t₁.request .detach (t.tcbtab k).pid sig).log = .request .detach (t.tcbtab k).pid sig :: t.log :=
    congrArg _ hlog₁
  obtain ⟨l, hl, hsuffix, hself, hothers, hweird⟩ : ∃ l, t.release a k sig = { t₁ with log := l } ∧
      (.request .detach (t.tcbtab k).pid sig :: t.log) <:+ l ∧
      stoppedIn l (t.tcbtab k).pid = false ∧ (∀ q, stoppedIn l q = true → stoppedIn t₁.log q = true) ∧
      ∀ child parent, .weird child parent ∈ l → .weird child parent ∈ t₁.log := by
    simp only [release, ht₁]
    split_ifs
    · obtain ⟨l, hl, hsuffix, hself, hothers, hweird⟩ :=
        detachWaits_spec a sig (a.waits (t.tcbtab k).pid) hdetach
      exact ⟨l, hl, hlog ▸ hsuffix, hself, fun q hq => stoppedIn_of_request (hothers q hq), fun child parent hmem => by
        simpa [request, say] using hweird child parent hmem⟩
    · exact ⟨_, rfl, hlog ▸ List.suffix_rfl, hdetach, fun q hq => stoppedIn_of_request hq, fun child parent hmem => by
        simpa using hmem⟩
  rw [hl]
  exact ⟨hmoves₁.tail (.log l hothers hweird), hself, hsuffix, hcore₁⟩

/-- The state in which `detach` drops the entry at `k`: the process has been told to go on, and so has a parent that
waits for it. -/
structure Detaching (t : Tracer) (k sig : ℕ) (t' : Tracer) : Prop where
  tcbtab : ∀ j, ∃ s n, (t'.tcbtab j).core = { (t.tcbtab j).core with suspended := s, ncloneWaiting := n }
  log : (.request .detach (t.tcbtab k).pid sig :: t.log) <:+ t'.log
  running : stoppedIn t'.log (t.tcbtab k).pid = false
  awaits : ∀ p, (t'.tcbtab k).parent = some p → t'.parentAwaits k p = false

theorem Detaching.field {β : Type} (g : ProcTcb → β) (hcore : ∀ tcp : ProcTcb, g tcp.core = g tcp)
    (hg : ∀ (tcp : ProcTcb) (s : Bool) (n : ℤ), g { tcp with suspended := s, ncloneWaiting := n } = g tcp) {sig : ℕ}
    (h : Detaching t k sig t') (j : ℕ) : g (t'.tcbtab j) = g (t.tcbtab j) := by
  obtain ⟨s, n, heq⟩ := h.tcbtab j
  rw [← hcore (t'.tcbtab j), heq, hg, hcore]

/-- **`detach` never goes through a null pointer.** The leader that it drops at the end has been dropped before,
together with its last thread. -/
theorem detach_spec (h : Sound t) (a : Answers) (k sig : ℕ) :
    Sat E (fun t' => ∃ t₂, Moves i abrupt .closing t t₂ ∧ Detaching t k sig t₂ ∧ t' = t₂.droptcb k)
      (t.detach a k sig) := by
  have hzombie : t.zombieLeader k = .ok (t.lastThreadOf k) := by
    unfold zombieLeader lastThreadOf groupLeader
    by_cases hthread : (t.tcbtab k).cloneThread = true
    · obtain ⟨p, hp, -⟩ := h.leader k hthread
      simp only [hthread, hp, if_true]
    · simp only [hthread, if_false, Bool.false_eq_true]
  have hrelease : Moves i abrupt .closing t (t.release a k sig) ∧ _ ∧ _ ∧ _ := release_moves a k sig
  obtain ⟨hmoves₁, hself₁, hlog₁, hcore₁⟩ := hrelease
  have hsound₁ := Moves.sound h hmoves₁
  rw [detach, hzombie]
  refine Sat.bind (Q := (· = t.lastThreadOf k)) rfl ?_
  rintro _ rfl
  refine Sat.bind (resumeFromTcp_moves hsound₁ k) fun t₂ (ht₂ : Moves i abrupt .closing _ _ ∧ _ ∧ _) => ?_
  obtain ⟨hmoves₂, hawoken, hawaits⟩ := ht₂
  have hsound₂ := Moves.sound hsound₁ hmoves₂
  have hmoves : Moves i abrupt .closing t t₂ := hmoves₁.trans hmoves₂
  have hdetaching : Detaching t k sig t₂ := by
    refine ⟨fun j => ?_, hlog₁.trans hawoken.log, hmoves₂.stoppedIn_eq_false hsound₁ hself₁, hawaits⟩
    obtain ⟨s, n, heq, -⟩ := hawoken.tcbtab j
    refine ⟨s, n, ?_⟩
    rw [heq, ← hcore₁ j]
    rfl
  cases hlast : t.lastThreadOf k with
  | none => exact ⟨t₂, hmoves, hdetaching, rfl⟩
  | some p =>
    have hlast₂ : t₂.lastThreadOf k = some p := by
      rw [lastThreadOf_eq_some, IsThread, hdetaching.field ProcTcb.cloneThread (fun _ => rfl) fun _ _ _ => rfl,
        hdetaching.field ProcTcb.parent (fun _ => rfl) fun _ _ _ => rfl,
        hdetaching.field ProcTcb.ncloneThreads (fun _ => rfl) fun _ _ _ => rfl,
        hdetaching.field ProcTcb.exiting (fun _ => rfl) fun _ _ _ => rfl]
      exact lastThreadOf_eq_some.1 hlast
    have hnoop : (t₂.droptcb k).droptcb p = t₂.droptcb k := by
      refine droptcb_of_free ?_
      rw [hsound₂.droptcb_eq (hsound₂.inUse_of_cloneThread (lastThreadOf_eq_some.1 hlast₂).1.1), hlast₂,
        if_neg (hsound₂.not_pos_of_thread (lastThreadOf_eq_some.1 hlast₂).1)]
      exact congrArg ProcTcb.pid dropOne_self
    exact ⟨t₂, hmoves, hdetaching, hnoop⟩

/-- Moves after which a process is not left stopped. -/
def Released (i : ℕ) (abrupt : Prop) (pid : ℤ) (t t' : Tracer) : Prop :=
  Moves i abrupt .closing t t' ∧ stoppedIn t'.log pid = false

theorem Released.trans (hs : Sound t) (h : Released i abrupt pid t t') (hm : Moves i abrupt .closing t' t'') :
    Released i abrupt pid t t'' :=
  ⟨h.1.trans hm, hm.stoppedIn_eq_false (Moves.sound hs h.1) h.2⟩

theorem Released.after (h : Released i abrupt pid t' t'') (hm : Moves i abrupt .closing t t') :
    Released i abrupt pid t t'' :=
  ⟨hm.trans h.1, h.2⟩

/-- **`detach` does not leave the process stopped.** -/
theorem detach_moves (h : Sound t) (hthreads : abrupt ∨ NoThreads t) (a : Answers) (k sig : ℕ) :
    Sat E (Released i abrupt (t.tcbtab k).pid t) (t.detach a k sig) := by
  refine Sat.mono (detach_spec h a k sig) fun t' (ht' : ∃ t₂, Moves i abrupt .closing t t₂ ∧ _ ∧ _) => ?_
  obtain ⟨t₂, hmoves, hdetaching, rfl⟩ := ht'
  have hpid : (t₂.tcbtab k).pid = (t.tcbtab k).pid :=
    hdetaching.field ProcTcb.pid (fun _ => rfl) (fun _ _ _ => rfl) k
  exact Released.trans h ⟨hmoves, hdetaching.running⟩ (droptcb_moves (Moves.sound h hmoves)
    (Moves.noThreads h hmoves hthreads) (.inr (hpid ▸ hdetaching.running)) (.inr hdetaching.awaits))

theorem cleanup_moves (h : Sound t) (hthreads : abrupt ∨ NoThreads t) (a : Answers) :
    Sat E (Moves i abrupt .closing t) (t.cleanup a) := by
  refine Sat.foldlM ReflTransGen.refl fun t₁ k _ hmoves => ?_
  split_ifs
  · refine Sat.mono (detach_moves (Moves.sound h hmoves) (Moves.noThreads h hmoves hthreads) a k 0)
      fun t₂ (ht₂ : Released i abrupt _ _ _) => hmoves.trans ht₂.1
  · exact hmoves

theorem request_moves (op : PtraceOp) (pid : ℤ) (sig : ℕ) : Moves i abrupt ph t (t.request op pid sig) :=
  ReflTransGen.single (.log _ (fun _ hq => stoppedIn_of_request hq) fun _ _ hmem => by simpa using hmem)

theorem restart_moves (h : Sound t) (hthreads : abrupt ∨ NoThreads t) {op : PtraceOp} (hop : op ≠ .setOptions)
    (a : Answers) (sig : ℕ) :
    Sat E (fun r => (r.1 = none ∨ r.1 = some (-1)) ∧ Released i abrupt (t.tcbtab i).pid t r.2)
      (t.restart a op i sig) := by
  have hrequest : Released i abrupt (t.tcbtab i).pid t (t.request op (t.tcbtab i).pid sig) :=
    ⟨request_moves op _ sig, stoppedIn_request_self hop⟩
  simp only [restart]
  split_ifs
  · exact (cleanup_moves (Moves.sound h hrequest.1) (Moves.noThreads h hrequest.1 hthreads) a).map
      fun t' ht' => ⟨.inr rfl, hrequest.trans h ht'⟩
  · exact ⟨.inl rfl, hrequest⟩

theorem markGroupExiting_moves (leader : Option ℕ) (k : ℕ) :
    Moves i abrupt ph t (t.markGroupExiting leader k) := by
  unfold markGroupExiting
  cases leader with
  | none => exact ReflTransGen.refl
  | some p =>
    simp only
    split_ifs
    · exact ReflTransGen.refl
    · exact ReflTransGen.single (.mark p _ fun _ => rfl)

/-- A process that has ended. -/
theorem handleGroupExit_none_moves (h : Sound t) (hthreads : abrupt ∨ NoThreads t) (a : Answers)
    (hstopped : stoppedIn t.log (t.tcbtab i).pid = false) :
    Sat E (fun r => r.1 = none ∧ Released i abrupt (t.tcbtab i).pid t r.2) (t.handleGroupExit a i none) := by
  refine Sat.bind (resumeFromTcp_moves h i) fun t₁ (ht₁ : Moves i abrupt .closing _ _ ∧ _ ∧ _) => ?_
  obtain ⟨hmoves, -, hawaits⟩ := ht₁
  have hdrop := droptcb_moves (Moves.sound h hmoves) (Moves.noThreads h hmoves hthreads) (.inl rfl) (.inr hawaits)
  exact ⟨rfl, Released.trans h ⟨hmoves, hmoves.stoppedIn_eq_false h hstopped⟩ hdrop⟩

/-- A process that a signal will end. -/
theorem handleGroupExit_some_moves (h : Sound t) (hthreads : abrupt ∨ NoThreads t) (a : Answers) (sig : ℕ) :
    Sat E (fun r => (r.1 = none ∨ r.1 = some (-1)) ∧ Released i abrupt (t.tcbtab i).pid t r.2)
      (t.handleGroupExit a i (some sig)) := by
  simp only [handleGroupExit]
  obtain ⟨t₁, ht₁⟩ : ∃ t₁, (t.modify i fun tcp => { tcp with exiting := true, groupExiting := true }) = t₁ := ⟨_, rfl⟩
  have hmoves : Moves i abrupt .closing t t₁ :=
    ht₁ ▸ ReflTransGen.single (.own _ (fun _ => rfl) (fun _ => rfl) fun _ => rfl)
  have hpid : (t₁.tcbtab i).pid = (t.tcbtab i).pid := by rw [← ht₁, modify_self]
  have hsound := Moves.sound h hmoves
  have hthreads₁ := Moves.noThreads h hmoves hthreads
  rw [ht₁, ← hpid]
  split_ifs
  · refine Sat.bind (detach_moves hsound hthreads₁ a i sig) fun t₂ (ht₂ : Released i abrupt _ _ _) => ?_
    exact ⟨.inl rfl, (ht₂.trans hsound (markGroupExiting_moves _ i)).after hmoves⟩
  · refine Sat.bind (restart_moves hsound hthreads₁ (by decide) a sig) fun r (hr : _ ∧ Released i abrupt _ _ _) => ?_
    obtain ⟨code, t₂⟩ := r
    obtain ⟨hcode, hr⟩ := hr
    have hrel : Released i abrupt (t₁.tcbtab i).pid t t₂ := hr.after hmoves
    cases code with
    | some code => exact ⟨hcode, hrel⟩
    | none =>
      cases hleader : groupLeader (t.tcbtab i) with
      | none => exact ⟨.inl rfl, hrel⟩
      | some p =>
        have hmark : Released i abrupt (t₁.tcbtab i).pid t
            (t₂.modify p fun q => { q with groupExiting := true }) :=
          hrel.trans h (ReflTransGen.single (.mark p _ fun _ => rfl))
        refine ⟨.inl rfl, ?_⟩
        simp only
        split_ifs
        · exact hmark
        · -- a thread is dropped without a look at those that wait
          have hthread : (t.tcbtab i).cloneThread = true := by
            by_contra hthread
            simp only [groupLeader, hthread, if_false, reduceCtorEq] at hleader
          exact hmark.trans h (droptcb_moves (Moves.sound h hmark.1) (Moves.noThreads h hmark.1 hthreads) (.inl rfl)
            (.inl (abrupt_of_thread hthreads hthread)))

/-! ## New processes -/

theorem adoptChild_kept {bpt : Bool} (h : t.adoptChild a i c bpt = .ok t') (hk : (t.tcbtab k).inUse = true) :
    (t'.tcbtab k).inUse = true ∧ (t'.tcbtab k).pid = (t.tcbtab k).pid ∧
      ((t.tcbtab k).attached = true → (t'.tcbtab k).attached = true) := by
  obtain ⟨-, -, hcore, -⟩ := adoptChild_spec h
  rw [adoptChild_field ProcTcb.inUse (fun _ => rfl) (fun _ => rfl) h,
    adoptChild_field ProcTcb.pid (fun _ => rfl) (fun _ => rfl) h,
    field_of_core ProcTcb.attached (fun _ => rfl) (hcore k)]
  refine ⟨hk, rfl, fun hattached => ?_⟩
  simp [adopted, hattached]

/-- While new processes are entered, those in the table stay. -/
theorem Move.kept (hs : Sound t) (hm : Move i abrupt .spawning t t') (hk : (t.tcbtab k).inUse = true) :
    (t'.tcbtab k).inUse = true ∧ (t'.tcbtab k).pid = (t.tcbtab k).pid ∧
      ((t.tcbtab k).attached = true → (t'.tcbtab k).attached = true) := by
  cases hm with
  | own f hlinks _ hattached =>
    rw [modify_field ProcTcb.inUse fun tcp => congrArg Links.inUse (hlinks tcp),
      modify_field ProcTcb.pid fun tcp => congrArg Links.pid (hlinks tcp), modify_field ProcTcb.attached hattached]
    exact ⟨hk, rfl, id⟩
  | mark k f hcore =>
    rw [modify_field ProcTcb.inUse fun tcp => field_of_core ProcTcb.inUse (fun _ => rfl) (hcore tcp),
      modify_field ProcTcb.pid fun tcp => field_of_core ProcTcb.pid (fun _ => rfl) (hcore tcp),
      modify_field ProcTcb.attached fun tcp => field_of_core ProcTcb.attached (fun _ => rfl) (hcore tcp)]
    exact ⟨hk, rfl, id⟩
  | log | options | code | expand | weird => exact ⟨hk, rfl, id⟩
  | wake k hsuspended hwhy hr =>
    obtain rfl := Except.ok.inj ((hs.resume_eq hsuspended).symm.trans hr)
    rw [resumed_tcbtab hs]
    exact ⟨hk, rfl, id⟩
  | spawn a bpt c pid hi hc hsize hpid hfresh hadopt =>
    have hkc : k ≠ c := by
      rintro rfl
      rw [hc] at hk
      cases hk
    have hkeep : (t.enter c pid).tcbtab k = t.tcbtab k := by rw [enter_tcbtab, if_neg hkc]
    rw [← hkeep]
    exact adoptChild_kept hadopt (hkeep ▸ hk)
  | newborn a bpt c hi hc hsuspended hadopt =>
    rw [resumeNewborn_field ProcTcb.inUse (fun _ => rfl) (fun _ _ => rfl),
      resumeNewborn_field ProcTcb.pid (fun _ => rfl) (fun _ _ => rfl),
      resumeNewborn_field ProcTcb.attached (fun _ => rfl) (fun _ _ => rfl)]
    exact adoptChild_kept hadopt hk
  | announce a bpt c hi hc hawake hadopt => exact adoptChild_kept hadopt hk
  | byLeader c p habrupt hp hparent hthread hci =>
    rw [adoptByLeader_tcbtab hs hp hci]
    exact ⟨hk, rfl, id⟩
  | byParent q c hq hparent hthread hcq =>
    rw [adoptByParent_tcbtab hcq]
    exact ⟨hk, rfl, id⟩
  | thread p c _ hparent hthread hawake hpc =>
    rw [becomeThread_tcbtab hpc]
    exact ⟨hk, rfl, id⟩
  | suspend w =>
    rw [suspend_tcbtab hs]
    exact ⟨hk, rfl, id⟩

theorem Moves.kept (hs : Sound t) (hm : Moves i abrupt .spawning t t') (hk : (t.tcbtab k).inUse = true) :
    (t'.tcbtab k).inUse = true ∧ (t'.tcbtab k).pid = (t.tcbtab k).pid ∧
      ((t.tcbtab k).attached = true → (t'.tcbtab k).attached = true) := by
  induction hm with
  | refl => exact ⟨hk, rfl, id⟩
  | tail hmoves hmove ih =>
    obtain ⟨huse, hpid, hattached⟩ := hmove.kept (Moves.sound hs hmoves) ih.1
    exact ⟨huse, hpid.trans ih.2.1, hattached ∘ ih.2.2⟩

/-- The process at `c` has just become a child of the process at `i`. -/
structure FreshChild (t : Tracer) (i c : ℕ) : Prop where
  use : (t.tcbtab i).inUse = true
  dir : (t.tcbtab i).currentDir = true
  ne : c ≠ i
  parent : (t.tcbtab c).parent = some i
  single : (t.tcbtab c).cloneThread = false
  leaderless : ∀ k, ¬ t.IsThread c k

theorem Sound.freshChild (h : Sound t) {bpt : Bool} (hi : (t.tcbtab i).inUse = true)
    (ht' : t.adoptChild a i c bpt = .ok t') : FreshChild t' i c := by
  obtain ⟨hcdir, hidir, hcore, -⟩ := adoptChild_spec ht'
  have hic : c ≠ i := by
    rintro rfl
    rw [hcdir] at hidir
    cases hidir
  have hthread : ∀ j, (t'.tcbtab j).cloneThread = (t.tcbtab j).cloneThread :=
    fun j => adoptChild_field ProcTcb.cloneThread (fun _ => rfl) (fun _ => rfl) ht'
  have hparent : ∀ j, (t'.tcbtab j).parent = if j = c then some i else (t.tcbtab j).parent :=
    fun j => field_of_core ProcTcb.parent (fun _ => rfl) (hcore j)
  refine ⟨?_, ?_, hic, ?_, ?_, fun k hk => ?_⟩
  · rw [adoptChild_field ProcTcb.inUse (fun _ => rfl) (fun _ => rfl) ht', hi]
  · rw [field_of_core ProcTcb.currentDir (fun _ => rfl) (hcore i), adopted]
    exact (if_neg hic.symm).trans hidir
  · rw [hparent, if_pos rfl]
  · rw [hthread, h.cloneThread_of_unborn hcdir]
  · -- the leader of a thread has been announced before
    rw [IsThread, hthread, hparent] at hk
    split_ifs at hk with hkc
    · exact hic (Option.some.inj hk.2).symm
    · obtain ⟨p, hp, -, -, hpdir⟩ := h.leader k hk.1
      rw [← Option.some.inj (hk.2.symm.trans hp), hcdir] at hpdir
      cases hpdir

theorem FreshChild.resumeNewborn (h : FreshChild t i c) {bpt : Bool} : FreshChild (t.resumeNewborn a c bpt) i c := by
  have hthread : ∀ j, ((t.resumeNewborn a c bpt).tcbtab j).cloneThread = (t.tcbtab j).cloneThread :=
    fun j => resumeNewborn_field ProcTcb.cloneThread (fun _ => rfl) fun _ _ => rfl
  have hparent : ∀ j, ((t.resumeNewborn a c bpt).tcbtab j).parent = (t.tcbtab j).parent :=
    fun j => resumeNewborn_field ProcTcb.parent (fun _ => rfl) fun _ _ => rfl
  refine ⟨?_, ?_, h.ne, (hparent c).trans h.parent, (hthread c).trans h.single, fun k hk => h.leaderless k ?_⟩
  · rw [resumeNewborn_field ProcTcb.inUse (fun _ => rfl) (fun _ _ => rfl), h.use]
  · rw [resumeNewborn_field ProcTcb.currentDir (fun _ => rfl) (fun _ _ => rfl), h.dir]
  · rwa [IsThread, hthread, hparent] at hk

theorem isThread_of_groupLeader (hp : groupLeader (t.tcbtab i) = some p) : t.IsThread p i := by
  unfold groupLeader at hp
  split_ifs at hp with hthread
  exact ⟨hthread, hp⟩

/-- The end of `handle_new_child` for `clone`. -/
theorem FreshChild.cloneChild_moves (h : Sound t) (hc : FreshChild t i c) (hawake : (t.tcbtab c).suspended = false)
    (hi : (t.tcbtab i).suspended = false) {flags : Word}
    (hflags : abrupt ∨ NoThreads t ∧ flags.hasFlag cloneThreadFlag = false) :
    Moves i abrupt .spawning t (t.cloneChild i c flags) := by
  cases hleader : groupLeader (t.tcbtab i) with
  | none =>
    have hthread : (t.tcbtab i).cloneThread = false := by
      by_contra hthread
      obtain ⟨p, hp, -⟩ := h.leader i (Bool.eq_true_of_not_eq_false hthread)
      simp [groupLeader, hthread, hp] at hleader
    simp only [cloneChild, adoptByLeader, hleader]
    split_ifs with hflag hparent
    · have habrupt : abrupt := hflags.resolve_right fun hnone => by simp [hnone.2] at hflag
      exact ReflTransGen.single (.thread i c habrupt hc.parent hc.single hawake hc.ne.symm hc.use hthread hc.dir
        hc.leaderless)
    · exact ReflTransGen.single (.byParent i c hc.use hc.parent hc.single hc.ne (.inr hi))
    · exact ReflTransGen.refl
  | some p =>
    have hp : t.IsThread p i := isThread_of_groupLeader hleader
    have habrupt : abrupt := abrupt_of_thread (hflags.imp_right And.left) hp.1
    have hmove : Move i abrupt .spawning t (t.adoptByLeader i c).2 := .byLeader c p habrupt hp hc.parent hc.single hc.ne
    have hfst : (t.adoptByLeader i c).1 = p := by rw [adoptByLeader_eq hp]
    have htcbtab := fun j => adoptByLeader_tcbtab (j := j) h hp hc.ne
    obtain ⟨q, hq, hpuse, hpthread, hpdir⟩ := h.leader i hp.1
    obtain rfl : p = q := Option.some.inj (hp.2.symm.trans hq)
    have hpc : p ≠ c := by
      rintro rfl
      exact hc.leaderless i hp
    have hparent : ((t.adoptByLeader i c).2.tcbtab c).parent = some p := by rw [htcbtab, if_pos rfl]
    have hsingle : ((t.adoptByLeader i c).2.tcbtab c).cloneThread = false := by rw [htcbtab, hc.single]
    simp only [cloneChild, hfst]
    split_ifs with hflag hparentFlag
    · refine (ReflTransGen.single hmove).tail (.thread p c habrupt hparent hsingle ?_ hpc ?_ ?_ ?_ fun k hk => ?_)
      · rw [htcbtab, hawake]
      · rw [htcbtab, hpuse]
      · rw [htcbtab, hpthread]
      · rw [htcbtab, hpdir]
      · rw [IsThread, htcbtab] at hk
        by_cases hkc : k = c
        · exact hpc (Option.some.inj ((if_pos hkc).symm.trans hk.2))
        · exact hc.leaderless k ⟨hk.1, (if_neg hkc).symm.trans hk.2⟩
    · refine (ReflTransGen.single hmove).tail (.byParent p c ?_ hparent hsingle hpc.symm (.inl habrupt))
      rw [htcbtab, hpuse]
    · exact ReflTransGen.single hmove

/-- An assertion of `CDE_init_tcb_dir_fields` fails. -/
theorem adoptChild_error {bpt : Bool} {e : Fatal} (h : t.adoptChild a i c bpt = .error e) :
    e = .assertion ∧ ((t.tcbtab i).currentDir = false ∨ (t.tcbtab c).currentDir = true) := by
  obtain ⟨t₁, ht₁, hdir⟩ : ∃ t₁, (if bpt then t.clearbpt a i else t) = t₁ ∧
      ∀ j, (t₁.tcbtab j).currentDir = (t.tcbtab j).currentDir := by
    refine ⟨_, rfl, fun j => ?_⟩
    split_ifs
    · exact field_of_core ProcTcb.currentDir (fun _ => rfl) clearbpt_core
    · rfl
  simp only [adoptChild, ht₁, initTcbDir, modify_tcbtab, apply_ite ProcTcb.currentDir, ite_self, hdir] at h
  by_cases hc : (t.tcbtab c).currentDir = true
  · rw [if_pos hc] at h
    exact ⟨(Except.error.inj h).symm, .inr hc⟩
  · rw [if_neg hc] at h
    by_cases hi : (t.tcbtab i).currentDir = true
    · rw [hi] at h
      cases h
    · exact ⟨by rw [Bool.eq_false_of_not_eq_true hi] at h; exact (Except.error.inj h).symm,
        .inl (Bool.eq_false_of_not_eq_true hi)⟩

theorem forkTcb_eq : t.forkTcb i = t.grown.modify i fun tcp => { tcp with followFork := true } := rfl

theorem forkTcb_field {β : Type} (g : ProcTcb → β)
    (hg : ∀ (tcp : ProcTcb) (b : Bool), g { tcp with followFork := b } = g tcp) :
    g ((t.forkTcb i).tcbtab k) = g (t.tcbtab k) := by
  rw [forkTcb_eq, modify_field g fun tcp => hg tcp true, grown_tcbtab]

theorem forkTcb_moves : Moves i abrupt .spawning t (t.forkTcb i) := by
  have hgrown : Moves i abrupt .spawning t t.grown := by
    unfold grown
    split_ifs
    · exact ReflTransGen.single .expand
    · exact ReflTransGen.refl
  exact hgrown.tail (.own _ (fun _ => rfl) (fun _ => rfl) fun _ => rfl)

/-- The process at `i` may have made a new thread only if threads are allowed for. -/
def ThreadsAllowed (abrupt : Prop) (t : Tracer) (i : ℕ) : Prop :=
  abrupt ∨ NoThreads t ∧ ((t.tcbtab i).sysFunc = .clone → ((t.tcbtab i).uArg 0).hasFlag cloneThreadFlag = false)

theorem ThreadsAllowed.of_fields (h : ThreadsAllowed abrupt t i)
    (hthread : ∀ k, (t'.tcbtab k).cloneThread = true → (t.tcbtab k).cloneThread = true)
    (hfunc : (t'.tcbtab i).sysFunc = (t.tcbtab i).sysFunc) (harg : (t'.tcbtab i).uArg = (t.tcbtab i).uArg) :
    ThreadsAllowed abrupt t' i := by
  obtain habrupt | ⟨hnone, hflag⟩ := h
  · exact .inl habrupt
  · rw [ThreadsAllowed, hfunc, harg]
    exact (NoThreads.of_field (.inr hnone) hthread).imp_right fun hnone' => ⟨hnone', hflag⟩

/-- `handle_new_child` after the child has been made a child of its parent. -/
theorem handleNewChild_rest {bpt : Bool} {t₀ t₁ : Tracer} (hs : Sound t) (hs₀ : Sound t₀)
    (hi : (t₀.tcbtab i).inUse = true) (hawake : (t₀.tcbtab i).suspended = false) (hflags : ThreadsAllowed abrupt t₀ i)
    (hthreads : abrupt ∨ NoThreads t) (hadopt : t₀.adoptChild a i c bpt = .ok t₁)
    (hmoves : Moves i abrupt .spawning t (if (t₁.tcbtab c).suspended then t₁.resumeNewborn a c bpt else t₁)) :
    Sat E (Moves i abrupt .spawning t)
      (let newborn := (t₁.tcbtab c).suspended
       let t₂ := if newborn then t₁.resumeNewborn a c bpt else t₁
       if newborn && a.ptrace .syscall (t₂.tcbtab c).pid == .failed then return t₂
       else if (t₂.tcbtab i).sysFunc = .clone then return t₂.cloneChild i c ((t₂.tcbtab i).uArg 0)
       else return t₂) := by
  have hfresh := hs₀.freshChild hi hadopt
  obtain ⟨t₂, ht₂, hfresh₂, hcawake, hcore₂⟩ : ∃ t₂,
      (if (t₁.tcbtab c).suspended then t₁.resumeNewborn a c bpt else t₁) = t₂ ∧
      FreshChild t₂ i c ∧ (t₂.tcbtab c).suspended = false ∧ (t₂.tcbtab i).core = (t₁.tcbtab i).core := by
    refine ⟨_, rfl, ?_⟩
    split_ifs with hnew
    · refine ⟨hfresh.resumeNewborn, resumeNewborn_suspended.trans (if_pos rfl), ?_⟩
      rw [resumeNewborn_core, if_neg hfresh.ne.symm, if_neg hfresh.ne.symm]
    · exact ⟨hfresh, Bool.eq_false_of_not_eq_true hnew, rfl⟩
  simp only [ht₂] at hmoves ⊢
  split_ifs with hstop hclone
  · exact hmoves
  · refine hmoves.trans (hfresh₂.cloneChild_moves (Moves.sound hs hmoves) hcawake ?_ ?_)
    · rw [field_of_core ProcTcb.suspended (fun _ => rfl) hcore₂,
        adoptChild_field ProcTcb.suspended (fun _ => rfl) (fun _ => rfl) hadopt, hawake]
    · rw [field_of_core ProcTcb.sysFunc (fun _ => rfl) hcore₂,
        adoptChild_field ProcTcb.sysFunc (fun _ => rfl) (fun _ => rfl) hadopt] at hclone
      rw [field_of_core ProcTcb.uArg (fun _ => rfl) hcore₂,
        adoptChild_field ProcTcb.uArg (fun _ => rfl) (fun _ => rfl) hadopt]
      obtain habrupt | hflag := hflags
      · exact .inl habrupt
      · exact (Moves.noThreads hs hmoves hthreads).imp_right fun hnone => ⟨hnone, hflag.2 hclone⟩
  · exact hmoves

/-- An assertion fails when a child is announced: its parent has not been announced, or it has been itself. -/
def Misannounced (t : Tracer) (i : ℕ) (pid : ℤ) (e : Fatal) : Prop :=
  e = .assertion ∧ ((t.tcbtab i).currentDir = false ∨ ∃ c, t.pid2tcb pid = some c ∧ (t.tcbtab c).currentDir = true)

/-- **What `handle_new_child` does**, and when an assertion fails in it. -/
theorem handleNewChild_moves (h : Sound t) (hi : (t.tcbtab i).inUse = true) (hawake : (t.tcbtab i).suspended = false)
    (hflags : ThreadsAllowed abrupt t i) (hpid : 0 < pid) (a : Answers) (bpt : Bool) :
    Sat (Misannounced t i pid) (Moves i abrupt .spawning t) (t.handleNewChild a i pid bpt) := by
  have hthreads : abrupt ∨ NoThreads t := hflags.imp_right And.left
  cases hfind : t.pid2tcb pid with
  | some c =>
    obtain ⟨hcuse, hcpid⟩ := h.pid2tcb_eq_some.1 hfind
    -- the entry is one that waits for its parent, or is in a state that should not be
    obtain ⟨t₀, ht₀, htcbtab, hmoves₀⟩ : ∃ t₀, t.childTcb i pid = .ok (c, t₀) ∧ t₀.tcbtab = t.tcbtab ∧
        ((t.tcbtab c).currentDir = false → Moves i abrupt .spawning t t₀) := by
      simp only [childTcb, hfind]
      split_ifs with hready
      · exact ⟨t, rfl, rfl, fun _ => ReflTransGen.refl⟩
      · refine ⟨_, rfl, rfl, fun hdir => ReflTransGen.single (hcpid ▸ .weird c hcuse hdir fun hnot => hready ?_)⟩
        rw [hnot.1, hnot.2.1, hnot.2.2]
        rfl
    rw [handleNewChild, ht₀]
    refine Sat.bind (Q := (· = (c, t₀))) rfl ?_
    rintro _ rfl
    refine Sat.bind (Q := fun t₁ => t₀.adoptChild a i c bpt = .ok t₁) (Sat.intro (fun _ hok => hok) fun e he => ?_)
      fun t₁ hadopt => ?_
    · obtain ⟨rfl, hdir⟩ := adoptChild_error he
      rw [htcbtab] at hdir
      exact ⟨rfl, hdir.imp_right fun hc => ⟨c, hfind, hc⟩⟩
    · have hmoves := hmoves₀ (htcbtab ▸ (adoptChild_spec hadopt).1)
      refine handleNewChild_rest h (Moves.sound h hmoves) (htcbtab ▸ hi) (htcbtab ▸ hawake) ?_ hthreads hadopt
        (hmoves.trans ?_)
      · exact hflags.of_fields (fun k hk => htcbtab ▸ hk) (by rw [htcbtab]) (by rw [htcbtab])
      · have hsusp : (t₁.tcbtab c).suspended = (t₀.tcbtab c).suspended :=
          adoptChild_field ProcTcb.suspended (fun _ => rfl) (fun _ => rfl) hadopt
        split_ifs with hnew
        · exact ReflTransGen.single (.newborn a bpt c (htcbtab ▸ hi) (htcbtab ▸ hcuse) (hsusp ▸ hnew) hadopt)
        · exact ReflTransGen.single (.announce a bpt c (htcbtab ▸ hi) (htcbtab ▸ hcuse)
            (hsusp ▸ Bool.eq_false_of_not_eq_true hnew) hadopt)
  | none =>
    have hmoves₀ : Moves i abrupt .spawning t (t.forkTcb i) := forkTcb_moves
    have hs₀ := Moves.sound h hmoves₀
    obtain ⟨c, hc, hcfree, hcsize, hcfirst⟩ := hs₀.alloctcb_eq pid
    have hchild : t.childTcb i pid = .ok (c, (t.forkTcb i).enter c pid) := by simp only [childTcb, hfind, hc]
    have huse : ∀ k, ((t.forkTcb i).tcbtab k).inUse = (t.tcbtab k).inUse :=
      fun k => forkTcb_field ProcTcb.inUse fun _ _ => rfl
    have hfresh : ∀ k, ((t.forkTcb i).tcbtab k).inUse = true → ((t.forkTcb i).tcbtab k).pid ≠ pid := fun k hk => by
      rw [forkTcb_field ProcTcb.pid fun _ _ => rfl]
      exact h.pid2tcb_eq_none.1 hfind k (huse k ▸ hk)
    have hic : i ≠ c := by
      rintro rfl
      rw [huse, hi] at hcfree
      cases hcfree
    have hkeep : ((t.forkTcb i).enter c pid).tcbtab i = (t.forkTcb i).tcbtab i := by rw [enter_tcbtab, if_neg hic]
    have hnew : ((t.forkTcb i).enter c pid).tcbtab c = initTcb pid ((t.forkTcb i).tcbtab c) := by
      rw [enter_tcbtab, if_pos rfl]
    rw [handleNewChild, hchild]
    refine Sat.bind (Q := (· = (c, (t.forkTcb i).enter c pid))) rfl ?_
    rintro _ rfl
    refine Sat.bind (Q := fun t₁ => ((t.forkTcb i).enter c pid).adoptChild a i c bpt = .ok t₁)
      (Sat.intro (fun _ hok => hok) fun e he => ?_) fun t₁ hadopt => ?_
    · obtain ⟨rfl, hdir⟩ := adoptChild_error he
      rw [hkeep, hnew, forkTcb_field ProcTcb.currentDir fun _ _ => rfl] at hdir
      exact ⟨rfl, hdir.imp_right fun hdir => Bool.noConfusion hdir⟩
    · have hs₁ := hs₀.enter hcfree hcsize hpid hfresh
      refine handleNewChild_rest h hs₁ ?_ ?_ ?_ hthreads hadopt (hmoves₀.trans ?_)
      · rw [hkeep, huse, hi]
      · rw [hkeep, forkTcb_field ProcTcb.suspended fun _ _ => rfl, hawake]
      · refine hflags.of_fields (fun k hk => ?_) ?_ ?_
        · rw [enter_tcbtab] at hk
          split_ifs at hk
          · cases hk
          · rwa [forkTcb_field ProcTcb.cloneThread fun _ _ => rfl] at hk
        · rw [hkeep, forkTcb_field ProcTcb.sysFunc fun _ _ => rfl]
        · rw [hkeep, forkTcb_field ProcTcb.uArg fun _ _ => rfl]
      · have hsusp : (t₁.tcbtab c).suspended = false := by
          rw [adoptChild_field ProcTcb.suspended (fun _ => rfl) (fun _ => rfl) hadopt, hnew]
          rfl
        rw [hsusp]
        exact ReflTransGen.single (.spawn a bpt c pid ((huse i).trans hi) hcfree hcsize hpid hfresh hadopt hcfirst)

/-! ## System calls -/

/-- The child that a `fork` of the process at `i` has returned, where breakpoints are used. -/
def forkedChild (t : Tracer) (i : ℕ) : Option ℤ :=
  let tcp := t.tcbtab i
  if (tcp.sysFunc = .fork ∨ tcp.sysFunc = .vfork ∨ tcp.sysFunc = .clone) ∧ t.setOptions = false ∧
    tcp.inSyscall = true ∧ tcp.followFork = true ∧ tcp.uError = 0 then some tcp.uRval.toCInt
  else none

theorem setbpt_moves : Moves i abrupt ph t (t.setbpt a i) := by
  simp only [setbpt]
  split_ifs
  · exact ReflTransGen.refl
  · exact ReflTransGen.single (.own _ (fun _ => rfl) (fun _ => rfl) fun _ => rfl)
  · exact ReflTransGen.single (.own _ (fun _ => rfl) (fun _ => rfl) fun _ => rfl)
  · exact ReflTransGen.refl

theorem internalFork_moves (cfg : TraceConfig) (a : Answers) (h : Sound t) (hi : (t.tcbtab i).inUse = true)
    (hawake : (t.tcbtab i).suspended = false)
    (hfork : (t.tcbtab i).sysFunc = .fork ∨ (t.tcbtab i).sysFunc = .vfork ∨ (t.tcbtab i).sysFunc = .clone)
    (hflags : (t.tcbtab i).inSyscall = true → ThreadsAllowed abrupt t i)
    (hpid : ∀ pid, t.forkedChild i = some pid → 0 < pid) :
    Sat (fun e => ∃ pid, t.forkedChild i = some pid ∧ Misannounced t i pid e) (Moves i abrupt .spawning t)
      (t.internalFork cfg a i) := by
  simp only [internalFork]
  by_cases hoptions : t.setOptions = true
  · rw [if_pos hoptions]
    exact ReflTransGen.refl
  rw [if_neg hoptions]
  by_cases hsys : (t.tcbtab i).inSyscall = true
  · -- the exit of the call
    simp only [hsys, Bool.not_true, Bool.false_eq_true, if_false]
    split_ifs with hfollow herror hbpt
    · exact ReflTransGen.refl
    · exact clearbpt_moves
    · exact ReflTransGen.refl
    · have hforked : t.forkedChild i = some (t.tcbtab i).uRval.toCInt := by
        refine if_pos ⟨hfork, Bool.eq_false_of_not_eq_true hoptions, hsys, ?_, not_ne_iff.1 herror⟩
        rwa [Bool.not_eq_true, Bool.not_eq_false'] at hfollow
      exact (handleNewChild_moves h hi hawake (hflags hsys) (hpid _ hforked) a _).imp (fun e he => ⟨_, hforked, he⟩)
        fun _ ht' => ht'
  · have hown : Moves i abrupt .spawning t (t.modify i fun tcp => { tcp with followFork := false }) :=
      ReflTransGen.single (.own _ (fun _ => rfl) (fun _ => rfl) fun _ => rfl)
    simp only [hsys, Bool.not_false, if_true]
    split_ifs
    · exact hown
    · exact hown
    · exact hown.trans (forkTcb_moves.trans setbpt_moves)

theorem Sound.waiter_eq (h : Sound t) (i : ℕ) : ∃ w, t.waiter i = .ok w := by
  unfold waiter
  split_ifs with hthread
  · obtain ⟨p, hp, -⟩ := h.leader i hthread
    exact ⟨p, by rw [hp]⟩
  · exact ⟨i, rfl⟩

theorem internalWait_moves (h : Sound t) (hi : (t.tcbtab i).inUse = true)
    (harg : (t.tcbtab i).inSyscall = false →
      abrupt ∨ (((t.tcbtab i).uArg 0).toInt ≤ 0 → ((t.tcbtab i).uArg 0).toCInt ≤ 0)) (flagarg : ℕ) :
    Sat E (Moves i abrupt .spawning t) (t.internalWait i flagarg) := by
  obtain ⟨w, hw⟩ := h.waiter_eq i
  rw [internalWait, hw]
  refine Sat.bind (Q := (· = w)) rfl ?_
  rintro _ rfl
  simp only
  split_ifs with hsys hblock hreaped
  · simp only [Bool.and_eq_true, decide_eq_true_eq] at hblock
    refine ReflTransGen.single (.suspend _ hw hblock.1.1 hblock.2 hi (harg ?_))
    rwa [Bool.not_eq_true'] at hsys
  · exact ReflTransGen.refl
  · exact ReflTransGen.single (.own _ (fun _ => rfl) (fun _ => rfl) fun _ => rfl)
  · exact ReflTransGen.refl

/-- **What `internal_syscall` does.** -/
theorem internalSyscall_moves (cfg : TraceConfig) (a : Answers) (h : Sound t) (hi : (t.tcbtab i).inUse = true)
    (hawake : (t.tcbtab i).suspended = false) (hflags : (t.tcbtab i).inSyscall = true → ThreadsAllowed abrupt t i)
    (harg : (t.tcbtab i).inSyscall = false → (t.tcbtab i).sysFunc = .wait4 ∨ (t.tcbtab i).sysFunc = .waitid →
      abrupt ∨ (((t.tcbtab i).uArg 0).toInt ≤ 0 → ((t.tcbtab i).uArg 0).toCInt ≤ 0))
    (hpid : ∀ pid, t.forkedChild i = some pid → 0 < pid) :
    Sat (fun e => ∃ pid, t.forkedChild i = some pid ∧ Misannounced t i pid e) (Moves i abrupt .spawning t)
      (t.internalSyscall cfg a i) := by
  unfold internalSyscall
  cases hfunc : (t.tcbtab i).sysFunc with
  | exit =>
    simp only [internalExit]
    split_ifs
    · exact ReflTransGen.refl
    · exact ReflTransGen.single (.own _ (fun _ => rfl) (fun _ => rfl) fun _ => rfl)
  | fork => exact internalFork_moves cfg a h hi hawake (.inl hfunc) hflags hpid
  | vfork => exact internalFork_moves cfg a h hi hawake (.inr (.inl hfunc)) hflags hpid
  | clone => exact internalFork_moves cfg a h hi hawake (.inr (.inr hfunc)) hflags hpid
  | wait4 => exact internalWait_moves h hi (fun hsys => harg hsys (.inl hfunc)) 2
  | waitid => exact internalWait_moves h hi (fun hsys => harg hsys (.inr hfunc)) 3
  | other => exact ReflTransGen.refl

end Tracer

end Ptu
