import Ptu.Proof.TraceKin

/-!
# The end of the tracer

`main` calls `cleanup` when the loop has come to its end or has been interrupted. Whatever the table looks like at
that moment, `cleanup` empties it, tells every process in it to go on without the tracer, and leaves no process
stopped.

* `Moves.attached`: every process in the table is one that the tracer has attached to, so `cleanup` detaches all of
  them and kills none.
* `detach_swept`: one round of `cleanup`. A process with threads stays in the table until its last thread has left it.
* `trace_cleanup`: what holds after `cleanup`, for all runs.
-/

namespace Ptu

open Outcome Relation

namespace Tracer

variable {t t₀ t₁ t' : Tracer} {i j k p c m : ℕ} {a : Answers} {abrupt : Prop} {ph : Phase} {r : Report}
  {E : Fatal → Prop}

/-! ## Every process is attached -/

/-- The tracer has attached to every process in the table. -/
def AllAttached (t : Tracer) : Prop := ∀ k, (t.tcbtab k).inUse = true → (t.tcbtab k).attached = true

theorem AllAttached.of_fields (h : AllAttached t)
    (hfield : ∀ k, (t'.tcbtab k).inUse = true → (t.tcbtab k).inUse = true ∧
      (t'.tcbtab k).attached = (t.tcbtab k).attached) : AllAttached t' := by
  intro k hk
  obtain ⟨huse, hatt⟩ := hfield k hk
  rw [hatt]
  exact h k huse

/-- A child is attached to when it gets its parent. -/
theorem AllAttached.adoptChild {bpt : Bool} (h : ∀ k, k ≠ c → (t.tcbtab k).inUse = true → (t.tcbtab k).attached = true)
    (hadopt : t.adoptChild a i c bpt = .ok t') : AllAttached t' := by
  intro k hk
  by_cases hkc : k = c
  · rw [hkc]
    exact (adoptChild_new hadopt).2.1
  · have hfamily := (adoptChild_keep hadopt hkc).1
    have hatt : (t'.tcbtab k).attached = (t.tcbtab k).attached := congrArg Family.attached hfamily
    have huse : (t'.tcbtab k).inUse = (t.tcbtab k).inUse := congrArg Family.inUse hfamily
    rw [hatt]
    exact h k hkc (huse ▸ hk)

theorem Move.attached (hs : Sound t) (hm : Move i abrupt ph t t') (h : AllAttached t) : AllAttached t' := by
  cases hm with
  | own f hlinks hwaitpid hattached =>
    refine h.of_fields fun k hk => ⟨?_, modify_field ProcTcb.attached hattached⟩
    rwa [modify_field ProcTcb.inUse fun tcp => congrArg Links.inUse (hlinks tcp)] at hk
  | mark j f hcore =>
    refine h.of_fields fun k hk => ⟨?_, modify_field ProcTcb.attached fun tcp =>
      field_of_core ProcTcb.attached (fun _ => rfl) (hcore tcp)⟩
    rwa [modify_field ProcTcb.inUse fun tcp => field_of_core ProcTcb.inUse (fun _ => rfl) (hcore tcp)] at hk
  | log | options | code | expand | weird => exact h
  | wake j hsuspended hwhy hr =>
    obtain rfl := Except.ok.inj ((hs.resume_eq hsuspended).symm.trans hr)
    refine h.of_fields fun k hk => ?_
    rw [resumed_tcbtab hs] at hk ⊢
    exact ⟨hk, rfl⟩
  | spawn a bpt c pid hi hc hsize hpid hfresh hadopt =>
    refine AllAttached.adoptChild (fun k hkc hk => ?_) hadopt
    rw [enter_tcbtab, if_neg hkc] at hk ⊢
    exact h k hk
  | newborn a bpt c hi hc hsuspended hadopt =>
    refine (AllAttached.adoptChild (fun k _ => h k) hadopt).of_fields fun k hk => ⟨?_, ?_⟩
    · rwa [resumeNewborn_field ProcTcb.inUse (fun _ => rfl) fun _ _ => rfl] at hk
    · exact resumeNewborn_field ProcTcb.attached (fun _ => rfl) fun _ _ => rfl
  | announce a bpt c hi hc hawake hadopt => exact AllAttached.adoptChild (fun k _ => h k) hadopt
  | byLeader c p _ hp _ _ hci =>
    refine h.of_fields fun k hk => ?_
    rw [adoptByLeader_tcbtab hs hp hci] at hk ⊢
    exact ⟨hk, rfl⟩
  | byParent q c _ _ _ hcq =>
    refine h.of_fields fun k hk => ?_
    rw [adoptByParent_tcbtab hcq] at hk ⊢
    exact ⟨hk, rfl⟩
  | thread p c _ _ _ _ hpc =>
    refine h.of_fields fun k hk => ?_
    rw [becomeThread_tcbtab hpc] at hk ⊢
    exact ⟨hk, rfl⟩
  | suspend w =>
    refine h.of_fields fun k hk => ?_
    rw [suspend_tcbtab hs] at hk ⊢
    exact ⟨hk, rfl⟩
  | zombie j =>
    refine h.of_fields fun k hk => ⟨?_, modify_field ProcTcb.attached fun _ => rfl⟩
    simpa only [modify_tcbtab, apply_ite ProcTcb.inUse, ite_self] using hk
  | drop j =>
    refine h.of_fields fun k hk => ?_
    rw [dropOne_inUse] at hk
    split_ifs at hk with hkj
    exact ⟨hk, dropOne_field ProcTcb.attached (fun _ _ => rfl) hkj⟩

theorem Moves.attached (hs : Sound t) (hm : Moves i abrupt ph t t') (h : AllAttached t) : AllAttached t' := by
  induction hm with
  | refl => exact h
  | tail hmoves hmove ih => exact hmove.attached (Moves.sound hs hmoves) ih

theorem Pass.attached {code : Option ℤ} (hs : Sound t) (hp : Pass abrupt r t code t') (h : AllAttached t) :
    AllAttached t' := by
  cases hp with
  | born c hfresh hc hsize =>
    intro k hk
    by_cases hkc : k = c
    · rw [hkc, modify_self]
    · rw [modify_of_ne hkc, enter_tcbtab, if_neg hkc] at hk ⊢
      exact h k hk
  | ignored => exact h
  | handled i code t' hi hawake hh =>
    obtain ⟨-, t₁, hspawn, hclose, -⟩ := hh
    exact Moves.attached (Moves.sound hs hspawn) hclose (Moves.attached hs hspawn h)

/-! ## What `droptcb` leaves -/

/-- A process stays in the table as long as it has threads. -/
def Lingers (t : Tracer) (k : ℕ) : Prop :=
  (t.tcbtab k).inUse = true → (t.tcbtab k).exiting = true ∧ 0 < (t.tcbtab k).ncloneThreads

theorem Sound.droptcb_self (h : Sound t) (hk : (t.tcbtab k).inUse = true) : Lingers (t.droptcb k) k := by
  rw [h.droptcb_eq hk]
  split_ifs with hcount
  · intro _
    rw [modify_self]
    exact ⟨rfl, hcount⟩
  · have hgone : ((t.dropOne k).tcbtab k).inUse = false := by rw [dropOne_inUse, if_pos rfl]
    cases t.lastThreadOf k with
    | none => exact fun huse => absurd (hgone.symm.trans huse) (by decide)
    | some p =>
      intro huse
      rw [Option.elim_some, dropOne_inUse] at huse
      split_ifs at huse
      exact absurd (hgone.symm.trans huse) (by decide)

/-- The entry at `j` is the one it was, but may have fewer threads. -/
structure Stays (j : ℕ) (t t' : Tracer) : Prop where
  inUse : (t'.tcbtab j).inUse = (t.tcbtab j).inUse
  pid : (t'.tcbtab j).pid = (t.tcbtab j).pid
  exiting : (t'.tcbtab j).exiting = (t.tcbtab j).exiting

theorem dropOne_stays (h : j ≠ k) : Stays j t (t.dropOne k) where
  inUse := dropOne_field ProcTcb.inUse (fun _ _ => rfl) h
  pid := dropOne_field ProcTcb.pid (fun _ _ => rfl) h
  exiting := dropOne_field ProcTcb.exiting (fun _ _ => rfl) h

theorem Stays.trans (h : Stays j t t₁) (h' : Stays j t₁ t') : Stays j t t' :=
  ⟨h'.inUse.trans h.inUse, h'.pid.trans h.pid, h'.exiting.trans h.exiting⟩

theorem Stays.lingers (h : Stays j t t')
    (hthreads : 0 < (t.tcbtab j).ncloneThreads → (t.tcbtab j).exiting = true → 0 < (t'.tcbtab j).ncloneThreads)
    (hj : Lingers t j) : Lingers t' j := by
  intro huse
  obtain ⟨hexit, hpos⟩ := hj (h.inUse.symm.trans huse)
  exact ⟨h.exiting.trans hexit, hthreads hpos hexit⟩

/-- The other entries stay, except for that of a process whose last thread this was. -/
theorem Sound.droptcb_of_ne (h : Sound t) (hk : (t.tcbtab k).inUse = true) (hjk : j ≠ k) :
    (Stays j t (t.droptcb k) ∨ ((t.tcbtab j).exiting = true ∧ ((t.droptcb k).tcbtab j).inUse = false)) ∧
    (Lingers t j → Lingers (t.droptcb k) j) := by
  rw [h.droptcb_eq hk]
  split_ifs with hcount
  · have hstays : Stays j t (t.modify k fun tcp => { tcp with exiting := true }) := by
      constructor <;> rw [modify_of_ne hjk]
    refine ⟨.inl hstays, hstays.lingers fun hpos _ => ?_⟩
    rwa [modify_of_ne hjk]
  · cases hlast : t.lastThreadOf k with
    | none =>
      refine ⟨.inl (dropOne_stays hjk), (dropOne_stays hjk).lingers fun hpos hexit => ?_⟩
      rw [dropOne_ncloneThreads]
      split_ifs with hthread
      · -- another thread is left, or this one would have been the last
        have hone : (t.tcbtab j).ncloneThreads ≠ 1 := fun hone => by
          rw [lastThreadOf_eq_some.2 ⟨hthread, hone, hexit⟩] at hlast
          cases hlast
        omega
      · omega
    | some p =>
      obtain ⟨hthread, -, hpexit⟩ := lastThreadOf_eq_some.1 hlast
      rw [Option.elim_some]
      by_cases hjp : j = p
      · subst hjp
        have hgone : (((t.dropOne k).dropOne j).tcbtab j).inUse = false := by rw [dropOne_inUse, if_pos rfl]
        exact ⟨.inr ⟨hpexit, hgone⟩, fun _ huse => Bool.noConfusion (hgone.symm.trans huse)⟩
      · have hstays : Stays j t ((t.dropOne k).dropOne p) := (dropOne_stays hjk).trans (dropOne_stays hjp)
        refine ⟨.inl hstays, hstays.lingers fun hpos _ => ?_⟩
        -- this is no thread of `j`, and its leader is no thread
        have hk : ¬ t.IsThread j k := fun hj => hjp (Option.some.inj (hj.2.symm.trans hthread.2))
        have hp : ¬ (t.dropOne k).IsThread j p := fun hj => by
          obtain ⟨q, hq, -, hpthread, -⟩ := h.leader k hthread.1
          have hnot := hj.1
          rw [dropOne_cloneThread, if_neg (h.leader_ne hthread), Option.some.inj (hthread.2.symm.trans hq),
            hpthread] at hnot
          cases hnot
        rw [dropOne_ncloneThreads, if_neg hp, dropOne_ncloneThreads, if_neg hk]
        omega

/-- No process enters the table while others leave it. -/
theorem Moves.inUse_of_closing (hs : Sound t) (hm : Moves i abrupt .closing t t')
    (hk : (t'.tcbtab k).inUse = true) : (t.tcbtab k).inUse = true := by
  induction hm with
  | refl => exact hk
  | tail hmoves hmove ih =>
    refine ih ?_
    cases hmove with
    | own f hlinks => rwa [modify_field ProcTcb.inUse fun tcp => congrArg Links.inUse (hlinks tcp)] at hk
    | mark j f hcore =>
      rwa [modify_field ProcTcb.inUse fun tcp => field_of_core ProcTcb.inUse (fun _ => rfl) (hcore tcp)] at hk
    | log | options | code => exact hk
    | wake j hsuspended hwhy hr =>
      have hsound := Moves.sound hs hmoves
      obtain rfl := Except.ok.inj ((hsound.resume_eq hsuspended).symm.trans hr)
      rwa [resumed_tcbtab hsound] at hk
    | zombie j => simpa only [modify_tcbtab, apply_ite ProcTcb.inUse, ite_self] using hk
    | drop j =>
      rw [dropOne_inUse] at hk
      split_ifs at hk
      exact hk

/-! ## The loop of `cleanup` -/

/-- After `m` rounds of `cleanup` that began in `t₀`. -/
structure Swept (t₀ : Tracer) (m : ℕ) (t : Tracer) : Prop where
  sound : Sound t
  moves : Moves 0 True .closing t₀ t
  /-- what has been looked at is only kept for its threads -/
  done : ∀ j < m, Lingers t j
  /-- what has not been looked at is still there -/
  todo : ∀ j, m ≤ j → (t₀.tcbtab j).inUse = true → (t₀.tcbtab j).exiting = false →
    (t.tcbtab j).inUse = true ∧ (t.tcbtab j).pid = (t₀.tcbtab j).pid ∧ (t.tcbtab j).exiting = false
  told : ∃ l, t.log = l ++ t₀.log ∧ ∀ j < m, (t₀.tcbtab j).inUse = true → (t₀.tcbtab j).exiting = false →
    .request .detach (t₀.tcbtab j).pid 0 ∈ l ∧ stoppedIn t.log (t₀.tcbtab j).pid = false

theorem Swept.start (h : Sound t) : Swept t 0 t where
  sound := h
  moves := ReflTransGen.refl
  done _ hj := absurd hj (Nat.not_lt_zero _)
  todo _ _ huse hexit := ⟨huse, rfl, hexit⟩
  told := ⟨[], rfl, fun _ hj => absurd hj (Nat.not_lt_zero _)⟩

/-- **One round of `cleanup`.** -/
theorem detach_swept (hatt : AllAttached t₀) (hs₀ : Sound t₀) (h : Swept t₀ m t) (a : Answers) :
    Sat E (Swept t₀ (m + 1))
      (if (t.tcbtab m).inUse && (t.tcbtab m).attached then t.detach a m 0 else .ok t) := by
  split_ifs with hcond
  · rw [Bool.and_eq_true] at hcond
    refine Sat.mono (detach_spec h.sound a m 0) fun t' (ht' : ∃ t₁, Moves 0 True .closing t t₁ ∧ _ ∧ _) => ?_
    obtain ⟨t₁, hmoves, hdetaching, rfl⟩ := ht'
    have hs₁ := Moves.sound h.sound hmoves
    have hfield := fun {β : Type} (g : ProcTcb → β) (hcore : ∀ tcp : ProcTcb, g tcp.core = g tcp) hg (j : ℕ) =>
      hdetaching.field g hcore hg j
    have huse : ∀ j, (t₁.tcbtab j).inUse = (t.tcbtab j).inUse := hfield ProcTcb.inUse (fun _ => rfl) fun _ _ _ => rfl
    have hpid : ∀ j, (t₁.tcbtab j).pid = (t.tcbtab j).pid := hfield ProcTcb.pid (fun _ => rfl) fun _ _ _ => rfl
    have hexiting : ∀ j, (t₁.tcbtab j).exiting = (t.tcbtab j).exiting :=
      hfield ProcTcb.exiting (fun _ => rfl) fun _ _ _ => rfl
    have hthreads : ∀ j, (t₁.tcbtab j).ncloneThreads = (t.tcbtab j).ncloneThreads :=
      hfield ProcTcb.ncloneThreads (fun _ => rfl) fun _ _ _ => rfl
    have hm : (t₁.tcbtab m).inUse = true := (huse m).trans hcond.1
    have hdrop : Moves 0 True .closing t₁ (t₁.droptcb m) := droptcb_moves hs₁ (.inl trivial)
      (.inr (hpid m ▸ hdetaching.running)) (.inl trivial)
    refine ⟨Moves.sound hs₁ hdrop, h.moves.trans (hmoves.trans hdrop), fun j hj => ?_, fun j hj huse₀ hexit₀ => ?_, ?_⟩
    · rcases Nat.lt_succ_iff_lt_or_eq.1 hj with hj | rfl
      · refine (hs₁.droptcb_of_ne hm (Nat.ne_of_lt hj)).2 ?_
        rw [Lingers, huse, hexiting, hthreads]
        exact h.done j hj
      · exact hs₁.droptcb_self hm
    · obtain ⟨hjuse, hjpid, hjexit⟩ := h.todo j (Nat.le_of_succ_le hj) huse₀ hexit₀
      obtain hstays | ⟨hexit, -⟩ := (hs₁.droptcb_of_ne hm (Nat.ne_of_gt hj)).1
      · exact ⟨hstays.inUse.trans ((huse j).trans hjuse), hstays.pid.trans ((hpid j).trans hjpid),
          hstays.exiting.trans ((hexiting j).trans hjexit)⟩
      · exact absurd (hexit.symm.trans ((hexiting j).trans hjexit)) (by decide)
    · obtain ⟨l, hl, htold⟩ := h.told
      obtain ⟨l', hl'⟩ := hdetaching.log
      refine ⟨l' ++ [.request .detach (t.tcbtab m).pid 0] ++ l, ?_, fun j hj huse₀ hexit₀ => ?_⟩
      · rw [droptcb_log hs₁, ← hl', hl]
        simp
      · rw [droptcb_log hs₁]
        rcases Nat.lt_succ_iff_lt_or_eq.1 hj with hj | rfl
        · obtain ⟨hmem, hrunning⟩ := htold j hj huse₀ hexit₀
          exact ⟨List.mem_append_right _ hmem, hmoves.stoppedIn_eq_false h.sound hrunning⟩
        · rw [← (h.todo j le_rfl huse₀ hexit₀).2.1]
          exact ⟨by simp, hdetaching.running⟩
  · -- the entry has been free, or was given up together with the last thread of its process
    have hfree : (t.tcbtab m).inUse = false := by
      by_contra hnot
      have hm := Bool.eq_true_of_not_eq_false hnot
      exact hcond (by rw [hm, Moves.attached hs₀ h.moves hatt m hm, Bool.and_self])
    have hnone : (t₀.tcbtab m).inUse = true → (t₀.tcbtab m).exiting = false → False := fun huse₀ hexit₀ =>
      Bool.noConfusion (hfree.symm.trans (h.todo m le_rfl huse₀ hexit₀).1)
    refine ⟨h.sound, h.moves, fun j hj => ?_, fun j hj => h.todo j (Nat.le_of_succ_le hj), ?_⟩
    · rcases Nat.lt_succ_iff_lt_or_eq.1 hj with hj | rfl
      · exact h.done j hj
      · exact fun huse => Bool.noConfusion (hfree.symm.trans huse)
    · obtain ⟨l, hl, htold⟩ := h.told
      refine ⟨l, hl, fun j hj huse₀ hexit₀ => ?_⟩
      rcases Nat.lt_succ_iff_lt_or_eq.1 hj with hj | rfl
      · exact htold j hj huse₀ hexit₀
      · exact (hnone huse₀ hexit₀).elim

/-- What is only kept for its threads is not kept when all entries have been looked at: a thread has no threads. -/
theorem Sound.empty_of_lingers (h : Sound t) (hlingers : ∀ k, Lingers t k) (k : ℕ) : (t.tcbtab k).inUse = false := by
  by_contra hnot
  obtain ⟨-, hpos⟩ := hlingers k (Bool.eq_true_of_not_eq_false hnot)
  obtain ⟨j, hj⟩ := (h.threads k).exists_of_pos hpos
  exact h.not_pos_of_thread hj (hlingers j (h.inUse_of_cloneThread hj.1)).2

/-- **`cleanup` empties the table**, and it tells every process in it to go on without the tracer. -/
theorem cleanup_swept (h : Sound t) (hatt : AllAttached t) (a : Answers) :
    Sat E (fun t' => Swept t t.tcbtabsize t' ∧ ∀ k, (t'.tcbtab k).inUse = false) (t.cleanup a) := by
  refine Sat.mono (Sat.foldlM_range (I := Swept t) (Swept.start h) fun t' m _ hm => detach_swept hatt h hm a)
    fun t' ht' => ⟨ht', ht'.sound.empty_of_lingers fun k huse => ?_⟩
  exact ht'.done k (h.size k (Moves.inUse_of_closing h ht'.moves huse)) huse

end Tracer

end Ptu
