import Mathlib.Data.Finset.Lattice.Fold
import Ptu.Lib.WaitFor
import Ptu.Proof.TraceRuns

/-!
# Parents and children

What the entries say about the family of a process is right as long as there are no threads and no process in the
table has lost its parent. A process that has lost its parent still points at the entry, which is then given to
another process.

* `Kin`: each process in the table is counted by its parent, nobody is its own ancestor, and a process that is
  suspended in a wait has a child that it waits for.
* `trace_family`: this holds throughout every such run, in which no assertion fails.
* `trace_no_deadlock`: whoever waits, waits for a process that is running, or that waits for one.
-/

namespace Ptu

open Outcome Relation

namespace Tracer

/-- What an entry says about its family. -/
structure Family where
  inUse : Bool
  attached : Bool
  currentDir : Bool
  pid : ℤ
  waitpid : ℤ
  parent : Option ℕ
  nchildren : ℤ

end Tracer

def ProcTcb.family (tcp : ProcTcb) : Tracer.Family :=
  ⟨tcp.inUse, tcp.attached, tcp.currentDir, tcp.pid, tcp.waitpid, tcp.parent, tcp.nchildren⟩

namespace Tracer

variable {t t₁ t' : Tracer} {i j k p c : ℕ} {pid : ℤ} {a : Answers} {abrupt : Prop} {E : Fatal → Prop}
  {cfg : TraceConfig} {r : Report} {ph : Phase} {ws : List WaitResult}

/-- No process has lost its parent. -/
def Rooted (t : Tracer) : Prop := ∀ k p, (t.tcbtab k).parent = some p → (t.tcbtab p).inUse = true

/-- The families in the table are as they should be. -/
structure Kin (t : Tracer) : Prop where
  attached : ∀ k, (t.tcbtab k).inUse = true → (t.tcbtab k).attached = true
  /-- a process whose parent has not been heard of has not gone on since its first stop -/
  unborn : ∀ k, (t.tcbtab k).inUse = true → (t.tcbtab k).currentDir = false →
    (t.tcbtab k).suspended = true ∧ (t.tcbtab k).startup = true
  parents : ∀ k p, (t.tcbtab k).parent = some p → (t.tcbtab p).inUse = true → (t.tcbtab p).currentDir = true
  /-- nobody is its own ancestor -/
  ranked : ∃ rank : ℕ → ℕ, ∀ k p, (t.tcbtab k).parent = some p → (t.tcbtab p).inUse = true → rank p < rank k
  counted : ∀ p, (t.tcbtab p).inUse = true → Tally (fun k => (t.tcbtab k).parent = some p) (t.tcbtab p).nchildren
  /-- a process that is suspended in a wait has a child that it waits for -/
  awaited : ∀ k, (t.tcbtab k).suspended = true → (t.tcbtab k).currentDir = true →
    ∃ c, (t.tcbtab c).parent = some k ∧ ((t.tcbtab k).waitpid ≤ 0 ∨ (t.tcbtab c).pid = (t.tcbtab k).waitpid)

/-- Processes may be resumed, if they have been announced. -/
theorem Kin.relax (h : Kin t) (hfamily : ∀ k, (t'.tcbtab k).family = (t.tcbtab k).family)
    (hsuspended : ∀ k, (t'.tcbtab k).suspended = true → (t.tcbtab k).suspended = true)
    (hunborn : ∀ k, (t.tcbtab k).inUse = true → (t.tcbtab k).currentDir = false → (t.tcbtab k).suspended = true →
      (t.tcbtab k).startup = true → (t'.tcbtab k).suspended = true ∧ (t'.tcbtab k).startup = true) : Kin t' := by
  have huse : ∀ k, (t'.tcbtab k).inUse = (t.tcbtab k).inUse := fun k => congrArg Family.inUse (hfamily k)
  have hatt : ∀ k, (t'.tcbtab k).attached = (t.tcbtab k).attached := fun k => congrArg Family.attached (hfamily k)
  have hdir : ∀ k, (t'.tcbtab k).currentDir = (t.tcbtab k).currentDir :=
    fun k => congrArg Family.currentDir (hfamily k)
  have hpid : ∀ k, (t'.tcbtab k).pid = (t.tcbtab k).pid := fun k => congrArg Family.pid (hfamily k)
  have hwait : ∀ k, (t'.tcbtab k).waitpid = (t.tcbtab k).waitpid := fun k => congrArg Family.waitpid (hfamily k)
  have hpar : ∀ k, (t'.tcbtab k).parent = (t.tcbtab k).parent := fun k => congrArg Family.parent (hfamily k)
  have hn : ∀ k, (t'.tcbtab k).nchildren = (t.tcbtab k).nchildren := fun k => congrArg Family.nchildren (hfamily k)
  constructor
  · intro k hk
    rw [hatt]
    exact h.attached k (huse k ▸ hk)
  · intro k hk hkdir
    rw [huse] at hk
    rw [hdir] at hkdir
    obtain ⟨hs, hstart⟩ := h.unborn k hk hkdir
    exact hunborn k hk hkdir hs hstart
  · intro k p hp hpuse
    rw [hpar] at hp
    rw [hdir]
    exact h.parents k p hp (huse p ▸ hpuse)
  · obtain ⟨rank, hrank⟩ := h.ranked
    refine ⟨rank, fun k p hp hpuse => hrank k p (hpar k ▸ hp) (huse p ▸ hpuse)⟩
  · intro p hp
    rw [hn]
    exact (h.counted p (huse p ▸ hp)).congr fun k => by rw [hpar]
  · intro k hk hkdir
    obtain ⟨c, hc, hmatch⟩ := h.awaited k (hsuspended k hk) (hdir k ▸ hkdir)
    refine ⟨c, ?_⟩
    rw [hpar, hwait, hpid]
    exact ⟨hc, hmatch⟩

theorem Rooted.of_family (h : Rooted t) (hfamily : ∀ k, (t'.tcbtab k).family = (t.tcbtab k).family) : Rooted t' := by
  intro k p hp
  have hpar : (t'.tcbtab k).parent = (t.tcbtab k).parent := congrArg Family.parent (hfamily k)
  have huse : (t'.tcbtab p).inUse = (t.tcbtab p).inUse := congrArg Family.inUse (hfamily p)
  rw [huse]
  exact h k p (hpar ▸ hp)

/-! ## A process becomes a child of another one -/

/-- The process at `c`, which has no children, becomes a child of the process at `i`. -/
theorem Kin.adopt (h : Kin t) (hroot : Rooted t) (hci : c ≠ i) (hi : (t.tcbtab i).inUse = true)
    (hidir : (t.tcbtab i).currentDir = true) (hcparent : (t.tcbtab c).parent = none)
    (hchildless : ∀ k, (t.tcbtab k).parent ≠ some c)
    (hkeep : ∀ k, k ≠ c → (t'.tcbtab k).family = { (t.tcbtab k).family with
        nchildren := (t.tcbtab k).nchildren + if k = i then 1 else 0 } ∧
      (t'.tcbtab k).suspended = (t.tcbtab k).suspended ∧ (t'.tcbtab k).startup = (t.tcbtab k).startup)
    (hnew : (t'.tcbtab c).inUse = true ∧ (t'.tcbtab c).attached = true ∧ (t'.tcbtab c).currentDir = true ∧
      (t'.tcbtab c).parent = some i ∧ (t'.tcbtab c).suspended = false ∧ (t'.tcbtab c).nchildren = 0) :
    Kin t' ∧ (t'.tcbtab i).currentDir = true ∧ Rooted t' := by
  obtain ⟨hcuse, hcatt, hcdir, hcpar, hcsusp, hcn⟩ := hnew
  have huse : ∀ k, k ≠ c → (t'.tcbtab k).inUse = (t.tcbtab k).inUse :=
    fun k hk => congrArg Family.inUse (hkeep k hk).1
  have hdir : ∀ k, k ≠ c → (t'.tcbtab k).currentDir = (t.tcbtab k).currentDir :=
    fun k hk => congrArg Family.currentDir (hkeep k hk).1
  have hpar : ∀ k, k ≠ c → (t'.tcbtab k).parent = (t.tcbtab k).parent :=
    fun k hk => congrArg Family.parent (hkeep k hk).1
  have hparent : ∀ k p, (t'.tcbtab k).parent = some p → (k = c ∧ p = i) ∨
      (k ≠ c ∧ p ≠ c ∧ (t.tcbtab k).parent = some p) := by
    intro k p hp
    by_cases hk : k = c
    · rw [hk, hcpar] at hp
      exact .inl ⟨hk, (Option.some.inj hp).symm⟩
    · rw [hpar k hk] at hp
      refine .inr ⟨hk, ?_, hp⟩
      rintro rfl
      exact hchildless k hp
  refine ⟨⟨?_, ?_, ?_, ?_, ?_, ?_⟩, (hdir i hci.symm).trans hidir, ?_⟩
  · intro k hk
    by_cases hkc : k = c
    · rw [hkc, hcatt]
    · have hatt : (t'.tcbtab k).attached = (t.tcbtab k).attached := congrArg Family.attached (hkeep k hkc).1
      rw [hatt]
      exact h.attached k (huse k hkc ▸ hk)
  · intro k hk hkdir
    have hkc : k ≠ c := by
      rintro rfl
      exact Bool.noConfusion (hcdir.symm.trans hkdir)
    rw [(hkeep k hkc).2.1, (hkeep k hkc).2.2]
    exact h.unborn k (huse k hkc ▸ hk) (hdir k hkc ▸ hkdir)
  · intro k p hp hpuse
    obtain ⟨-, rfl⟩ | ⟨-, hpc, hp⟩ := hparent k p hp
    · rw [hdir p hci.symm, hidir]
    · rw [hdir p hpc]
      exact h.parents k p hp (huse p hpc ▸ hpuse)
  · obtain ⟨rank, hrank⟩ := h.ranked
    -- the child comes right after its parent
    refine ⟨Function.update rank c (rank i + 1), fun k p hp hpuse => ?_⟩
    obtain ⟨rfl, rfl⟩ | ⟨hkc, hpc, hp⟩ := hparent k p hp
    · rw [Function.update_self, Function.update_of_ne hci.symm]
      omega
    · rw [Function.update_of_ne hkc, Function.update_of_ne hpc]
      exact hrank k p hp (huse p hpc ▸ hpuse)
  · intro p hpuse
    by_cases hpc : p = c
    · subst hpc
      rw [hcn]
      refine Tally.zero fun k hk => ?_
      obtain ⟨-, hpi⟩ | ⟨-, hne, -⟩ := hparent k p hk
      · exact hci hpi
      · exact hne rfl
    · have hold := h.counted p (huse p hpc ▸ hpuse)
      have hn : (t'.tcbtab p).nchildren = (t.tcbtab p).nchildren + if p = i then 1 else 0 :=
        congrArg Family.nchildren (hkeep p hpc).1
      rw [hn]
      by_cases hpi : p = i
      · rw [if_pos hpi]
        refine hold.add (i := c) (by rw [hcparent]; simp) fun k => ⟨fun hk => ?_, ?_⟩
        · obtain ⟨hkc, -⟩ | ⟨-, -, hp⟩ := hparent k p hk
          · exact .inl hkc
          · exact .inr hp
        · rintro (rfl | hk)
          · rw [hcpar, hpi]
          · rw [hpar k (by rintro rfl; simp [hcparent] at hk), hk]
      · rw [if_neg hpi, Int.add_zero]
        refine hold.congr fun k => ⟨fun hk => ?_, fun hk => ?_⟩
        · obtain ⟨-, heq⟩ | ⟨-, -, hp⟩ := hparent k p hk
          · exact absurd heq hpi
          · exact hp
        · rw [hpar k (by rintro rfl; simp [hcparent] at hk), hk]
  · intro k hk hkdir
    have hkc : k ≠ c := by
      rintro rfl
      exact Bool.noConfusion (hcsusp.symm.trans hk)
    obtain ⟨d, hd, hmatch⟩ := h.awaited k ((hkeep k hkc).2.1 ▸ hk) (hdir k hkc ▸ hkdir)
    have hdc : d ≠ c := by
      rintro rfl
      simp [hcparent] at hd
    have hwait : (t'.tcbtab k).waitpid = (t.tcbtab k).waitpid := congrArg Family.waitpid (hkeep k hkc).1
    have hdpid : (t'.tcbtab d).pid = (t.tcbtab d).pid := congrArg Family.pid (hkeep d hdc).1
    refine ⟨d, ?_⟩
    rw [hpar d hdc, hwait, hdpid]
    exact ⟨hd, hmatch⟩
  · intro k p hp
    obtain ⟨-, rfl⟩ | ⟨-, hpc, hp⟩ := hparent k p hp
    · rw [huse p hci.symm, hi]
    · rw [huse p hpc]
      exact hroot k p hp

/-- A new child with `CLONE_PARENT` goes to its grandparent. -/
theorem Kin.adoptByParent (h : Kin t) (hroot : Rooted t) {q : ℕ} (hq : (t.tcbtab q).inUse = true)
    (hparent : (t.tcbtab c).parent = some q) (hcq : c ≠ q) (hawake : (t.tcbtab q).suspended = false) :
    Kin (t.adoptByParent q c) ∧ Rooted (t.adoptByParent q c) := by
  have htcb := fun k => adoptByParent_tcbtab (t := t) (j := k) hcq
  have hpar : ∀ k, ((t.adoptByParent q c).tcbtab k).parent =
      if k = c then (t.tcbtab q).parent else (t.tcbtab k).parent := fun k => by rw [htcb]
  have hkin : ∀ k, ((t.adoptByParent q c).tcbtab k).inUse = (t.tcbtab k).inUse ∧
      ((t.adoptByParent q c).tcbtab k).currentDir = (t.tcbtab k).currentDir ∧
      ((t.adoptByParent q c).tcbtab k).suspended = (t.tcbtab k).suspended := fun k => by
    rw [htcb]
    exact ⟨rfl, rfl, rfl⟩
  -- the new parent is in the table, and above the old one
  have hup : ∀ k p, ((t.adoptByParent q c).tcbtab k).parent = some p →
      (t.tcbtab k).parent = some p ∨ (k = c ∧ (t.tcbtab q).parent = some p) := by
    intro k p hp
    rw [hpar] at hp
    split_ifs at hp with hk
    · exact .inr ⟨hk, hp⟩
    · exact .inl hp
  refine ⟨⟨?_, ?_, ?_, ?_, ?_, ?_⟩, ?_⟩
  · intro k hk
    rw [htcb] at hk ⊢
    exact h.attached k hk
  · intro k hk hkdir
    rw [htcb] at hk hkdir ⊢
    exact h.unborn k hk hkdir
  · intro k p hp hpuse
    rw [(hkin p).1] at hpuse
    rw [(hkin p).2.1]
    obtain hp | ⟨-, hp⟩ := hup k p hp
    · exact h.parents k p hp hpuse
    · exact h.parents q p hp hpuse
  · obtain ⟨rank, hrank⟩ := h.ranked
    refine ⟨rank, fun k p hp hpuse => ?_⟩
    rw [(hkin p).1] at hpuse
    obtain hold | ⟨rfl, hnew⟩ := hup k p hp
    · exact hrank k p hold hpuse
    · exact (hrank q p hnew hpuse).trans (hrank k q hparent hq)
  · intro p hp
    rw [(hkin p).1] at hp
    have hn : ((t.adoptByParent q c).tcbtab p).nchildren = (t.tcbtab p).nchildren -
        (if (t.tcbtab c).parent = some p then 1 else 0) +
        if ((t.adoptByParent q c).tcbtab c).parent = some p then 1 else 0 := by
      rw [hpar, if_pos rfl, htcb, hparent]
      simp only [Option.some.injEq, eq_comm]
    rw [hn]
    exact (h.counted p hp).update fun k hk => by rw [hpar, if_neg hk]
  · intro k hk hkdir
    rw [(hkin k).2.2] at hk
    rw [(hkin k).2.1] at hkdir
    obtain ⟨d, hd, hmatch⟩ := h.awaited k hk hkdir
    have hdc : d ≠ c := by
      rintro rfl
      rw [← Option.some.inj (hparent.symm.trans hd), hawake] at hk
      cases hk
    refine ⟨d, ?_⟩
    rw [hpar, if_neg hdc, htcb, htcb]
    exact ⟨hd, hmatch⟩
  · intro k p hp
    rw [(hkin p).1]
    obtain hp | ⟨-, hp⟩ := hup k p hp
    · exact hroot k p hp
    · exact hroot q p hp

/-! ## A process waits, ends, or turns up -/

theorem exists_of_mustBlock {w : ℕ} (hblock : t.mustBlock i w = true) (htarget : 0 < ((t.tcbtab i).uArg 0).toInt) :
    ∃ c, t.pid2tcb ((t.tcbtab i).uArg 0).toCInt = some c ∧ (t.tcbtab c).parent = some w := by
  simp only [mustBlock] at hblock
  by_cases hzombies : 0 < (t.tcbtab i).nzombies ∧
      ((t.tcbtab i).uArg 0 = -1 ∨ t.pid2tcb ((t.tcbtab i).uArg 0).toCInt = none)
  · rw [if_pos hzombies] at hblock
    cases hblock
  · rw [if_neg hzombies, if_pos htarget] at hblock
    cases hfind : t.pid2tcb ((t.tcbtab i).uArg 0).toCInt with
    | none =>
      rw [hfind] at hblock
      cases hblock
    | some c =>
      simp only [hfind, Bool.and_eq_true, beq_iff_eq] at hblock
      exact ⟨c, rfl, hblock.1⟩

/-- **A process that is suspended has a child that it waits for.** -/
theorem Kin.suspend (h : Kin t) (hs : Sound t) (hthreads : NoThreads t) {w : ℕ} (hw : t.waiter i = .ok w)
    (hkids : (t.tcbtab w).ncloneThreads < (t.tcbtab w).nchildren) (hblock : t.mustBlock i w = true)
    (hi : (t.tcbtab i).inUse = true) (hidir : (t.tcbtab i).currentDir = true)
    (harg : ((t.tcbtab i).uArg 0).toInt ≤ 0 → ((t.tcbtab i).uArg 0).toCInt ≤ 0) : Kin (t.suspend i) := by
  obtain rfl : i = w := by
    rw [waiter, hthreads i] at hw
    exact Except.ok.inj hw
  have htcb := fun k => suspend_tcbtab (i := i) (j := k) hs
  have hwait : ((t.suspend i).tcbtab i).waitpid = ((t.tcbtab i).uArg 0).toCInt := by
    rw [htcb]
    exact if_pos rfl
  constructor
  · intro k hk
    rw [htcb] at hk ⊢
    exact h.attached k hk
  · intro k hk hkdir
    rw [htcb] at hk hkdir ⊢
    have hki : k ≠ i := by
      rintro rfl
      exact Bool.noConfusion (hidir.symm.trans hkdir)
    simp only [if_neg hki]
    exact h.unborn k hk hkdir
  · intro k p hp hpuse
    rw [htcb] at hp hpuse ⊢
    exact h.parents k p hp hpuse
  · obtain ⟨rank, hrank⟩ := h.ranked
    refine ⟨rank, fun k p hp hpuse => ?_⟩
    rw [htcb] at hp hpuse
    exact hrank k p hp hpuse
  · intro p hp
    rw [htcb] at hp ⊢
    exact (h.counted p hp).congr fun k => by rw [htcb]
  · intro k hk hkdir
    by_cases hki : k = i
    · subst hki
      rw [hwait]
      have hchild : ∃ c, (t.tcbtab c).parent = some k ∧
          (((t.tcbtab k).uArg 0).toCInt ≤ 0 ∨ (t.tcbtab c).pid = ((t.tcbtab k).uArg 0).toCInt) := by
        by_cases htarget : 0 < ((t.tcbtab k).uArg 0).toInt
        · -- it waits for one child, which is in the table
          obtain ⟨c, hfind, hc⟩ := exists_of_mustBlock hblock htarget
          exact ⟨c, hc, .inr (hs.pid2tcb_eq_some.1 hfind).2⟩
        · have hpos : 0 < (t.tcbtab k).nchildren := lt_of_le_of_lt (hs.threads k).nonneg hkids
          obtain ⟨c, hc⟩ := (h.counted k hi).exists_of_pos hpos
          exact ⟨c, hc, .inl (harg (not_lt.1 htarget))⟩
      obtain ⟨c, hc, hmatch⟩ := hchild
      refine ⟨c, ?_⟩
      rw [htcb c]
      exact ⟨hc, hmatch⟩
    · rw [htcb] at hk hkdir
      simp only [if_neg hki] at hk
      obtain ⟨c, hc, hmatch⟩ := h.awaited k hk hkdir
      refine ⟨c, ?_⟩
      rw [htcb c, htcb k]
      simp only [if_neg hki]
      exact ⟨hc, hmatch⟩

/-- **A process that waits keeps a child that it waits for** when another process ends. -/
theorem Kin.dropOne (h : Kin t) (hk : ∀ p, (t.tcbtab k).parent = some p → t.parentAwaits k p = false) :
    Kin (t.dropOne k) := by
  have hof : ∀ j, ((t.dropOne k).tcbtab j).inUse = true → j ≠ k ∧ (t.tcbtab j).inUse = true := by
    intro j hj
    rw [dropOne_inUse] at hj
    split_ifs at hj with hjk
    exact ⟨hjk, hj⟩
  have hpar : ∀ j p, ((t.dropOne k).tcbtab j).parent = some p ↔ j ≠ k ∧ (t.tcbtab j).parent = some p := by
    intro j p
    rw [dropOne_parent]
    split_ifs with hjk
    · simp [hjk]
    · simp [hjk]
  constructor
  · intro j hj
    obtain ⟨hjk, hj⟩ := hof j hj
    rw [dropOne_field ProcTcb.attached (fun _ _ => rfl) hjk]
    exact h.attached j hj
  · intro j hj hjdir
    obtain ⟨hjk, hj⟩ := hof j hj
    rw [dropOne_field ProcTcb.currentDir (fun _ _ => rfl) hjk] at hjdir
    rw [dropOne_field ProcTcb.suspended (fun _ _ => rfl) hjk, dropOne_field ProcTcb.startup (fun _ _ => rfl) hjk]
    exact h.unborn j hj hjdir
  · intro j p hp hpuse
    obtain ⟨hpk, hpuse⟩ := hof p hpuse
    rw [dropOne_field ProcTcb.currentDir (fun _ _ => rfl) hpk]
    exact h.parents j p ((hpar j p).1 hp).2 hpuse
  · obtain ⟨rank, hrank⟩ := h.ranked
    exact ⟨rank, fun j p hp hpuse => hrank j p ((hpar j p).1 hp).2 (hof p hpuse).2⟩
  · intro p hpuse
    obtain ⟨hpk, hpuse⟩ := hof p hpuse
    have hold := h.counted p hpuse
    rw [dropOne_nchildren]
    by_cases hparent : (t.tcbtab k).parent = some p
    · rw [if_pos hparent]
      exact hold.remove hparent fun j => hpar j p
    · rw [if_neg hparent, Int.sub_zero]
      refine hold.congr fun j => (hpar j p).trans ⟨And.right, fun hj => ⟨?_, hj⟩⟩
      rintro rfl
      exact hparent hj
  · intro j hj hjdir
    rw [dropOne_suspended] at hj
    split_ifs at hj with hjk
    rw [dropOne_field ProcTcb.currentDir (fun _ _ => rfl) hjk] at hjdir
    obtain ⟨c, hc, hmatch⟩ := h.awaited j hj hjdir
    have hck : c ≠ k := by
      rintro rfl
      have hawaits := hk j hc
      rw [parentAwaits, hj, Bool.true_and, Bool.or_eq_false_iff, decide_eq_false_iff_not, beq_eq_false_iff_ne]
        at hawaits
      obtain hle | heq := hmatch
      · exact hawaits.1 hle
      · exact hawaits.2 heq.symm
    refine ⟨c, (hpar c j).2 ⟨hck, hc⟩, ?_⟩
    rw [dropOne_field ProcTcb.waitpid (fun _ _ => rfl) hjk, dropOne_field ProcTcb.pid (fun _ _ => rfl) hck]
    exact hmatch

/-- A process that is not known yet is nobody's child, and has no children. -/
theorem Kin.born (h : Kin t) (hs : Sound t) (hroot : Rooted t) (hc : (t.tcbtab c).inUse = false) :
    Kin ((t.enter c pid).modify c fun tcp => { tcp with attached := true, suspended := true }) := by
  obtain ⟨t', ht'⟩ : ∃ t', ((t.enter c pid).modify c fun tcp =>
      { tcp with attached := true, suspended := true }) = t' :=
    ⟨_, rfl⟩
  have hnew : t'.tcbtab c = { initTcb pid (t.tcbtab c) with attached := true, suspended := true } := by
    rw [← ht', modify_self, enter_tcbtab, if_pos rfl]
  have hkeep : ∀ k, k ≠ c → t'.tcbtab k = t.tcbtab k := fun k hk => by
    rw [← ht', modify_of_ne hk, enter_tcbtab, if_neg hk]
  have hcparent : (t.tcbtab c).parent = none := (hs.free c hc).2.2.1
  have hpar : ∀ k, (t'.tcbtab k).parent = (t.tcbtab k).parent := fun k => by
    by_cases hk : k = c
    · rw [hk, hnew, hcparent]
      rfl
    · rw [hkeep k hk]
  have hne : ∀ k p, (t.tcbtab k).parent = some p → p ≠ c := by
    rintro k p hp rfl
    exact Bool.noConfusion (hc.symm.trans (hroot k p hp))
  rw [ht']
  constructor
  · intro k hk
    by_cases hkc : k = c
    · rw [hkc, hnew]
    · rw [hkeep k hkc] at hk ⊢
      exact h.attached k hk
  · intro k hk hkdir
    by_cases hkc : k = c
    · rw [hkc, hnew]
      exact ⟨rfl, rfl⟩
    · rw [hkeep k hkc] at hk hkdir ⊢
      exact h.unborn k hk hkdir
  · intro k p hp hpuse
    rw [hpar] at hp
    rw [hkeep p (hne k p hp)] at hpuse ⊢
    exact h.parents k p hp hpuse
  · obtain ⟨rank, hrank⟩ := h.ranked
    refine ⟨rank, fun k p hp hpuse => ?_⟩
    rw [hpar] at hp
    rw [hkeep p (hne k p hp)] at hpuse
    exact hrank k p hp hpuse
  · intro p hp
    by_cases hpc : p = c
    · subst hpc
      rw [hnew]
      exact Tally.zero fun k hk => hne k p (hpar k ▸ hk) rfl
    · rw [hkeep p hpc] at hp ⊢
      exact (h.counted p hp).congr fun k => by rw [hpar]
  · intro k hk hkdir
    have hkc : k ≠ c := by
      rintro rfl
      rw [hnew] at hkdir
      cases hkdir
    rw [hkeep k hkc] at hk hkdir ⊢
    obtain ⟨d, hd, hmatch⟩ := h.awaited k hk hkdir
    have hdc : d ≠ c := by
      rintro rfl
      rw [hcparent] at hd
      cases hd
    refine ⟨d, ?_⟩
    rw [hkeep d hdc]
    exact ⟨hd, hmatch⟩

/-! ## Every move keeps the families -/

theorem adoptChild_keep {bpt : Bool} (h : t.adoptChild a i c bpt = .ok t') (hk : k ≠ c) :
    (t'.tcbtab k).family = { (t.tcbtab k).family with
        nchildren := (t.tcbtab k).nchildren + if k = i then 1 else 0 } ∧
      (t'.tcbtab k).suspended = (t.tcbtab k).suspended ∧ (t'.tcbtab k).startup = (t.tcbtab k).startup := by
  obtain ⟨-, -, hcore, -⟩ := adoptChild_spec h
  refine ⟨?_, adoptChild_field ProcTcb.suspended (fun _ => rfl) (fun _ => rfl) h,
    adoptChild_field ProcTcb.startup (fun _ => rfl) (fun _ => rfl) h⟩
  rw [field_of_core ProcTcb.family (fun _ => rfl) (hcore k), adopted, if_neg hk, if_neg hk, if_neg hk]
  rfl

theorem adoptChild_new {bpt : Bool} (h : t.adoptChild a i c bpt = .ok t') :
    (t'.tcbtab c).inUse = (t.tcbtab c).inUse ∧ (t'.tcbtab c).attached = true ∧ (t'.tcbtab c).currentDir = true ∧
      (t'.tcbtab c).parent = some i ∧ (t'.tcbtab c).suspended = (t.tcbtab c).suspended ∧
      (t'.tcbtab c).nchildren = (t.tcbtab c).nchildren := by
  obtain ⟨hcdir, hidir, hcore, -⟩ := adoptChild_spec h
  have hci : c ≠ i := by
    rintro rfl
    exact Bool.noConfusion (hcdir.symm.trans hidir)
  have hfamily : (t'.tcbtab c).family = (adopted i c c (t.tcbtab c)).family :=
    field_of_core ProcTcb.family (fun _ => rfl) (hcore c)
  simp only [adopted, if_true, if_neg hci, Int.add_zero, ProcTcb.family, Family.mk.injEq] at hfamily
  obtain ⟨huse, hatt, hdir, -, -, hpar, hn⟩ := hfamily
  exact ⟨huse, hatt, hdir, hpar, adoptChild_field ProcTcb.suspended (fun _ => rfl) (fun _ => rfl) h, hn⟩

/-- A process that has waited for its parent becomes a child of it. -/
theorem Kin.newborn (h : Kin t) (hs : Sound t) (hroot : Rooted t) {bpt : Bool} (hi : (t.tcbtab i).inUse = true)
    (hc : (t.tcbtab c).inUse = true) (hadopt : t.adoptChild a i c bpt = .ok t₁) :
    Kin (t₁.resumeNewborn a c bpt) ∧ ((t₁.resumeNewborn a c bpt).tcbtab i).currentDir = true ∧
      Rooted (t₁.resumeNewborn a c bpt) := by
  obtain ⟨hcdir, hidir, -⟩ := adoptChild_spec hadopt
  have hci : c ≠ i := by
    rintro rfl
    exact Bool.noConfusion (hcdir.symm.trans hidir)
  -- it has not been announced, so it has neither a parent nor children
  have hchildless : ∀ k, (t.tcbtab k).parent ≠ some c :=
    fun k hk => Bool.noConfusion (hcdir.symm.trans (h.parents k c hk hc))
  have hnone : (t.tcbtab c).nchildren = 0 := (h.counted c hc).eq_zero_iff.2 hchildless
  have hfamily : ∀ k, ((t₁.resumeNewborn a c bpt).tcbtab k).family = (t₁.tcbtab k).family :=
    fun k => resumeNewborn_field ProcTcb.family (fun _ => rfl) fun _ _ => rfl
  obtain ⟨huse, hatt, hdir, hpar, -, hn⟩ := adoptChild_new hadopt
  refine h.adopt hroot hci hi hidir (hs.unborn c hcdir) hchildless (fun k hk => ?_) ⟨?_, ?_, ?_, ?_, ?_, ?_⟩
  · obtain ⟨hfam, hsusp, hstart⟩ := adoptChild_keep hadopt hk
    rw [hfamily, resumeNewborn_suspended, resumeNewborn_startup, if_neg hk, if_neg hk]
    exact ⟨hfam, hsusp, hstart⟩
  · exact (congrArg Family.inUse (hfamily c)).trans (huse.trans hc)
  · exact (congrArg Family.attached (hfamily c)).trans hatt
  · exact (congrArg Family.currentDir (hfamily c)).trans hdir
  · exact (congrArg Family.parent (hfamily c)).trans hpar
  · rw [resumeNewborn_suspended, if_pos rfl]
  · exact (congrArg Family.nchildren (hfamily c)).trans (hn.trans hnone)

/-- The families while a report of the process at `i` is handled. As long as processes are entered, none has lost its
parent. -/
structure KinIn (i : ℕ) (ph : Phase) (t : Tracer) : Prop where
  kin : Kin t
  self : (t.tcbtab i).inUse = true → (t.tcbtab i).currentDir = true
  rooted : ph = .spawning → Rooted t

theorem KinIn.relax (h : KinIn i ph t) (hfamily : ∀ k, (t'.tcbtab k).family = (t.tcbtab k).family)
    (hsuspended : ∀ k, (t'.tcbtab k).suspended = true → (t.tcbtab k).suspended = true)
    (hunborn : ∀ k, (t.tcbtab k).inUse = true → (t.tcbtab k).currentDir = false → (t.tcbtab k).suspended = true →
      (t.tcbtab k).startup = true → (t'.tcbtab k).suspended = true ∧ (t'.tcbtab k).startup = true) : KinIn i ph t' := by
  refine ⟨h.kin.relax hfamily hsuspended hunborn, fun hi => ?_, fun hph => (h.rooted hph).of_family hfamily⟩
  have huse := congrArg Family.inUse (hfamily i)
  have hdir := congrArg Family.currentDir (hfamily i)
  exact hdir.trans (h.self (huse.symm.trans hi))

/-- **Every move keeps the families.** -/
theorem Move.kin (hs : Sound t) (hthreads : NoThreads t) (hm : Move i False ph t t') (h : KinIn i ph t) :
    KinIn i ph t' := by
  cases hm with
  | own f hlinks hwaitpid hattached =>
    have hfamily : ∀ k, ((t.modify i f).tcbtab k).family = (t.tcbtab k).family := fun k =>
      modify_field ProcTcb.family fun tcp => by
        have hl := hlinks tcp
        simp only [ProcTcb.links, Links.mk.injEq] at hl
        simp only [ProcTcb.family, hl, hwaitpid, hattached]
    have hsusp : ∀ k, ((t.modify i f).tcbtab k).suspended = (t.tcbtab k).suspended :=
      fun k => modify_field ProcTcb.suspended fun tcp => congrArg Links.suspended (hlinks tcp)
    refine h.relax hfamily (fun k hk => hsusp k ▸ hk) fun k hk hkdir hks hstart => ?_
    -- the process itself has been announced
    have hki : k ≠ i := by
      rintro rfl
      exact Bool.noConfusion ((h.self hk).symm.trans hkdir)
    rw [modify_of_ne hki]
    exact ⟨hks, hstart⟩
  | mark j f hcore =>
    have hsusp : ∀ k, ((t.modify j f).tcbtab k).suspended = (t.tcbtab k).suspended := fun k =>
      modify_field ProcTcb.suspended fun tcp => field_of_core ProcTcb.suspended (fun _ => rfl) (hcore tcp)
    have hstartup : ∀ k, ((t.modify j f).tcbtab k).startup = (t.tcbtab k).startup := fun k =>
      modify_field ProcTcb.startup fun tcp => field_of_core ProcTcb.startup (fun _ => rfl) (hcore tcp)
    refine h.relax (fun k => modify_field ProcTcb.family fun tcp =>
      field_of_core ProcTcb.family (fun _ => rfl) (hcore tcp)) (fun k hk => hsusp k ▸ hk) fun k _ _ hks hstart => ?_
    rw [hsusp, hstartup]
    exact ⟨hks, hstart⟩
  | log | options | code | expand | weird =>
    exact h.relax (fun _ => rfl) (fun _ hk => hk) fun _ _ _ hks hstart => ⟨hks, hstart⟩
  | wake j hsuspended hwhy hr =>
    obtain rfl := Except.ok.inj ((hs.resume_eq hsuspended).symm.trans hr)
    refine h.relax (fun k => by rw [resumed_tcbtab hs]; rfl) (fun k hk => ?_) fun k hk hkdir hks hstart => ?_
    · rw [resumed_tcbtab hs] at hk
      by_cases hkj : k = j
      · exact hkj ▸ hsuspended
      · exact (if_neg hkj).symm.trans hk
    · -- a process with a child has been announced
      have hkj : k ≠ j := by
        rintro rfl
        obtain ⟨d, hd⟩ | hthread := hwhy
        · exact Bool.noConfusion ((h.kin.parents d k hd hk).symm.trans hkdir)
        · exact Bool.noConfusion (hthread.symm.trans (hthreads k))
      rw [resumed_tcbtab hs, if_neg hkj]
      exact ⟨hks, hstart⟩
  | spawn a bpt c pid hi hc hsize hpid hfresh hadopt =>
    have hroot := h.rooted rfl
    obtain ⟨-, hidir, hcore, -⟩ := adoptChild_spec hadopt
    have hci : c ≠ i := by
      rintro rfl
      exact Bool.noConfusion (hc.symm.trans hi)
    have hnew : (t.enter c pid).tcbtab c = initTcb pid (t.tcbtab c) := by rw [enter_tcbtab, if_pos rfl]
    have hkeep : ∀ k, k ≠ c → (t.enter c pid).tcbtab k = t.tcbtab k := fun k hk => by rw [enter_tcbtab, if_neg hk]
    obtain ⟨huse, hatt, hdir, hpar, hsusp, hn⟩ := adoptChild_new hadopt
    rw [hnew] at huse hsusp hn
    obtain ⟨hkin, hself, hroot'⟩ := h.kin.adopt hroot hci hi (h.self hi) (hs.free c hc).2.2.1
      (fun k hk => Bool.noConfusion (hc.symm.trans (hroot k c hk)))
      (fun k hk => hkeep k hk ▸ adoptChild_keep hadopt hk) ⟨huse, hatt, hdir, hpar, hsusp, hn⟩
    exact ⟨hkin, fun _ => hself, fun _ => hroot'⟩
  | newborn a bpt c hi hc hsuspended hadopt =>
    obtain ⟨hkin, hself, hroot⟩ := h.kin.newborn hs (h.rooted rfl) hi hc hadopt
    exact ⟨hkin, fun _ => hself, fun _ => hroot⟩
  | announce a bpt c hi hc hawake hadopt =>
    -- a process that has not been announced is suspended
    obtain ⟨hcdir, -⟩ := adoptChild_spec hadopt
    exact Bool.noConfusion (hawake.symm.trans (h.kin.unborn c hc hcdir).1)
  | byLeader c p habrupt => exact habrupt.elim
  | byParent q c hq hparent hthread hcq hawake =>
    obtain ⟨hkin, hroot⟩ := h.kin.adoptByParent (h.rooted rfl) hq hparent hcq (hawake.resolve_left id)
    refine ⟨hkin, fun hi => ?_, fun _ => hroot⟩
    rw [adoptByParent_tcbtab hcq] at hi ⊢
    exact h.self hi
  | thread p c habrupt => exact habrupt.elim
  | suspend w hw hkids hblock hi harg =>
    refine ⟨h.kin.suspend hs hthreads hw hkids hblock hi (h.self hi) (harg.resolve_left id), fun _ => ?_,
      fun hph k p hp => ?_⟩
    · rw [suspend_tcbtab hs]
      exact h.self hi
    · rw [suspend_tcbtab hs] at hp ⊢
      exact h.rooted hph k p hp
  | zombie k hpos =>
    obtain ⟨j, hj⟩ := (hs.threads k).exists_of_pos hpos
    exact Bool.noConfusion (hj.1.symm.trans (hthreads j))
  | drop k hk hlast hstopped hparent =>
    refine ⟨h.kin.dropOne (hparent.resolve_left id), fun hi => ?_, fun hph => by cases hph⟩
    rw [dropOne_inUse] at hi
    split_ifs at hi with hik
    rw [dropOne_field ProcTcb.currentDir (fun _ _ => rfl) hik]
    exact h.self hi

theorem Moves.kin (hs : Sound t) (hthreads : NoThreads t) (hm : Moves i False ph t t') (h : KinIn i ph t) :
    KinIn i ph t' := by
  induction hm with
  | refl => exact h
  | tail hmoves hmove ih =>
    have hnone := (Moves.noThreads hs hmoves (.inr hthreads)).resolve_left id
    exact hmove.kin (Moves.sound hs hmoves) hnone ih

/-- No child is found in a state that should not be. -/
theorem Move.not_weird {child parent : ℤ} (hs : Sound t) (hm : Move i False ph t t') (h : Kin t)
    (hweird : .weird child parent ∈ t'.log) : .weird child parent ∈ t.log := by
  cases hm with
  | own | mark | options | code | expand | thread | zombie => exact hweird
  | log l _ hl => exact hl child parent hweird
  | wake k hsuspended hwhy hr =>
    obtain rfl := Except.ok.inj ((hs.resume_eq hsuspended).symm.trans hr)
    rw [resumed_rest.2.2] at hweird
    simpa using hweird
  | spawn a bpt c pid hi hc hsize hpid hfresh hadopt =>
    obtain ⟨-, -, -, -, -, hlog⟩ := adoptChild_spec hadopt
    rwa [hlog, enter_log] at hweird
  | newborn a bpt c hi hc hsuspended hadopt =>
    obtain ⟨-, -, -, -, -, hlog⟩ := adoptChild_spec hadopt
    rw [resumeNewborn_rest.2.2, hlog] at hweird
    simpa using hweird
  | announce a bpt c hi hc hawake hadopt =>
    obtain ⟨-, -, -, -, -, hlog⟩ := adoptChild_spec hadopt
    rwa [hlog] at hweird
  | weird c hc hdir hnot =>
    obtain ⟨hsusp, hstart⟩ := h.unborn c hc hdir
    exact absurd ⟨hstart, h.attached c hc, hsusp⟩ hnot
  | byLeader c p habrupt => exact habrupt.elim
  | byParent q c => rwa [adoptByParent_rest.2.2] at hweird
  | suspend w => rwa [suspend_rest.2.2] at hweird
  | drop k => rwa [dropOne_log] at hweird

theorem Moves.not_weird {child parent : ℤ} (hs : Sound t) (hthreads : NoThreads t) (hm : Moves i False ph t t')
    (h : KinIn i ph t) (hweird : .weird child parent ∈ t'.log) : .weird child parent ∈ t.log := by
  induction hm with
  | refl => exact hweird
  | tail hmoves hmove ih =>
    exact ih (hmove.not_weird (Moves.sound hs hmoves) (Moves.kin hs hthreads hmoves h).kin hweird)

/-! ## Runs without threads and orphans -/

/-- The table in a run without threads. -/
structure Familial (t : Tracer) : Prop where
  sound : Sound t
  threads : NoThreads t
  kin : Kin t
  not_weird : ∀ child parent, .weird child parent ∉ t.log

theorem Familial.say_report (h : Familial t) (q : ℤ) (status : WaitStatus) : Familial (t.say (.report q status)) where
  sound := h.sound.say _
  threads := h.threads
  kin := h.kin.relax (fun _ => rfl) (fun _ hk => hk) fun _ _ _ hks hstart => ⟨hks, hstart⟩
  not_weird child parent hmem := h.not_weird child parent (by simpa [say] using hmem)

theorem Pass.familial {code : Option ℤ} (h : Familial t) (hroot : Rooted t) (hpid : 0 < r.pid)
    (hp : Pass False r t code t') : Familial t' := by
  have hsound := hp.sound h.sound hpid
  cases hp with
  | born c hfresh hc hsize =>
    refine ⟨hsound, fun k => ?_, h.kin.born h.sound hroot hc, fun child parent hmem => ?_⟩
    · by_cases hkc : k = c
      · rw [hkc, modify_self, enter_tcbtab, if_pos rfl]
        rfl
      · rw [modify_of_ne hkc, enter_tcbtab, if_neg hkc]
        exact h.threads k
    · rw [modify_log, enter_log] at hmem
      exact h.not_weird child parent hmem
  | ignored => exact h
  | handled i code t' hi hawake hh =>
    obtain ⟨-, t₁, hspawn, hclose, -⟩ := hh
    obtain ⟨huse, -⟩ := h.sound.pid2tcb_eq_some.1 hi
    have hself : (t.tcbtab i).currentDir = true := by
      by_contra hdir
      exact Bool.noConfusion (hawake.symm.trans (h.kin.unborn i huse (Bool.eq_false_of_not_eq_true hdir)).1)
    have hkin : KinIn i .spawning t := ⟨h.kin, fun _ => hself, fun _ => hroot⟩
    have hkin₁ := Moves.kin h.sound h.threads hspawn hkin
    have hs₁ := Moves.sound h.sound hspawn
    have hthreads₁ := (Moves.noThreads h.sound hspawn (.inr h.threads)).resolve_left id
    have hclosing : KinIn i .closing t₁ := ⟨hkin₁.kin, hkin₁.self, fun hph => by cases hph⟩
    refine ⟨hsound, (Moves.noThreads hs₁ hclose (.inr hthreads₁)).resolve_left id,
      (Moves.kin hs₁ hthreads₁ hclose hclosing).kin, fun child parent hmem => ?_⟩
    exact h.not_weird child parent (Moves.not_weird h.sound h.threads hspawn hkin
      (Moves.not_weird hs₁ hthreads₁ hclose hclosing hmem))

/-- A report in a run without threads, in which no process has lost its parent. The statuses are those that `wait4`
gives without `WCONTINUED`, the arguments of a wait are of type `pid_t`, and arguments can be written. -/
structure Ordinary (t : Tracer) (r : Report) : Prop where
  regular : Regular t r
  rooted : ∀ k < t.tcbtabsize, ∀ p ∈ (t.tcbtab k).parent, (t.tcbtab p).inUse = true
  clone : ∀ i, t.pid2tcb r.pid = some i → (t.tcbtab i).sysFunc = .clone →
    ((t.tcbtab i).uArg 0).hasFlag cloneThreadFlag = false
  wait : r.trap.sysFunc = .wait4 ∨ r.trap.sysFunc = .waitid →
    (r.trap.uArg 0).toInt ≤ 0 → (r.trap.uArg 0).toCInt ≤ 0
  status : r.status ≠ .other
  poke : r.answers.poke r.pid = true

instance : Decidable (Ordinary t r) :=
  decidable_of_iff (Regular t r ∧ (∀ k < t.tcbtabsize, ∀ p ∈ (t.tcbtab k).parent, (t.tcbtab p).inUse = true) ∧
    (∀ i ∈ t.pid2tcb r.pid, (t.tcbtab i).sysFunc = .clone → ((t.tcbtab i).uArg 0).hasFlag cloneThreadFlag = false) ∧
    (r.trap.sysFunc = .wait4 ∨ r.trap.sysFunc = .waitid → (r.trap.uArg 0).toInt ≤ 0 → (r.trap.uArg 0).toCInt ≤ 0) ∧
    r.status ≠ .other ∧ r.answers.poke r.pid = true)
    ⟨fun h => ⟨h.1, h.2.1, h.2.2.1, h.2.2.2.1, h.2.2.2.2.1, h.2.2.2.2.2⟩,
      fun h => ⟨h.regular, h.rooted, h.clone, h.wait, h.status, h.poke⟩⟩

theorem Ordinary.pass (h : Familial t) (hr : Ordinary t r) :
    Sat (Failure cfg t r) (fun res => Pass False r (t.say (.report r.pid r.status)) res.1 res.2)
      (t.traceReport cfg r) :=
  traceReport_pass h.sound hr.regular fun i hi => .inr ⟨h.threads, hr.clone i hi, hr.wait,
    h.kin.attached i (h.sound.pid2tcb_eq_some.1 hi).1, hr.status, (h.sound.pid2tcb_eq_some.1 hi).2 ▸ hr.poke⟩

theorem Ordinary.familial {code : Option ℤ} (h : Familial t) (hr : Ordinary t r)
    (hp : Pass False r (t.say (.report r.pid r.status)) code t') : Familial t' := by
  have hroot : Rooted t := fun k p hp => hr.rooted k (h.sound.size k (h.sound.inUse_of_parent hp)) p hp
  exact Pass.familial (h.say_report _ _) hroot hr.regular.pid_pos hp

theorem familial_startupChild (hs : Sound t) (hlog : t.log = []) (hothers : ∀ k, k ≠ c → t.tcbtab k = {})
    (hfirst : t.tcbtab c = firstTcb pid) : Familial t := by
  have hof : ∀ k, t.tcbtab k = {} ∨ t.tcbtab k = firstTcb pid := fun k => by
    by_cases hk : k = c
    · exact .inr (hk ▸ hfirst)
    · exact .inl (hothers k hk)
  have hparent : ∀ k, (t.tcbtab k).parent = none := fun k => by
    obtain hk | hk := hof k
    · rw [hk]
    · rw [hk]
      rfl
  refine ⟨hs, fun k => ?_, ⟨fun k hk => ?_, fun k hk hdir => ?_, fun k p hp => ?_, ⟨fun _ => 0, fun k p hp => ?_⟩,
    fun p hp => ?_, fun k hk => ?_⟩, fun child parent hmem => ?_⟩
  · obtain hk | hk := hof k
    · rw [hk]
    · rw [hk]
      rfl
  · obtain heq | heq := hof k <;> rw [heq] at hk ⊢
    · cases hk
    · rfl
  · obtain heq | heq := hof k <;> rw [heq] at hk hdir
    · cases hk
    · cases hdir
  · rw [hparent] at hp
    cases hp
  · rw [hparent] at hp
    cases hp
  · have hn : (t.tcbtab p).nchildren = 0 := by
      obtain heq | heq := hof p
      · rw [heq]
      · rw [heq]
        rfl
    rw [hn]
    exact Tally.zero fun k hk => by simp [hparent] at hk
  · obtain heq | heq := hof k <;> rw [heq] at hk <;> cases hk
  · rw [hlog] at hmem
    cases hmem

/-- The child that a report announces has not been announced before. -/
def Unannounced (t : Tracer) (r : Report) : Prop :=
  ∀ i ∈ t.pid2tcb r.pid, ∀ pid ∈ t.announcedChild r i, ∀ c ∈ t.pid2tcb pid, (t.tcbtab c).currentDir = false

instance : Decidable (Unannounced t r) := inferInstanceAs (Decidable (∀ i ∈ _, _))

/-- A pass fails only if the kernel does not tell the pid of a child, or if a process is not to be followed. -/
theorem Failure.of_unannounced {e : Fatal} (h : Familial t) (hr : Unannounced t r) (hf : Failure cfg t r e) :
    e = .exit (str "handle_ptrace_event: ptrace cannot get new child's pid\n") ∨
      e = .exit (str "unknown pid: " ++ decimal r.pid.toNat ++ str "\n") := by
  cases hf with
  | unknown => exact .inr rfl
  | event => exact .inl rfl
  | misannounced i pid e hi hawake hchild hmis =>
    obtain ⟨-, hdir | ⟨c, hc, hdir⟩⟩ := hmis
    · have huse := (h.sound.pid2tcb_eq_some.1 hi).1
      exact Bool.noConfusion (hawake.symm.trans (h.kin.unborn i huse hdir).1)
    · exact Bool.noConfusion (hdir.symm.trans (hr i hi pid hchild c hc))

/-- Who waits, waits in the end for a process that is not suspended. -/
theorem Kin.exists_running (h : Kin t) (hs : Sound t) (hk : (t.tcbtab k).suspended = true)
    (hdir : (t.tcbtab k).currentDir = true) :
    ∃ c d, (t.tcbtab c).parent = some k ∧ ((t.tcbtab k).waitpid ≤ 0 ∨ (t.tcbtab c).pid = (t.tcbtab k).waitpid) ∧
      ReflTransGen (fun p c => (t.tcbtab c).parent = some p) c d ∧ (t.tcbtab d).inUse = true ∧
      (t.tcbtab d).suspended = false := by
  obtain ⟨rank, hrank⟩ := h.ranked
  obtain ⟨c, hc, hmatch⟩ := h.awaited k hk hdir
  have hfor : ∀ k, (t.tcbtab k).suspended = true ∧ (t.tcbtab k).currentDir = true →
      ∃ c, (t.tcbtab c).parent = some k ∧ rank k < rank c := fun k hk => by
    obtain ⟨c, hc, -⟩ := h.awaited k hk.1 hk.2
    exact ⟨c, hc, hrank c k hc (hs.inUse_of_suspended hk.1)⟩
  have hbound : ∀ k, (t.tcbtab k).suspended = true ∧ (t.tcbtab k).currentDir = true →
      rank k ≤ (Finset.range t.tcbtabsize).sup rank := fun k hk =>
    Finset.le_sup (f := rank) (Finset.mem_range.2 (hs.size k (hs.inUse_of_suspended hk.1)))
  obtain ⟨d, hcd, hd⟩ := WaitFor.exists_running _ (fun p c => (t.tcbtab c).parent = some p) rank _ hfor hbound c
  have hparent : ∃ p, (t.tcbtab d).parent = some p := by
    cases hcd with
    | refl => exact ⟨k, hc⟩
    | tail _ hd => exact ⟨_, hd⟩
  obtain ⟨p, hp⟩ := hparent
  refine ⟨c, d, hc, hmatch, hcd, hs.inUse_of_parent hp, ?_⟩
  by_contra hsusp
  exact hd ⟨Bool.eq_true_of_not_eq_false hsusp, hs.dir_of_parent hp⟩

end Tracer

end Ptu
