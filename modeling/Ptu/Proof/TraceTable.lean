import Ptu.Proof.Tcb
import Ptu.Proof.TraceRuns

/-!
# One table of processes

`Spec.Tracer` has the entries of `tcbtab` as `trace` uses them, `Spec.Tcb` the fields of an entry that belong to
`cde.c`. Both have `alloc_tcb` and `droptcb`. Here the two are one table: as long as the same entries are in use, they
stay the same.

* `tcbtab_same`: the two models of `alloc_tcb` take the same entry, those of `droptcb` free the same ones.
* `trace_table`: every run of `trace` goes along with a run of the other table, in which each report enters processes
  of the one that has reported and then drops some.
-/

namespace Ptu

open Outcome Relation

namespace Tracer

variable {t t₁ t' : Tracer} {s : TcbTable} {env : TcbEnv} {i k c : ℕ} {pid : ℤ} {abrupt : Prop} {ph : Phase}
  {cfg : TraceConfig} {r : Report} {code : Option ℤ}

/-- The same entries are in use. -/
structure SameEntries (t : Tracer) (s : TcbTable) : Prop where
  ok : TableOk s
  live : ∀ k, s.live k = (t.tcbtab k).inUse
  nprocs : (s.nprocs : ℤ) = t.nprocs

theorem SameEntries.congr (h : SameEntries t s) (huse : ∀ k, (t'.tcbtab k).inUse = (t.tcbtab k).inUse)
    (hnprocs : t'.nprocs = t.nprocs) : SameEntries t' s :=
  ⟨h.ok, fun k => (h.live k).trans (huse k).symm, h.nprocs.trans hnprocs.symm⟩

/-- The first entry that is free in one table is so in the other. -/
theorem SameEntries.nextSlot_eq (h : SameEntries t s) (hc : (t.tcbtab c).inUse = false)
    (hfirst : ∀ k < c, (t.tcbtab k).inUse = true) : s.nextSlot = c := by
  rcases Nat.lt_trichotomy s.nextSlot c with hlt | heq | hgt
  · have huse := hfirst _ hlt
    rw [← h.live, live_nextSlot] at huse
    cases huse
  · exact heq
  · have huse := live_of_lt_nextSlot hgt
    rw [h.live, hc] at huse
    cases huse

/-! ## A process that is entered, and one that is dropped -/

theorem enter_inUse : ((t.enter c pid).tcbtab k).inUse = if k = c then true else (t.tcbtab k).inUse := by
  rw [enter_tcbtab]
  split_ifs <;> rfl

/-- A new process, with the entry that `alloc_tcb` takes. -/
theorem SameEntries.create (h : SameEntries t s) (env : TcbEnv) (parent : Option ℕ)
    (hparent : ∀ p, parent = some p → (t.tcbtab p).inUse = true) (hc : (t.tcbtab c).inUse = false)
    (hfirst : ∀ k < c, (t.tcbtab k).inUse = true)
    (huse : ∀ k, (t'.tcbtab k).inUse = if k = c then true else (t.tcbtab k).inUse)
    (hnprocs : t'.nprocs = t.nprocs + 1) :
    ∃ s', TcbEvent.run env (.create parent) s = .ok s' ∧ SameEntries t' s' := by
  have hlive : parent.all s.live = true := by
    cases parent with
    | none => rfl
    | some p => exact (h.live p).trans (hparent p rfl)
  obtain ⟨s', -, hcreate, hok, -, -, hcount, hused⟩ := createTcb_spec env h.ok hlive
  refine ⟨s', ?_, hok, fun k => ?_, ?_⟩
  · simp only [TcbEvent.run, hlive, if_true, hcreate]
    rfl
  · rw [hused, huse, h.nextSlot_eq hc hfirst, h.live]
  · rw [hcount, hnprocs, ← h.nprocs]
    rfl

/-- A process that is dropped. -/
theorem SameEntries.exit (h : SameEntries t s) (hk : (t.tcbtab k).inUse = true) :
    SameEntries (t.dropOne k) (Ptu.droptcb k s) := by
  have hlive : s.live k = true := (h.live k).trans hk
  refine ⟨h.ok.droptcb k, fun j => ?_, ?_⟩
  · rw [live_droptcb, dropOne_inUse, h.live]
  · obtain ⟨tcp, htcp, huse⟩ := live_iff.1 hlive
    have hpos : 0 < s.slots.countP (·.inUse) := List.countP_pos_iff.2 ⟨tcp, List.mem_of_getElem? htcp, huse⟩
    have hcount := h.ok.nprocs
    have hnprocs := h.nprocs
    simp only [Ptu.droptcb, hlive, if_true, dropOne]
    omega

/-! ## `alloc_tcb` and `droptcb` -/

/-- Run events from any table. -/
def runEvents (env : TcbEnv) (events : List TcbEvent) (s : TcbTable) : Except Fatal TcbTable :=
  events.foldlM (fun s event => event.run env s) s

theorem runEvents_append {s₁ s₂ : TcbTable} {events events' : List TcbEvent} (h : runEvents env events s = .ok s₁)
    (h' : runEvents env events' s₁ = .ok s₂) : runEvents env (events ++ events') s = .ok s₂ := by
  unfold runEvents at h h' ⊢
  rw [List.foldlM_append, h]
  exact h'

theorem runEvents_singleton (env : TcbEnv) (event : TcbEvent) (s : TcbTable) :
    runEvents env [event] s = event.run env s := by
  simp [runEvents]

/-- `startup_child` enters the program. -/
theorem startupChild_table (env : TcbEnv) {argc : ℕ} (hargc : 0 < argc) {options : Bool}
    (ht : startupChild cfg argc options = .ok t) :
    ∃ s, runTcbs env argc [.create none] = .ok s ∧ SameEntries t s := by
  obtain ⟨c, hc, hfree, -, hfirst⟩ := (sound_empty hargc options).alloctcb_eq cfg.straceChild
  rw [startupChild, hc] at ht
  obtain rfl := Except.ok.inj ht
  obtain ⟨s₀, hs₀, hok⟩ := runTcbs_ok env hargc []
  have hempty : SameEntries { tcbtabsize := argc, setOptions := options } s₀ := by
    obtain rfl := Except.ok.inj hs₀
    refine ⟨hok, fun k => ?_, rfl⟩
    rw [← Bool.not_eq_true]
    intro hlive
    obtain ⟨tcp, htcp, huse⟩ := live_iff.1 hlive
    rw [List.eq_of_mem_replicate (List.mem_of_getElem? htcp)] at huse
    cases huse
  obtain ⟨s, hrun, hsame⟩ := hempty.create env none (fun p hp => by cases hp) hfree hfirst (fun k => enter_inUse) rfl
  obtain rfl := Except.ok.inj hs₀
  refine ⟨s, (runEvents_singleton env _ _).trans hrun, hsame.congr (fun k => ?_) rfl⟩
  exact modify_field ProcTcb.inUse fun _ => rfl

/-- `alloc_tcb` takes the same entry in both tables. -/
theorem alloctcb_same (hs : Sound t) (h : SameEntries t s) (env : TcbEnv) (pid : ℤ) :
    ∃ c t' s', t.alloctcb pid = .ok (c, t') ∧ allocTcb env s = .ok (c, s') ∧
      (∀ k, s'.live k = (t'.tcbtab k).inUse) ∧ (s'.nprocs : ℤ) = t'.nprocs := by
  obtain ⟨c, hc, hfree, -, hfirst⟩ := hs.alloctcb_eq pid
  have hnext := h.nextSlot_eq hfree hfirst
  obtain ⟨-, old, hget, -⟩ := h.ok.nextSlot_spec
  have halloc : allocTcb env s = _ := allocTcb_eq h.ok hget
  rw [hnext] at hget halloc
  refine ⟨c, _, _, hc, halloc, fun k => ?_, ?_⟩
  · rw [live_set hget, live_grown, h.live, enter_inUse]
  · simp only [Ptu.grown_nprocs, enter]
    rw [← h.nprocs]
    rfl

/-- `droptcb` frees the same entries in both tables: none if the process has threads left, and two if it is the
last thread of a process that has ended. -/
theorem droptcb_same (hs : Sound t) (h : SameEntries t s) (hi : (t.tcbtab i).inUse = true) :
    SameEntries (t.droptcb i) (if 0 < (t.tcbtab i).ncloneThreads then s
      else (t.lastThreadOf i).elim (Ptu.droptcb i s) fun p => Ptu.droptcb p (Ptu.droptcb i s)) := by
  rw [hs.droptcb_eq hi]
  split_ifs with hthreads
  · exact h.congr (fun k => modify_field ProcTcb.inUse fun _ => rfl) rfl
  · cases hlast : t.lastThreadOf i with
    | none => exact h.exit hi
    | some p =>
      obtain ⟨hthread, -⟩ := lastThreadOf_eq_some.1 hlast
      obtain ⟨q, hq, hpuse, -⟩ := hs.leader i hthread.1
      obtain rfl := Option.some.inj (hthread.2.symm.trans hq)
      refine (h.exit hi).exit ?_
      rw [dropOne_inUse, if_neg (hs.leader_ne hthread)]
      exact hpuse

/-- The table after some events is still the same one. -/
def Follows (env : TcbEnv) (s : TcbTable) (t' : Tracer) (events : List TcbEvent) : Prop :=
  ∃ s', runEvents env events s = .ok s' ∧ SameEntries t' s'

theorem adoptChild_entries {a : Answers} {bpt : Bool} (h : t.adoptChild a i c bpt = .ok t') :
    (∀ k, (t'.tcbtab k).inUse = (t.tcbtab k).inUse) ∧ t'.nprocs = t.nprocs := by
  obtain ⟨-, -, -, -, hnprocs, -⟩ := adoptChild_spec h
  exact ⟨fun k => adoptChild_field ProcTcb.inUse (fun _ => rfl) (fun _ => rfl) h, hnprocs⟩

/-- A move keeps the entries in use, or it is one event: a new child of the process at `i` in the first phase, an
exit in the second one. -/
theorem Move.table (env : TcbEnv) (hs : Sound t) (hm : Move i abrupt ph t t') (h : SameEntries t s) :
    SameEntries t' s ∨ (ph = .spawning ∧ Follows env s t' [.create (some i)]) ∨
      (ph = .closing ∧ ∃ k, Follows env s t' [.exit k]) := by
  cases hm with
  | own f hlinks =>
    exact .inl (h.congr (fun k => modify_field ProcTcb.inUse fun tcp => congrArg Links.inUse (hlinks tcp)) rfl)
  | mark k f hcore =>
    exact .inl (h.congr (fun k => modify_field ProcTcb.inUse fun tcp =>
      field_of_core ProcTcb.inUse (fun _ => rfl) (hcore tcp)) rfl)
  | log | options | code | expand | weird => exact .inl (h.congr (fun _ => rfl) rfl)
  | wake k hsuspended hwhy hr =>
    obtain rfl := Except.ok.inj ((hs.resume_eq hsuspended).symm.trans hr)
    exact .inl (h.congr (fun k => by rw [resumed_tcbtab hs]) resumed_rest.2.1)
  | spawn a bpt c pid hi hc hsize hpid hfresh hadopt hfirst =>
    obtain ⟨huse, hnprocs⟩ := adoptChild_entries hadopt
    obtain ⟨s', hrun, hsame⟩ := h.create env (some i) (fun p hp => Option.some.inj hp ▸ hi) hc hfirst
      (fun k => (huse k).trans enter_inUse) hnprocs
    exact .inr (.inl ⟨rfl, s', (runEvents_singleton env _ s).trans hrun, hsame⟩)
  | newborn a bpt c hi hc hsuspended hadopt =>
    obtain ⟨huse, hnprocs⟩ := adoptChild_entries hadopt
    refine .inl (h.congr (fun k => ?_) (resumeNewborn_rest.2.1.trans hnprocs))
    rw [resumeNewborn_field ProcTcb.inUse (fun _ => rfl) (fun _ _ => rfl), huse]
  | announce a bpt c hi hc hawake hadopt =>
    obtain ⟨huse, hnprocs⟩ := adoptChild_entries hadopt
    exact .inl (h.congr huse hnprocs)
  | byLeader c p habrupt hp hparent hthread hci =>
    refine .inl (h.congr (fun k => by rw [adoptByLeader_tcbtab hs hp hci]) ?_)
    rw [adoptByLeader_eq hp]
    rfl
  | byParent q c hq hparent hthread hcq =>
    exact .inl (h.congr (fun k => by rw [adoptByParent_tcbtab hcq]) adoptByParent_rest.2.1)
  | thread p c _ hparent hthread hawake hpc =>
    exact .inl (h.congr (fun k => by rw [becomeThread_tcbtab hpc]) rfl)
  | suspend w => exact .inl (h.congr (fun k => by rw [suspend_tcbtab hs]) suspend_rest.2.1)
  | zombie k => exact .inl (h.congr (fun k => modify_field ProcTcb.inUse fun _ => rfl) rfl)
  | drop k hk => exact .inr (.inr ⟨rfl, k, _, runEvents_singleton env _ s, h.exit hk⟩)

theorem Moves.table_spawning (env : TcbEnv) (hs : Sound t) (hm : Moves i abrupt .spawning t t')
    (h : SameEntries t s) :
    ∃ n, Follows env s t' (List.replicate n (.create (some i))) := by
  induction hm with
  | refl => exact ⟨0, s, rfl, h⟩
  | tail hmoves hmove ih =>
    obtain ⟨n, s₁, hrun, hsame⟩ := ih
    rcases hmove.table env (Moves.sound hs hmoves) hsame with hkeep | ⟨-, s₂, hrun', hsame'⟩ | ⟨hph, -⟩
    · exact ⟨n, s₁, hrun, hkeep⟩
    · refine ⟨n + 1, s₂, ?_, hsame'⟩
      rw [List.replicate_succ']
      exact runEvents_append hrun hrun'
    · cases hph

theorem Moves.table_closing (env : TcbEnv) (hs : Sound t) (hm : Moves i abrupt .closing t t')
    (h : SameEntries t s) :
    ∃ dropped : List ℕ, Follows env s t' (dropped.map .exit) := by
  induction hm with
  | refl => exact ⟨[], s, rfl, h⟩
  | tail hmoves hmove ih =>
    obtain ⟨dropped, s₁, hrun, hsame⟩ := ih
    rcases hmove.table env (Moves.sound hs hmoves) hsame with hkeep | ⟨hph, -⟩ | ⟨-, k, s₂, hrun', hsame'⟩
    · exact ⟨dropped, s₁, hrun, hkeep⟩
    · cases hph
    · refine ⟨dropped ++ [k], s₂, ?_, hsame'⟩
      rw [List.map_append]
      exact runEvents_append hrun hrun'

/-- The events of one report: a process that is not known is entered, or the process at `i` has reported, children of
it are entered, and some processes are dropped. -/
def OfReport (t : Tracer) (r : Report) (events : List TcbEvent) : Prop :=
  (t.pid2tcb r.pid = none ∧ events = [.create none]) ∨
    ∃ i n, ∃ dropped : List ℕ, t.pid2tcb r.pid = some i ∧
      events = List.replicate n (.create (some i)) ++ dropped.map .exit

/-- **A report does the same to both tables.** -/
theorem Pass.table (env : TcbEnv) (hs : Sound t) (hp : Pass abrupt r t code t') (h : SameEntries t s) :
    ∃ events, OfReport t r events ∧ Follows env s t' events := by
  cases hp with
  | born c hfresh hc hsize hfirst =>
    obtain ⟨s', hrun, hsame⟩ := h.create env none (fun p hp => by cases hp) hc hfirst (fun k => enter_inUse) rfl
    refine ⟨_, .inl ⟨hfresh, rfl⟩, s', (runEvents_singleton env _ s).trans hrun, hsame.congr (fun k => ?_) rfl⟩
    exact modify_field ProcTcb.inUse fun _ => rfl
  | ignored i hi => exact ⟨[], .inr ⟨i, 0, [], hi, rfl⟩, s, rfl, h⟩
  | handled i code t' hi hawake hh =>
    obtain ⟨-, t₁, hspawn, hclose, -⟩ := hh
    obtain ⟨n, s₁, hrun₁, hsame₁⟩ := Moves.table_spawning env hs hspawn h
    obtain ⟨dropped, s₂, hrun₂, hsame₂⟩ := Moves.table_closing env (Moves.sound hs hspawn) hclose hsame₁
    exact ⟨_, .inr ⟨i, n, dropped, hi, rfl⟩, s₂, runEvents_append hrun₁ hrun₂, hsame₂⟩

/-! ## Runs -/

/-- What `wait4` returns is no event of the table but for a report. -/
def OfResult (t : Tracer) (w : WaitResult) (events : List TcbEvent) : Prop :=
  match w with
  | .report r => OfReport t r events
  | .eintr | .echild | .failed => events = []

/-- The two tables side by side: after every pass of the loop the same entries are in use. -/
def SideBySide (cfg : TraceConfig) (env : TcbEnv) : List WaitResult → Tracer → TcbTable → Prop
  | [], t, s => SameEntries t s
  | w :: ws, t, s => SameEntries t s ∧ ∀ code t', t.traceStep cfg w = .ok (code, t') →
      ∃ events s', OfResult t w events ∧ runEvents env events s = .ok s' ∧ SameEntries t' s' ∧
        (code = none → SideBySide cfg env ws t' s')

theorem traceStep_table (env : TcbEnv) {w : WaitResult} (hs : Sound t) (hw : ∀ r, w = .report r → Regular t r)
    (hstep : t.traceStep cfg w = .ok (code, t')) (h : SameEntries t s) :
    Sound t' ∧ ∃ events, OfResult t w events ∧ Follows env s t' events := by
  cases w with
  | eintr | echild | failed =>
    obtain ⟨-, rfl⟩ := Prod.mk.inj (Except.ok.inj hstep)
    exact ⟨hs, [], rfl, s, rfl, h⟩
  | report r =>
    have hr := hw r rfl
    have hpass : Pass True r (t.say (.report r.pid r.status)) code t' :=
      (traceReport_pass hs hr fun _ _ => .inl trivial).of_eq_ok hstep
    obtain ⟨events, hevents, hfollows⟩ := hpass.table env (hs.say _) (h.congr (fun _ => rfl) rfl)
    exact ⟨hpass.sound (hs.say _) hr.pid_pos, events, hevents, hfollows⟩

theorem sideBySide (env : TcbEnv) {ws : List WaitResult} (hs : Sound t) (hws : Along cfg Regular ws t)
    (h : SameEntries t s) : SideBySide cfg env ws t s := by
  induction ws generalizing t s with
  | nil => exact h
  | cons w ws ih =>
    refine ⟨h, fun code t' hstep => ?_⟩
    obtain ⟨hs', events, hevents, s', hrun, hsame⟩ := traceStep_table env hs hws.1 hstep h
    refine ⟨events, s', hevents, hrun, hsame, fun hcode => ?_⟩
    subst hcode
    exact ih hs' (hws.2 t' hstep) hsame

end Tracer

end Ptu
