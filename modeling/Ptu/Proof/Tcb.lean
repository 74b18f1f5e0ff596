import Ptu.Lib.History
import Ptu.Spec.Tcb

/-!
# What a new process inherits

`alloc_tcb_cde_fields` and `CDE_init_tcb_dir_fields` set every field of a new process from its
parent, but for one: `perceived_program_fullpath` is inherited only if the entry of the table has none,
and neither `alloc_tcb_cde_fields` nor `free_tcb_cde_fields` clears it. So a child gets the program of
the process that had its entry before (`child_inherits_iff`).

* `TableOk`: the invariant of the table; it holds in every run, and no run fails (`runTcbs_ok`).
* `createTcb_spec`: which entry a new process gets, and its fields.
-/

namespace Ptu

open History

variable {env : TcbEnv} {t t' : TcbTable} {i j : ℕ} {parent : Option ℕ}

/-- The table has room, `nprocs` is the number of its entries in use, and each of them has a
working directory. -/
structure TableOk (t : TcbTable) : Prop where
  room : 0 < t.slots.length
  nprocs : t.nprocs = t.slots.countP (·.inUse)
  dir : ∀ (i : ℕ) (tcp : TcbEntry), t.slots[i]? = some tcp → tcp.inUse = true → tcp.cde.currentDir.isSome = true

theorem live_iff : t.live i = true ↔ ∃ tcp, t.slots[i]? = some tcp ∧ tcp.inUse = true := by
  simp [TcbTable.live, Option.any_eq_true]

/-! ## Changing one entry -/

theorem updateAt_eq {slots : List TcbEntry} {tcp : TcbEntry} (h : slots[i]? = some tcp) (change : TcbEntry → TcbEntry) :
    updateAt slots i change = slots.set i (change tcp) := by
  simp only [updateAt, h]

theorem getElem?_set_self_of_getElem? {slots : List TcbEntry} {tcp tcp' : TcbEntry} (h : slots[i]? = some tcp) :
    (slots.set i tcp')[i]? = some tcp' := by
  obtain ⟨hlt, -⟩ := List.getElem?_eq_some_iff.1 h
  rw [List.getElem?_set_self hlt]

theorem countP_set_of_getElem? {slots : List TcbEntry} {tcp : TcbEntry} (h : slots[i]? = some tcp) (tcp' : TcbEntry) :
    (slots.set i tcp').countP (·.inUse) + (if tcp.inUse then 1 else 0) =
      slots.countP (·.inUse) + (if tcp'.inUse then 1 else 0) := by
  obtain ⟨hlt, hget⟩ := List.getElem?_eq_some_iff.1 h
  have hpos : (if tcp.inUse = true then 1 else 0) ≤ slots.countP (·.inUse) := by
    split_ifs with huse
    · exact List.countP_pos_iff.2 ⟨tcp, List.mem_of_getElem? h, huse⟩
    · exact Nat.zero_le _
  rw [List.countP_set hlt, hget]
  omega

/-- Replacing an entry keeps the table in order, if the new one has a working directory. -/
theorem TableOk.set (h : TableOk t) {tcp tcp' : TcbEntry} {nprocs nextShm : ℕ} (hi : t.slots[i]? = some tcp)
    (hn : nprocs + (if tcp.inUse then 1 else 0) = t.nprocs + (if tcp'.inUse then 1 else 0))
    (hdir : tcp'.inUse = true → tcp'.cde.currentDir.isSome = true) :
    TableOk { slots := t.slots.set i tcp', nprocs, nextShm } where
  room := by
    simp only [List.length_set]
    exact h.room
  nprocs := by
    have hcount := countP_set_of_getElem? hi tcp'
    have hold := h.nprocs
    simp only
    omega
  dir := by
    intro j other hj huse
    by_cases hij : i = j
    · subst hij
      simp only [getElem?_set_self_of_getElem? hi] at hj
      obtain rfl := Option.some.inj hj
      exact hdir huse
    · simp only [List.getElem?_set_ne hij] at hj
      exact h.dir j other hj huse

/-- Which entries are in use when one has been replaced. -/
theorem live_set {tcp tcp' : TcbEntry} {nprocs nextShm : ℕ} (hi : t.slots[i]? = some tcp) :
    TcbTable.live { slots := t.slots.set i tcp', nprocs, nextShm } j = if j = i then tcp'.inUse else t.live j := by
  unfold TcbTable.live
  split_ifs with hij
  · rw [hij, getElem?_set_self_of_getElem? hi]
    rfl
  · rw [List.getElem?_set_ne (Ne.symm hij)]

/-! ## A new process -/

/-- The index of the entry that `alloc_tcb` gives out: the first free one, or the first one behind
the table. -/
def TcbTable.nextSlot (t : TcbTable) : ℕ := t.slots.findIdx (fun tcp => !tcp.inUse)

theorem live_nextSlot : t.live t.nextSlot = false := by
  rw [← Bool.not_eq_true]
  intro hlive
  obtain ⟨tcp, htcp, huse⟩ := live_iff.1 hlive
  obtain ⟨hlt, hget⟩ := List.getElem?_eq_some_iff.1 htcp
  have hfree : (!t.slots[t.nextSlot].inUse) = true :=
    List.findIdx_getElem (p := fun tcp : TcbEntry => !tcp.inUse) (w := hlt)
  rw [hget, huse] at hfree
  cases hfree

theorem live_of_lt_nextSlot (hj : j < t.nextSlot) : t.live j = true := by
  have hlt : j < t.slots.length := Nat.lt_of_lt_of_le hj List.findIdx_le_length
  have huse : (!t.slots[j].inUse) = false := by simpa using List.not_of_lt_findIdx hj
  exact live_iff.2 ⟨_, List.getElem?_eq_getElem hlt, by simpa using huse⟩

/-- The program that the entry at an index has, or is left with. -/
def TcbTable.leftover (t : TcbTable) (i : ℕ) : Option CString :=
  t.slots[i]?.bind (·.cde.perceivedProgramFullpath)

/-- The table in which `alloc_tcb` looks for an entry. -/
def TcbTable.grown (t : TcbTable) : TcbTable := if t.nprocs = t.slots.length then expandTcbtab t else t

theorem getElem?_grown (hj : t.slots[j]?.isSome = true) : t.grown.slots[j]? = t.slots[j]? := by
  obtain ⟨tcp, htcp⟩ := Option.isSome_iff_exists.1 hj
  obtain ⟨hlt, -⟩ := List.getElem?_eq_some_iff.1 htcp
  unfold TcbTable.grown
  split_ifs
  · exact List.getElem?_append_left hlt
  · rfl

theorem TableOk.grown (h : TableOk t) : TableOk t.grown := by
  unfold TcbTable.grown
  split_ifs with hfull
  · refine ⟨?_, ?_, ?_⟩
    · have hroom := h.room
      simp only [expandTcbtab, List.length_append]
      omega
    · have hnone : (List.replicate t.slots.length ({} : TcbEntry)).countP (·.inUse) = 0 :=
        List.countP_eq_zero.2 fun tcp htcp => by rw [List.eq_of_mem_replicate htcp]; decide
      simp only [expandTcbtab, List.countP_append, hnone, Nat.add_zero]
      exact h.nprocs
    · intro j tcp hj huse
      rcases List.mem_append.1 (List.mem_of_getElem? hj) with hold | hnew
      · obtain ⟨k, hk⟩ := List.mem_iff_getElem?.1 hold
        exact h.dir k tcp hk huse
      · rw [List.eq_of_mem_replicate hnew] at huse
        cases huse
  · exact h

theorem grown_nprocs : t.grown.nprocs = t.nprocs := by
  unfold TcbTable.grown
  split_ifs <;> rfl

/-- The entries that are added are free. -/
theorem live_grown : t.grown.live j = t.live j := by
  unfold TcbTable.grown
  split_ifs with hfull
  · by_cases hj : j < t.slots.length
    · simp only [TcbTable.live, expandTcbtab, List.getElem?_append_left hj]
    · have hnone : t.slots[j]? = none := List.getElem?_eq_none (not_lt.1 hj)
      have hnew : ∀ tcp, (t.slots ++ List.replicate t.slots.length ({} : TcbEntry))[j]? = some tcp →
          tcp.inUse = false := by
        intro tcp htcp
        rw [List.getElem?_append_right (not_lt.1 hj)] at htcp
        rw [List.eq_of_mem_replicate (List.mem_of_getElem? htcp)]
      rw [TcbTable.live, TcbTable.live, hnone, Option.any_none, Option.any_eq_false]
      intro tcp htcp
      rw [hnew tcp htcp]
  · rfl

/-- `alloc_tcb` finds an entry, and it is left with what its last process left. -/
theorem TableOk.nextSlot_spec (h : TableOk t) :
    t.grown.slots.findIdx? (fun tcp => !tcp.inUse) = some t.nextSlot ∧
    ∃ tcp, t.grown.slots[t.nextSlot]? = some tcp ∧ tcp.inUse = false ∧
      tcp.cde.perceivedProgramFullpath = t.leftover t.nextSlot := by
  have hnprocs := h.nprocs
  unfold TcbTable.grown
  split_ifs with hfull
  · -- all entries are in use, so the first new one is taken
    have hall : ∀ tcp ∈ t.slots, (!tcp.inUse) = false := by
      have hcount : t.slots.countP (·.inUse) = t.slots.length := by omega
      intro tcp htcp
      simpa using List.countP_eq_length.1 hcount tcp htcp
    have hnext : t.nextSlot = t.slots.length := List.findIdx_eq_length.2 hall
    obtain ⟨n, hn⟩ : ∃ n, t.slots.length = n + 1 := ⟨t.slots.length - 1, by have hroom := h.room; omega⟩
    have hfind : (List.replicate t.slots.length ({} : TcbEntry)).findIdx? (fun tcp => !tcp.inUse) = some 0 := by
      rw [hn, List.replicate_succ]
      rfl
    refine ⟨?_, {}, ?_, rfl, ?_⟩
    · simp only [expandTcbtab, List.findIdx?_append, List.findIdx?_eq_none_iff.2 hall, hfind, hnext]
      simp
    · simp only [expandTcbtab, hnext, List.getElem?_append_right (Nat.le_refl _), Nat.sub_self]
      rw [hn, List.replicate_succ]
      rfl
    · have hnone : t.slots[t.nextSlot]? = none := by rw [hnext]; exact List.getElem?_eq_none (Nat.le_refl _)
      simp only [TcbTable.leftover, hnone, Option.bind_none]
  · have hfree : ∃ tcp ∈ t.slots, (!tcp.inUse) = true := by
      by_contra hno
      have hcount : t.slots.countP (·.inUse) = t.slots.length := by
        refine List.countP_eq_length.2 fun tcp htcp => ?_
        by_contra huse
        exact hno ⟨tcp, htcp, by simpa using huse⟩
      omega
    have hfind : t.slots.findIdx? (fun tcp => !tcp.inUse) = some t.nextSlot :=
      List.findIdx?_eq_some_of_exists hfree
    obtain ⟨hlt, huse, -⟩ := List.findIdx?_eq_some_iff_getElem.1 hfind
    have hget : t.slots[t.nextSlot]? = some t.slots[t.nextSlot] := List.getElem?_eq_getElem hlt
    refine ⟨hfind, t.slots[t.nextSlot], hget, by simpa using huse, ?_⟩
    simp only [TcbTable.leftover, hget, Option.bind_some]

/-- What a child should get: the directory, the rules and the program of its parent, and nothing
else. -/
def inherited (env : TcbEnv) : Option CdeFields → CdeFields
  | some p =>
    { openedFilePaths := List.replicate env.maxOpenFiles none
      currentDir := p.currentDir
      pIgnores := p.pIgnores
      currentRepoInd := p.currentRepoInd
      perceivedProgramFullpath := p.perceivedProgramFullpath }
  | none =>
    { openedFilePaths := List.replicate env.maxOpenFiles none
      currentDir := some env.getcwd
      currentRepoInd := repoInd env env.getcwd }

/-- The fields `f` in an entry that has been left with a program. -/
def CdeFields.occupying (f : CdeFields) (left : Option CString) : CdeFields :=
  { f with perceivedProgramFullpath := left.or f.perceivedProgramFullpath }

/-- `CDE_init_tcb_dir_fields` after `alloc_tcb_cde_fields`: everything is set from the parent, but the
program only if the entry had none. -/
theorem initTcbDirFields_eq (env : TcbEnv) (shm : ℕ) (f : CdeFields) {p : Option CdeFields}
    (hp : ∀ q, p = some q → q.currentDir.isSome = true) :
    ∃ cde, initTcbDirFields env p (allocTcbCdeFields env shm f) = .ok cde ∧ cde.currentDir.isSome = true ∧
      { cde with localshm := none } = (inherited env p).occupying f.perceivedProgramFullpath := by
  cases p with
  | none =>
    refine ⟨_, rfl, rfl, ?_⟩
    simp only [allocTcbCdeFields, inherited, CdeFields.occupying, Option.or_none]
  | some q =>
    have hq : q.currentDir.isNone = false := by
      rw [Option.isNone_eq_false_iff]
      exact hp q rfl
    cases hf : f.perceivedProgramFullpath with
    | none =>
      refine ⟨{ allocTcbCdeFields env shm f with
        currentDir := q.currentDir, currentRepoInd := q.currentRepoInd, pIgnores := q.pIgnores
        perceivedProgramFullpath := q.perceivedProgramFullpath }, ?_, hp q rfl, rfl⟩
      simp only [initTcbDirFields, allocTcbCdeFields, hq, hf, Option.isSome_none, Option.isNone_none,
        Bool.false_eq_true, if_false, if_true]
      rfl
    | some program =>
      refine ⟨{ allocTcbCdeFields env shm f with
        currentDir := q.currentDir, currentRepoInd := q.currentRepoInd, pIgnores := q.pIgnores }, ?_, hp q rfl, ?_⟩
      · simp only [initTcbDirFields, allocTcbCdeFields, hq, hf, Option.isSome_none, Option.isNone_some,
          Bool.false_eq_true, if_false]
        rfl
      · simp only [allocTcbCdeFields, inherited, CdeFields.occupying, hf]
        rfl

theorem allocTcb_eq (h : TableOk t) {tcp : TcbEntry} (hget : t.grown.slots[t.nextSlot]? = some tcp) :
    allocTcb env t = .ok (t.nextSlot,
      { slots := t.grown.slots.set t.nextSlot ⟨true, none, allocTcbCdeFields env t.grown.nextShm tcp.cde⟩
        nprocs := t.grown.nprocs + 1
        nextShm := t.grown.nextShm + 1 }) := by
  have hfind := h.nextSlot_spec.1
  unfold TcbTable.grown at hfind hget ⊢
  simp only [allocTcb, hfind, updateAt_eq hget]

/-- **A new process**: its entry is the next free one, and its fields are inherited from its parent, but
for the program that the entry has been left with. -/
theorem createTcb_spec (env : TcbEnv) (h : TableOk t) (hparent : parent.all t.live = true) :
    ∃ t' tcp, createTcb env parent t = .ok (t.nextSlot, t') ∧ TableOk t' ∧ t'.slots[t.nextSlot]? = some tcp ∧
      { tcp.cde with localshm := none } = (inherited env (t.fields parent)).occupying (t.leftover t.nextSlot) ∧
      t'.nprocs = t.nprocs + 1 ∧ ∀ j, t'.live j = if j = t.nextSlot then true else t.live j := by
  obtain ⟨-, old, hget, hfree, hleft⟩ := h.nextSlot_spec
  set i := t.nextSlot with hi
  set new : TcbEntry := ⟨true, none, allocTcbCdeFields env t.grown.nextShm old.cde⟩ with hnew
  -- the parent has another entry, so its fields are as before
  have hfields : ∀ {n m : ℕ}, (TcbTable.mk (t.grown.slots.set i new) n m).fields parent = t.fields parent := by
    intro n m
    cases parent with
    | none => rfl
    | some j =>
      obtain ⟨p, hp, huse⟩ := live_iff.1 (by simpa using hparent)
      have hgrown : t.grown.slots[j]? = some p := by rw [getElem?_grown (by rw [hp]; rfl), hp]
      have hne : i ≠ j := by
        intro hij
        rw [hij, hgrown] at hget
        rw [Option.some.inj hget, hfree] at huse
        cases huse
      simp only [TcbTable.fields, Option.bind_some, List.getElem?_set_ne hne, hgrown, hp]
  have hdir : ∀ q, t.fields parent = some q → q.currentDir.isSome = true := by
    intro q hq
    cases parent with
    | none => cases hq
    | some j =>
      obtain ⟨p, hp, huse⟩ := live_iff.1 (by simpa using hparent)
      simp only [TcbTable.fields, Option.bind_some, hp, Option.map_some, Option.some.injEq] at hq
      rw [← hq]
      exact h.dir j p hp huse
  obtain ⟨cde, hinit, hcwd, hcde⟩ := initTcbDirFields_eq env t.grown.nextShm old.cde hdir
  have hself : (t.grown.slots.set i new)[i]? = some new := getElem?_set_self_of_getElem? hget
  refine ⟨{ slots := (t.grown.slots.set i new).set i { new with parent, cde }, nprocs := t.grown.nprocs + 1,
            nextShm := t.grown.nextShm + 1 }, { new with parent, cde }, ?_, ?_, getElem?_set_self_of_getElem? hself, ?_,
            congrArg (· + 1) grown_nprocs, fun j => ?_⟩
  · refine bind_eq_ok.2 ⟨_, allocTcb_eq h hget, ?_⟩
    simp only [← hi, ← hnew, hself, hfields]
    exact bind_eq_ok.2 ⟨cde, hinit, rfl⟩
  · simp only [List.set_set]
    refine h.grown.set hget ?_ fun _ => hcwd
    simp only [hfree, Bool.false_eq_true, if_false, if_true, Nat.add_zero, hnew]
  · rw [hcde, hleft]
  · simp only [List.set_set]
    rw [live_set hget, live_grown]

/-! ## Runs -/

/-- Which entries are in use after `droptcb`. -/
theorem live_droptcb : (droptcb i t).live j = if j = i then false else t.live j := by
  unfold Ptu.droptcb
  split_ifs with hlive hji hji
  · obtain ⟨tcp, htcp, -⟩ := live_iff.1 hlive
    rw [updateAt_eq htcp, live_set htcp, if_pos hji]
  · obtain ⟨tcp, htcp, -⟩ := live_iff.1 hlive
    rw [updateAt_eq htcp, live_set htcp, if_neg hji]
  · rw [hji, ← Bool.not_eq_true]
    exact hlive
  · rfl

theorem TableOk.droptcb (h : TableOk t) (i : ℕ) : TableOk (droptcb i t) := by
  unfold Ptu.droptcb
  split_ifs with hlive
  · obtain ⟨tcp, htcp, huse⟩ := live_iff.1 hlive
    have hpos : 0 < t.slots.countP (·.inUse) := List.countP_pos_iff.2 ⟨tcp, List.mem_of_getElem? htcp, huse⟩
    have hnprocs := h.nprocs
    rw [updateAt_eq htcp]
    refine h.set htcp ?_ fun hfree => by cases hfree
    simp only [huse, if_true, Bool.false_eq_true, if_false]
    omega
  · exact h

/-- **An event keeps the table in order**, and it does not fail. -/
theorem TcbEvent.run_ok (env : TcbEnv) (h : TableOk t) (event : TcbEvent) :
    ∃ t', event.run env t = .ok t' ∧ TableOk t' := by
  cases event with
  | create parent =>
    by_cases hparent : parent.all t.live = true
    · obtain ⟨t', -, hcreate, hok, -⟩ := createTcb_spec env h hparent
      refine ⟨t', ?_, hok⟩
      simp only [TcbEvent.run, hparent, if_true, hcreate]
      rfl
    · exact ⟨t, if_neg hparent, h⟩
  | act i change =>
    refine ⟨_, rfl, ?_⟩
    split_ifs with hlive
    · obtain ⟨tcp, htcp, huse⟩ := live_iff.1 hlive
      rw [updateAt_eq htcp]
      exact h.set htcp rfl fun _ => change.keepsDir tcp.cde (h.dir i tcp htcp huse)
    · exact h
  | exit i => exact ⟨_, rfl, h.droptcb i⟩

/-- **No run fails.** -/
theorem runTcbs_ok (env : TcbEnv) {argc : ℕ} (hargc : 0 < argc) (events : List TcbEvent) :
    ∃ t, runTcbs env argc events = .ok t ∧ TableOk t := by
  induction events using List.reverseRecOn with
  | nil =>
    refine ⟨_, rfl, ?_, ?_, ?_⟩
    · simpa using hargc
    · have hnone : (List.replicate argc ({} : TcbEntry)).countP (·.inUse) = 0 :=
        List.countP_eq_zero.2 fun tcp htcp => by rw [List.eq_of_mem_replicate htcp]; decide
      exact hnone.symm
    · intro i tcp hi huse
      rw [List.eq_of_mem_replicate (List.mem_of_getElem? hi)] at huse
      cases huse
  | append_singleton events event ih =>
    obtain ⟨t, hrun, hok⟩ := ih
    obtain ⟨t', hstep, hok'⟩ := event.run_ok env hok
    refine ⟨t', ?_, hok'⟩
    unfold runTcbs at hrun ⊢
    rw [List.foldlM_append, hrun]
    refine bind_eq_ok.2 ⟨t, rfl, ?_⟩
    exact bind_eq_ok.2 ⟨t', hstep, rfl⟩

/-- A new process of `parent` gets the fields it should get. -/
def ChildInherits (env : TcbEnv) (parent : Option ℕ) (t : TcbTable) : Prop :=
  ∃ i t' tcp, createTcb env parent t = .ok (i, t') ∧ t'.slots[i]? = some tcp ∧
    { tcp.cde with localshm := none } = inherited env (t.fields parent)

/-- The entry that is given out next has been left without a program, or with that of the parent. -/
def SlotClean (parent : Option ℕ) (t : TcbTable) : Prop :=
  t.leftover t.nextSlot = none ∨ t.leftover t.nextSlot = (t.fields parent).bind (·.perceivedProgramFullpath)

/-- In a run, `P` holds whenever a process is created. -/
def AtEveryCreation (env : TcbEnv) (argc : ℕ) (P : Option ℕ → TcbTable → Prop) (events : List TcbEvent) : Prop :=
  EachAfter (fun earlier event => ∀ parent, event = .create parent →
    ∃ t, runTcbs env argc earlier = .ok t ∧ (parent.all t.live = true → P parent t)) events

theorem childInherits_iff (h : TableOk t) (hparent : parent.all t.live = true) :
    ChildInherits env parent t ↔ SlotClean parent t := by
  obtain ⟨t', tcp, hcreate, -, htcp, hcde, -⟩ := createTcb_spec env h hparent
  have hprogram : (inherited env (t.fields parent)).perceivedProgramFullpath =
      (t.fields parent).bind (·.perceivedProgramFullpath) := by
    cases t.fields parent <;> rfl
  constructor
  · rintro ⟨i, t'', tcp', hcreate', htcp', hinherits⟩
    obtain ⟨rfl, rfl⟩ := Prod.mk.inj (Except.ok.inj (hcreate.symm.trans hcreate'))
    obtain rfl := Option.some.inj (htcp.symm.trans htcp')
    -- compare the program only
    have hsame := congrArg CdeFields.perceivedProgramFullpath (hcde.symm.trans hinherits)
    simp only [CdeFields.occupying] at hsame
    cases hleft : t.leftover t.nextSlot with
    | none => exact .inl hleft
    | some program =>
      rw [hleft] at hsame
      exact .inr (by rw [hleft, ← hprogram, ← hsame]; rfl)
  · intro hclean
    refine ⟨t.nextSlot, t', tcp, hcreate, htcp, hcde.trans ?_⟩
    rcases hclean with hnone | hsame
    · rw [CdeFields.occupying, hnone]
      rfl
    · rw [CdeFields.occupying, hsame, ← hprogram, Option.or_self]

/-- **A child gets nothing but its parent's fields, in every run, exactly if no process gets an entry
that another program has left.** -/
theorem child_inherits_iff (env : TcbEnv) (argc : ℕ) (hargc : 0 < argc) (events : List TcbEvent) :
    AtEveryCreation env argc (ChildInherits env) events ↔ AtEveryCreation env argc SlotClean events := by
  have hiff : ∀ earlier parent, (∃ t, runTcbs env argc earlier = .ok t ∧
      (parent.all t.live = true → ChildInherits env parent t)) ↔
      ∃ t, runTcbs env argc earlier = .ok t ∧ (parent.all t.live = true → SlotClean parent t) := by
    intro earlier parent
    obtain ⟨t, hrun, hok⟩ := runTcbs_ok env hargc earlier
    simp only [hrun, Except.ok.injEq, exists_eq_left']
    exact forall_congr' fun hparent => childInherits_iff hok hparent
  unfold AtEveryCreation
  simp only [hiff]

/-- What `CDE_begin_execve` does for a program that is started with the dynamic linker. -/
def perceiveProgram (path : CString) : FieldChange where
  apply f := { f with perceivedProgramFullpath := some path, childshm := none }
  keepsDir _ h := h

def homeEnv : TcbEnv := { cde := { execMode := true }, maxOpenFiles := 2, getcwd := str "/home" }

/-- A shell has a child that does something and exits; then it has another child. -/
def shellRun (something : List TcbEvent) : List TcbEvent :=
  [.create none, .act 0 (perceiveProgram (str "/bin/sh")), .create (some 0)] ++ something ++ [.exit 1, .create (some 0)]

/-- The next child of a shell whose first child has started no program. -/
theorem child_inherits_shell : AtEveryCreation homeEnv 2 (ChildInherits homeEnv) (shellRun []) := by
  refine (child_inherits_iff homeEnv 2 (by decide) _).2 ?_
  have hlist : shellRun [] = [] ++ [.create none] ++ [.act 0 (perceiveProgram (str "/bin/sh"))] ++
      [.create (some 0)] ++ [.exit 1] ++ [.create (some 0)] := rfl
  rw [AtEveryCreation, hlist]
  simp only [eachAfter_concat]
  refine ⟨⟨⟨⟨⟨eachAfter_nil, ?_⟩, ?_⟩, ?_⟩, ?_⟩, ?_⟩
  · rintro parent ⟨⟩
    exact ⟨_, rfl, fun _ => .inl rfl⟩
  · rintro parent ⟨⟩
  · rintro parent ⟨⟩
    exact ⟨_, rfl, fun _ => .inl rfl⟩
  · rintro parent ⟨⟩
  · rintro parent ⟨⟩
    exact ⟨_, rfl, fun _ => .inr rfl⟩

/-- The fields of a process in `/home`. -/
def homeFields (shm : ℕ) (program : Option CString) : CdeFields :=
  { localshm := some shm, openedFilePaths := [none, none], currentDir := some (str "/home"), currentRepoInd := -1
    perceivedProgramFullpath := program }

/-- The shell and its entry for a child. -/
def shellTable (nprocs nextShm : ℕ) (child : TcbEntry) : TcbTable :=
  { slots := [⟨true, none, homeFields 0 (some (str "/bin/sh"))⟩, child], nprocs, nextShm }

theorem shellTable_fields (nprocs nextShm : ℕ) (child : TcbEntry) :
    (shellTable nprocs nextShm child).fields (some 0) = some (homeFields 0 (some (str "/bin/sh"))) ∧
      (shellTable nprocs nextShm child).fields (some 1) = some child.cde := ⟨rfl, rfl⟩

theorem shellRun_eq {something : List TcbEvent} {program : CString}
    (h : something.foldlM (fun t event => event.run homeEnv t)
      (shellTable 2 2 ⟨true, some 0, homeFields 1 (some (str "/bin/sh"))⟩) =
        .ok (shellTable 2 2 ⟨true, some 0, homeFields 1 (some program)⟩)) :
    runTcbs homeEnv 2 (shellRun something) = .ok (shellTable 2 3 ⟨true, some 0, homeFields 2 (some program)⟩) := by
  have hstart : runTcbs homeEnv 2 [.create none, .act 0 (perceiveProgram (str "/bin/sh")), .create (some 0)] =
      .ok (shellTable 2 2 ⟨true, some 0, homeFields 1 (some (str "/bin/sh"))⟩) :=
    bind_eq_ok.2 ⟨{ slots := [⟨true, none, homeFields 0 none⟩, {}], nprocs := 1, nextShm := 1 }, rfl,
      bind_eq_ok.2 ⟨shellTable 1 1 {}, rfl, bind_eq_ok.2 ⟨_, rfl, rfl⟩⟩⟩
  unfold runTcbs shellRun at *
  rw [List.foldlM_append, List.foldlM_append]
  refine bind_eq_ok.2 ⟨_, bind_eq_ok.2 ⟨_, hstart, h⟩, ?_⟩
  exact bind_eq_ok.2 ⟨shellTable 1 2 ⟨false, none, freeTcbCdeFields (homeFields 1 (some program))⟩, rfl,
    bind_eq_ok.2 ⟨_, rfl, rfl⟩⟩

/-- **A child gets the program of a dead stranger**: two runs differ only in what the first child of
the shell does, and the second child has different fields, although its parent has the same. -/
theorem child_inherits_stranger : ∃ t t', runTcbs homeEnv 2 (shellRun []) = .ok t ∧
    runTcbs homeEnv 2 (shellRun [.act 1 (perceiveProgram (str "/bin/ls"))]) = .ok t' ∧
    t.fields (some 0) = t'.fields (some 0) ∧ t.fields (some 1) ≠ t'.fields (some 1) := by
  have hsh : runTcbs homeEnv 2 (shellRun []) =
      .ok (shellTable 2 3 ⟨true, some 0, homeFields 2 (some (str "/bin/sh"))⟩) := shellRun_eq rfl
  have hls : runTcbs homeEnv 2 (shellRun [.act 1 (perceiveProgram (str "/bin/ls"))]) =
      .ok (shellTable 2 3 ⟨true, some 0, homeFields 2 (some (str "/bin/ls"))⟩) :=
    shellRun_eq (bind_eq_ok.2 ⟨shellTable 2 2 ⟨true, some 0, homeFields 1 (some (str "/bin/ls"))⟩, rfl, rfl⟩)
  refine ⟨_, _, hsh, hls, ?_, ?_⟩
  · rw [(shellTable_fields _ _ _).1, (shellTable_fields _ _ _).1]
  · rw [(shellTable_fields _ _ _).2, (shellTable_fields _ _ _).2]
    intro h
    have hprogram := congrArg CdeFields.perceivedProgramFullpath (Option.some.inj h)
    simp only [homeFields, Option.some.injEq] at hprogram
    exact absurd hprogram (by decide)

end Ptu
