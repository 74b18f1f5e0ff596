import Ptu.Lib.History
import Ptu.Spec.Prov

/-!
# Every `CLOSE` has its `open`

The table `opened_file_paths` is written when a file is opened and read when a descriptor is
closed, but never cleared.

* `TableOf`: **what the table says after a run**: the path of the last `open` or `openat` that
  returned a descriptor, whatever has happened to the descriptor since.
* `Call.record_effect`: what a call does to the table and the log.
* `close_matches_iff`: **every `CLOSE` record matches its open exactly if every descriptor that was
  ever opened is closed as the next thing that happens to it.**
-/

namespace Ptu

open Memory History

variable {env : ProvEnv} {c : Call} {st st' st₁ st₂ : ProvState} {fd : ℤ} {path : CString}

/-! ## What a call does to a descriptor -/

/-- A successful `open` or `openat` that returns `fd`. -/
def Call.opens (c : Call) (fd : ℤ) : Prop :=
  c.syscall.pathIndex.isSome = true ∧ 0 ≤ fd ∧ c.stop.uRval = fd

/-- The same, of the file `path`. -/
def Call.opened (env : ProvEnv) (c : Call) (fd : ℤ) (path : CString) : Prop :=
  0 ≤ fd ∧ c.stop.uRval = fd ∧ ∃ i, c.syscall.pathIndex = some i ∧ openedPath env c.stop i = .ok path

/-- The call makes `fd` refer to something. -/
def Call.makes (c : Call) (fd : ℤ) : Prop :=
  match c.syscall with
  | .sysOpen | .sysOpenat | .sysCreat => 0 ≤ fd ∧ c.stop.uRval = fd
  | .sysClose => False
  | .other => fd ∈ c.created

/-- The call makes `fd` refer to something, or closes it. -/
def Call.touches (c : Call) (fd : ℤ) : Prop :=
  c.makes fd ∨ (c.syscall = .sysClose ∧ c.stop.closefd = fd)

instance (c : Call) (fd : ℤ) : Decidable (c.opens fd) := inferInstanceAs (Decidable (_ ∧ _ ∧ _))

theorem Call.opened.opens (h : c.opened env fd path) : c.opens fd := by
  obtain ⟨hfd, hrval, i, hi, -⟩ := h
  exact ⟨by rw [hi]; rfl, hfd, hrval⟩

theorem Call.opens.touches (h : c.opens fd) : c.touches fd := by
  obtain ⟨hindex, hfd, hrval⟩ := h
  refine .inl ?_
  unfold Call.makes
  cases hc : c.syscall with
  | sysOpen => exact ⟨hfd, hrval⟩
  | sysOpenat => exact ⟨hfd, hrval⟩
  | sysCreat => rw [hc] at hindex; cases hindex
  | sysClose => rw [hc] at hindex; cases hindex
  | other => rw [hc] at hindex; cases hindex

/-! ## What is recorded -/

theorem printIoProv_ok {s : ProvStop} {i : ℕ} {action : ProvVerb}
    (h : printIoProv env s i action st = .ok st') :
    st'.openedFilePaths = st.openedFilePaths ∧ ∃ p, st'.log = st.log ++ [⟨st.pid, action, p⟩] := by
  obtain ⟨p, -, h⟩ := bind_eq_ok.1 h
  obtain rfl := Except.ok.inj h
  exact ⟨rfl, p, rfl⟩

theorem openAction_ne_close (flags : Word) : openAction flags ≠ .close := by
  unfold openAction
  split_ifs <;> decide

/-- Nothing is recorded for an open that failed, or without provenance mode. -/
theorem printOpenProv_skip {s : ProvStop} {syscall : Syscall}
    (hskip : (!env.provMode || decide (s.uRval < 0)) = true ∨ syscall.pathIndex = none)
    (h : printOpenProv env syscall s st = .ok st') : st' = st := by
  unfold printOpenProv at h
  cases hindex : syscall.pathIndex with
  | none =>
    simp only [hindex] at h
    exact (Except.ok.inj h).symm
  | some i =>
    simp only [hindex] at h
    obtain ⟨p, -, h⟩ := bind_eq_ok.1 h
    rcases hskip with hskip | hskip
    · simp only [hskip, if_true] at h
      exact (Except.ok.inj h).symm
    · rw [hindex] at hskip
      cases hskip

/-- **A successful open is recorded, and its path is kept in the table.** -/
theorem printOpenProv_ok {s : ProvStop} {syscall : Syscall} {i : ℕ} (hindex : syscall.pathIndex = some i)
    (hprov : env.provMode = true) (hrval : 0 ≤ s.uRval) (h : printOpenProv env syscall s st = .ok st') :
    ∃ p action q, openedPath env s i = .ok p ∧ s.uRval.toNat < st.openedFilePaths.length ∧
      st'.openedFilePaths = st.openedFilePaths.set s.uRval.toNat (some p) ∧
      action ≠ .close ∧ st'.log = st.log ++ [⟨st.pid, action, q⟩] := by
  unfold printOpenProv at h
  have hgo : ¬ (!env.provMode || decide (s.uRval < 0)) = true := by simp [hprov, hrval]
  simp only [hindex] at h
  obtain ⟨p, hp, h⟩ := bind_eq_ok.1 h
  simp only [hgo] at h
  obtain ⟨st₁, hio, h⟩ := bind_eq_ok.1 h
  obtain ⟨htable, q, hlog⟩ := printIoProv_ok hio
  split at h
  · cases h
  · rename_i hlen
    obtain rfl := Except.ok.inj h
    rw [htable] at hlen
    exact ⟨p, _, q, hp, by omega, by rw [htable], openAction_ne_close _, hlog⟩

/-- Records are added, but none of a `close`. -/
def NoClose (st st' : ProvState) : Prop :=
  ∃ records, st'.log = st.log ++ records ∧ ∀ r ∈ records, r.verb ≠ .close

theorem NoClose.refl (st : ProvState) : NoClose st st := ⟨[], by simp, by simp⟩

theorem NoClose.single {r : ProvRecord} (hr : r.verb ≠ .close) (h : st'.log = st.log ++ [r]) : NoClose st st' :=
  ⟨[r], h, by simpa using hr⟩

/-- The record of a `close`, if the table has a path. -/
theorem printCloseProv_ok {s : ProvStop} (hprov : env.provMode = true)
    (h : printCloseProv env s st = .ok st') :
    0 ≤ s.closefd ∧ st'.openedFilePaths = st.openedFilePaths ∧
      ∃ entry, st.openedFilePaths[s.closefd.toNat]? = some entry ∧
        st'.log = st.log ++ (entry.map fun path => ⟨st.pid, .close, path⟩).toList := by
  unfold printCloseProv at h
  by_cases hneg : s.closefd < 0
  · simp only [hprov, Bool.not_true, Bool.false_eq_true, if_false, hneg, if_true] at h
    cases h
  simp only [hprov, Bool.not_true, Bool.false_eq_true, if_false, hneg] at h
  cases hentry : st.openedFilePaths[s.closefd.toNat]? with
  | none => simp only [hentry] at h; cases h
  | some entry =>
    simp only [hentry] at h
    cases entry with
    | none =>
      obtain rfl := Except.ok.inj h
      exact ⟨by omega, rfl, none, rfl, by simp⟩
    | some path =>
      obtain rfl := Except.ok.inj h
      exact ⟨by omega, rfl, some path, rfl, rfl⟩

/-- **What a call does**: it opens a file, closes a descriptor, or is neither of the two. -/
inductive Call.Effect (env : ProvEnv) (c : Call) (st st' : ProvState) : Prop
  | opened (fd : ℤ) (path : CString) (hc : c.syscall ≠ .sysClose) (hlog : NoClose st st')
    (hopened : c.opened env fd path) (hfd : fd.toNat < st.openedFilePaths.length)
    (htable : st'.openedFilePaths = st.openedFilePaths.set fd.toNat (some path))
  | closed (entry : Option CString) (hc : c.syscall = .sysClose) (hfd : 0 ≤ c.stop.closefd)
    (hentry : st.openedFilePaths[c.stop.closefd.toNat]? = some entry)
    (hlog : st'.log = st.log ++ (entry.map fun path => ⟨st.pid, .close, path⟩).toList)
    (htable : st'.openedFilePaths = st.openedFilePaths)
  | neither (hc : c.syscall ≠ .sysClose) (hlog : NoClose st st') (hno : ∀ fd, ¬ c.opens fd)
    (htable : st'.openedFilePaths = st.openedFilePaths)

theorem Call.not_opens (hindex : c.syscall.pathIndex = none) (fd : ℤ) : ¬ c.opens fd := fun hopens => by
  have hsome := hopens.1
  rw [hindex] at hsome
  cases hsome

theorem printOpenProv_effect {i : ℕ} (hprov : env.provMode = true) (hindex : c.syscall.pathIndex = some i)
    (h : printOpenProv env c.syscall c.stop st = .ok st') : c.Effect env st st' := by
  have hc : c.syscall ≠ .sysClose := fun hc => by
    rw [hc] at hindex
    cases hindex
  by_cases hrval : 0 ≤ c.stop.uRval
  · obtain ⟨p, action, q, hp, hlen, htable, haction, hlog⟩ := printOpenProv_ok hindex hprov hrval h
    exact .opened _ p hc (.single haction hlog) ⟨hrval, rfl, i, hindex, hp⟩ hlen htable
  · obtain rfl := printOpenProv_skip (.inl (by simpa [hprov] using hrval)) h
    refine .neither hc (.refl _) (fun fd hopens => ?_) rfl
    exact hrval (hopens.2.2 ▸ hopens.2.1)

theorem Call.record_effect (hprov : env.provMode = true) (h : c.record env st = .ok st') :
    c.Effect env st st' := by
  unfold Call.record at h
  cases hc : c.syscall with
  | sysOpen =>
    rw [hc] at h
    exact printOpenProv_effect (i := 1) hprov (by rw [hc]; rfl) (hc ▸ h)
  | sysOpenat =>
    rw [hc] at h
    exact printOpenProv_effect (i := 2) hprov (by rw [hc]; rfl) (hc ▸ h)
  | sysCreat =>
    have hno := Call.not_opens (c := c) (by rw [hc]; rfl)
    have hne : c.syscall ≠ .sysClose := by rw [hc]; decide
    rw [hc] at h
    simp only [printWriteProv] at h
    split at h
    · obtain ⟨htable, q, hlog⟩ := printIoProv_ok h
      exact .neither hne (.single (by simp) hlog) hno htable
    · obtain rfl := Except.ok.inj h
      exact .neither hne (.refl _) hno rfl
  | sysClose =>
    rw [hc] at h
    obtain ⟨hfd, htable, entry, hentry, hlog⟩ := printCloseProv_ok hprov h
    exact .closed entry hc hfd hentry hlog htable
  | other =>
    have hne : c.syscall ≠ .sysClose := by rw [hc]; decide
    rw [hc] at h
    obtain rfl := Except.ok.inj h
    exact .neither hne (.refl _) (Call.not_opens (by rw [hc]; rfl)) rfl

/-! ## The table after a run -/

/-- **What the table says after the calls `calls`**: NULL if the descriptor was never returned by
`open` or `openat`, else the path of the last one that returned it. -/
def EntryOf (env : ProvEnv) (calls : List Call) (fd : ℤ) : Option CString → Prop
  | none => ∀ o ∈ calls, ¬ o.opens fd
  | some path => LatestIs (fun o => o.opened env fd path) (fun o => o.opens fd) calls

structure TableOf (env : ProvEnv) (calls : List Call) (table : List (Option CString)) : Prop where
  range : ∀ o ∈ calls, ∀ fd, o.opens fd → fd.toNat < table.length
  entry : ∀ (fd : ℕ) (entry : Option CString), table[fd]? = some entry → EntryOf env calls fd entry

theorem tableOf_init (env : ProvEnv) (maxof : ℕ) : TableOf env [] (List.replicate maxof none) where
  range := by simp
  entry fd entry h := by
    obtain rfl := List.eq_of_mem_replicate (List.mem_of_getElem? h)
    simp [EntryOf]

variable {calls : List Call} {table : List (Option CString)}

/-- A call that does not return `fd` leaves its entry true. -/
theorem EntryOf.concat {entry : Option CString} (h : EntryOf env calls fd entry) (hc : ¬ c.opens fd) :
    EntryOf env (calls ++ [c]) fd entry := by
  cases entry with
  | none =>
    intro o ho
    rcases List.mem_append.1 ho with ho | ho
    · exact h o ho
    · obtain rfl := List.mem_singleton.1 ho
      exact hc
  | some path => exact latestIs_concat.2 (.inr ⟨hc, h⟩)

theorem TableOf.skip (h : TableOf env calls table) (hc : ∀ fd, ¬ c.opens fd) : TableOf env (calls ++ [c]) table where
  range o ho fd hfd := by
    rcases List.mem_append.1 ho with ho | ho
    · exact h.range o ho fd hfd
    · obtain rfl := List.mem_singleton.1 ho
      exact absurd hfd (hc fd)
  entry fd entry hentry := (h.entry fd entry hentry).concat (hc fd)

/-- An open changes the entry of the descriptor that it returns, and no other one. -/
theorem TableOf.opened (h : TableOf env calls table) (hopened : c.opened env fd path)
    (hfd : fd.toNat < table.length) : TableOf env (calls ++ [c]) (table.set fd.toNat (some path)) where
  range o ho fd' hfd' := by
    rw [List.length_set]
    rcases List.mem_append.1 ho with ho | ho
    · exact h.range o ho fd' hfd'
    · obtain rfl := List.mem_singleton.1 ho
      obtain rfl : fd' = fd := hfd'.2.2.symm.trans hopened.2.1
      exact hfd
  entry n entry hentry := by
    have hnonneg := hopened.1
    by_cases hn : fd.toNat = n
    · have hcast : (n : ℤ) = fd := by omega
      rw [hn, List.getElem?_set_self (by omega)] at hentry
      obtain rfl := Option.some.inj hentry
      rw [hcast]
      exact latestIs_concat.2 (.inl hopened)
    · rw [List.getElem?_set_ne hn] at hentry
      refine (h.entry n entry hentry).concat fun hopens => hn ?_
      have : fd = n := hopened.2.1.symm.trans hopens.2.2
      omega

/-- **The table stays true in a step**, and so in a whole run. -/
theorem TableOf.record (hprov : env.provMode = true) (h : TableOf env calls st.openedFilePaths)
    (hstep : c.record env st = .ok st') : TableOf env (calls ++ [c]) st'.openedFilePaths := by
  cases Call.record_effect hprov hstep with
  | opened fd path hc hlog hopened hfd htable =>
    rw [htable]
    exact h.opened hopened hfd
  | closed entry hc hfd hentry hlog htable =>
    rw [htable]
    exact h.skip (Call.not_opens (by rw [hc]; rfl))
  | neither hc hlog hno htable =>
    rw [htable]
    exact h.skip hno

theorem recordAll_concat (h : recordAll env (calls ++ [c]) st = .ok st') :
    ∃ st₁, recordAll env calls st = .ok st₁ ∧ c.record env st₁ = .ok st' := by
  unfold recordAll at h
  rw [List.foldlM_append] at h
  obtain ⟨st₁, h₁, h⟩ := bind_eq_ok.1 h
  obtain ⟨st₂, h₂, h⟩ := bind_eq_ok.1 h
  obtain rfl := Except.ok.inj h
  exact ⟨st₁, h₁, h₂⟩

theorem recordAll_tableOf (hprov : env.provMode = true) {maxof pid : ℕ}
    (h : recordAll env calls (ProvState.init maxof pid) = .ok st) : TableOf env calls st.openedFilePaths := by
  induction calls using List.reverseRecOn generalizing st with
  | nil =>
    obtain rfl := Except.ok.inj h
    exact tableOf_init env maxof
  | append_singleton calls c ih =>
    obtain ⟨st₁, h₁, hstep⟩ := recordAll_concat h
    exact (ih h₁).record hprov hstep

/-! ## Closing -/

/-- A `CLOSE` record that a call writes after the calls `earlier` carries the path of the last
`open` or `openat` that returned the descriptor, and since then the descriptor was neither closed
nor made to refer to something else. -/
def CloseMatches (env : ProvEnv) (st : ProvState) (earlier : List Call) (c : Call) : Prop :=
  ∀ st₁ st₂ path, recordAll env earlier st = .ok st₁ → c.record env st₁ = .ok st₂ →
    st₂.log = st₁.log ++ [⟨st₁.pid, .close, path⟩] →
    c.syscall = .sysClose ∧ LatestIs (fun o => o.opened env c.stop.closefd path)
      (fun o => o.touches c.stop.closefd) earlier

/-- **Every `CLOSE` record of a run matches its open.** -/
def EveryCloseMatches (env : ProvEnv) (calls : List Call) (st : ProvState) : Prop :=
  EachAfter (CloseMatches env st) calls

/-- A descriptor that was ever returned by `open` or `openat` is closed only if that is the last
thing that happened to it. -/
def ClosedInOrder (calls : List Call) : Prop :=
  EachAfter (fun earlier c => c.syscall = .sysClose → (∃ o ∈ earlier, o.opens c.stop.closefd) →
    LatestIs (fun o => o.opens c.stop.closefd) (fun o => o.touches c.stop.closefd) earlier) calls

/-- Without provenance mode nothing is recorded. -/
theorem Call.record_off (hprov : env.provMode = false) (h : c.record env st = .ok st') : st' = st := by
  have hskip : ∀ s : ProvStop, (!env.provMode || decide (s.uRval < 0)) = true := by simp [hprov]
  unfold Call.record at h
  split at h
  · exact printOpenProv_skip (.inl (hskip _)) h
  · exact printOpenProv_skip (.inl (hskip _)) h
  · simp only [printWriteProv, hprov, Bool.false_and, Bool.false_eq_true, if_false] at h
    exact (Except.ok.inj h).symm
  · simp only [printCloseProv, hprov, Bool.not_false, if_true] at h
    exact (Except.ok.inj h).symm
  · exact (Except.ok.inj h).symm

/-- The `CLOSE` record of a call is that of a `close`, with the path in the table. -/
theorem Call.record_close (hprov : env.provMode = true) (h : c.record env st = .ok st')
    (hlog : st'.log = st.log ++ [⟨st.pid, .close, path⟩]) :
    c.syscall = .sysClose ∧ 0 ≤ c.stop.closefd ∧
      st.openedFilePaths[c.stop.closefd.toNat]? = some (some path) := by
  have hnone : ¬ NoClose st st' := by
    rintro ⟨records, hrecords, hverb⟩
    obtain rfl := List.append_cancel_left (hlog.symm.trans hrecords)
    exact hverb _ (List.mem_singleton_self _) rfl
  cases Call.record_effect hprov h with
  | opened fd path hc hno => exact absurd hno hnone
  | neither hc hno => exact absurd hno hnone
  | closed entry hc hfd hentry hlog' =>
    refine ⟨hc, hfd, ?_⟩
    have hnew := List.append_cancel_left (hlog.symm.trans hlog')
    cases entry with
    | none => cases hnew
    | some path' =>
      obtain rfl : path = path' := by simpa using hnew
      exact hentry

theorem ClosedInOrder.everyCloseMatches {maxof pid : ℕ} (hprov : env.provMode = true)
    (h : ClosedInOrder calls) : EveryCloseMatches env calls (ProvState.init maxof pid) := by
  intro earlier c later hcalls st₁ st₂ path hrun hstep hlog
  obtain ⟨hc, hfd, hentry⟩ := Call.record_close hprov hstep hlog
  -- the path in the table is that of the last open, which is the last thing that happened
  have hopened := (recordAll_tableOf hprov hrun).entry _ _ hentry
  rw [Int.toNat_of_nonneg hfd] at hopened
  obtain ⟨o, ho, hopens⟩ := LatestIs.exists_mem hopened
  have hlast := h earlier c later hcalls hc ⟨o, ho, hopens.opens⟩
  have hboth := LatestIs.inter hopened hlast (fun x hx => hx.opens) (fun x hx => hx) fun x hx => hx.touches
  exact ⟨hc, hboth.imp fun x hx => hx.1⟩

/-- A run can be cut at any call. -/
theorem recordAll_append {earlier later : List Call}
    (h : recordAll env (earlier ++ c :: later) st = .ok st') :
    ∃ st₁ st₂, recordAll env earlier st = .ok st₁ ∧ c.record env st₁ = .ok st₂ := by
  unfold recordAll at h
  rw [List.foldlM_append] at h
  obtain ⟨st₁, h₁, h⟩ := bind_eq_ok.1 h
  obtain ⟨st₂, h₂, -⟩ := bind_eq_ok.1 h
  exact ⟨st₁, st₂, h₁, h₂⟩

theorem EveryCloseMatches.closedInOrder {maxof pid : ℕ} (hprov : env.provMode = true)
    (h : recordAll env calls (ProvState.init maxof pid) = .ok st)
    (hmatch : EveryCloseMatches env calls (ProvState.init maxof pid)) : ClosedInOrder calls := by
  rintro earlier c later rfl hc ⟨o, ho, hopens⟩
  obtain ⟨st₁, st₂, hrun, hstep⟩ := recordAll_append h
  have htable := recordAll_tableOf hprov hrun
  cases Call.record_effect hprov hstep with
  | opened fd path hne => exact absurd hc hne
  | neither hne => exact absurd hc hne
  | closed entry _ hfd hentry hlog =>
    have hof := htable.entry _ _ hentry
    rw [Int.toNat_of_nonneg hfd] at hof
    cases entry with
    | none => exact absurd hopens (hof o ho)
    | some path =>
      obtain ⟨-, hlast⟩ := hmatch earlier c later rfl st₁ st₂ path hrun hstep hlog
      exact hlast.imp fun x hx => hx.opens

/-- **Every `CLOSE` record matches its open exactly if, in provenance mode, every descriptor that
was ever opened is closed as the next thing that happens to it.** -/
theorem close_matches_iff {maxof pid : ℕ} (h : recordAll env calls (ProvState.init maxof pid) = .ok st) :
    EveryCloseMatches env calls (ProvState.init maxof pid) ↔ (env.provMode = true → ClosedInOrder calls) := by
  refine ⟨fun hmatch hprov => hmatch.closedInOrder hprov h, fun horder => ?_⟩
  cases hprov : env.provMode with
  | true => exact (horder hprov).everyCloseMatches hprov
  | false =>
    intro earlier c later hcalls st₁ st₂ path hrun hstep hlog
    rw [Call.record_off hprov hstep] at hlog
    simp at hlog

/-- The calls of a process whose strings are all `/a`. -/
def aEnv : ProvEnv where
  strcpyFromChildOrNull _ _ := some (str "/a")

/-- `open("/a", O_RDONLY)`, which returns `fd`. -/
def openCall (fd : ℤ) : Call where
  syscall := .sysOpen
  stop := { uArg := fun _ => 0, uRval := fd, currentDir := str "/", mem := fun _ => none }

def closeCall (fd : Word) : Call where
  syscall := .sysClose
  stop := { uArg := fun _ => fd, mem := fun _ => none }

/-- `pipe`, `dup`, `socket`, … -/
def otherCall (created : List ℤ) : Call where
  syscall := .other
  stop := { uArg := fun _ => 0, mem := fun _ => none }
  created

theorem close_matches_iff_once :
    EveryCloseMatches aEnv [openCall 3, closeCall 3] (ProvState.init 8 7) := by
  have hrun : recordAll aEnv [openCall 3, closeCall 3] (ProvState.init 8 7) = .ok _ := rfl
  refine (close_matches_iff hrun).2 fun _ => ?_
  have hopen : ClosedInOrder ([] ++ [openCall 3]) :=
    eachAfter_concat.2 ⟨eachAfter_nil, fun hc => by cases hc⟩
  exact (eachAfter_concat (l := [openCall 3])).2 ⟨hopen, fun _ _ => ⟨[], _, [], rfl, by decide, by simp⟩⟩

/-- A descriptor of a pipe is closed with the path of a file that was closed before. -/
theorem close_matches_recycled :
    (recordAll aEnv [openCall 3, closeCall 3, otherCall [3, 4], closeCall 3] (ProvState.init 8 7)).map (·.log) =
      .ok [⟨7, .read, str "/a"⟩, ⟨7, .close, str "/a"⟩, ⟨7, .close, str "/a"⟩] ∧
    ¬ EveryCloseMatches aEnv [openCall 3, closeCall 3, otherCall [3, 4], closeCall 3] (ProvState.init 8 7) := by
  refine ⟨rfl, fun hmatch => ?_⟩
  obtain ⟨-, hlast⟩ := hmatch ([openCall 3, closeCall 3] ++ [otherCall [3, 4]]) (closeCall 3) [] rfl _ _
    (str "/a") rfl rfl rfl
  rcases latestIs_concat.1 hlast with ⟨-, -, i, hi, -⟩ | ⟨hno, -⟩
  · cases hi
  · exact hno (.inl (by decide : (closeCall 3).stop.closefd ∈ [(3 : ℤ), 4]))

end Ptu
