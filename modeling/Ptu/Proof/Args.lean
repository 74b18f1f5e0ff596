import Ptu.Lib.Capacity
import Ptu.Proof.Redirect
import Ptu.Spec.Shm

/-!
# Redirected arguments reach the kernel

* `storePair_spec`: where the redirected paths stand and which registers are set.
* `reaches_iff`: **the argument registers point to the redirected paths**, in both
  personalities and for all functions `modify_syscall_…`, except that
  `modify_syscall_second_and_fourth_args` sets `rcx` for the fourth argument of a native
  process, which the kernel takes from `r10`.
-/

namespace Ptu

open Capacity Memory

variable {g : Cde} {p : Personality} {tcp tcp' : ShmTcb} {child child' : Child} {e e' : Effects}
variable {r1 r2 : Option CString}

/-- Different arguments are in different registers. -/
theorem argreg_injective (p : Personality) : Function.Injective (argreg p) := by
  intro i j
  cases p with
  | native => revert i j; decide
  | emu32 => revert i j; decide

/-! ## What is stored -/

/-- Where the second path is copied to. -/
def fileSlot (shm : Word) (r1 : Option CString) : Word :=
  match r1 with
  | some s1 => shm + BitVec.ofNat 64 (s1.length + 1)
  | none => shm

/-- The room that the redirected paths take. -/
def roomFor (r : Option CString) : ℕ :=
  match r with
  | some s => s.length + 1
  | none => 0

/-- Set a register when there is something to point to. -/
def Regs.point (regs : Regs) (r : Reg) (redirected : Option CString) (v : Word) : Regs :=
  match redirected with
  | some _ => regs.set r v
  | none => regs

theorem Regs.point_of_ne {regs : Regs} {r r' : Reg} {redirected : Option CString} {v : Word}
    (h : redirected ≠ none → r' ≠ r) : regs.point r redirected v r' = regs r' := by
  cases redirected with
  | none => rfl
  | some s => exact Regs.set_of_ne _ _ (h (by simp))

theorem Regs.point_some {regs : Regs} {r : Reg} {redirected : Option CString} {v : Word} {s : CString}
    (h : redirected = some s) : regs.point r redirected v r = v := by
  subst h; exact Regs.set_self _ _ _

theorem strcpyShm_okIff (tcp : ShmTcb) (offset : ℕ) (s : CString) (child : Child) :
    OkIff Fatal.segv (offset + s.length + 1 ≤ sharedPageSize)
      (· = { child with mem := child.mem.store (tcp.childshm + BitVec.ofNat 64 offset) (s ++ [0]) })
      (strcpyShm tcp offset s child) := by
  unfold strcpyShm
  split_ifs with hfull
  · exact okIff_error (by omega)
  · exact okIff_ok (by omega) rfl

theorem strcpyShm_ok {offset : ℕ} {s : CString} (h : strcpyShm tcp offset s child = .ok child') :
    offset + s.length + 1 ≤ sharedPageSize ∧
      child' = { child with mem := child.mem.store (tcp.childshm + BitVec.ofNat 64 offset) (s ++ [0]) } :=
  (strcpyShm_okIff tcp offset s child).of_ok h

/-- **What `storePair` does**: both paths stand in the segment, and the two registers are set. -/
theorem storePair_spec {a : ArgPair} (h : storePair p a tcp r1 r2 child = .ok child') :
    (∀ s, r1 = some s → Holds child'.mem tcp.childshm (s ++ [0])) ∧
    (∀ s, r2 = some s → Holds child'.mem (fileSlot tcp.childshm r1) (s ++ [0])) ∧
    child'.regs = (child.regs.point (a.reg1 p) r1 tcp.childshm).point (a.reg2 p) r2
      (fileSlot tcp.childshm r1) := by
  have hroom : sharedPageSize ≤ 2 ^ 64 := by decide
  have hone : ∀ {s : CString} {mem : Mem}, 0 + s.length + 1 ≤ sharedPageSize →
      Holds (mem.store (tcp.childshm + BitVec.ofNat 64 0) (s ++ [0])) tcp.childshm (s ++ [0]) := by
    intro s mem hs
    rw [BitVec.add_zero]
    exact holds_store _ _ (by simp; omega)
  rcases r1 with _ | s1 <;> rcases r2 with _ | s2
  · obtain rfl := Except.ok.inj h
    exact ⟨by simp, by simp, rfl⟩
  · obtain ⟨c, hc, h⟩ := bind_eq_ok.1 h
    obtain ⟨hfit, rfl⟩ := strcpyShm_ok hc
    obtain rfl := Except.ok.inj h
    refine ⟨by simp, ?_, rfl⟩
    rintro s ⟨⟩
    exact hone hfit
  · obtain ⟨c, hc, h⟩ := bind_eq_ok.1 h
    obtain ⟨hfit, rfl⟩ := strcpyShm_ok hc
    obtain rfl := Except.ok.inj h
    refine ⟨?_, by simp, rfl⟩
    rintro s ⟨⟩
    exact hone hfit
  · obtain ⟨c, hc, h⟩ := bind_eq_ok.1 h
    obtain ⟨hfit, rfl⟩ := strcpyShm_ok hc
    obtain ⟨c', hc', h⟩ := bind_eq_ok.1 h
    obtain ⟨hfit', rfl⟩ := strcpyShm_ok hc'
    obtain rfl := Except.ok.inj h
    refine ⟨?_, ?_, rfl⟩
    · rintro s ⟨⟩
      have hfirst : Holds (child.mem.store _ (s1 ++ [0])) tcp.childshm (s1 ++ [0]) := hone hfit
      have hlen : (s1 ++ [0]).length + (s2 ++ [0]).length ≤ 2 ^ 64 := by simp; omega
      have hnext := hfirst.store_next hlen
      rwa [List.length_append] at hnext
    · rintro s ⟨⟩
      exact holds_store _ _ (by simp; omega)

/-- **It writes to the segment only**, where the paths fit. -/
theorem storePair_frame {a : ArgPair} (h : storePair p a tcp r1 r2 child = .ok child') :
    roomFor r1 + roomFor r2 ≤ sharedPageSize ∧
      ∀ x, sharedPageSize ≤ (x - tcp.childshm).toNat → child'.mem x = child.mem x := by
  have hone : ∀ {offset : ℕ} {s : CString} {mem : Mem}, offset + s.length + 1 ≤ sharedPageSize →
      ∀ x, sharedPageSize ≤ (x - tcp.childshm).toNat →
        mem.store (tcp.childshm + BitVec.ofNat 64 offset) (s ++ [0]) x = mem x := by
    intro offset s mem hs x hx
    apply store_other
    rw [sub_add_toNat (by omega), List.length_append, List.length_singleton]
    omega
  rcases r1 with _ | s1 <;> rcases r2 with _ | s2
  · obtain rfl := Except.ok.inj h
    exact ⟨Nat.zero_le _, fun _ _ => rfl⟩
  · obtain ⟨c, hc, h⟩ := bind_eq_ok.1 h
    obtain ⟨hfit, rfl⟩ := strcpyShm_ok hc
    obtain rfl := Except.ok.inj h
    exact ⟨by simp only [roomFor]; omega, hone hfit⟩
  · obtain ⟨c, hc, h⟩ := bind_eq_ok.1 h
    obtain ⟨hfit, rfl⟩ := strcpyShm_ok hc
    obtain rfl := Except.ok.inj h
    exact ⟨by simp only [roomFor]; omega, hone hfit⟩
  · obtain ⟨c, hc, h⟩ := bind_eq_ok.1 h
    obtain ⟨hfit, rfl⟩ := strcpyShm_ok hc
    obtain ⟨c', hc', h⟩ := bind_eq_ok.1 h
    obtain ⟨hfit', rfl⟩ := strcpyShm_ok hc'
    obtain rfl := Except.ok.inj h
    refine ⟨by simp only [roomFor]; omega, fun x hx => ?_⟩
    exact (hone hfit' x hx).trans (hone hfit x hx)

/-- What was mapped stays mapped. -/
theorem storePair_mapped {a : ArgPair} (h : storePair p a tcp r1 r2 child = .ok child') {x : Word}
    (hx : child.mem x ≠ none) : child'.mem x ≠ none := by
  rcases r1 with _ | s1 <;> rcases r2 with _ | s2
  · obtain rfl := Except.ok.inj h
    exact hx
  · obtain ⟨c, hc, h⟩ := bind_eq_ok.1 h
    obtain ⟨-, rfl⟩ := strcpyShm_ok hc
    obtain rfl := Except.ok.inj h
    exact store_ne_none _ _ hx
  · obtain ⟨c, hc, h⟩ := bind_eq_ok.1 h
    obtain ⟨-, rfl⟩ := strcpyShm_ok hc
    obtain rfl := Except.ok.inj h
    exact store_ne_none _ _ hx
  · obtain ⟨c, hc, h⟩ := bind_eq_ok.1 h
    obtain ⟨-, rfl⟩ := strcpyShm_ok hc
    obtain ⟨c', hc', h⟩ := bind_eq_ok.1 h
    obtain ⟨-, rfl⟩ := strcpyShm_ok hc'
    obtain rfl := Except.ok.inj h
    exact store_ne_none _ _ (store_ne_none _ _ hx)

/-- **It succeeds exactly if the paths fit into the segment.** -/
theorem storePair_okIff (p : Personality) (a : ArgPair) (tcp : ShmTcb) (r1 r2 : Option CString) (child : Child) :
    OkIff Fatal.segv (roomFor r1 + roomFor r2 ≤ sharedPageSize) (fun _ => True)
      (storePair p a tcp r1 r2 child) := by
  have hlast : ∀ (c : Child) (offset : ℕ) (s : CString) (set : Child → Child),
      OkIff Fatal.segv (offset + s.length + 1 ≤ sharedPageSize) (fun _ => True)
        (strcpyShm tcp offset s c >>= fun c => .ok (set c)) :=
    fun c offset s set => (strcpyShm_okIff tcp offset s c).bind (fun _ hfits _ => okIff_ok hfits trivial) id
  rcases r1 with _ | s1 <;> rcases r2 with _ | s2
  · exact okIff_ok (Nat.zero_le _) trivial
  · exact (hlast child 0 s2 _).congr (by simp only [roomFor]; omega)
  · exact (hlast child 0 s1 _).congr (by simp only [roomFor]; omega)
  · refine (strcpyShm_okIff tcp 0 s1 child).bind (fun c _ _ => ?_) fun hroom => ?_
    · exact (hlast c (s1.length + 1) s2 _).congr (by simp only [roomFor]; omega)
    · simp only [roomFor] at hroom
      omega

theorem storePair_total {a : ArgPair} (hfit : roomFor r1 + roomFor r2 ≤ sharedPageSize) :
    ∃ child', storePair p a tcp r1 r2 child = .ok child' := by
  obtain ⟨child', h, -⟩ := (storePair_okIff p a tcp r1 r2 child).ok hfit
  exact ⟨child', h⟩

/-! ## The functions `modify_syscall_…` -/

/-- A call of one of the functions; the argument of `singleArg` is counted from 0. -/
inductive Modify where
  | singleArg (arg : Fin 2) (filename : CString)
  | twoArgs
  | secondAndFourthArgs
  | firstAndThirdArgs
  deriving DecidableEq

variable {M : Modify} {strcpyFromChild : StrcpyFromChild}

/-- The tracer's call. -/
def Modify.run (M : Modify) (g : Cde) (strcpyFromChild : StrcpyFromChild) (p : Personality)
    (tcp : ShmTcb) (child : Child) (e : Effects) : Except Fatal (ShmTcb × Child × Effects) :=
  match M with
  | .singleArg arg filename => modifySyscallSingleArg g p tcp (arg + 1) filename child e
  | .twoArgs => modifySyscallTwoArgs g strcpyFromChild p tcp child e
  | .secondAndFourthArgs => modifySyscallSecondAndFourthArgs g strcpyFromChild p tcp child e
  | .firstAndThirdArgs => modifySyscallFirstAndThirdArgs g strcpyFromChild p tcp child e

/-- The paths it is about. A call for a single path has no second one. -/
def Modify.pair : Modify → ArgPair
  | .singleArg arg _ =>
    ⟨arg.castLE (by decide), arg.castLE (by decide), fun p => argreg p (arg.castLE (by decide)),
      fun p => argreg p (arg.castLE (by decide))⟩
  | .twoArgs => Ptu.twoArgs
  | .secondAndFourthArgs => Ptu.secondAndFourthArgs
  | .firstAndThirdArgs => Ptu.firstAndThirdArgs

/-- What they are redirected to, NULL for a path that stays as it is. -/
def Modify.redirections (M : Modify) (g : Cde) (strcpyFromChild : StrcpyFromChild) (tcp : ShmTcb)
    (child : Child) (e : Effects) : Except Fatal (Option CString × Option CString × Effects) :=
  match M with
  | .singleArg _ filename => do
    let (redirected, e) ← redirectFilenameIntoCderoot g filename tcp.currentDir tcp.pIgnores e
    return (redirected, none, e)
  | M => redirectPair g strcpyFromChild M.pair tcp child e

theorem modifySyscallSingleArg_eq (hex : g.execMode = true) (hshm : tcp.childshm ≠ 0) (arg : Fin 2)
    (filename : CString) {redirected : Option CString}
    (h : redirectFilenameIntoCderoot g filename tcp.currentDir tcp.pIgnores e = .ok (redirected, e')) :
    modifySyscallSingleArg g p tcp (arg + 1) filename child e =
      (storePair p (Modify.singleArg arg filename).pair tcp redirected none child).map (tcp, ·, e') := by
  simp only [modifySyscallSingleArg, hex, Bool.not_true, Bool.false_eq_true, if_false]
  rw [h]
  cases redirected with
  | none => rfl
  | some s =>
    simp only [storePair, bind, Except.bind, pure, Except.pure, if_neg hshm]
    cases strcpyShm tcp 0 s child with
    | error err => rfl
    | ok c =>
      obtain rfl | rfl : arg = 0 ∨ arg = 1 := by omega
      · cases p <;> rfl
      · cases p <;> rfl

/-- **Each function redirects the paths and then stores them**, once the segment is attached. -/
theorem Modify.run_eq (hex : g.execMode = true) (hshm : tcp.childshm ≠ 0)
    (h : M.redirections g strcpyFromChild tcp child e = .ok (r1, r2, e')) :
    M.run g strcpyFromChild p tcp child e = (storePair p M.pair tcp r1 r2 child).map (tcp, ·, e') := by
  have hpair : ∀ {a : ArgPair}, redirectPair g strcpyFromChild a tcp child e = .ok (r1, r2, e') →
      modifySyscallPair a g strcpyFromChild p tcp child e =
        (storePair p a tcp r1 r2 child).map (tcp, ·, e') := by
    intro a ha
    simp only [modifySyscallPair, hex, Bool.not_true, Bool.false_eq_true, if_false, if_neg hshm]
    rw [ha]
    simp only [bind, Except.bind, pure, Except.pure]
    cases storePair p a tcp r1 r2 child <;> rfl
  cases M with
  | singleArg arg filename =>
    obtain ⟨⟨redirected, e₁⟩, hr, h⟩ := bind_eq_ok.1 h
    obtain ⟨rfl, rfl, rfl⟩ : redirected = r1 ∧ none = r2 ∧ e₁ = e' := by
      simpa [pure, Except.pure] using h
    exact modifySyscallSingleArg_eq hex hshm arg filename hr
  | twoArgs => exact hpair h
  | secondAndFourthArgs => exact hpair h
  | firstAndThirdArgs => exact hpair h

/-- **When it returns**: both paths have been redirected and stored. -/
theorem Modify.run_ok_iff (hex : g.execMode = true) (hshm : tcp.childshm ≠ 0) :
    M.run g strcpyFromChild p tcp child e = .ok (tcp', child', e') ↔
      ∃ r1 r2, M.redirections g strcpyFromChild tcp child e = .ok (r1, r2, e') ∧
        storePair p M.pair tcp r1 r2 child = .ok child' ∧ tcp' = tcp := by
  constructor
  · intro h
    obtain ⟨r1, r2, e₁, hr⟩ : ∃ r1 r2 e₁, M.redirections g strcpyFromChild tcp child e = .ok (r1, r2, e₁) := by
      have hpair : ∀ {a : ArgPair}, modifySyscallPair a g strcpyFromChild p tcp child e = .ok (tcp', child', e') →
          ∃ r1 r2 e₁, redirectPair g strcpyFromChild a tcp child e = .ok (r1, r2, e₁) := by
        intro a ha
        obtain ⟨-, ha⟩ := ite_throw_eq_ok.1 ha
        rw [if_neg hshm] at ha
        obtain ⟨⟨r1, r2, e₁⟩, hr, -⟩ := bind_eq_ok.1 ha
        exact ⟨r1, r2, e₁, hr⟩
      cases M with
      | singleArg arg filename =>
        obtain ⟨-, h⟩ := ite_throw_eq_ok.1 h
        obtain ⟨⟨redirected, e₁⟩, hr, -⟩ := bind_eq_ok.1 h
        exact ⟨redirected, none, e₁, bind_eq_ok.2 ⟨_, hr, rfl⟩⟩
      | twoArgs => exact hpair h
      | secondAndFourthArgs => exact hpair h
      | firstAndThirdArgs => exact hpair h
    rw [Modify.run_eq hex hshm hr] at h
    cases hstore : storePair p M.pair tcp r1 r2 child with
    | error err => rw [hstore] at h; cases h
    | ok c =>
      rw [hstore] at h
      obtain ⟨rfl, rfl, rfl⟩ : tcp = tcp' ∧ c = child' ∧ e₁ = e' := by simpa [Except.map] using h
      exact ⟨r1, r2, hr, hstore, rfl⟩
  · rintro ⟨r1, r2, hr, hstore, rfl⟩
    rw [Modify.run_eq hex hshm hr, hstore]
    rfl

/-! ## What the kernel reads -/

/-- **The redirection reaches the kernel**: the word of a redirected argument points to the
redirected path, the word of every other argument is what it was. -/
structure Reaches (p : Personality) (a : ArgPair) (shm : Word) (r1 r2 : Option CString)
    (child child' : Child) : Prop where
  first : ∀ s, r1 = some s → child'.regs (argreg p a.arg1) = shm ∧ Holds child'.mem shm (s ++ [0])
  second : ∀ s, r2 = some s →
    child'.regs (argreg p a.arg2) = fileSlot shm r1 ∧ Holds child'.mem (fileSlot shm r1) (s ++ [0])
  other : ∀ i, (i = a.arg1 → r1 = none) → (i = a.arg2 → r2 = none) →
    child'.regs (argreg p i) = child.regs (argreg p i)

/-- It does when the registers set are those of the two arguments. -/
theorem Reaches.of_argreg {a : ArgPair} (h : storePair p a tcp r1 r2 child = .ok child')
    (h1 : a.reg1 p = argreg p a.arg1) (h2 : a.reg2 p = argreg p a.arg2)
    (hne : r2 ≠ none → a.arg1 ≠ a.arg2) : Reaches p a tcp.childshm r1 r2 child child' := by
  obtain ⟨hmem1, hmem2, hregs⟩ := storePair_spec h
  rw [h1, h2] at hregs
  have hinj := argreg_injective p
  refine ⟨fun s hs => ⟨?_, hmem1 s hs⟩, fun s hs => ⟨?_, hmem2 s hs⟩, fun i hi1 hi2 => ?_⟩
  · rw [hregs, Regs.point_of_ne fun h => hinj.ne (hne h), Regs.point_some hs]
  · rw [hregs, Regs.point_some hs]
  · rw [hregs, Regs.point_of_ne, Regs.point_of_ne]
    · exact fun h hi => h (hi1 (hinj hi))
    · exact fun h hi => h (hi2 (hinj hi))

/-- The second register is not the kernel's fourth argument in a native process. -/
theorem reaches_native_fourth {a : ArgPair} (ha : a = secondAndFourthArgs)
    (h : storePair .native a tcp r1 r2 child = .ok child') :
    Reaches .native a tcp.childshm r1 r2 child child' ↔
      (r2 ≠ none → child.regs .r10 = fileSlot tcp.childshm r1) := by
  subst ha
  obtain ⟨hmem1, hmem2, hregs⟩ := storePair_spec h
  replace hregs : child'.regs = (child.regs.point .rsi r1 tcp.childshm).point .rcx r2 _ := hregs
  -- `rcx` is not read by the kernel, so the fourth word is what it was
  have hkeep : ∀ i, i ≠ 1 → child'.regs (argreg .native i) = child.regs (argreg .native i) := by
    intro i hi
    have hrsi : argreg .native i ≠ .rsi := (argreg_injective .native).ne hi
    have hrcx : argreg .native i ≠ .rcx := by clear hi hrsi; revert i; decide
    rw [hregs, Regs.point_of_ne fun _ => hrcx, Regs.point_of_ne fun _ => hrsi]
  have hfirst : child'.regs .rsi = child.regs.point .rsi r1 tcp.childshm .rsi := by
    rw [hregs, Regs.point_of_ne fun _ => by decide]
  constructor
  · intro hreach hr2
    obtain ⟨s, hs⟩ := Option.ne_none_iff_exists'.1 hr2
    rw [← (hreach.second s hs).1]
    exact (hkeep 3 (by decide)).symm
  · intro hslot
    refine ⟨fun s hs => ⟨?_, hmem1 s hs⟩, fun s hs => ⟨?_, hmem2 s hs⟩, fun i hi1 hi2 => ?_⟩
    · exact hfirst.trans (Regs.point_some hs)
    · exact (hkeep 3 (by decide)).trans (hslot (by simp [hs]))
    · by_cases hi : i = 1
      · subst hi
        exact hfirst.trans (Regs.point_of_ne fun h => absurd (hi1 rfl) h)
      · exact hkeep i hi

/-- **The redirection reaches the kernel, except for the fourth argument of a native process**:
there it does only if `r10` holds the address already. The call returns when the paths fit into
the segment. -/
theorem reaches_iff (hex : g.execMode = true) (hshm : tcp.childshm ≠ 0)
    (hr : M.redirections g strcpyFromChild tcp child e = .ok (r1, r2, e')) :
    (roomFor r1 + roomFor r2 ≤ sharedPageSize →
      ∃ child', M.run g strcpyFromChild p tcp child e = .ok (tcp, child', e')) ∧
    ∀ tcp' child' e'', M.run g strcpyFromChild p tcp child e = .ok (tcp', child', e'') →
      (Reaches p M.pair tcp.childshm r1 r2 child child' ↔
        (M = .secondAndFourthArgs → p = .native → r2 ≠ none →
          child.regs .r10 = fileSlot tcp.childshm r1)) := by
  rw [Modify.run_eq hex hshm hr]
  refine ⟨fun hfit => ?_, fun tcp' child' e'' h => ?_⟩
  · obtain ⟨child', h⟩ : ∃ child', storePair p M.pair tcp r1 r2 child = .ok child' := storePair_total hfit
    exact ⟨child', by rw [h]; rfl⟩
  cases hstore : storePair p M.pair tcp r1 r2 child with
  | error err => rw [hstore] at h; cases h
  | ok c =>
    rw [hstore] at h
    obtain ⟨rfl, rfl, rfl⟩ : tcp = tcp' ∧ c = child' ∧ e' = e'' := by simpa [Except.map] using h
    cases M with
    | singleArg arg filename =>
      -- there is no second path
      obtain rfl : r2 = none := by
        obtain ⟨⟨redirected, e₁⟩, -, hr⟩ := bind_eq_ok.1 hr
        obtain ⟨-, h2, -⟩ : redirected = r1 ∧ none = r2 ∧ e₁ = e' := by simpa [pure, Except.pure] using hr
        exact h2.symm
      exact iff_of_true (Reaches.of_argreg hstore rfl rfl (by simp)) (by simp)
    | twoArgs =>
      refine iff_of_true (Reaches.of_argreg hstore ?_ ?_ fun _ => by decide) (by simp)
      · cases p <;> rfl
      · cases p <;> rfl
    | firstAndThirdArgs =>
      refine iff_of_true (Reaches.of_argreg hstore ?_ ?_ fun _ => by decide) (by simp)
      · cases p <;> rfl
      · cases p <;> rfl
    | secondAndFourthArgs =>
      cases p with
      | emu32 => exact iff_of_true (Reaches.of_argreg hstore rfl rfl fun _ => by decide) (by simp)
      | native => exact (reaches_native_fourth rfl hstore).trans (by simp)

/-- A process at `renameat(0, "/a", 0, "/b")`. -/
def renameatChild (p : Personality) : Child where
  regs := Regs.set (Regs.set (fun _ => 0) (argreg p secondAndFourthArgs.arg1) 0x1000)
    (argreg p secondAndFourthArgs.arg2) 0x2000
  mem := (Mem.store (fun _ => none) 0x1000 (str "/a" ++ [0])).store 0x2000 (str "/b" ++ [0])

def renameatTcb : ShmTcb where
  uArg i :=
    if i = secondAndFourthArgs.arg1 then 0x1000 else if i = secondAndFourthArgs.arg2 then 0x2000 else 0
  currentDir := str "/opt/cde-package/cde-root"
  childshm := 0x7000

theorem redirections_renameat (p : Personality) :
    Modify.secondAndFourthArgs.redirections optReplay (readString 8) renameatTcb (renameatChild p) {} =
      .ok (some (str "/opt/cde-package/cde-root/a"), some (str "/opt/cde-package/cde-root/b"), {}) := by
  cases p <;> rfl

theorem reaches_iff_emu32 :
    ∃ child', Modify.secondAndFourthArgs.run optReplay (readString 8) .emu32 renameatTcb
        (renameatChild .emu32) {} = .ok (renameatTcb, child', {}) ∧
      Reaches .emu32 secondAndFourthArgs 0x7000 (some (str "/opt/cde-package/cde-root/a"))
        (some (str "/opt/cde-package/cde-root/b")) (renameatChild .emu32) child' := by
  obtain ⟨htotal, hiff⟩ := reaches_iff (p := .emu32) rfl (by decide) (redirections_renameat .emu32)
  obtain ⟨child', h⟩ := htotal (by decide)
  exact ⟨child', h, (hiff _ _ _ h).2 (by simp)⟩

/-- In a native process the fourth word still points to `/b` of the host. -/
theorem reaches_native_renameat :
    ∃ child', Modify.secondAndFourthArgs.run optReplay (readString 8) .native renameatTcb
        (renameatChild .native) {} = .ok (renameatTcb, child', {}) ∧
      Holds child'.mem (child'.regs (argreg .native 3)) (str "/b" ++ [0]) ∧
      ¬ Reaches .native secondAndFourthArgs 0x7000 (some (str "/opt/cde-package/cde-root/a"))
        (some (str "/opt/cde-package/cde-root/b")) (renameatChild .native) child' := by
  refine ⟨_, rfl, ?_, fun h => ?_⟩
  · unfold Holds
    decide +kernel
  · have := (h.second _ rfl).1
    revert this
    decide +kernel

end Ptu
